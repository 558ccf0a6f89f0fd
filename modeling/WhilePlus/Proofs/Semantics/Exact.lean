import Mathlib.Data.Int.ModEq
import WhilePlus.Proofs.Semantics.Expression

namespace WhilePlus

/-- A value whose number, if it is one, has no bounds. -/
inductive Quantity where
  | int (n : Int)
  | bool (b : Bool)
  deriving DecidableEq, Repr

/-- What a value stands for. -/
def Value.quantity : Value → Quantity
  | .int n => .int n.toInt
  | .bool b => .bool b

/-- Different values stand for different quantities. -/
theorem Value.quantity_injective : Function.Injective Value.quantity := by
  rintro (m | b) (n | c) h
  · exact congrArg Value.int (Int64.toInt_inj.mp (Quantity.int.inj h))
  · cases h
  · cases h
  · cases h
    rfl

namespace Quantity

/-- The value that is left of a quantity in 64 bits. -/
def wrap : Quantity → Value
  | .int n => .int (.ofInt n)
  | .bool b => .bool b

/-- The quantity is a truth value or a number in the range of a word. -/
def Fits : Quantity → Prop
  | .int n => -2 ^ 63 ≤ n ∧ n < 2 ^ 63
  | .bool _ => True

instance : DecidablePred Fits
  | .int _ => inferInstanceAs (Decidable (_ ∧ _))
  | .bool _ => inferInstanceAs (Decidable True)

private theorem quantity_wrap {q : Quantity} (h : q.Fits) : q.wrap.quantity = q := by
  cases q with
  | int n => exact congrArg int (Int64.toInt_ofInt_of_le h.1 h.2)
  | bool b => rfl

end Quantity

/-- What an operator makes of two numbers without bounds. A quotient is cut off
    toward zero. -/
def Operator.exact (op : Operator) (a b : Int) : Quantity :=
  match op with
  | .plus => .int (a + b)
  | .minus => .int (a - b)
  | .times => .int (a * b)
  | .divide => .int (a.tdiv b)
  | .gt => .bool (a > b)
  | .ge => .bool (a ≥ b)
  | .lt => .bool (a < b)
  | .le => .bool (a ≤ b)

/-- What an operator makes of two quantities, which must be numbers. -/
def OperatorRef.exact (op : OperatorRef) (first second : Option Quantity) : Except Signal Quantity :=
  match first, second with
  | some (.int a), some (.int b) =>
    match op with
    | .known op => if op = .divide ∧ b = 0 then .error (.raised (some (.int 1))) else .ok (op.exact a b)
    | .unknown name => .error (.failed (.unknownOperator name))
  | _, _ => .error (.raised (some (.int 2)))

namespace Expr

/-- What an expression comes to if no number has bounds. -/
def exact (store : Store) : Expr → Except Signal (Option Quantity)
  | missing => .error (.failed .missingExpression)
  | var _ name =>
    match store.get? name with
    | some cell => .ok (cell.map Value.quantity)
    | none => .error (.raised (some (.int 0)))
  | int _ n => .ok (some (.int n.toInt))
  | bool _ b => .ok (some (.bool b))
  | binary _ op left right => do
    let first ← left.exact store
    let second ← right.exact store
    let q ← op.exact first second
    .ok (some q)

/-- The expression itself and all those that it is made of. -/
def parts : Expr → List Expr
  | binary span op left right => binary span op left right :: (left.parts ++ right.parts)
  | e => [e]

/-- The expression is made of numbers, names that are bound to numbers, and
    operators without faults that yield numbers. -/
inductive IsPolynomial (store : Store) : Expr → Prop where
  | int (span : Span) (n : Int64) : IsPolynomial store (.int span n)
  | var {span : Span} {name : String} {n : Int64} (hget : store.get? name = some (some (.int n))) :
      IsPolynomial store (.var span name)
  | binary {span : Span} {op : Operator} {left right : Expr} (hop : op ∈ [.plus, .minus, .times])
      (hleft : IsPolynomial store left) (hright : IsPolynomial store right) :
      IsPolynomial store (.binary span (.known op) left right)

/-- Whatever number a part of the expression comes to, it is in the range of a
    word. -/
def StaysInRange (store : Store) (e : Expr) : Prop :=
  ∀ part ∈ e.parts, ∀ q, part.exact store = .ok (some q) → q.Fits

end Expr

section Operator

variable {op : Operator} {a b : Int64}

/-- The result of an operator is the exact one, wrapped. -/
theorem Operator.apply_eq (hfault : ¬ (op = .divide ∧ b = 0)) :
    op.apply a b = .ok (op.exact a.toInt b.toInt).wrap := by
  have hrule : Operates (.known op) a b (.ok (op.exact a.toInt b.toInt).wrap) := by
    cases op with
    | plus => exact .plus a b
    | minus => exact .minus a b
    | times => exact .times a b
    | divide =>
      have hzero : b.toInt ≠ 0 := fun h => hfault ⟨rfl, toInt_eq_zero_iff.mp h⟩
      exact .divide a b hzero
    | gt => exact .gt a b
    | ge => exact .ge a b
    | lt => exact .lt a b
    | le => exact .le a b
  exact hrule.apply_eq

/-- On numbers that are sums, differences or products, wrapping before and after
    makes no difference. -/
theorem Operator.apply_ofInt (hop : op ∈ [.plus, .minus, .times]) (a b : Int) :
    ∃ n, op.exact a b = .int n ∧ op.apply (.ofInt a) (.ofInt b) = .ok (.int (.ofInt n)) := by
  simp only [List.mem_cons, List.not_mem_nil, or_false] at hop
  obtain rfl | rfl | rfl := hop
  · exact ⟨a + b, rfl, by rw [Int64.ofInt_add]; rfl⟩
  · exact ⟨a - b, rfl, by rw [Int64.ofInt_sub]; rfl⟩
  · exact ⟨a * b, rfl, by rw [Int64.ofInt_mul]; rfl⟩

/-- The word that a number is wrapped to is the only one that is congruent to
    it. -/
theorem toInt_modEq_iff (w : Int64) (n : Int) : w.toInt ≡ n [ZMOD 2 ^ 64] ↔ w = .ofInt n := by
  have hwrap : (Int64.ofInt n).toInt = n.bmod (2 ^ 64) := Int64.toInt_ofInt
  constructor
  · intro h
    have hlow := w.le_toInt
    have hhigh := w.toInt_lt
    rw [← Int64.toInt_inj, hwrap]
    have hmod : w.toInt % 2 ^ 64 = n % 2 ^ 64 := h
    rw [Int.bmod_def]
    omega
  · rintro rfl
    rw [hwrap]
    exact Int.bmod_emod

/-- Of all quotients only one is not exact: the least word divided by minus one. -/
theorem toInt_div_eq_iff (a b : Int64) :
    (a / b).toInt = a.toInt.tdiv b.toInt ↔ ¬ (a = Int64.minValue ∧ b = -1) := by
  constructor
  · rintro hexact ⟨rfl, rfl⟩
    exact absurd hexact (by decide)
  · intro hother
    by_cases ha : a = Int64.minValue
    · exact Int64.toInt_div_of_ne_right a b fun hb => hother ⟨ha, hb⟩
    · exact Int64.toInt_div_of_ne_left a b ha

/-- On words the exact result has the same faults, and wrapped it is the result. -/
theorem OperatorRef.map_wrap_exact (op : OperatorRef) (first second : Cell) :
    (op.exact (first.map Value.quantity) (second.map Value.quantity)).map Quantity.wrap =
      op.apply first second := by
  by_cases hkind : ∃ a b, first = some (.int a) ∧ second = some (.int b)
  · obtain ⟨a, b, rfl, rfl⟩ := hkind
    cases op with
    | unknown name => rfl
    | known op =>
      by_cases hfault : op = .divide ∧ b = 0
      · obtain ⟨rfl, rfl⟩ := hfault
        rfl
      · have hexact : ¬ (op = .divide ∧ b.toInt = 0) := by rwa [toInt_eq_zero_iff]
        simp only [OperatorRef.exact, OperatorRef.apply, Option.map_some, Value.quantity,
          if_neg hexact, Operator.apply_eq hfault, Except.map]
  · rw [OperatorRef.apply_mismatch hkind]
    rcases first with _ | a | a <;> rcases second with _ | b | b <;> try rfl
    exact absurd ⟨a, b, rfl, rfl⟩ hkind

end Operator

namespace Expr

variable {store : Store} {e : Expr}

private theorem mem_parts_self (e : Expr) : e ∈ e.parts := by
  cases e <;> simp [parts]

private theorem StaysInRange.operands {span : Span} {op : OperatorRef} {left right : Expr}
    (h : (binary span op left right).StaysInRange store) :
    left.StaysInRange store ∧ right.StaysInRange store := by
  constructor
  · intro part hpart
    apply h
    simp [parts, hpart]
  · intro part hpart
    apply h
    simp [parts, hpart]

/-- As long as nothing leaves the range of a word, words and numbers without
    bounds give the same. -/
theorem StaysInRange.exact_eq (h : e.StaysInRange store) :
    e.exact store = (e.eval store).map (Option.map Value.quantity) := by
  induction e with
  | missing | int | bool => rfl
  | var span name =>
    simp only [exact, eval]
    cases store.get? name <;> rfl
  | binary span op left right ihleft ihright =>
    obtain ⟨hleft, hright⟩ := h.operands
    have hfirst := ihleft hleft
    have hsecond := ihright hright
    have hroot := h _ (mem_parts_self _)
    simp only [exact, eval] at hroot ⊢
    cases hevalLeft : left.eval store with
    | error signal =>
      rw [hfirst, hevalLeft]
      rfl
    | ok first =>
      cases hevalRight : right.eval store with
      | error signal =>
        rw [hfirst, hsecond, hevalLeft, hevalRight]
        rfl
      | ok second =>
        rw [hevalLeft] at hfirst
        rw [hevalRight] at hsecond
        simp only [hfirst, hsecond, Except.map, bind, Except.bind] at hroot ⊢
        have hwrap := op.map_wrap_exact first second
        rw [← hwrap]
        cases hexact : op.exact (first.map Value.quantity) (second.map Value.quantity) with
        | error signal => rfl
        | ok q =>
          rw [hexact] at hroot
          have hfits : q.Fits := hroot q rfl
          simp only [Except.map, Option.map_some, Quantity.quantity_wrap hfits]

private theorem IsPolynomial.exists_exact (h : e.IsPolynomial store) :
    ∃ n, e.exact store = .ok (some (.int n)) ∧ e.eval store = .ok (some (.int (.ofInt n))) := by
  induction h with
  | int span n => exact ⟨n.toInt, rfl, by rw [Int64.ofInt_toInt]; rfl⟩
  | @var span name n hget =>
    refine ⟨n.toInt, ?_, ?_⟩
    · simp only [exact, hget, Option.map_some, Value.quantity]
    · simp only [eval, hget, Int64.ofInt_toInt]
  | @binary span op left right hop _ _ ihleft ihright =>
    obtain ⟨a, hexactLeft, hevalLeft⟩ := ihleft
    obtain ⟨b, hexactRight, hevalRight⟩ := ihright
    obtain ⟨n, hexact, happly⟩ := Operator.apply_ofInt hop a b
    have hdivide : ¬ (op = .divide ∧ b = 0) := by
      rintro ⟨rfl, -⟩
      simp at hop
    refine ⟨n, ?_, ?_⟩
    · simp only [Expr.exact, hexactLeft, hexactRight, bind, Except.bind, OperatorRef.exact,
        if_neg hdivide, hexact]
    · simp only [eval, hevalLeft, hevalRight, bind, Except.bind, OperatorRef.apply, happly]

/-- Arithmetic on words agrees with exact arithmetic as far as it can. A
    polynomial of any size comes to the one word that is congruent to its exact
    number, whatever overflowed on the way. An expression of which no part
    leaves the range of a word has a value exactly if it has an exact one, and
    these agree. A quotient is exact unless the least word is divided by minus
    one, which gives the least word again. Every operator has a result on all
    words, except that a division by zero raises its fault. -/
theorem eval_agrees_with_exact (store : Store) :
    (∀ e : Expr, e.IsPolynomial store →
      ∃ n w, e.exact store = .ok (some (.int n)) ∧ e.eval store = .ok (some (.int w)) ∧
        ∀ w' : Int64, w'.toInt ≡ n [ZMOD 2 ^ 64] ↔ w' = w) ∧
    (∀ e : Expr, e.StaysInRange store →
      ∀ cell, e.eval store = .ok cell ↔ e.exact store = .ok (cell.map Value.quantity)) ∧
    (∀ a b : Int64, b ≠ 0 → ∃ q : Int64, Operator.divide.apply a b = .ok (.int q) ∧
      (q.toInt = a.toInt.tdiv b.toInt ↔ ¬ (a = Int64.minValue ∧ b = -1)) ∧
      (a = Int64.minValue ∧ b = -1 → q = Int64.minValue)) ∧
    ∀ (op : Operator) (a b : Int64), (∃ v, op.apply a b = .ok v) ∨
      op = .divide ∧ b = 0 ∧ op.apply a b = .error (.raised (some (.int 1))) := by
  refine ⟨fun e h => ?_, fun e h cell => ?_, fun a b hzero => ?_, fun op a b => ?_⟩
  · obtain ⟨n, hexact, heval⟩ := h.exists_exact
    exact ⟨n, .ofInt n, hexact, heval, fun w' => toInt_modEq_iff w' n⟩
  · rw [h.exact_eq]
    cases e.eval store with
    | error signal => simp [Except.map]
    | ok value =>
      have hinjective := Option.map_injective Value.quantity_injective
      simp [Except.map, hinjective.eq_iff]
  · refine ⟨a / b, if_neg hzero, toInt_div_eq_iff a b, ?_⟩
    rintro ⟨rfl, rfl⟩
    exact Int64.minValue_div_neg_one
  · by_cases hfault : op = .divide ∧ b = 0
    · obtain ⟨rfl, rfl⟩ := hfault
      exact .inr ⟨rfl, rfl, rfl⟩
    · exact .inl ⟨_, Operator.apply_eq hfault⟩

/-- The store that binds `x` to the greatest word. -/
def greatest : Store :=
  Store.empty.set "x" (some (.int Int64.maxValue))

/-- A sum that overflows, and a difference that brings it back. -/
def thereAndBack : Expr :=
  .binary .zero (.known .minus)
    (.binary .zero (.known .plus) (.var .zero "x") (.int .zero 1)) (.var .zero "x")

/-- A quotient within the range, compared with a number. -/
def halved : Expr :=
  .binary .zero (.known .gt)
    (.binary .zero (.known .divide) (.var .zero "x") (.int .zero (-2))) (.int .zero 0)

private theorem isPolynomial_thereAndBack : thereAndBack.IsPolynomial greatest := by
  have hx : (Expr.var .zero "x").IsPolynomial greatest := .var rfl
  exact .binary (by simp) (.binary (by simp) hx (.int .zero 1)) hx

private theorem staysInRange_halved : halved.StaysInRange greatest := by
  intro part hpart q hexact
  simp only [halved, parts, List.cons_append, List.nil_append, List.mem_cons, List.not_mem_nil,
    or_false] at hpart
  obtain rfl | rfl | rfl | rfl | rfl := hpart
  all_goals
    obtain rfl := Option.some.inj (Except.ok.inj hexact.symm)
    decide

/-- A sum that overflows and comes back is right, a comparison of halves is, and
    the sole quotient out of range is wrapped. -/
theorem eval_agrees_with_exact_overflow :
    (∃ n w, thereAndBack.exact greatest = .ok (some (.int n)) ∧
      thereAndBack.eval greatest = .ok (some (.int w)) ∧
      ∀ w' : Int64, w'.toInt ≡ n [ZMOD 2 ^ 64] ↔ w' = w) ∧
    halved.exact greatest = .ok (some (.bool false)) ∧
    Operator.divide.apply Int64.minValue (-1) = .ok (.int Int64.minValue) := by
  obtain ⟨hpolynomial, hrange, hdivide, -⟩ := eval_agrees_with_exact greatest
  have hhalved := hrange halved staysInRange_halved (some (.bool false))
  obtain ⟨q, hquotient, -, hleast⟩ := hdivide Int64.minValue (-1) (by decide)
  obtain rfl := hleast ⟨rfl, rfl⟩
  exact ⟨hpolynomial thereAndBack isPolynomial_thereAndBack, hhalved.mp (by decide), hquotient⟩

end Expr

end WhilePlus
