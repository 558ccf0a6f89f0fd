import WhilePlus.Proofs.Semantics.Exact

namespace WhilePlus

/-- An instruction for a machine that keeps its operands on a stack. -/
inductive Instruction where
  /-- Stands where an expression is missing. -/
  | absent
  | load (name : String)
  | push (v : Value)
  | operate (op : OperatorRef)
  deriving DecidableEq, Repr

/-- The nodes of an expression in post-order: both operands stand before their
    operator. -/
def Expr.postorder : Expr → List Instruction
  | .missing => [.absent]
  | .var _ name => [.load name]
  | .int _ n => [.push (.int n)]
  | .bool _ b => [.push (.bool b)]
  | .binary _ op left right => left.postorder ++ right.postorder ++ [.operate op]

namespace Instruction

section

variable (store : Store)

/-- What an instruction makes of the stack, with the second operand on top, or
    its fault. An operator looks at the kinds of its operands first, and without
    two of them it cannot be executed at all. -/
def step : Instruction → List Cell → Option (Except Signal (List Cell))
  | absent, _ => some (.error (.failed .missingExpression))
  | load name, stack =>
    match store.get? name with
    | some cell => some (.ok (cell :: stack))
    | none => some (.error (.raised (some (.int 0))))
  | push v, stack => some (.ok (some v :: stack))
  | operate op, some (.int b) :: some (.int a) :: stack =>
    match op with
    | .known op =>
      if op = .divide ∧ b = 0 then some (.error (.raised (some (.int 1))))
      else some (.ok (some (op.exact a.toInt b.toInt).wrap :: stack))
    | .unknown name => some (.error (.failed (.unknownOperator name)))
  | operate _, _ :: _ :: _ => some (.error (.raised (some (.int 2))))
  | operate _, _ => none

/-- Executes instructions one after the other, up to the first that faults. -/
def execute : List Instruction → List Cell → Option (Except Signal (List Cell))
  | [], stack => some (.ok stack)
  | i :: code, stack => do
    match ← i.step store stack with
    | .ok stack => execute code stack
    | .error signal => some (.error signal)

end

variable {store : Store} {code before after : List Instruction} {stack : List Cell} {signal : Signal}

/-- Code that stands behind other code is executed if that does not fault. -/
theorem execute_append (before after : List Instruction) (stack : List Cell) :
    execute store (before ++ after) stack = (do
      match ← execute store before stack with
      | .ok mid => execute store after mid
      | .error signal => some (.error signal)) := by
  induction before generalizing stack with
  | nil => rfl
  | cons i before ih =>
    simp only [List.cons_append, execute]
    cases i.step store stack with
    | none => rfl
    | some result =>
      cases result with
      | error signal => rfl
      | ok next => exact ih next

/-- The machine stops with a fault exactly if one instruction faults and none
    before it does. -/
theorem execute_eq_error_iff :
    execute store code stack = some (.error signal) ↔
      ∃ before i after mid, code = before ++ i :: after ∧
        execute store before stack = some (.ok mid) ∧ i.step store mid = some (.error signal) := by
  constructor
  · intro h
    induction code generalizing stack with
    | nil => simp [execute] at h
    | cons i code ih =>
      rw [execute] at h
      cases hstep : i.step store stack with
      | none => simp [hstep] at h
      | some result =>
        rw [hstep] at h
        cases result with
        | error other =>
          obtain rfl : other = signal := by simpa using h
          exact ⟨[], i, code, stack, rfl, rfl, hstep⟩
        | ok next =>
          obtain ⟨before, j, after, mid, rfl, hbefore, hfault⟩ := ih h
          have hfirst : execute store (i :: before) stack = some (.ok mid) := by
            rw [execute, hstep]
            exact hbefore
          exact ⟨i :: before, j, after, mid, rfl, hfirst, hfault⟩
  · rintro ⟨before, i, after, mid, rfl, hbefore, hfault⟩
    rw [execute_append, hbefore]
    simp [execute, hfault]

/-- An operator that finds its operands on the stack replaces them by its
    result. -/
theorem step_operate (op : OperatorRef) (first second : Cell) (stack : List Cell) :
    (operate op).step store (second :: first :: stack) =
      some ((op.apply first second).map fun v => some v :: stack) := by
  by_cases hkind : ∃ a b, first = some (.int a) ∧ second = some (.int b)
  · obtain ⟨a, b, rfl, rfl⟩ := hkind
    cases op with
    | unknown name => rfl
    | known op =>
      by_cases hfault : op = .divide ∧ b = 0
      · obtain ⟨rfl, rfl⟩ := hfault
        rfl
      · simp only [step, if_neg hfault, OperatorRef.apply, Operator.apply_eq hfault, Except.map]
  · rw [OperatorRef.apply_mismatch hkind]
    rcases first with _ | a | a <;> rcases second with _ | b | b <;> try rfl
    exact absurd ⟨a, b, rfl, rfl⟩ hkind

/-- The code of an expression leaves its value on the stack that it finds, or
    stops with its fault. -/
theorem execute_postorder (store : Store) (e : Expr) (stack : List Cell) :
    execute store e.postorder stack = some ((e.eval store).map fun cell => cell :: stack) := by
  induction e generalizing stack with
  | missing | int | bool => rfl
  | var span name =>
    simp only [Expr.postorder, execute, step, Expr.eval]
    cases store.get? name <;> rfl
  | binary span op left right ihleft ihright =>
    simp only [Expr.postorder, execute_append, ihleft, Expr.eval]
    cases left.eval store with
    | error signal => rfl
    | ok first =>
      simp only [Except.map, bind, Except.bind, Option.bind_some, ihright]
      cases right.eval store with
      | error signal => rfl
      | ok second =>
        simp only [Except.map, Option.bind_some, execute, step_operate, bind]
        cases op.apply first second <;> rfl

/-- An instruction raises one of three values. -/
theorem step_raised {i : Instruction} {value : Cell}
    (h : i.step store stack = some (.error (.raised value))) :
    value = some (.int 0) ∨ value = some (.int 1) ∨ value = some (.int 2) := by
  unfold step at h
  split at h
  · simp at h
  · split at h
    · simp at h
    · simpa using Or.inl h.symm
  · simp at h
  · split at h
    · split at h
      · simp at h
        simp [← h]
      · simp at h
    · simp at h
  · simp at h
    simp [← h]
  · simp at h

end Instruction

namespace Expr

variable {store : Store} {span : Span} {op : OperatorRef} {left right : Expr} {first second : Cell}
  {signal : Signal}

private theorem eval_binary_left (h : left.eval store = .error signal) :
    (binary span op left right).eval store = .error signal :=
  (Evaluates.left (evaluates_iff.mpr h)).eval_eq

private theorem eval_binary_right (hleft : left.eval store = .ok first)
    (hright : right.eval store = .error signal) :
    (binary span op left right).eval store = .error signal :=
  (Evaluates.right (evaluates_iff.mpr hleft) (evaluates_iff.mpr hright)).eval_eq

private theorem eval_binary_eq_ok {cell : Cell} (h : (binary span op left right).eval store = .ok cell) :
    ∃ first second v, left.eval store = .ok first ∧ right.eval store = .ok second ∧
      op.apply first second = .ok v ∧ cell = some v := by
  cases hleft : left.eval store with
  | error signal =>
    rw [eval_binary_left hleft] at h
    cases h
  | ok first =>
    cases hright : right.eval store with
    | error signal =>
      rw [eval_binary_right hleft hright] at h
      cases h
    | ok second =>
      simp only [eval, hleft, hright, bind, Except.bind] at h
      cases happly : op.apply first second with
      | error signal => simp [happly] at h
      | ok v =>
        rw [happly] at h
        exact ⟨first, second, v, rfl, rfl, happly, (Except.ok.inj h).symm⟩

/-- Comparisons yield truth values, and the other operators numbers. -/
theorem kind_of_eval_binary {cell : Cell} (h : (binary span op left right).eval store = .ok cell) :
    op.isArithmetic = true ∧ (∃ n, cell = some (.int n)) ∨
      op.isComparison = true ∧ ∃ b, cell = some (.bool b) := by
  obtain ⟨first, second, v, -, -, happly, rfl⟩ := eval_binary_eq_ok h
  by_cases hkind : ∃ a b, first = some (.int a) ∧ second = some (.int b)
  · obtain ⟨a, b, rfl, rfl⟩ := hkind
    have hop := operates_apply op a b
    rw [happly] at hop
    cases hop with
    | plus | minus | times | divide => exact .inl ⟨rfl, _, rfl⟩
    | gt | ge | lt | le => exact .inr ⟨rfl, _, rfl⟩
  · rw [OperatorRef.apply_mismatch hkind] at happly
    cases happly

/-- Of several faults the first in post-order decides. Evaluation finds what the
    machine finds that executes the code of the expression, which always has the
    operands that it needs: a value, or the fault of the first instruction that
    faults. What is raised is one of three numbers. Comparisons yield truth
    values and the other operators numbers, and no operator is applied once one
    of its operands has faulted. -/
theorem eval_stops_at_first_fault (store : Store) (e : Expr) :
    Instruction.execute store e.postorder [] = some ((e.eval store).map fun cell => [cell]) ∧
    (∀ signal, e.eval store = .error signal ↔
      ∃ before i after stack, e.postorder = before ++ i :: after ∧
        Instruction.execute store before [] = some (.ok stack) ∧
        i.step store stack = some (.error signal)) ∧
    (∀ value, e.eval store = .error (.raised value) →
      value = some (.int 0) ∨ value = some (.int 1) ∨ value = some (.int 2)) ∧
    ∀ span op left right, e = .binary span op left right →
      (∀ cell, e.eval store = .ok cell →
        op.isArithmetic = true ∧ (∃ n, cell = some (.int n)) ∨
          op.isComparison = true ∧ ∃ b, cell = some (.bool b)) ∧
      (∀ signal, left.eval store = .error signal → e.eval store = .error signal) ∧
      ∀ first signal, left.eval store = .ok first → right.eval store = .error signal →
        e.eval store = .error signal := by
  have hexecute := Instruction.execute_postorder store e []
  have hfault (signal : Signal) : e.eval store = .error signal ↔
      Instruction.execute store e.postorder [] = some (.error signal) := by
    rw [hexecute]
    cases e.eval store <;> simp [Except.map]
  refine ⟨hexecute, fun signal => ?_, fun value h => ?_, ?_⟩
  · rw [hfault, Instruction.execute_eq_error_iff]
  · rw [hfault, Instruction.execute_eq_error_iff] at h
    obtain ⟨before, i, after, stack, -, -, hstep⟩ := h
    exact Instruction.step_raised hstep
  · rintro span op left right rfl
    exact ⟨fun cell => kind_of_eval_binary, fun signal => eval_binary_left,
      fun first signal => eval_binary_right⟩

end Expr

end WhilePlus
