import WhilePlus.Run.Expression

namespace WhilePlus

/-- What an operator makes of two integers. -/
inductive Operates : OperatorRef → Int64 → Int64 → Except Signal Value → Prop where
  | plus (a b : Int64) : Operates (.known .plus) a b (.ok (.int (.ofInt (a.toInt + b.toInt))))
  | minus (a b : Int64) : Operates (.known .minus) a b (.ok (.int (.ofInt (a.toInt - b.toInt))))
  | times (a b : Int64) : Operates (.known .times) a b (.ok (.int (.ofInt (a.toInt * b.toInt))))
  | divide (a b : Int64) (hzero : b.toInt ≠ 0) :
      Operates (.known .divide) a b (.ok (.int (.ofInt (a.toInt.tdiv b.toInt))))
  | divideByZero (a b : Int64) (hzero : b.toInt = 0) :
      Operates (.known .divide) a b (.error (.raised (some (.int 1))))
  | gt (a b : Int64) : Operates (.known .gt) a b (.ok (.bool (a.toInt > b.toInt)))
  | ge (a b : Int64) : Operates (.known .ge) a b (.ok (.bool (a.toInt ≥ b.toInt)))
  | lt (a b : Int64) : Operates (.known .lt) a b (.ok (.bool (a.toInt < b.toInt)))
  | le (a b : Int64) : Operates (.known .le) a b (.ok (.bool (a.toInt ≤ b.toInt)))
  | unknown (name : String) (a b : Int64) :
      Operates (.unknown name) a b (.error (.failed (.unknownOperator name)))

/-- What an expression evaluates to in a store. The operand on the left comes
    first, and only integers are operands. -/
inductive Evaluates (store : Store) : Expr → Except Signal Cell → Prop where
  | missing : Evaluates store .missing (.error (.failed .missingExpression))
  | bound {span : Span} {name : String} {cell : Cell} (hget : store.get? name = some cell) :
      Evaluates store (.var span name) (.ok cell)
  | unbound {span : Span} {name : String} (hget : store.get? name = none) :
      Evaluates store (.var span name) (.error (.raised (some (.int 0))))
  | int (span : Span) (n : Int64) : Evaluates store (.int span n) (.ok (some (.int n)))
  | bool (span : Span) (b : Bool) : Evaluates store (.bool span b) (.ok (some (.bool b)))
  | left {span : Span} {op : OperatorRef} {left right : Expr} {signal : Signal}
      (hleft : Evaluates store left (.error signal)) :
      Evaluates store (.binary span op left right) (.error signal)
  | right {span : Span} {op : OperatorRef} {left right : Expr} {cell : Cell} {signal : Signal}
      (hleft : Evaluates store left (.ok cell)) (hright : Evaluates store right (.error signal)) :
      Evaluates store (.binary span op left right) (.error signal)
  | mismatch {span : Span} {op : OperatorRef} {left right : Expr} {first second : Cell}
      (hleft : Evaluates store left (.ok first)) (hright : Evaluates store right (.ok second))
      (hkind : ¬ ∃ a b, first = some (.int a) ∧ second = some (.int b)) :
      Evaluates store (.binary span op left right) (.error (.raised (some (.int 2))))
  | operated {span : Span} {op : OperatorRef} {left right : Expr} {a b : Int64}
      {result : Except Signal Value}
      (hleft : Evaluates store left (.ok (some (.int a))))
      (hright : Evaluates store right (.ok (some (.int b)))) (hop : Operates op a b result) :
      Evaluates store (.binary span op left right) (result.map some)

/-- What a condition leads to in a store: only truth values decide. -/
inductive Tests (store : Store) (condition : Expr) : Except Signal Bool → Prop where
  | truth {b : Bool} (hvalue : Evaluates store condition (.ok (some (.bool b)))) :
      Tests store condition (.ok b)
  | mismatch {cell : Cell} (hvalue : Evaluates store condition (.ok cell))
      (hkind : ∀ b, cell ≠ some (.bool b)) :
      Tests store condition (.error (.raised (some (.int 2))))
  | signal {signal : Signal} (hsignal : Evaluates store condition (.error signal)) :
      Tests store condition (.error signal)

private theorem ofInt_tdiv_toInt (a b : Int64) : Int64.ofInt (a.toInt.tdiv b.toInt) = a / b := by
  rw [Int64.ofInt_eq_iff_bmod_eq_toInt, Int64.toInt_div]

/-- A word is zero exactly if its number is. -/
theorem toInt_eq_zero_iff {b : Int64} : b.toInt = 0 ↔ b = 0 :=
  Int64.toInt_inj (y := 0)

/-- Machine arithmetic is integer arithmetic, wrapped at the end. -/
theorem Operates.apply_eq {op : OperatorRef} {a b : Int64} {result : Except Signal Value}
    (h : Operates op a b result) : op.apply (some (.int a)) (some (.int b)) = result := by
  cases h with
  | plus | minus | times => simp [OperatorRef.apply, Operator.apply]
  | divide _ _ hne =>
    simp [OperatorRef.apply, Operator.apply, ofInt_tdiv_toInt, mt toInt_eq_zero_iff.mpr hne]
  | divideByZero _ _ hzero =>
    simp [OperatorRef.apply, Operator.apply, toInt_eq_zero_iff.mp hzero, raise, Value.divisionByZero]
  | gt | ge | lt | le =>
    simp [OperatorRef.apply, Operator.apply, Int64.lt_iff_toInt_lt, Int64.le_iff_toInt_le]
  | unknown => rfl

/-- What an operator yields for two integers is what the rules say, for unknown
    operators as well. -/
theorem operates_apply (op : OperatorRef) (a b : Int64) :
    Operates op a b (op.apply (some (.int a)) (some (.int b))) := by
  -- The rules are deterministic, so naming the one that applies is enough.
  have hrule : ∃ result, Operates op a b result := by
    cases op with
    | unknown name => exact ⟨_, .unknown name a b⟩
    | known op =>
      cases op with
      | plus => exact ⟨_, .plus a b⟩
      | minus => exact ⟨_, .minus a b⟩
      | times => exact ⟨_, .times a b⟩
      | divide =>
        by_cases hzero : b.toInt = 0
        · exact ⟨_, .divideByZero a b hzero⟩
        · exact ⟨_, .divide a b hzero⟩
      | gt => exact ⟨_, .gt a b⟩
      | ge => exact ⟨_, .ge a b⟩
      | lt => exact ⟨_, .lt a b⟩
      | le => exact ⟨_, .le a b⟩
  obtain ⟨result, hop⟩ := hrule
  rw [hop.apply_eq]
  exact hop

/-- Operands that are not two integers raise a mismatch, whatever the operator,
    and even if it does not exist. -/
theorem OperatorRef.apply_mismatch {op : OperatorRef} {first second : Cell}
    (hkind : ¬ ∃ a b, first = some (.int a) ∧ second = some (.int b)) :
    op.apply first second = raise .typeMismatch := by
  unfold OperatorRef.apply
  split
  · next a b => exact absurd ⟨a, b, rfl, rfl⟩ hkind
  · rfl

/-- What the rules give for an expression is what evaluation finds. -/
theorem Evaluates.eval_eq {store : Store} {e : Expr} {result : Except Signal Cell}
    (h : Evaluates store e result) : e.eval store = result := by
  induction h with
  | missing | int | bool => rfl
  | bound hget => simp only [Expr.eval, hget]
  | unbound hget => simp only [Expr.eval, hget, raise, Value.undefinedVariable]
  | left _ ih => simp only [Expr.eval, ih, bind, Except.bind]
  | right _ _ ihleft ihright => simp only [Expr.eval, ihleft, ihright, bind, Except.bind]
  | mismatch _ _ hkind ihleft ihright =>
    simp only [Expr.eval, ihleft, ihright, bind, Except.bind, OperatorRef.apply_mismatch hkind, raise,
      Value.typeMismatch]
  | @operated _ _ _ _ _ _ result _ _ hop ihleft ihright =>
    simp only [Expr.eval, ihleft, ihright, bind, Except.bind, hop.apply_eq]
    cases result <;> rfl

private theorem evaluates_eval (store : Store) (e : Expr) : Evaluates store e (e.eval store) := by
  -- By induction, some rule applies to every expression; which one depends on the operands.
  have hrule : ∃ result, Evaluates store e result := by
    induction e with
    | missing => exact ⟨_, .missing⟩
    | int span n => exact ⟨_, .int span n⟩
    | bool span b => exact ⟨_, .bool span b⟩
    | var span name =>
      cases hget : store.get? name with
      | some cell => exact ⟨_, .bound hget⟩
      | none => exact ⟨_, .unbound hget⟩
    | binary span op left right ihleft ihright =>
      obtain ⟨signal | first, hleft⟩ := ihleft
      · exact ⟨_, .left hleft⟩
      obtain ⟨signal | second, hright⟩ := ihright
      · exact ⟨_, .right hleft hright⟩
      by_cases hkind : ∃ a b, first = some (.int a) ∧ second = some (.int b)
      · obtain ⟨a, b, rfl, rfl⟩ := hkind
        exact ⟨_, .operated hleft hright (operates_apply op a b)⟩
      · exact ⟨_, .mismatch hleft hright hkind⟩
  obtain ⟨result, h⟩ := hrule
  rw [h.eval_eq]
  exact h

/-- Evaluation finds exactly what the rules give. -/
theorem evaluates_iff {store : Store} {e : Expr} {result : Except Signal Cell} :
    Evaluates store e result ↔ e.eval store = result :=
  ⟨Evaluates.eval_eq, fun h => h ▸ evaluates_eval store e⟩

/-- The rules for conditions give exactly what testing finds. -/
theorem tests_iff {store : Store} {condition : Expr} {result : Except Signal Bool} :
    Tests store condition result ↔ condition.test store = result := by
  constructor
  · intro h
    cases h with
    | truth hvalue => simp only [Expr.test, hvalue.eval_eq, bind, Except.bind]
    | mismatch hvalue hkind =>
      simp only [Expr.test, hvalue.eval_eq, bind, Except.bind]
      rfl
    | signal hsignal => simp only [Expr.test, hsignal.eval_eq, bind, Except.bind]
  · rintro rfl
    have heval := evaluates_eval store condition
    unfold Expr.test
    cases hvalue : condition.eval store with
    | error signal =>
      rw [hvalue] at heval
      exact .signal heval
    | ok cell =>
      rw [hvalue] at heval
      simp only [bind, Except.bind]
      split
      · exact .truth heval
      · next hkind => exact .mismatch heval fun b hb => hkind b hb

/-- The signals that expressions can give: faults of the language, which name a
    value, and trees that are no expressions. -/
inductive Signal.OfExpr : Signal → Prop where
  | raised (value : Value) : OfExpr (.raised (some value))
  | missing : OfExpr (.failed .missingExpression)
  | unknown (name : String) : OfExpr (.failed (.unknownOperator name))

private theorem Evaluates.signal {store : Store} {e : Expr} {result : Except Signal Cell}
    (h : Evaluates store e result) : ∀ signal, result = .error signal → signal.OfExpr := by
  induction h with
  | bound | int | bool => simp
  | missing =>
    rintro signal ⟨⟩
    exact .missing
  | unbound =>
    rintro signal ⟨⟩
    exact .raised _
  | left _ ih => exact ih
  | right _ _ _ ih => exact ih
  | mismatch =>
    rintro signal ⟨⟩
    exact .raised _
  | operated _ _ hop =>
    intro signal hsignal
    cases hop with
    | plus | minus | times | divide | gt | ge | lt | le => cases hsignal
    | divideByZero =>
      cases hsignal
      exact .raised _
    | unknown =>
      cases hsignal
      exact .unknown _

/-- Evaluation ends early only by a fault of the language or of the tree, never
    by a limit or a cancellation. -/
theorem Expr.eval_signal {store : Store} {e : Expr} {signal : Signal}
    (h : e.eval store = .error signal) : signal.OfExpr :=
  (evaluates_iff.mpr h).signal signal rfl

/-- A test ends early only by a fault of the language or of the tree. -/
theorem Expr.test_signal {store : Store} {condition : Expr} {signal : Signal}
    (h : condition.test store = .error signal) : signal.OfExpr := by
  cases tests_iff.mpr h with
  | mismatch => exact .raised _
  | signal hsignal => exact hsignal.signal signal rfl

end WhilePlus
