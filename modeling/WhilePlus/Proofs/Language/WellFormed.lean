import WhilePlus.Language.Tree

namespace WhilePlus

/-- An expression without missing parts, unknown operators and empty names. -/
def Expr.WellFormed : Expr → Prop
  | .missing => False
  | .var _ name => name ≠ ""
  | .int _ _ | .bool _ _ => True
  | .binary _ op left right => op ∈ Operator.all.map .known ∧ left.WellFormed ∧ right.WellFormed

/-- A statement without missing parts, unknown operators and empty names. -/
def Stmt.WellFormed : Stmt → Prop
  | .missing => False
  | .skip _ => True
  | .assign _ name value => name ≠ "" ∧ value.WellFormed
  | .branch _ condition yes no => condition.WellFormed ∧ yes.WellFormed ∧ no.WellFormed
  | .loop _ condition body => condition.WellFormed ∧ body.WellFormed
  | .seq _ first second => first.WellFormed ∧ second.WellFormed
  | .print _ _ expression => expression.WellFormed
  | .throw _ expression => expression.WellFormed
  | .attempt _ body binding handler => body.WellFormed ∧ binding ≠ "" ∧ handler.WellFormed

/-- A node without missing parts, unknown operators and empty names. -/
def Node.WellFormed : Node → Prop
  | .expr e => e.WellFormed
  | .stmt s => s.WellFormed

/-- The list of all operators has every operator. -/
theorem Operator.mem_all (op : Operator) : op ∈ Operator.all := by
  cases op <;> decide

/-- Whether an expression is whole does not depend on its span. -/
theorem Expr.wellFormed_withSpan {span : Span} {e : Expr} :
    (e.withSpan span).WellFormed ↔ e.WellFormed := by
  cases e <;> rfl

/-- Whether a statement is whole does not depend on its span. -/
theorem Stmt.wellFormed_withSpan {span : Span} {s : Stmt} :
    (s.withSpan span).WellFormed ↔ s.WellFormed := by
  cases s <;> rfl

/-- A list of whole statements is a whole statement, also if the list is empty. -/
theorem Stmt.wellFormed_ofList {stmts : List Stmt} (h : ∀ s ∈ stmts, s.WellFormed) :
    (Stmt.ofList stmts).WellFormed := by
  fun_induction Stmt.ofList stmts with
  | case1 => trivial
  | case2 s => exact h s List.mem_cons_self
  | case3 s rest _ ih =>
    exact ⟨h s List.mem_cons_self, ih fun s hs => h s (List.mem_cons_of_mem _ hs)⟩

end WhilePlus
