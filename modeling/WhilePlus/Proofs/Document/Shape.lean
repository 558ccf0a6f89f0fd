import WhilePlus.Document.Decode
import WhilePlus.Proofs.Except

namespace WhilePlus

namespace Document

/-- Naming the field of a fault changes no result. -/
theorem atField_eq_ok_iff {α : Type} {name : String} {x : Except Fault α} {a : α} :
    atField name x = .ok a ↔ x = .ok a := by
  cases x <;> simp [atField]

private theorem located_eq_ok {α : Type} {withSpan : Span → α → α} {fs : List (String × Document)}
    {node : Except DecodeError α} {a : α} (h : located withSpan fs node = .ok a) :
    ∃ bare span, node = .ok bare ∧ decodeSpan fs = .ok span ∧ a = span.elim bare (withSpan · bare) := by
  obtain ⟨bare, hnode, h⟩ := bind_eq_ok_iff.mp h
  obtain ⟨span, hspan, h⟩ := bind_eq_ok_iff.mp h
  cases h
  exact ⟨bare, span, hnode, hspan, rfl⟩

private theorem located_ok {α : Type} {withSpan : Span → α → α} {fs : List (String × Document)} {bare : α}
    {span : Option Span} (hspan : decodeSpan fs = .ok span) :
    located withSpan fs (.ok bare) = .ok (span.elim bare (withSpan · bare)) := by
  simp only [located, hspan, ok_bind]

/-- The fields of an expression, and the expression that they make up, its span
    aside. -/
inductive ExprShape (fs : List (String × Document)) : Expr → Prop where
  | var {name : String} (htype : nodeType fs = "Var") (hname : requiredText fs "name" = .ok name) :
      ExprShape fs (.var .zero name)
  | literal {v : Value} (htype : nodeType fs = "Val")
      (hvalue : (member fs "value").decodeLiteral = .ok v) : ExprShape fs (literalExpr v)
  | int {n : Int64} (htype : nodeType fs = "IntLiteral")
      (hvalue : (member fs "value").toInteger = .ok n) : ExprShape fs (.int .zero n)
  | bool {b : Bool} (htype : nodeType fs = "BoolLiteral")
      (hvalue : (member fs "value").toBool = .ok b) : ExprShape fs (.bool .zero b)
  | binary {text : String} {op : Operator} {left right : Expr} (htype : nodeType fs = "Op")
      (htext : requiredText fs "operator" = .ok text) (hop : Operator.parse? text = some op)
      (hleft : (member fs "left").decodeExpr = .ok left)
      (hright : (member fs "right").decodeExpr = .ok right) :
      ExprShape fs (.binary .zero (.known op) left right)

/-- An accepted expression is a node of one of these shapes, with the span that
    it records. -/
theorem decodeExpr_shape {d : Document} {e : Expr} (h : d.decodeExpr = .ok e) :
    ∃ fs bare span, d.fields = .ok fs ∧ ExprShape fs bare ∧ decodeSpan fs = .ok span ∧
      e = span.elim bare (Expr.withSpan · bare) := by
  rw [decodeExpr] at h
  split at h
  · cases h
  next fs hfields =>
    obtain ⟨bare, span, hnode, hspan, he⟩ := located_eq_ok h
    refine ⟨fs, bare, span, hfields, ?_, hspan, he⟩
    split at hnode
    · next htype =>
      obtain ⟨name, hname, hnode⟩ := bind_eq_ok_iff.mp hnode
      cases hnode
      exact .var htype hname
    · next htype =>
      obtain ⟨v, hvalue, hnode⟩ := bind_eq_ok_iff.mp hnode
      cases hnode
      exact .literal htype (atField_eq_ok_iff.mp hvalue)
    · next htype =>
      obtain ⟨n, hvalue, hnode⟩ := bind_eq_ok_iff.mp hnode
      cases hnode
      exact .int htype (atField_eq_ok_iff.mp hvalue)
    · next htype =>
      obtain ⟨b, hvalue, hnode⟩ := bind_eq_ok_iff.mp hnode
      cases hnode
      exact .bool htype (atField_eq_ok_iff.mp hvalue)
    · next htype =>
      obtain ⟨text, htext, hnode⟩ := bind_eq_ok_iff.mp hnode
      split at hnode
      · cases hnode
      next op hop =>
        obtain ⟨left, hleft, hnode⟩ := bind_eq_ok_iff.mp hnode
        obtain ⟨right, hright, hnode⟩ := bind_eq_ok_iff.mp hnode
        cases hnode
        exact .binary htype htext hop (mapError_eq_ok_iff.mp hleft) (mapError_eq_ok_iff.mp hright)
    · cases hnode
    · cases hnode

/-- Every node of one of these shapes is accepted. The span is the last thing
    that is read, so only its success is asked for beside the shape. -/
theorem decodeExpr_of_shape {d : Document} {fs : List (String × Document)} {bare : Expr}
    {span : Option Span} (hfields : d.fields = .ok fs) (hshape : ExprShape fs bare)
    (hspan : decodeSpan fs = .ok span) :
    d.decodeExpr = .ok (span.elim bare (Expr.withSpan · bare)) := by
  rw [decodeExpr]
  split
  · next h => simp [hfields] at h
  next found h =>
    obtain rfl : fs = found := by simpa [hfields] using h
    rw [← located_ok hspan]
    congr 1
    cases hshape with
    | var htype hname => simp only [htype, hname, ok_bind]
    | literal htype hvalue | int htype hvalue | bool htype hvalue =>
      simp only [htype, hvalue, atField, ok_bind]
    | binary htype htext hop hleft hright =>
      simp only [htype, htext, hop, hleft, hright, ok_bind, mapError_ok]

/-- What a field for a statement that may be left out is read as. -/
def OptionalStmt (d : Document) (s : Stmt) : Prop :=
  d.isNull = true ∧ s = .skip .zero ∨ d.decodeStmt = .ok s

/-- The fields of a statement, and the statement that they make up, its span
    aside. -/
inductive StmtShape (fs : List (String × Document)) : Stmt → Prop where
  | assign {name : String} {value : Expr} (htype : nodeType fs = "Assign")
      (hname : requiredText fs "name" = .ok name)
      (hvalue : (member fs "value").decodeExpr = .ok value) : StmtShape fs (.assign .zero name value)
  | branch {condition : Expr} {yes no : Stmt} (htype : nodeType fs = "If")
      (hcondition : (member fs "condition").decodeExpr = .ok condition)
      (hyes : (member fs "then").decodeStmt = .ok yes) (hno : OptionalStmt (member fs "else") no) :
      StmtShape fs (.branch .zero condition yes no)
  | loop {condition : Expr} {body : Stmt} (htype : nodeType fs = "While")
      (hcondition : (member fs "condition").decodeExpr = .ok condition)
      (hbody : (member fs "body").decodeStmt = .ok body) : StmtShape fs (.loop .zero condition body)
  | list {items : List Document} {stmts : List Stmt}
      (htype : nodeType fs = "Sequence" ∨ nodeType fs = "Seq")
      (hpresent : (fs.lookup "statements").isSome = true)
      (hlist : member fs "statements" = .list items)
      (hitems : decodeStmts 0 items = .ok stmts) : StmtShape fs (.ofList stmts)
  | seq {first second : Stmt} (htype : nodeType fs = "Sequence" ∨ nodeType fs = "Seq")
      (habsent : (fs.lookup "statements").isSome = false)
      (hfirst : (member fs "first").decodeStmt = .ok first)
      (hsecond : (member fs "second").decodeStmt = .ok second) :
      StmtShape fs (.seq .zero first second)
  | print {lead : String} {expression : Expr} (htype : nodeType fs = "Print")
      (hlead : optionalText fs "prefix" = .ok lead)
      (hexpression : (member fs "expression").decodeExpr = .ok expression) :
      StmtShape fs (.print .zero lead expression)
  | throw {expression : Expr} (htype : nodeType fs = "Throw")
      (hexpression : (member fs "expression").decodeExpr = .ok expression) :
      StmtShape fs (.throw .zero expression)
  | attempt {body handler : Stmt} {binding : String} (htype : nodeType fs = "Try")
      (hbody : (member fs "body").decodeStmt = .ok body)
      (hbinding : requiredText fs "binding" = .ok binding)
      (hhandler : OptionalStmt (member fs "handler") handler) :
      StmtShape fs (.attempt .zero body binding handler)
  | skip (htype : nodeType fs = "Skip") : StmtShape fs (.skip .zero)

private theorem optionalStmt_of_ite {d : Document} {s : Stmt} {f : DecodeError → DecodeError}
    (h : (if d.isNull then .ok (Stmt.skip .zero) else d.decodeStmt.mapError f) = .ok s) :
    OptionalStmt d s := by
  split at h
  · next hnull =>
    cases h
    exact .inl ⟨hnull, rfl⟩
  · exact .inr (mapError_eq_ok_iff.mp h)

private theorem OptionalStmt.ite_eq {d : Document} {s : Stmt} (h : OptionalStmt d s)
    (f : DecodeError → DecodeError) :
    (if d.isNull then .ok (Stmt.skip .zero) else d.decodeStmt.mapError f) = .ok s := by
  obtain ⟨hnull, rfl⟩ | hs := h
  · rw [if_pos hnull]
  · cases d with
    | null =>
      rw [decodeStmt] at hs
      cases hs
    | _ =>
      rw [hs]
      rfl

/-- An accepted statement is a node of one of these shapes, with the span that
    it records. -/
theorem decodeStmt_shape {d : Document} {s : Stmt} (h : d.decodeStmt = .ok s) :
    ∃ fs bare span, d.fields = .ok fs ∧ StmtShape fs bare ∧ decodeSpan fs = .ok span ∧
      s = span.elim bare (Stmt.withSpan · bare) := by
  rw [decodeStmt] at h
  split at h
  · cases h
  next fs hfields =>
    obtain ⟨bare, span, hnode, hspan, hs⟩ := located_eq_ok h
    refine ⟨fs, bare, span, hfields, ?_, hspan, hs⟩
    split at hnode
    · next htype =>
      obtain ⟨name, hname, hnode⟩ := bind_eq_ok_iff.mp hnode
      obtain ⟨value, hvalue, hnode⟩ := bind_eq_ok_iff.mp hnode
      cases hnode
      exact .assign htype hname (mapError_eq_ok_iff.mp hvalue)
    · next htype =>
      obtain ⟨condition, hcondition, hnode⟩ := bind_eq_ok_iff.mp hnode
      obtain ⟨yes, hyes, hnode⟩ := bind_eq_ok_iff.mp hnode
      obtain ⟨no, hno, hnode⟩ := bind_eq_ok_iff.mp hnode
      cases hnode
      exact .branch htype (mapError_eq_ok_iff.mp hcondition) (mapError_eq_ok_iff.mp hyes)
        (optionalStmt_of_ite hno)
    · next htype =>
      obtain ⟨condition, hcondition, hnode⟩ := bind_eq_ok_iff.mp hnode
      obtain ⟨body, hbody, hnode⟩ := bind_eq_ok_iff.mp hnode
      cases hnode
      exact .loop htype (mapError_eq_ok_iff.mp hcondition) (mapError_eq_ok_iff.mp hbody)
    -- A sequence has two names, and each of them two forms.
    case h_4 htype | h_5 htype =>
      split at hnode
      · next hpresent =>
        split at hnode
        · next items hlist =>
          obtain ⟨stmts, hitems, hnode⟩ := bind_eq_ok_iff.mp hnode
          cases hnode
          exact .list (by simp [htype]) hpresent hlist (mapError_eq_ok_iff.mp hitems)
        · cases hnode
      · next habsent =>
        obtain ⟨first, hfirst, hnode⟩ := bind_eq_ok_iff.mp hnode
        obtain ⟨second, hsecond, hnode⟩ := bind_eq_ok_iff.mp hnode
        cases hnode
        exact .seq (by simp [htype]) (Bool.eq_false_iff.mpr habsent) (mapError_eq_ok_iff.mp hfirst)
          (mapError_eq_ok_iff.mp hsecond)
    · next htype =>
      obtain ⟨lead, hlead, hnode⟩ := bind_eq_ok_iff.mp hnode
      obtain ⟨expression, hexpression, hnode⟩ := bind_eq_ok_iff.mp hnode
      cases hnode
      exact .print htype hlead (mapError_eq_ok_iff.mp hexpression)
    · next htype =>
      obtain ⟨expression, hexpression, hnode⟩ := bind_eq_ok_iff.mp hnode
      cases hnode
      exact .throw htype (mapError_eq_ok_iff.mp hexpression)
    · next htype =>
      obtain ⟨body, hbody, hnode⟩ := bind_eq_ok_iff.mp hnode
      obtain ⟨binding, hbinding, hnode⟩ := bind_eq_ok_iff.mp hnode
      obtain ⟨handler, hhandler, hnode⟩ := bind_eq_ok_iff.mp hnode
      cases hnode
      exact .attempt htype (mapError_eq_ok_iff.mp hbody) hbinding (optionalStmt_of_ite hhandler)
    · next htype =>
      cases hnode
      exact .skip htype
    · cases hnode
    · cases hnode

/-- Every statement node of one of these shapes is accepted. As with
    expressions, the shape and a span that can be read are all that is needed. -/
theorem decodeStmt_of_shape {d : Document} {fs : List (String × Document)} {bare : Stmt}
    {span : Option Span} (hfields : d.fields = .ok fs) (hshape : StmtShape fs bare)
    (hspan : decodeSpan fs = .ok span) :
    d.decodeStmt = .ok (span.elim bare (Stmt.withSpan · bare)) := by
  rw [decodeStmt]
  split
  · next h => simp [hfields] at h
  next found h =>
    obtain rfl : fs = found := by simpa [hfields] using h
    rw [← located_ok hspan]
    congr 1
    cases hshape with
    | assign htype hname hvalue => simp only [htype, hname, hvalue, ok_bind, mapError_ok]
    | branch htype hcondition hyes hno =>
      simp only [htype, hcondition, hyes, hno.ite_eq, ok_bind, mapError_ok]
    | loop htype hcondition hbody => simp only [htype, hcondition, hbody, ok_bind, mapError_ok]
    | list htype hpresent hlist hitems =>
      rcases htype with htype | htype
      all_goals
        simp only [htype, hpresent, if_true]
        split
        · next h =>
          rw [hlist] at h
          cases h
          simp only [hitems, ok_bind, mapError_ok]
        · next h => exact absurd hlist (h _)
    | seq htype habsent hfirst hsecond =>
      rcases htype with htype | htype
      all_goals
        simp only [htype, habsent, Bool.false_eq_true, if_false, hfirst, hsecond, ok_bind,
          mapError_ok]
    | print htype hlead hexpression => simp only [htype, hlead, hexpression, ok_bind, mapError_ok]
    | throw htype hexpression => simp only [htype, hexpression, ok_bind, mapError_ok]
    | attempt htype hbody hbinding hhandler =>
      simp only [htype, hbody, hbinding, hhandler.ite_eq, ok_bind, mapError_ok]
    | skip htype => simp only [htype]

end Document

end WhilePlus
