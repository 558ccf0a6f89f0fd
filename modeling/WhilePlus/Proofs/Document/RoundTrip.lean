import WhilePlus.Document.Encode
import WhilePlus.Proofs.Document.WellFormed
import WhilePlus.Proofs.Number.Digits

namespace WhilePlus

/-- A node without any span. -/
def Node.stripSpans : Node → Node
  | .expr e => .expr e.stripSpans
  | .stmt s => .stmt s.stripSpans

private theorem Operator.parse?_name (op : Operator) : Operator.parse? op.name = some op := by
  cases op <;> decide

namespace Document

private theorem toInteger_ofInt64 (n : Int64) : (ofInt64 n).toInteger = .ok n := by
  simp only [ofInt64, toInteger, Number.parseInt_toString]

private theorem requiredText_of_member {fs : List (String × Document)} {name text : String}
    (hmember : member fs name = .text text) (htext : text ≠ "") :
    requiredText fs name = .ok text := by
  simp [requiredText, hmember, htext]

/-- A record of the shape of a node that records no span is read as the bare
    tree. -/
theorem decodeExpr_record {fs : List (String × Document)} {e : Expr} (hshape : ExprShape fs e)
    (hspan : decodeSpan fs = .ok none) : (record fs).decodeExpr = .ok e :=
  decodeExpr_of_shape rfl hshape hspan

private theorem decodeStmt_record {fs : List (String × Document)} {s : Stmt} (hshape : StmtShape fs s)
    (hspan : decodeSpan fs = .ok none) : (record fs).decodeStmt = .ok s :=
  decodeStmt_of_shape rfl hshape hspan

end Document

open Document

private theorem Expr.decodeExpr_toDocument {e : Expr} (h : e.WellFormed) :
    e.toDocument.decodeExpr = .ok e.stripSpans := by
  induction e with
  | missing => exact h.elim
  | var span name => exact decodeExpr_record (.var rfl (requiredText_of_member rfl h)) rfl
  | int span n => exact decodeExpr_record (.int rfl (toInteger_ofInt64 n)) rfl
  | bool span b => exact decodeExpr_record (.bool rfl rfl) rfl
  | binary span op left right ihleft ihright =>
    obtain ⟨hop, hleft, hright⟩ := h
    obtain ⟨op, _, rfl⟩ := List.mem_map.mp hop
    have hname : op.name ≠ "" := by cases op <;> decide
    exact decodeExpr_record (.binary rfl (requiredText_of_member rfl hname) op.parse?_name
      (ihleft hleft) (ihright hright)) rfl

private theorem Stmt.decodeStmt_toDocument {s : Stmt} (h : s.WellFormed) :
    s.toDocument.decodeStmt = .ok s.stripSpans := by
  induction s with
  | missing => exact h.elim
  | skip span => exact decodeStmt_record (.skip rfl) rfl
  | assign span name value =>
    obtain ⟨hname, hvalue⟩ := h
    exact decodeStmt_record (.assign rfl (requiredText_of_member rfl hname)
      (Expr.decodeExpr_toDocument hvalue)) rfl
  | branch span condition yes no ihyes ihno =>
    obtain ⟨hcondition, hyes, hno⟩ := h
    exact decodeStmt_record (.branch rfl (Expr.decodeExpr_toDocument hcondition) (ihyes hyes)
      (.inr (ihno hno))) rfl
  | loop span condition body ihbody =>
    obtain ⟨hcondition, hbody⟩ := h
    exact decodeStmt_record (.loop rfl (Expr.decodeExpr_toDocument hcondition) (ihbody hbody)) rfl
  | seq span first second ihfirst ihsecond =>
    obtain ⟨hfirst, hsecond⟩ := h
    exact decodeStmt_record (.seq (.inl rfl) rfl (ihfirst hfirst) (ihsecond hsecond)) rfl
  | print span lead expression =>
    exact decodeStmt_record (.print rfl rfl (Expr.decodeExpr_toDocument h)) rfl
  | throw span expression =>
    exact decodeStmt_record (.throw rfl (Expr.decodeExpr_toDocument h)) rfl
  | attempt span body binding handler ihbody ihhandler =>
    obtain ⟨hbody, hbinding, hhandler⟩ := h
    exact decodeStmt_record (.attempt rfl (ihbody hbody) (requiredText_of_member rfl hbinding)
      (.inr (ihhandler hhandler))) rfl

/-- Spans are not written. -/
theorem Expr.toDocument_stripSpans (e : Expr) : e.stripSpans.toDocument = e.toDocument := by
  induction e with
  | missing | var | int | bool => rfl
  | binary span op left right ihleft ihright =>
    simp only [Expr.stripSpans, Expr.toDocument, ihleft, ihright]

private theorem Stmt.toDocument_stripSpans (s : Stmt) : s.stripSpans.toDocument = s.toDocument := by
  induction s with
  | missing | skip => rfl
  | assign | print | throw =>
    simp only [Stmt.stripSpans, Stmt.toDocument, Expr.toDocument_stripSpans]
  | branch span condition yes no ihyes ihno =>
    simp only [Stmt.stripSpans, Stmt.toDocument, Expr.toDocument_stripSpans, ihyes, ihno]
  | loop span condition body ihbody =>
    simp only [Stmt.stripSpans, Stmt.toDocument, Expr.toDocument_stripSpans, ihbody]
  | seq span first second ihfirst ihsecond =>
    simp only [Stmt.stripSpans, Stmt.toDocument, ihfirst, ihsecond]
  | attempt span body binding handler ihbody ihhandler =>
    simp only [Stmt.stripSpans, Stmt.toDocument, ihbody, ihhandler]

/-- The type of a written node tells its sort. -/
theorem Document.decodeNode_expr {e : Expr} (h : e.WellFormed) :
    e.toDocument.decodeNode = .expr <$> e.toDocument.decodeExpr := by
  cases e with
  | missing => exact h.elim
  | var | int | bool | binary => rfl

private theorem Document.decodeNode_stmt {s : Stmt} (h : s.WellFormed) :
    s.toDocument.decodeNode = .stmt <$> s.toDocument.decodeStmt := by
  cases s with
  | missing => exact h.elim
  | skip | assign | branch | loop | seq | print | throw | attempt => rfl

private theorem Node.decodeNode_toDocument {n : Node} (h : n.WellFormed) :
    n.toDocument.decodeNode = .ok n.stripSpans := by
  cases n with
  | expr e => exact (decodeNode_expr h).trans (map_eq_ok_iff.mpr ⟨_, Expr.decodeExpr_toDocument h, rfl⟩)
  | stmt s => exact (decodeNode_stmt h).trans (map_eq_ok_iff.mpr ⟨_, Stmt.decodeStmt_toDocument h, rfl⟩)

private theorem Node.toDocument_stripSpans (n : Node) : n.stripSpans.toDocument = n.toDocument := by
  cases n with
  | expr e => exact e.toDocument_stripSpans
  | stmt s => exact s.toDocument_stripSpans

/-- Reading undoes writing: the document of a whole node is accepted, and read
    as that node without its spans. So what is read from any document is written
    in the same way after it was written and read once more. -/
theorem Document.decodeNode_undoes_toDocument :
    (∀ n : Node, n.WellFormed → n.toDocument.decodeNode = .ok n.stripSpans) ∧
      ∀ (d : Document) (n : Node), d.decodeNode = .ok n →
        ∃ again, n.toDocument.decodeNode = .ok again ∧ again.toDocument = n.toDocument := by
  refine ⟨fun n h => Node.decodeNode_toDocument h, ?_⟩
  intro d n hread
  have hwhole := decodeNode_wellFormed hread
  exact ⟨n.stripSpans, Node.decodeNode_toDocument hwhole, n.toDocument_stripSpans⟩

/-- A loop with a span that guards a division of the least number by the
    greatest. -/
def Node.guardedExtremes : Node :=
  .stmt (.loop ⟨⟨1, 2⟩, ⟨3, 4⟩⟩
    (.binary .zero (.known .le) (.int .zero Int64.minValue) (.int .zero Int64.maxValue))
    (.attempt ⟨⟨2, 1⟩, ⟨2, 9⟩⟩ (.print .zero "é\n" (.var .zero "x")) "e" (.skip .zero)))

/-- The least and the greatest integer and the lead with its newline come back,
    and the spans are lost. -/
theorem Document.decodeNode_undoes_toDocument_extremes :
    Node.guardedExtremes.WellFormed ∧ Node.guardedExtremes.stripSpans ≠ .guardedExtremes ∧
      Node.guardedExtremes.toDocument.decodeNode = .ok Node.guardedExtremes.stripSpans := by
  have hwhole : Node.guardedExtremes.WellFormed := by
    simp [Node.guardedExtremes, Node.WellFormed, Stmt.WellFormed, Expr.WellFormed, Operator.all]
  refine ⟨hwhole, by decide, ?_⟩
  exact Document.decodeNode_undoes_toDocument.1 _ hwhole

end WhilePlus
