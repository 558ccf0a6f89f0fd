import WhilePlus.Proofs.Document.Grammar

namespace WhilePlus.Document

section Nodes

variable {d part : Document} {fs : List (String × Document)} {name type : String}
  {span : Option Span}

private theorem isNode_of_decoded (hfields : d.fields = .ok fs) (htype : nodeType fs = type)
    (hne : type ≠ "") (hspan : decodeSpan fs = .ok span) : IsNode type d fs span :=
  ⟨fields_eq_ok_iff.mp hfields, (nodeType_eq_iff hne).mp htype, decodeSpan_eq_ok_iff.mp hspan⟩

private theorem IsNode.nodeType_eq (h : IsNode type d fs span) (hne : type ≠ "") : nodeType fs = type :=
  (nodeType_eq_iff hne).mpr h.type

/-- The two names of a sequence. Either is a node of its own type, with the
    fields and the span that were read. -/
theorem exists_sequence_of_decoded (hfields : d.fields = .ok fs)
    (htype : nodeType fs = "Sequence" ∨ nodeType fs = "Seq") (hspan : decodeSpan fs = .ok span) :
    ∃ type ∈ ["Sequence", "Seq"], IsNode type d fs span := by
  rcases htype with htype | htype
  · exact ⟨_, by simp, isNode_of_decoded hfields htype (by decide) hspan⟩
  · exact ⟨_, by simp, isNode_of_decoded hfields htype (by decide) hspan⟩

private theorem IsNode.sequence_eq (h : IsNode type d fs span) (htype : type ∈ ["Sequence", "Seq"]) :
    nodeType fs = "Sequence" ∨ nodeType fs = "Seq" := by
  simp only [List.mem_cons, List.not_mem_nil, or_false] at htype
  rcases htype with rfl | rfl
  · exact .inl (h.nodeType_eq (by decide))
  · exact .inr (h.nodeType_eq (by decide))

/-- A node of some shape is accepted, as the tree with the span that it records.
    The bare tree has no span yet; a node without a span keeps it so. -/
theorem IsNode.decodeExpr_eq (h : IsNode type d fs span) {bare : Expr} (hshape : ExprShape fs bare)
    (hzero : bare.withSpan .zero = bare) : d.decodeExpr = .ok (bare.withSpan (span.getD .zero)) := by
  rw [decodeExpr_of_shape (fields_eq_ok_iff.mpr h.fields) hshape (decodeSpan_eq_ok_iff.mpr h.span)]
  cases span with
  | none => exact congrArg _ hzero.symm
  | some span => rfl

private theorem IsNode.decodeStmt_elim (h : IsNode type d fs span) {bare : Stmt}
    (hshape : StmtShape fs bare) :
    d.decodeStmt = .ok (span.elim bare (Stmt.withSpan · bare)) :=
  decodeStmt_of_shape (fields_eq_ok_iff.mpr h.fields) hshape (decodeSpan_eq_ok_iff.mpr h.span)

private theorem IsNode.decodeStmt_eq (h : IsNode type d fs span) {bare : Stmt} (hshape : StmtShape fs bare)
    (hzero : bare.withSpan .zero = bare) : d.decodeStmt = .ok (bare.withSpan (span.getD .zero)) := by
  rw [h.decodeStmt_elim hshape]
  cases span with
  | none => exact congrArg _ hzero.symm
  | some span => rfl

private theorem IsNode.sizeOf_field_lt (h : IsNode type d fs span) (hfield : fs.lookup name = some part) :
    sizeOf part < sizeOf d :=
  Nat.lt_trans (sizeOf_lookup_lt hfield) (sizeOf_fields_lt (fields_eq_ok_iff.mpr h.fields))

private theorem IsNode.sizeOf_item_lt (h : IsNode type d fs span) {items : List Document}
    (hfield : fs.lookup name = some (.list items)) (hpart : part ∈ items) :
    sizeOf part < sizeOf d := by
  refine Nat.lt_trans (Nat.lt_trans (List.sizeOf_lt_of_mem hpart) ?_) (h.sizeOf_field_lt hfield)
  simp

private theorem exists_lookup_of_decodeExpr {e : Expr} (h : (member fs name).decodeExpr = .ok e) :
    ∃ part, fs.lookup name = some part ∧ part.decodeExpr = .ok e := by
  refine exists_lookup_of_member (P := (·.decodeExpr = .ok e)) ?_ h
  intro hnull
  rw [decodeExpr] at hnull
  cases hnull

private theorem exists_lookup_of_decodeStmt {s : Stmt} (h : (member fs name).decodeStmt = .ok s) :
    ∃ part, fs.lookup name = some part ∧ part.decodeStmt = .ok s := by
  refine exists_lookup_of_member (P := (·.decodeStmt = .ok s)) ?_ h
  intro hnull
  rw [decodeStmt] at hnull
  cases hnull

/-- A statement that may be left out is either there or unset. -/
theorem exists_lookup_of_optionalStmt {s : Stmt} (h : OptionalStmt (member fs name) s) :
    (∃ part, fs.lookup name = some part ∧ part.decodeStmt = .ok s) ∨
      IsUnset fs name ∧ s = .skip .zero := by
  obtain ⟨hnull, hs⟩ | hread := h
  · refine .inr ⟨isUnset_iff.mpr ?_, hs⟩
    generalize member fs name = d at hnull
    cases d with
    | null => rfl
    | _ => cases hnull
  · exact .inl (exists_lookup_of_decodeStmt hread)

private theorem optionalStmt_of_unset (h : IsUnset fs name) :
    OptionalStmt (member fs name) (.skip .zero) := by
  rw [isUnset_iff.mp h]
  exact .inl ⟨rfl, rfl⟩

private theorem decodeExpr_member {e : Expr} (hfield : fs.lookup name = some part)
    (h : part.decodeExpr = .ok e) : (member fs name).decodeExpr = .ok e := by
  rwa [member_of_lookup hfield]

private theorem decodeStmt_member {s : Stmt} (hfield : fs.lookup name = some part)
    (h : part.decodeStmt = .ok s) : (member fs name).decodeStmt = .ok s := by
  rwa [member_of_lookup hfield]

end Nodes

/-- Every accepted document denotes the expression that is read from it. The
    recursion is on the document, of which each part is smaller. -/
theorem denotesExpr_of_decodeExpr {d : Document} {e : Expr} (h : d.decodeExpr = .ok e) :
    DenotesExpr d e := by
  obtain ⟨fs, bare, span, hfields, hshape, hspan, rfl⟩ := decodeExpr_shape h
  -- The tree in the goal has its span set or not; either way it is the one of the rule.
  cases hshape with
  | var htype hname =>
    have hnode := isNode_of_decoded hfields htype (by decide) hspan
    have hdenotes := DenotesExpr.var hnode (requiredText_eq_ok_iff.mp hname)
    cases span <;> exact hdenotes
  | @literal v htype hvalue =>
    have hnode := isNode_of_decoded hfields htype (by decide) hspan
    obtain ⟨payload, hfield, hvalue⟩ := exists_lookup_of_member (P := (IsLiteral · v)) nofun
      (decodeLiteral_eq_ok_iff.mp hvalue)
    cases v with
    | int n =>
      have hdenotes := DenotesExpr.intValue hnode hfield hvalue
      cases span <;> exact hdenotes
    | bool b =>
      have hdenotes := DenotesExpr.boolValue hnode hfield hvalue
      cases span <;> exact hdenotes
  | @int n htype hvalue =>
    have hnode := isNode_of_decoded hfields htype (by decide) hspan
    obtain ⟨payload, hfield, hvalue⟩ := exists_lookup_of_member (P := (IsInteger · n)) nofun
      (toInteger_eq_ok_iff.mp hvalue)
    have hdenotes := DenotesExpr.int hnode hfield hvalue
    cases span <;> exact hdenotes
  | bool htype hvalue =>
    have hnode := isNode_of_decoded hfields htype (by decide) hspan
    have hdenotes := DenotesExpr.bool hnode (lookup_of_member nofun (toBool_eq_ok_iff.mp hvalue))
    cases span <;> exact hdenotes
  | binary htype htext hop hleft hright =>
    have hnode := isNode_of_decoded hfields htype (by decide) hspan
    obtain ⟨first, hfirst, hleft⟩ := exists_lookup_of_decodeExpr hleft
    obtain ⟨second, hsecond, hright⟩ := exists_lookup_of_decodeExpr hright
    have hdenotes := DenotesExpr.binary hnode (requiredText_eq_ok_iff.mp htext) hop hfirst
      (denotesExpr_of_decodeExpr hleft) hsecond (denotesExpr_of_decodeExpr hright)
    cases span <;> exact hdenotes
termination_by sizeOf d
decreasing_by all_goals exact hnode.sizeOf_field_lt ‹_›

/-- A document that denotes an expression is read as that expression. -/
theorem DenotesExpr.decodeExpr_eq {d : Document} {e : Expr} (h : DenotesExpr d e) :
    d.decodeExpr = .ok e := by
  induction h with
  | var hnode hname =>
    exact hnode.decodeExpr_eq (.var (hnode.nodeType_eq (by decide))
      (requiredText_eq_ok_iff.mpr hname)) rfl
  | intValue hnode hfield hvalue =>
    rw [← decodeLiteral_eq_ok_iff, ← member_of_lookup hfield] at hvalue
    exact hnode.decodeExpr_eq (.literal (hnode.nodeType_eq (by decide)) hvalue) rfl
  | boolValue hnode hfield hvalue =>
    rw [← decodeLiteral_eq_ok_iff, ← member_of_lookup hfield] at hvalue
    exact hnode.decodeExpr_eq (.literal (hnode.nodeType_eq (by decide)) hvalue) rfl
  | int hnode hfield hvalue =>
    rw [← toInteger_eq_ok_iff, ← member_of_lookup hfield] at hvalue
    exact hnode.decodeExpr_eq (.int (hnode.nodeType_eq (by decide)) hvalue) rfl
  | bool hnode hfield =>
    have hvalue := toBool_eq_ok_iff.mpr (member_of_lookup hfield)
    exact hnode.decodeExpr_eq (.bool (hnode.nodeType_eq (by decide)) hvalue) rfl
  | binary hnode htext hop hfirst _ hsecond _ ihleft ihright =>
    exact hnode.decodeExpr_eq (.binary (hnode.nodeType_eq (by decide))
      (requiredText_eq_ok_iff.mpr htext) hop (decodeExpr_member hfirst ihleft)
      (decodeExpr_member hsecond ihright)) rfl

/-- The items of an accepted list denote the statements that are read from them,
    if this holds of each item alone. -/
theorem forall₂_of_decodeStmts {index : Nat} {items : List Document} {stmts : List Stmt}
    (hitem : ∀ item ∈ items, ∀ s, item.decodeStmt = .ok s → DenotesStmt item s)
    (h : decodeStmts index items = .ok stmts) : List.Forall₂ DenotesStmt items stmts := by
  induction items generalizing index stmts with
  | nil =>
    rw [decodeStmts] at h
    cases h
    exact .nil
  | cons item rest ih =>
    rw [decodeStmts] at h
    obtain ⟨s, hs, h⟩ := bind_eq_ok_iff.mp h
    obtain ⟨more, hmore, h⟩ := bind_eq_ok_iff.mp h
    cases h
    obtain ⟨hfirst, hrest⟩ := List.forall_mem_cons.mp hitem
    exact .cons (hfirst s (mapError_eq_ok_iff.mp hs)) (ih hrest hmore)

private theorem decodeStmts_of_forall₂ {items : List Document} {stmts : List Stmt}
    (hitem : ∀ item ∈ items, ∀ s, DenotesStmt item s → item.decodeStmt = .ok s)
    (h : List.Forall₂ DenotesStmt items stmts) (index : Nat) :
    decodeStmts index items = .ok stmts := by
  induction h generalizing index with
  | nil => rw [decodeStmts]
  | cons hs _ ih =>
    obtain ⟨hfirst, hrest⟩ := List.forall_mem_cons.mp hitem
    simp only [decodeStmts, hfirst _ hs, ih hrest (index + 1), mapError_ok, ok_bind]

/-- A statement is read only from a document that denotes it. -/
theorem denotesStmt_of_decodeStmt {d : Document} {s : Stmt} (h : d.decodeStmt = .ok s) :
    DenotesStmt d s := by
  obtain ⟨fs, bare, span, hfields, hshape, hspan, rfl⟩ := decodeStmt_shape h
  cases hshape with
  | assign htype hname hvalue =>
    have hnode := isNode_of_decoded hfields htype (by decide) hspan
    obtain ⟨payload, hfield, hvalue⟩ := exists_lookup_of_decodeExpr hvalue
    have hdenotes := DenotesStmt.assign hnode (requiredText_eq_ok_iff.mp hname) hfield
      (denotesExpr_of_decodeExpr hvalue)
    cases span <;> exact hdenotes
  | branch htype hcondition hyes hno =>
    have hnode := isNode_of_decoded hfields htype (by decide) hspan
    obtain ⟨test, htest, hcondition⟩ := exists_lookup_of_decodeExpr hcondition
    obtain ⟨first, hfirst, hyes⟩ := exists_lookup_of_decodeStmt hyes
    have hcondition := denotesExpr_of_decodeExpr hcondition
    have hyes := denotesStmt_of_decodeStmt hyes
    obtain ⟨second, hsecond, hno⟩ | ⟨helse, rfl⟩ := exists_lookup_of_optionalStmt hno
    · have hdenotes := DenotesStmt.branch hnode htest hcondition hfirst hyes hsecond
        (denotesStmt_of_decodeStmt hno)
      cases span <;> exact hdenotes
    · have hdenotes := DenotesStmt.when hnode htest hcondition hfirst hyes helse
      cases span <;> exact hdenotes
  | loop htype hcondition hbody =>
    have hnode := isNode_of_decoded hfields htype (by decide) hspan
    obtain ⟨test, htest, hcondition⟩ := exists_lookup_of_decodeExpr hcondition
    obtain ⟨inner, hinner, hbody⟩ := exists_lookup_of_decodeStmt hbody
    have hdenotes := DenotesStmt.loop hnode htest (denotesExpr_of_decodeExpr hcondition) hinner
      (denotesStmt_of_decodeStmt hbody)
    cases span <;> exact hdenotes
  | list htype hpresent hlist hitems =>
    obtain ⟨type, htype, hnode⟩ := exists_sequence_of_decoded hfields htype hspan
    have hfield := lookup_of_member (d := .list _) nofun hlist
    exact .list htype hnode hfield
      (forall₂_of_decodeStmts (fun item hmem s hs => denotesStmt_of_decodeStmt hs) hitems)
  | seq htype habsent hfirst hsecond =>
    obtain ⟨type, htype, hnode⟩ := exists_sequence_of_decoded hfields htype hspan
    obtain ⟨before, hbefore, hfirst⟩ := exists_lookup_of_decodeStmt hfirst
    obtain ⟨after, hafter, hsecond⟩ := exists_lookup_of_decodeStmt hsecond
    have hdenotes := DenotesStmt.seq htype hnode (by simpa using habsent) hbefore
      (denotesStmt_of_decodeStmt hfirst) hafter (denotesStmt_of_decodeStmt hsecond)
    cases span <;> exact hdenotes
  | print htype hlead hexpression =>
    have hnode := isNode_of_decoded hfields htype (by decide) hspan
    obtain ⟨shown, hfield, hexpression⟩ := exists_lookup_of_decodeExpr hexpression
    have hdenotes := DenotesStmt.print hnode (optionalText_eq_ok_iff.mp hlead) hfield
      (denotesExpr_of_decodeExpr hexpression)
    cases span <;> exact hdenotes
  | throw htype hexpression =>
    have hnode := isNode_of_decoded hfields htype (by decide) hspan
    obtain ⟨thrown, hfield, hexpression⟩ := exists_lookup_of_decodeExpr hexpression
    have hdenotes := DenotesStmt.throw hnode hfield (denotesExpr_of_decodeExpr hexpression)
    cases span <;> exact hdenotes
  | attempt htype hbody hbinding hhandler =>
    have hnode := isNode_of_decoded hfields htype (by decide) hspan
    obtain ⟨inner, hinner, hbody⟩ := exists_lookup_of_decodeStmt hbody
    have hbody := denotesStmt_of_decodeStmt hbody
    have hbinding := requiredText_eq_ok_iff.mp hbinding
    obtain ⟨rescue, hrescue, hhandler⟩ | ⟨hunset, rfl⟩ := exists_lookup_of_optionalStmt hhandler
    · have hdenotes := DenotesStmt.attempt hnode hinner hbody hbinding hrescue
        (denotesStmt_of_decodeStmt hhandler)
      cases span <;> exact hdenotes
    · have hdenotes := DenotesStmt.ignore hnode hinner hbody hbinding hunset
      cases span <;> exact hdenotes
  | skip htype =>
    have hdenotes := DenotesStmt.skip (isNode_of_decoded hfields htype (by decide) hspan)
    cases span <;> exact hdenotes
termination_by sizeOf d
decreasing_by
  all_goals first
    | exact hnode.sizeOf_field_lt ‹_›
    | exact hnode.sizeOf_item_lt ‹_› ‹_›

/-- A document that denotes a statement is read as that statement, whatever
    other fields it has. -/
theorem DenotesStmt.decodeStmt_eq {d : Document} {s : Stmt} (h : DenotesStmt d s) :
    d.decodeStmt = .ok s := by
  cases h with
  | assign hnode hname hfield hvalue =>
    exact hnode.decodeStmt_eq (.assign (hnode.nodeType_eq (by decide))
      (requiredText_eq_ok_iff.mpr hname) (decodeExpr_member hfield hvalue.decodeExpr_eq)) rfl
  | branch hnode htest hcondition hfirst hyes hsecond hno =>
    exact hnode.decodeStmt_eq (.branch (hnode.nodeType_eq (by decide))
      (decodeExpr_member htest hcondition.decodeExpr_eq)
      (decodeStmt_member hfirst hyes.decodeStmt_eq)
      (.inr (decodeStmt_member hsecond hno.decodeStmt_eq))) rfl
  | when hnode htest hcondition hfirst hyes helse =>
    exact hnode.decodeStmt_eq (.branch (hnode.nodeType_eq (by decide))
      (decodeExpr_member htest hcondition.decodeExpr_eq)
      (decodeStmt_member hfirst hyes.decodeStmt_eq) (optionalStmt_of_unset helse)) rfl
  | loop hnode htest hcondition hinner hbody =>
    exact hnode.decodeStmt_eq (.loop (hnode.nodeType_eq (by decide))
      (decodeExpr_member htest hcondition.decodeExpr_eq)
      (decodeStmt_member hinner hbody.decodeStmt_eq)) rfl
  | list htype hnode hfield hitems =>
    have hread := decodeStmts_of_forall₂ (fun item hitem s hs => hs.decodeStmt_eq) hitems 0
    exact hnode.decodeStmt_elim (.list (hnode.sequence_eq htype) (by rw [hfield]; rfl)
      (member_of_lookup hfield) hread)
  | seq htype hnode hfield hbefore hfirst hafter hsecond =>
    exact hnode.decodeStmt_eq (.seq (hnode.sequence_eq htype) (by rw [hfield]; rfl)
      (decodeStmt_member hbefore hfirst.decodeStmt_eq)
      (decodeStmt_member hafter hsecond.decodeStmt_eq)) rfl
  | print hnode hlead hfield hexpression =>
    exact hnode.decodeStmt_eq (.print (hnode.nodeType_eq (by decide))
      (optionalText_eq_ok_iff.mpr hlead) (decodeExpr_member hfield hexpression.decodeExpr_eq)) rfl
  | throw hnode hfield hexpression =>
    exact hnode.decodeStmt_eq (.throw (hnode.nodeType_eq (by decide))
      (decodeExpr_member hfield hexpression.decodeExpr_eq)) rfl
  | attempt hnode hinner hbody hbinding hrescue hhandler =>
    exact hnode.decodeStmt_eq (.attempt (hnode.nodeType_eq (by decide))
      (decodeStmt_member hinner hbody.decodeStmt_eq) (requiredText_eq_ok_iff.mpr hbinding)
      (.inr (decodeStmt_member hrescue hhandler.decodeStmt_eq))) rfl
  | ignore hnode hinner hbody hbinding hhandler =>
    exact hnode.decodeStmt_eq (.attempt (hnode.nodeType_eq (by decide))
      (decodeStmt_member hinner hbody.decodeStmt_eq) (requiredText_eq_ok_iff.mpr hbinding)
      (optionalStmt_of_unset hhandler)) rfl
  | skip hnode => exact hnode.decodeStmt_eq (.skip (hnode.nodeType_eq (by decide))) rfl
termination_by sizeOf d
decreasing_by
  all_goals
    subst_vars
    first
      | exact hnode.sizeOf_field_lt ‹_›
      | exact hnode.sizeOf_item_lt ‹_› ‹_›

section Node

variable {d : Document} {fs : List (String × Document)}

end Node

end WhilePlus.Document
