import WhilePlus.Proofs.Document.Shape
import WhilePlus.Proofs.Language.WellFormed

namespace WhilePlus

namespace Document

private theorem requiredText_ne_empty {fs : List (String × Document)} {name text : String}
    (h : requiredText fs name = .ok text) : text ≠ "" := by
  unfold requiredText at h
  split at h
  · split at h
    · cases h
    · next hempty =>
      cases h
      rintro rfl
      exact hempty rfl
  · cases h

/-- Every accepted expression is well formed. The recursion is on the document:
    each part of a node is smaller than the node. -/
theorem decodeExpr_wellFormed {d : Document} {e : Expr} (h : d.decodeExpr = .ok e) :
    e.WellFormed := by
  obtain ⟨fs, bare, span, hfields, hshape, _, rfl⟩ := decodeExpr_shape h
  have hbare : bare.WellFormed := by
    cases hshape with
    | var _ hname => exact requiredText_ne_empty hname
    | @literal v => cases v <;> trivial
    | int | bool => trivial
    | @binary _ op _ _ _ _ _ hleft hright =>
      refine ⟨List.mem_map_of_mem (Operator.mem_all op), ?_, ?_⟩
      · exact decodeExpr_wellFormed hleft
      · exact decodeExpr_wellFormed hright
  cases span with
  | none => exact hbare
  | some span => exact Expr.wellFormed_withSpan.mpr hbare
termination_by sizeOf d
decreasing_by all_goals exact sizeOf_member_lt hfields _

/-- Every statement of an accepted list was read from one of its items. -/
theorem exists_item_of_decodeStmts {index : Nat} {items : List Document} {stmts : List Stmt}
    (h : decodeStmts index items = .ok stmts) :
    ∀ s ∈ stmts, ∃ item ∈ items, item.decodeStmt = .ok s := by
  induction items generalizing index stmts with
  | nil =>
    rw [decodeStmts] at h
    cases h
    simp
  | cons item rest ih =>
    rw [decodeStmts] at h
    obtain ⟨first, hfirst, h⟩ := bind_eq_ok_iff.mp h
    obtain ⟨more, hmore, h⟩ := bind_eq_ok_iff.mp h
    cases h
    intro s hs
    rcases List.mem_cons.mp hs with rfl | hs
    · exact ⟨item, List.mem_cons_self, mapError_eq_ok_iff.mp hfirst⟩
    · obtain ⟨other, hother, hdecode⟩ := ih hmore s hs
      exact ⟨other, List.mem_cons_of_mem _ hother, hdecode⟩

/-- Every accepted statement is well formed. What is left out where that is
    allowed is read as `skip`, never as a missing statement. -/
theorem decodeStmt_wellFormed {d : Document} {s : Stmt} (h : d.decodeStmt = .ok s) :
    s.WellFormed := by
  obtain ⟨fs, bare, span, hfields, hshape, _, rfl⟩ := decodeStmt_shape h
  have hoptional (name : String) {s : Stmt} (hs : OptionalStmt (member fs name) s) :
      s.WellFormed := by
    obtain ⟨_, rfl⟩ | hs := hs
    · trivial
    · exact decodeStmt_wellFormed hs
  have hbare : bare.WellFormed := by
    cases hshape with
    | assign _ hname hvalue => exact ⟨requiredText_ne_empty hname, decodeExpr_wellFormed hvalue⟩
    | branch _ hcondition hyes hno =>
      exact ⟨decodeExpr_wellFormed hcondition, decodeStmt_wellFormed hyes, hoptional _ hno⟩
    | loop _ hcondition hbody =>
      exact ⟨decodeExpr_wellFormed hcondition, decodeStmt_wellFormed hbody⟩
    | @list items stmts _ _ hlist hitems =>
      refine Stmt.wellFormed_ofList fun s hs => ?_
      obtain ⟨item, hitem, hdecode⟩ := exists_item_of_decodeStmts hitems s hs
      exact decodeStmt_wellFormed hdecode
    | seq _ _ hfirst hsecond =>
      exact ⟨decodeStmt_wellFormed hfirst, decodeStmt_wellFormed hsecond⟩
    | print _ _ hexpression => exact decodeExpr_wellFormed hexpression
    | throw _ hexpression => exact decodeExpr_wellFormed hexpression
    | attempt _ hbody hbinding hhandler =>
      exact ⟨decodeStmt_wellFormed hbody, requiredText_ne_empty hbinding, hoptional _ hhandler⟩
    | skip => trivial
  cases span with
  | none => exact hbare
  | some span => exact Stmt.wellFormed_withSpan.mpr hbare
termination_by sizeOf d
decreasing_by
  all_goals first
    | exact sizeOf_member_lt hfields _
    | (have hlt := sizeOf_member_lt hfields "statements"
       rw [hlist, Document.list.sizeOf_spec] at hlt
       have := List.sizeOf_lt_of_mem hitem
       omega)

/-- Whatever a document says, only whole nodes are read from it. -/
theorem decodeNode_wellFormed {d : Document} {n : Node} (h : d.decodeNode = .ok n) :
    n.WellFormed := by
  unfold decodeNode at h
  split at h
  · cases h
  · split at h
    · obtain ⟨e, he, rfl⟩ := map_eq_ok_iff.mp h
      exact decodeExpr_wellFormed he
    · obtain ⟨s, hs, rfl⟩ := map_eq_ok_iff.mp h
      exact decodeStmt_wellFormed hs

end Document

end WhilePlus
