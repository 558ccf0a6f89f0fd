import WhilePlus.Proofs.Document.Places
import WhilePlus.Proofs.Document.Spelling

namespace WhilePlus

/-- The error as it is seen from further out. -/
def DecodeError.below (p : Place) (e : DecodeError) : DecodeError :=
  { e with place := p ++ e.place }

namespace Document

section Reading

/-- Whether something can be read, and the error if it cannot. -/
def verdict {α : Type} (x : Except DecodeError α) : Except DecodeError Unit :=
  (fun _ => ()) <$> x

/-- Looks at a document that stands where something is expected. -/
def Expected.read : Expected → Document → Except DecodeError Unit
  | .node sort, d => verdict (sort.decode d)
  | .text, d =>
    match d.text? with
    | some s => if s.isEmpty then Fault.emptyText.here else .ok ()
    | none => Fault.emptyText.here
  | .lead, d => if d.isNull || d.text?.isSome then .ok () else (Fault.notText d.typeName).here
  | .literal, d => verdict (d.decodeLiteral.mapError (⟨[], ·⟩))
  | .integer, d => verdict (d.toInteger.mapError (⟨[], ·⟩))
  | .bool, d => verdict (d.toBool.mapError (⟨[], ·⟩))
  | .operator, d =>
    match d.text? with
    | some s =>
      if s.isEmpty then Fault.emptyText.here
      else if (Operator.parse? s).isSome then .ok () else (Fault.unknownOperator s).here
    | none => Fault.emptyText.here
  | .list, d =>
    match d with
    | .list _ => .ok ()
    | other => (Fault.notList other.typeName).here
  | .mapping, d => verdict (d.fields.mapError (⟨[], ·⟩))

/-- Reads one part of a node. -/
def Part.read (part : Part) : Except DecodeError Unit :=
  (part.expected.read part.found).mapError (·.below part.place)

/-- Something is read part after part: it can be read if all the parts can, and
    its error is that of the first part that cannot. -/
def ReadsParts {α : Type} (x : Except DecodeError α) (ps : List Part) : Prop :=
  verdict x = ps.forM Part.read

variable {α β : Type} {x : Except DecodeError α} {ps qs : List Part} {fs : List (String × Document)}
  {name : String}

private theorem forM_append (ps qs : List Part) :
    (ps ++ qs).forM Part.read = ps.forM Part.read >>= fun _ => qs.forM Part.read := by
  induction ps with
  | nil => rfl
  | cons part rest ih =>
    change (part.read >>= fun _ => (rest ++ qs).forM Part.read) = _
    rw [ih]
    change _ = (part.read >>= fun _ => rest.forM Part.read) >>= _
    cases part.read <;> rfl

private theorem readsParts_ok (a : α) : ReadsParts (.ok a : Except DecodeError α) [] := rfl

private theorem ReadsParts.bind {f : α → Except DecodeError β} (h : ReadsParts x ps)
    (hf : ∀ a, ReadsParts (f a) qs) : ReadsParts (x >>= f) (ps ++ qs) := by
  unfold ReadsParts at *
  rw [forM_append, ← h]
  cases x with
  | error e => rfl
  | ok a => exact hf a

private theorem readsParts_single {part : Part} (h : verdict x = part.read) : ReadsParts x [part] := by
  unfold ReadsParts
  rw [h]
  change part.read = part.read >>= fun _ => .ok ()
  cases part.read <;> rfl

/-- What has no further effect on success can be left out: turning a result that
    was read into something else reads no more parts. -/
theorem ReadsParts.map {f : α → β} (h : ReadsParts x ps) : ReadsParts (x >>= fun a => .ok (f a)) ps := by
  have hbind : ReadsParts (x >>= fun a => .ok (f a)) (ps ++ []) := h.bind fun a => readsParts_ok (f a)
  rwa [List.append_nil] at hbind

private theorem readsParts_requiredText : ReadsParts (requiredText fs name) [.field fs name .text] := by
  refine readsParts_single ?_
  rw [requiredText_eq, Part.read, Part.field, Expected.read]
  dsimp only
  cases (member fs name).text? with
  | none => rfl
  | some s =>
    dsimp only
    cases s.isEmpty <;> rfl

private theorem readsParts_optionalText : ReadsParts (optionalText fs name) [.field fs name .lead] := by
  refine readsParts_single ?_
  rw [optionalText_eq, Part.read, Part.field, Expected.read]
  dsimp only
  cases (member fs name).isNull with
  | true => rfl
  | false => cases (member fs name).text? <;> rfl

private theorem readsParts_atField {y : Except Fault α} {expected : Expected}
    (h : expected.read (member fs name) = verdict (y.mapError (⟨[], ·⟩))) :
    ReadsParts (atField name y) [.field fs name expected] := by
  refine readsParts_single ?_
  rw [Part.read, Part.field, h]
  cases y <;> rfl

private theorem readsParts_expr :
    ReadsParts ((member fs name).decodeExpr.mapError (·.under (.field name)))
      [.field fs name (.node .expr)] := by
  refine readsParts_single ?_
  rw [Part.read, Part.field, Expected.read, NodeSort.decode]
  cases (member fs name).decodeExpr <;> rfl

private theorem readsParts_stmt :
    ReadsParts ((member fs name).decodeStmt.mapError (·.under (.field name)))
      [.field fs name (.node .stmt)] := by
  refine readsParts_single ?_
  rw [Part.read, Part.field, Expected.read, NodeSort.decode]
  cases (member fs name).decodeStmt <;> rfl

private theorem readsParts_optional (s : Stmt) :
    ReadsParts (if (member fs name).isNull then .ok s
      else (member fs name).decodeStmt.mapError (·.under (.field name))) (optionalParts fs name) := by
  rw [optionalParts]
  split
  · exact readsParts_ok s
  · exact readsParts_stmt

private theorem readsParts_operator {f : Operator → Except DecodeError α}
    (hf : ∀ op, ReadsParts (f op) ps) :
    ReadsParts (do
      let text ← requiredText fs "operator"
      match Operator.parse? text with
      | none => .error ⟨[.field "operator"], .unknownOperator text⟩
      | some op => f op) (.field fs "operator" .operator :: ps) := by
  unfold ReadsParts
  change _ = (Part.read _ >>= fun _ => ps.forM Part.read)
  rw [requiredText_eq, Part.read, Part.field, Expected.read]
  dsimp only
  cases (member fs "operator").text? with
  | none => rfl
  | some s =>
    dsimp only
    cases s.isEmpty with
    | true => rfl
    | false =>
      simp only [Bool.false_eq_true, if_false, ok_bind]
      cases Operator.parse? s with
      | none => rfl
      | some op => exact hf op

private theorem readsParts_items (index : Nat) (items : List Document) :
    ReadsParts ((decodeStmts index items).mapError (·.under (.field "statements")))
      (itemParts index items) := by
  induction items generalizing index with
  | nil =>
    rw [decodeStmts]
    exact readsParts_ok []
  | cons item rest ih =>
    unfold ReadsParts at *
    change _ = (Part.read _ >>= fun _ => (itemParts (index + 1) rest).forM Part.read)
    rw [← ih (index + 1), decodeStmts, Part.read, Expected.read, NodeSort.decode]
    dsimp only
    cases item.decodeStmt with
    | error e => rfl
    | ok s => cases decodeStmts (index + 1) rest <;> rfl

private theorem isNull_iff {d : Document} : d.isNull = true ↔ d = .null := by
  cases d <;> simp [isNull]

private theorem below_here (p : Place) (fault : Fault) : DecodeError.below p ⟨[], fault⟩ = ⟨p, fault⟩ :=
  congrArg (DecodeError.mk · fault) (List.append_nil p)

private theorem mapError_bind (x : Except DecodeError α) (g : α → Except DecodeError β)
    (f : DecodeError → DecodeError) :
    (x >>= g).mapError f = x.mapError f >>= fun a => (g a).mapError f := by
  cases x <;> rfl

/-- What is no mapping is a part that does not fit. -/
theorem readsParts_mapping {d : Document} {fault : Fault} (h : d.fields = .error fault) (p : Place) :
    ReadsParts (.error ⟨p, fault⟩ : Except DecodeError α) [⟨p, .mapping, d⟩] := by
  refine readsParts_single ?_
  rw [Part.read, Expected.read, h]
  exact congrArg Except.error (below_here p fault).symm

private theorem readsParts_integer {p : Place} {d : Document} {f : DecodeError → DecodeError}
    (hf : ∀ fault, f ⟨[.field name], fault⟩ = ⟨p, fault⟩) :
    ReadsParts ((atField name d.toInteger).mapError f) [⟨p, .integer, d⟩] := by
  refine readsParts_single ?_
  rw [Part.read, Expected.read]
  cases d.toInteger with
  | ok n => rfl
  | error fault => exact congrArg Except.error ((hf fault).trans (below_here p fault).symm)

private theorem readsParts_position (name : String) :
    ReadsParts ((decodePosition (member fs name)).mapError
      fun e => (e.under (.field name)).under (.field "span")) (positionParts fs name) := by
  rw [positionParts]
  split
  · next hnull =>
    rw [isNull_iff.mp hnull]
    exact readsParts_ok _
  · next hnull =>
    rw [decodePosition_of_ne_null (mt isNull_iff.mpr hnull)]
    cases hfields : (member fs name).fields with
    | error fault => exact readsParts_mapping hfields _
    | ok parts =>
      dsimp only
      rw [mapError_bind]
      change ReadsParts _ ([_] ++ [_])
      refine (readsParts_integer fun fault => rfl).bind fun line => ?_
      rw [mapError_bind]
      exact (readsParts_integer fun fault => rfl).bind fun column => readsParts_ok _

private theorem readsParts_span (fs : List (String × Document)) :
    ReadsParts (decodeSpan fs) (spanParts fs) := by
  rw [spanParts]
  split
  · next hnull =>
    rw [decodeSpan, isNull_iff.mp hnull]
    exact readsParts_ok _
  · next hnull =>
    rw [decodeSpan_of_ne_null (mt isNull_iff.mpr hnull)]
    cases hfields : (member fs "span").fields with
    | error fault => exact readsParts_mapping hfields _
    | ok parts =>
      dsimp only
      exact (readsParts_position "start").bind fun start => (readsParts_position "end").map

private theorem readsParts_located {withSpan : Span → α → α} (h : ReadsParts x (typeParts fs)) :
    ReadsParts (located withSpan fs x) (parts fs) :=
  h.bind fun _ => (readsParts_span fs).map

end Reading

section Nodes

variable {d : Document} {fs : List (String × Document)}

/-- An expression of a known type is read part after part. -/
theorem readsParts_decodeExpr (htype : nodeType fs ∈ NodeSort.expr.types) :
    ReadsParts (record fs).decodeExpr (parts fs) := by
  rw [decodeExpr.eq_def]
  refine readsParts_located ?_
  simp only [NodeSort.types, List.mem_cons, List.not_mem_nil, or_false] at htype
  rw [typeParts]
  obtain htype | htype | htype | htype | htype := htype
  · rw [htype]
    exact readsParts_requiredText.map
  · rw [htype]
    exact (readsParts_atField rfl).map
  · rw [htype]
    exact (readsParts_atField rfl).map
  · rw [htype]
    exact (readsParts_atField rfl).map
  · rw [htype]
    exact readsParts_operator fun op => readsParts_expr.bind fun left => readsParts_expr.map

private theorem readsParts_notList (h : ∀ items, d ≠ .list items) (p : Place) :
    ReadsParts (.error ⟨p, .notList d.typeName⟩ : Except DecodeError Stmt) [⟨p, .list, d⟩] := by
  refine readsParts_single ?_
  rw [Part.read, Expected.read]
  · exact congrArg Except.error (below_here p _).symm
  · exact h

/-- A statement of a known type is read part after part. -/
theorem readsParts_decodeStmt (htype : nodeType fs ∈ NodeSort.stmt.types) :
    ReadsParts (record fs).decodeStmt (parts fs) := by
  rw [decodeStmt.eq_def]
  refine readsParts_located ?_
  split
  · next hname =>
    rw [typeParts, hname]
    exact readsParts_requiredText.bind fun name => readsParts_expr.map
  · next hname =>
    rw [typeParts, hname]
    refine readsParts_expr.bind fun condition => ?_
    exact readsParts_stmt.bind fun yes => (readsParts_optional _).map
  · next hname =>
    rw [typeParts, hname]
    exact readsParts_expr.bind fun condition => readsParts_stmt.map
  -- A sequence has two names, and each of them two forms.
  case h_4 hname | h_5 hname =>
    rw [typeParts, hname]
    split
    · split
      · next items hitems =>
        rw [listParts_list hitems]
        exact (readsParts_items 0 items).map
      · next hother =>
        rw [listParts_other hother]
        exact readsParts_notList hother _
    · exact readsParts_stmt.bind fun first => readsParts_stmt.map
  · next hname =>
    rw [typeParts, hname]
    exact readsParts_optionalText.bind fun lead => readsParts_expr.map
  · next hname =>
    rw [typeParts, hname]
    exact readsParts_expr.map
  · next hname =>
    rw [typeParts, hname]
    refine readsParts_stmt.bind fun body => ?_
    exact readsParts_requiredText.bind fun binding => (readsParts_optional _).map
  · next hname =>
    rw [typeParts, hname]
    exact readsParts_ok _
  all_goals simp_all [NodeSort.types]

/-- A node is read part by part, if it is a mapping and has a type of its sort.
    Nothing is asked of the parts. -/
theorem readsParts_decode {sort : NodeSort} (hfields : d.fields = .ok fs)
    (htype : nodeType fs ∈ sort.types) : ReadsParts (sort.decode d) (parts fs) := by
  unfold ReadsParts
  cases sort with
  | expr =>
    rw [NodeSort.decode, decodeExpr_of_fields hfields, ← readsParts_decodeExpr htype]
    cases (record fs).decodeExpr <;> rfl
  | stmt =>
    rw [NodeSort.decode, decodeStmt_of_fields hfields, ← readsParts_decodeStmt htype]
    cases (record fs).decodeStmt <;> rfl

end Nodes

section Verdicts

variable {α : Type} {x : Except DecodeError α} {ps : List Part} {e : DecodeError}

private theorem verdict_eq_ok_iff : verdict x = .ok () ↔ ∃ a, x = .ok a := by
  cases x <;> simp [verdict, Functor.map, Except.map]

/-- Dropping the result of a reading keeps its error. -/
theorem verdict_eq_error_iff : verdict x = .error e ↔ x = .error e := by
  cases x <;> simp [verdict, Functor.map, Except.map]

private theorem forM_eq_ok_iff : ps.forM Part.read = .ok () ↔ ∀ part ∈ ps, part.read = .ok () := by
  induction ps with
  | nil => simp [pure, Except.pure]
  | cons part rest ih =>
    rw [List.forall_mem_cons, ← ih]
    change (part.read >>= fun _ => rest.forM Part.read) = _ ↔ _
    cases part.read with
    | error e => exact ⟨nofun, fun h => nomatch h.1⟩
    | ok u => exact ⟨fun h => ⟨rfl, h⟩, fun h => h.2⟩

/-- The error of a reading is that of the first part that cannot be read. -/
theorem forM_eq_error_iff : ps.forM Part.read = .error e ↔
    ∃ before part after, ps = before ++ part :: after ∧ (∀ b ∈ before, b.read = .ok ()) ∧
      part.read = .error e := by
  induction ps with
  | nil =>
    refine ⟨nofun, ?_⟩
    rintro ⟨before, part, after, h, -⟩
    cases before <;> cases h
  | cons first rest ih =>
    change (first.read >>= fun _ => rest.forM Part.read) = _ ↔ _
    cases hfirst : first.read with
    | error e' =>
      constructor
      · rintro ⟨⟩
        exact ⟨[], first, rest, rfl, nofun, hfirst⟩
      · rintro ⟨before, part, after, hps, hbefore, hpart⟩
        cases before with
        | nil =>
          obtain ⟨rfl, rfl⟩ := List.cons.inj hps
          exact hfirst.symm.trans hpart
        | cons b before =>
          obtain ⟨rfl, rfl⟩ := List.cons.inj hps
          rw [hbefore _ List.mem_cons_self] at hfirst
          cases hfirst
    | ok u =>
      refine ih.trans ⟨?_, ?_⟩
      · rintro ⟨before, part, after, rfl, hbefore, hpart⟩
        exact ⟨first :: before, part, after, rfl, List.forall_mem_cons.mpr ⟨hfirst, hbefore⟩, hpart⟩
      · rintro ⟨before, part, after, hps, hbefore, hpart⟩
        cases before with
        | nil =>
          obtain ⟨rfl, rfl⟩ := List.cons.inj hps
          rw [hfirst] at hpart
          cases hpart
        | cons b before =>
          obtain ⟨rfl, rfl⟩ := List.cons.inj hps
          exact ⟨before, part, after, rfl, (List.forall_mem_cons.mp hbefore).2, hpart⟩

/-- What is read part by part is accepted exactly if every part fits. -/
theorem ReadsParts.eq_ok_iff (h : ReadsParts x ps) :
    (∃ a, x = .ok a) ↔ ∀ part ∈ ps, part.read = .ok () := by
  rw [← verdict_eq_ok_iff, h, forM_eq_ok_iff]

/-- What is read part by part is refused with the error of the first part that
    does not fit. -/
theorem ReadsParts.eq_error_iff (h : ReadsParts x ps) : x = .error e ↔
    ∃ before part after, ps = before ++ part :: after ∧ (∀ b ∈ before, b.read = .ok ()) ∧
      part.read = .error e := by
  rw [← verdict_eq_error_iff, h, forM_eq_error_iff]

/-- A part fits exactly if what was found is what is expected, wherever it
    stands. -/
theorem Part.read_eq_ok_iff {part : Part} :
    part.read = .ok () ↔ part.expected.read part.found = .ok () :=
  mapError_eq_ok_iff

/-- The error of a part is the one of what was found, seen from the node that
    the part belongs to. -/
theorem Part.read_eq_error_iff {part : Part} :
    part.read = .error e ↔ ∃ e', part.expected.read part.found = .error e' ∧ e = e'.below part.place := by
  rw [Part.read]
  cases part.expected.read part.found with
  | error e' =>
    constructor
    · rintro ⟨⟩
      exact ⟨e', rfl, rfl⟩
    · rintro ⟨_, ⟨⟩, rfl⟩
      rfl
  | ok u => exact ⟨nofun, fun ⟨_, h, _⟩ => nomatch h⟩

end Verdicts

section Fitting

variable {d : Document}

private theorem exists_mapError_eq_ok {α : Type} {y : Except Fault α} :
    verdict (y.mapError (DecodeError.mk [])) = .ok () ↔ ∃ a, y = .ok a := by
  rw [verdict_eq_ok_iff]
  exact exists_congr fun a => mapError_eq_ok_iff

/-- A node can be read exactly if it fits what is expected of a node of its
    sort. -/
theorem exists_decode_iff {sort : NodeSort} :
    (∃ n, sort.decode d = .ok n) ↔ Expected.Fits (.node sort) d := by
  cases sort with
  | expr =>
    simp only [NodeSort.decode, map_eq_ok_iff]
    constructor
    · rintro ⟨n, e, he, -⟩
      exact ⟨e, denotesExpr_of_decodeExpr he⟩
    · rintro ⟨e, he⟩
      exact ⟨_, e, he.decodeExpr_eq, rfl⟩
  | stmt =>
    simp only [NodeSort.decode, map_eq_ok_iff]
    constructor
    · rintro ⟨n, s, hs, -⟩
      exact ⟨s, denotesStmt_of_decodeStmt hs⟩
    · rintro ⟨s, hs⟩
      exact ⟨_, s, hs.decodeStmt_eq, rfl⟩

/-- A document can be read where something is expected if it is that. -/
theorem Expected.read_eq_ok_iff {expected : Expected} :
    expected.read d = .ok () ↔ expected.Fits d := by
  cases expected with
  | node sort => exact verdict_eq_ok_iff.trans exists_decode_iff
  | text =>
    cases d with
    | text s => simp [Expected.read, Expected.Fits, text?, Fault.here]
    | _ =>
      constructor
      · intro h
        cases h
      · rintro ⟨s, -, h⟩
        cases h
  | lead =>
    cases d with
    | null => exact ⟨fun _ => .inl rfl, fun _ => rfl⟩
    | text s => exact ⟨fun _ => .inr ⟨s, rfl⟩, fun _ => rfl⟩
    | _ =>
      constructor
      · intro h
        cases h
      · rintro (h | ⟨s, h⟩) <;> cases h
  | literal => exact exists_mapError_eq_ok.trans (exists_congr fun v => decodeLiteral_eq_ok_iff)
  | integer => exact exists_mapError_eq_ok.trans (exists_congr fun n => toInteger_eq_ok_iff)
  | bool => exact exists_mapError_eq_ok.trans (exists_congr fun b => toBool_eq_ok_iff)
  | operator =>
    cases d with
    | text s =>
      by_cases hs : s = ""
      · simp [Expected.read, Expected.Fits, text?, Fault.here, hs]
      · cases hop : Operator.parse? s <;>
          simp [Expected.read, Expected.Fits, text?, Fault.here, hs, hop]
    | _ =>
      constructor
      · intro h
        cases h
      · rintro ⟨s, op, -, h, -⟩
        cases h
  | list =>
    cases d with
    | list items => exact ⟨fun _ => ⟨items, rfl⟩, fun _ => rfl⟩
    | _ =>
      constructor
      · intro h
        cases h
      · rintro ⟨items, h⟩
        cases h
  | mapping => exact exists_mapError_eq_ok.trans (exists_congr fun fs => fields_eq_ok_iff)

end Fitting

end Document

end WhilePlus
