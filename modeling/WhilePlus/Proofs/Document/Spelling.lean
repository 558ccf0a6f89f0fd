import WhilePlus.Program
import WhilePlus.Proofs.Document.Acceptance

namespace WhilePlus.Document

section Rules

/-- The integer that a document spells out, whether it fits 64 bits or not. -/
inductive Spells : Document → Int → Prop where
  | int {m : Int64} {n : Int} (hvalue : m.toInt = n) : Spells (.int m) n
  | int32 {m : Int32} {n : Int} (hvalue : m.toInt = n) : Spells (.int32 m) n
  | int64 {m : Int64} {n : Int} (hvalue : m.toInt = n) : Spells (.int64 m) n
  | uint64 {m : UInt64} {n : Int} (hvalue : m.toNat = n) : Spells (.uint64 m) n
  | number {literal : String} {n : Int} (hvalue : Number.IsNumeral literal.toList n) :
      Spells (.number literal) n

/-- Two spellings of one document: they differ only in how mappings and integers
    are represented, at any depth. The order of the fields of a mapping does not
    matter; one with a key that is no text is a table in both. -/
inductive Equivalent : Document → Document → Prop where
  | atom {d : Document} (hatom : d.isComposite = false) : Equivalent d d
  | integer {d d' : Document} {n : Int} (hn : Spells d n) (hn' : Spells d' n) : Equivalent d d'
  | list {items items' : List Document} (hitems : List.Forall₂ Equivalent items items') :
      Equivalent (.list items) (.list items')
  | mapping {d d' : Document} {fs fs' : List (String × Document)} (hfields : HasFields d fs)
      (hfields' : HasFields d' fs') (hsize : fs.length = fs'.length)
      (hnames : ∀ name, (fs.lookup name).isSome = (fs'.lookup name).isSome)
      (hmembers : ∀ name, Equivalent (member fs name) (member fs' name)) : Equivalent d d'
  | table {entries middle entries' : List (Document × Document)}
      (hother : ∃ entry ∈ entries, entry.1.text? = none) (horder : entries.Perm middle)
      (hkeys : List.Forall₂ Equivalent (middle.map Prod.fst) (entries'.map Prod.fst))
      (hvalues : List.Forall₂ Equivalent (middle.map Prod.snd) (entries'.map Prod.snd)) :
      Equivalent (.table entries) (.table entries')

/-- The fields of two spellings of a mapping. -/
structure SameFields (fs fs' : List (String × Document)) : Prop where
  size : fs.length = fs'.length
  names : ∀ name, (fs.lookup name).isSome = (fs'.lookup name).isSome
  members : ∀ name, Equivalent (member fs name) (member fs' name)

/-- Two readings have the same result, or a fault at the same place. -/
inductive Agree {α : Type} : Except DecodeError α → Except DecodeError α → Prop where
  | ok (a : α) : Agree (.ok a) (.ok a)
  | error {e e' : DecodeError} (hplace : e.place = e'.place) : Agree (.error e) (.error e')

end Rules

section Agreement

variable {α β : Type} {x x' : Except DecodeError α}

private theorem Agree.refl (x : Except DecodeError α) : Agree x x := by
  cases x with
  | ok a => exact .ok a
  | error e => exact .error rfl

private theorem Agree.bind {f f' : α → Except DecodeError β} (h : Agree x x')
    (hf : ∀ a, Agree (f a) (f' a)) : Agree (x >>= f) (x' >>= f') := by
  cases h with
  | ok a => exact hf a
  | error hplace => exact .error hplace

private theorem Agree.map (h : Agree x x') (f : α → β) : Agree (f <$> x) (f <$> x') := by
  cases h with
  | ok a => exact .ok (f a)
  | error hplace => exact .error hplace

/-- Seen from further out, faults at one place are at one place. What is done to
    an error may change its text, but must not tell apart errors at one place. -/
theorem Agree.mapError {f : DecodeError → DecodeError} (h : Agree x x')
    (hf : ∀ e e', e.place = e'.place → (f e).place = (f e').place) :
    Agree (x.mapError f) (x'.mapError f) := by
  cases h with
  | ok a => exact .ok a
  | error hplace => exact .error (hf _ _ hplace)

private theorem Agree.under (h : Agree x x') (step : Step) :
    Agree (x.mapError (·.under step)) (x'.mapError (·.under step)) :=
  h.mapError fun _ _ hplace => congrArg (step :: ·) hplace

/-- A field whose two spellings give the same value, or none. -/
theorem agree_atField {y y' : Except Fault α} (h : y.toOption = y'.toOption) (name : String) :
    Agree (atField name y) (atField name y') := by
  cases y with
  | ok a =>
    cases y' with
    | ok a' =>
      cases h
      exact .ok a
    | error fault' => cases h
  | error fault =>
    cases y' with
    | ok a' => cases h
    | error fault' => exact .error rfl

end Agreement

section Leaves

variable {d d' : Document} {n : Int}

/-- An integer is accepted if it fits 64 bits, with its exact value, and refused
    otherwise. -/
theorem Spells.toInteger_eq_ok_iff (h : Spells d n) {k : Int64} :
    d.toInteger = .ok k ↔ k.toInt = n := by
  rw [Document.toInteger_eq_ok_iff]
  constructor
  · intro hinteger
    cases h with
    | int hvalue | int64 hvalue =>
      cases hinteger
      exact hvalue
    | int32 hvalue =>
      cases hinteger with
      | int32 hk => exact hk.trans hvalue
    | uint64 hvalue =>
      cases hinteger with
      | uint64 hk => exact hk.trans hvalue
    | number hvalue =>
      cases hinteger with
      | number hk => exact hk.eq hvalue
  · rintro rfl
    cases h with
    | int hvalue =>
      obtain rfl := Int64.toInt_inj.mp hvalue
      exact .int _
    | int64 hvalue =>
      obtain rfl := Int64.toInt_inj.mp hvalue
      exact .int64 _
    | int32 hvalue => exact .int32 hvalue.symm
    | uint64 hvalue => exact .uint64 hvalue.symm
    | number hvalue => exact .number hvalue

/-- What two spellings can be at their root: the same leaf, two integers of one
    value, or documents with parts. -/
theorem Equivalent.root (h : Equivalent d d') :
    d = d' ∨ (∃ n, Spells d n ∧ Spells d' n) ∨ d.isComposite = true ∧ d'.isComposite = true := by
  cases h with
  | atom => exact .inl rfl
  | integer hn hn' => exact .inr (.inl ⟨_, hn, hn'⟩)
  | list | table => exact .inr (.inr ⟨rfl, rfl⟩)
  | mapping hfields hfields' =>
    refine .inr (.inr ⟨?_, ?_⟩)
    · cases hfields <;> rfl
    · cases hfields' <;> rfl

private theorem Equivalent.text?_eq (h : Equivalent d d') : d.text? = d'.text? := by
  obtain rfl | ⟨n, hn, hn'⟩ | ⟨hparts, hparts'⟩ := h.root
  · rfl
  · cases hn <;> cases hn' <;> rfl
  · cases d <;> cases d' <;> simp_all [isComposite, text?]

private theorem Equivalent.isNull_eq (h : Equivalent d d') : d.isNull = d'.isNull := by
  obtain rfl | ⟨n, hn, hn'⟩ | ⟨hparts, hparts'⟩ := h.root
  · rfl
  · cases hn <;> cases hn' <;> rfl
  · cases d <;> cases d' <;> simp_all [isComposite, isNull]

private theorem Equivalent.toBool (h : Equivalent d d') : d.toBool.toOption = d'.toBool.toOption := by
  obtain rfl | ⟨n, hn, hn'⟩ | ⟨hparts, hparts'⟩ := h.root
  · rfl
  · cases hn <;> cases hn' <;> rfl
  · cases d <;> cases d' <;> simp_all [isComposite, Document.toBool, Except.toOption]

private theorem Equivalent.eq_null_iff (h : Equivalent d d') : d = .null ↔ d' = .null := by
  have hnull := h.isNull_eq
  cases d <;> cases d' <;> simp_all [isNull]

private theorem toOption_eq_some_iff {α : Type} {y : Except Fault α} {a : α} :
    y.toOption = some a ↔ y = .ok a := by
  cases y <;> simp [Except.toOption]

private theorem Equivalent.toInteger (h : Equivalent d d') :
    d.toInteger.toOption = d'.toInteger.toOption := by
  obtain rfl | ⟨n, hn, hn'⟩ | ⟨hparts, hparts'⟩ := h.root
  · rfl
  · refine Option.ext fun k => ?_
    rw [toOption_eq_some_iff, toOption_eq_some_iff, hn.toInteger_eq_ok_iff, hn'.toInteger_eq_ok_iff]
  · cases d <;> cases d' <;> simp_all [isComposite, Document.toInteger, Except.toOption]

end Leaves

section Fields

variable {d d' : Document} {fs fs' : List (String × Document)} {field : String × Document}

private theorem fields_of_other_key {entries : List (Document × Document)}
    (h : ∃ entry ∈ entries, entry.1.text? = none) : ∃ fault, (table entries).fields = .error fault := by
  cases hfields : (table entries).fields with
  | error fault => exact ⟨fault, rfl⟩
  | ok fs =>
    obtain ⟨entry, hmem, hkey⟩ := h
    obtain rfl := textEntries_eq_ok_iff.mp hfields
    obtain ⟨field, _, rfl⟩ := List.mem_map.mp hmem
    cases hkey

/-- Two spellings are both mappings with texts as keys, or neither of them is. -/
theorem Equivalent.fields (h : Equivalent d d') :
    (∃ fs fs', d.fields = .ok fs ∧ d'.fields = .ok fs' ∧ SameFields fs fs') ∨
      ∃ fault fault', d.fields = .error fault ∧ d'.fields = .error fault' := by
  cases h with
  | atom hatom =>
    right
    cases d with
    | list | record | table => cases hatom
    | _ => exact ⟨_, _, rfl, rfl⟩
  | integer hn hn' =>
    right
    cases hn <;> cases hn' <;> exact ⟨_, _, rfl, rfl⟩
  | list => exact .inr ⟨_, _, rfl, rfl⟩
  | mapping hfields hfields' hsize hnames hmembers =>
    exact .inl ⟨_, _, fields_eq_ok_iff.mpr hfields, fields_eq_ok_iff.mpr hfields', hsize, hnames,
      hmembers⟩
  | @table entries middle entries' hother horder hkeys hvalues =>
    right
    obtain ⟨fault, hfault⟩ := fields_of_other_key hother
    have htexts : (middle.map Prod.fst).map text? = (entries'.map Prod.fst).map text? := by
      rw [← List.forall₂_eq_eq_eq, List.forall₂_map_left_iff, List.forall₂_map_right_iff]
      exact hkeys.imp fun _ _ hkey => hkey.text?_eq
    have hother' : ∃ entry ∈ entries', entry.1.text? = none := by
      have hmem : none ∈ (middle.map Prod.fst).map text? := by
        obtain ⟨entry, hmem, hkey⟩ := hother
        exact hkey ▸ List.mem_map_of_mem (List.mem_map_of_mem (horder.mem_iff.mp hmem))
      rw [htexts] at hmem
      simpa using hmem
    obtain ⟨fault', hfault'⟩ := fields_of_other_key hother'
    exact ⟨fault, fault', hfault, hfault'⟩

/-- A required text, by the member that it is read from. A member that is no
    text counts as an empty one. -/
theorem requiredText_eq (fs : List (String × Document)) (name : String) :
    requiredText fs name =
      match (member fs name).text? with
      | some s => if s.isEmpty then .error ⟨[.field name], .emptyText⟩ else .ok s
      | none => .error ⟨[.field name], .emptyText⟩ := by
  unfold requiredText
  cases member fs name <;> rfl

/-- A text that may be missing, by the member that it is read from. -/
theorem optionalText_eq (fs : List (String × Document)) (name : String) :
    optionalText fs name =
      if (member fs name).isNull then .ok ""
      else
        match (member fs name).text? with
        | some s => .ok s
        | none => .error ⟨[.field name], .notText (member fs name).typeName⟩ := by
  unfold optionalText
  cases member fs name <;> rfl

private theorem SameFields.nodeType_eq (h : SameFields fs fs') : nodeType fs = nodeType fs' := by
  rw [nodeType, nodeType, (h.members "type").text?_eq]

private theorem SameFields.requiredText (h : SameFields fs fs') (name : String) :
    Agree (requiredText fs name) (Document.requiredText fs' name) := by
  have htext := (h.members name).text?_eq
  rw [requiredText_eq, requiredText_eq, htext]
  exact .refl _

private theorem SameFields.optionalText (h : SameFields fs fs') (name : String) :
    Agree (optionalText fs name) (Document.optionalText fs' name) := by
  rw [optionalText_eq, optionalText_eq, (h.members name).isNull_eq, (h.members name).text?_eq]
  split
  · exact .ok ""
  · split
    · exact .refl _
    · exact .error rfl

/-- Two spellings of a mapping with one field have it under the same name. -/
theorem SameFields.eq_singleton (h : SameFields [field] fs') :
    ∃ d', fs' = [(field.1, d')] ∧ Equivalent field.2 d' := by
  obtain ⟨name, d⟩ := field
  obtain ⟨⟨name', d'⟩, rfl⟩ := List.length_eq_one_iff.mp h.size.symm
  have hname := h.names name
  have hmember := h.members name
  by_cases heq : name = name'
  · subst heq
    refine ⟨d', rfl, ?_⟩
    simpa [member] using hmember
  · have hne : (name == name') = false := beq_eq_false_iff_ne.mpr heq
    simp [List.lookup_cons, hne] at hname

private theorem toOption_map {α β : Type} (f : α → β) (y : Except Fault α) :
    (f <$> y).toOption = y.toOption.map f := by
  cases y <;> rfl

private theorem Equivalent.literalOfKind (h : Equivalent d d') (kind : String) :
    (literalOfKind kind d).toOption = (Document.literalOfKind kind d').toOption := by
  unfold Document.literalOfKind
  split
  · rw [toOption_map, toOption_map, h.toInteger]
  split
  · rw [toOption_map, toOption_map, h.toBool]
  · rfl

private theorem decodeLiteral_of_fields (h : d.fields = .ok fs) :
    d.decodeLiteral = (record fs).decodeLiteral := by
  unfold decodeLiteral
  rw [h]
  rfl

private theorem decodeLiteral_record (fs : List (String × Document)) :
    (record fs).decodeLiteral =
      match (member fs "kind").text? with
      | some kind => literalOfKind kind (member fs "value")
      | none =>
        match fs with
        | [(kind, payload)] => literalOfKind kind payload
        | _ => .error (.tagCount fs.length) := by
  have hfields : (record fs).fields = .ok fs := rfl
  unfold decodeLiteral
  rw [hfields, ok_bind]
  cases member fs "kind" <;> rfl

private theorem Equivalent.decodeLiteral (h : Equivalent d d') :
    d.decodeLiteral.toOption = d'.decodeLiteral.toOption := by
  obtain ⟨fs, fs', hfs, hfs', hsame⟩ | ⟨fault, fault', hfault, hfault'⟩ := h.fields
  · rw [decodeLiteral_of_fields hfs, decodeLiteral_of_fields hfs', decodeLiteral_record,
      decodeLiteral_record, (hsame.members "kind").text?_eq]
    cases (member fs' "kind").text? with
    | some kind => exact (hsame.members "value").literalOfKind kind
    | none =>
      dsimp only
      split
      · obtain ⟨payload, rfl, hpayload⟩ := hsame.eq_singleton
        exact hpayload.literalOfKind _
      · next hmany =>
        split
        · obtain ⟨field, rfl⟩ := List.length_eq_one_iff.mp hsame.size
          exact absurd rfl (hmany field.1 field.2)
        · rfl
  · rw [Document.decodeLiteral, Document.decodeLiteral, hfault, hfault']
    rfl

/-- The first match of a reader of positions only sets null apart. -/
theorem decodePosition_of_ne_null (h : d ≠ .null) :
    d.decodePosition =
      (match d.fields with
      | .error fault => fault.here
      | .ok fs => do
        let line ← atField "line" (member fs "line").toInteger
        let column ← atField "column" (member fs "column").toInteger
        .ok ⟨line.toInt, column.toInt⟩) := by
  cases d with
  | null => exact absurd rfl h
  | _ => rfl

private theorem Equivalent.decodePosition (h : Equivalent d d') :
    Agree d.decodePosition d'.decodePosition := by
  by_cases hnull : d = .null
  · rw [hnull, h.eq_null_iff.mp hnull]
    exact .refl _
  rw [decodePosition_of_ne_null hnull, decodePosition_of_ne_null (mt h.eq_null_iff.mpr hnull)]
  obtain ⟨fs, fs', hfs, hfs', hsame⟩ | ⟨fault, fault', hfault, hfault'⟩ := h.fields
  · rw [hfs, hfs']
    refine (agree_atField (hsame.members "line").toInteger "line").bind fun line => ?_
    exact (agree_atField (hsame.members "column").toInteger "column").bind fun column => .refl _
  · rw [hfault, hfault']
    exact .error rfl

/-- A span that is there is read in order: it must be a mapping, and then its
    start and its end must fit. -/
theorem decodeSpan_of_ne_null (h : member fs "span" ≠ .null) :
    decodeSpan fs =
      (match (member fs "span").fields with
      | .error fault => .error ⟨[.field "span"], fault⟩
      | .ok parts => do
        let start ← (decodePosition (member parts "start")).mapError
          fun e => (e.under (.field "start")).under (.field "span")
        let stop ← (decodePosition (member parts "end")).mapError
          fun e => (e.under (.field "end")).under (.field "span")
        .ok (some ⟨start, stop⟩)) := by
  unfold decodeSpan
  generalize member fs "span" = d at h
  cases d with
  | null => exact absurd rfl h
  | _ => rfl

private theorem SameFields.decodeSpan (h : SameFields fs fs') :
    Agree (decodeSpan fs) (Document.decodeSpan fs') := by
  have hspan := h.members "span"
  by_cases hnull : member fs "span" = .null
  · rw [Document.decodeSpan, Document.decodeSpan, hnull, hspan.eq_null_iff.mp hnull]
    exact .refl _
  rw [decodeSpan_of_ne_null hnull, decodeSpan_of_ne_null (mt hspan.eq_null_iff.mpr hnull)]
  obtain ⟨parts, parts', hparts, hparts', hsame⟩ | ⟨fault, fault', hfault, hfault'⟩ := hspan.fields
  · rw [hparts, hparts']
    refine Agree.bind ?_ fun start => Agree.bind ?_ fun stop => .refl _
    · exact (hsame.members "start").decodePosition.mapError fun _ _ => congrArg (_ :: _ :: ·)
    · exact (hsame.members "end").decodePosition.mapError fun _ _ => congrArg (_ :: _ :: ·)
  · rw [hfault, hfault']
    exact .error rfl

private theorem SameFields.located {α : Type} {withSpan : Span → α → α} {x x' : Except DecodeError α}
    (h : SameFields fs fs') (hnode : Agree x x') :
    Agree (located withSpan fs x) (Document.located withSpan fs' x') :=
  hnode.bind fun _ => h.decodeSpan.bind fun _ => .refl _

end Fields

section Trees

variable {d d' : Document} {fs fs' : List (String × Document)}

/-- What is read from a node depends only on its fields. -/
theorem decodeExpr_of_fields (h : d.fields = .ok fs) : d.decodeExpr = (record fs).decodeExpr := by
  rw [decodeExpr.eq_def d, decodeExpr.eq_def (record fs)]
  split
  · next hfault =>
    rw [h] at hfault
    cases hfault
  · next found hfound =>
    rw [h] at hfound
    cases hfound
    rfl

/-- A document that is no mapping is refused as an expression where it stands. -/
theorem decodeExpr_of_fault {fault : Fault} (h : d.fields = .error fault) :
    d.decodeExpr = fault.here := by
  rw [decodeExpr]
  split
  · next hfault =>
    rw [h] at hfault
    cases hfault
    rfl
  · next hfound =>
    rw [h] at hfound
    cases hfound

/-- The two spellings of an expression name the same type, and so have the same
    parts. -/
theorem SameFields.decodeExpr (h : SameFields fs fs')
    (hparts : ∀ name, Agree (member fs name).decodeExpr (member fs' name).decodeExpr) :
    Agree (record fs).decodeExpr (record fs').decodeExpr := by
  rw [decodeExpr.eq_def (record fs), decodeExpr.eq_def (record fs')]
  refine h.located ?_
  rw [h.nodeType_eq]
  split
  · exact (h.requiredText "name").bind fun name => .refl _
  · exact (agree_atField (h.members "value").decodeLiteral "value").bind fun v => .refl _
  · exact (agree_atField (h.members "value").toInteger "value").bind fun n => .refl _
  · exact (agree_atField (h.members "value").toBool "value").bind fun b => .refl _
  · refine (h.requiredText "operator").bind fun text => ?_
    split
    · exact .refl _
    · refine ((hparts "left").under _).bind fun left => ?_
      exact ((hparts "right").under _).bind fun right => .refl _
  · exact .refl _
  · exact .refl _

/-- Two spellings are read as the same expression, or have a fault at the same
    place. The recursion is on the document, of which each part is smaller. -/
theorem Equivalent.decodeExpr {d d' : Document} (h : Equivalent d d') :
    Agree d.decodeExpr d'.decodeExpr := by
  obtain ⟨fs, fs', hfs, hfs', hsame⟩ | ⟨fault, fault', hfault, hfault'⟩ := h.fields
  · rw [decodeExpr_of_fields hfs, decodeExpr_of_fields hfs']
    exact hsame.decodeExpr fun name => (hsame.members name).decodeExpr
  · rw [decodeExpr_of_fault hfault, decodeExpr_of_fault hfault']
    exact .error rfl
termination_by sizeOf d
decreasing_by exact sizeOf_member_lt hfs name

/-- A statement is read from its fields alone, so a table of texts is read like
    a record. -/
theorem decodeStmt_of_fields (h : d.fields = .ok fs) : d.decodeStmt = (record fs).decodeStmt := by
  rw [decodeStmt.eq_def d, decodeStmt.eq_def (record fs)]
  split
  · next hfault =>
    rw [h] at hfault
    cases hfault
  · next found hfound =>
    rw [h] at hfound
    cases hfound
    rfl

/-- A document that is no mapping is refused as a statement where it stands. -/
theorem decodeStmt_of_fault {fault : Fault} (h : d.fields = .error fault) :
    d.decodeStmt = fault.here := by
  rw [decodeStmt]
  split
  · next hfault =>
    rw [h] at hfault
    cases hfault
    rfl
  · next hfound =>
    rw [h] at hfound
    cases hfound

/-- A statement that may be left out is left out in both spellings, or in
    neither. -/
theorem Equivalent.optionalStmt (h : Equivalent d d') (hread : Agree d.decodeStmt d'.decodeStmt)
    (step : Step) :
    Agree (if d.isNull then .ok (Stmt.skip .zero) else d.decodeStmt.mapError (·.under step))
      (if d'.isNull then .ok (Stmt.skip .zero) else d'.decodeStmt.mapError (·.under step)) := by
  rw [h.isNull_eq]
  split
  · exact .refl _
  · exact hread.under step

/-- Two spellings of a list of statements are read alike, if each item is. The
    items must be the same in number, as the index is part of the place of a
    fault. -/
theorem agree_decodeStmts {items items' : List Document}
    (hitem : ∀ item ∈ items, ∀ item', Equivalent item item' → Agree item.decodeStmt item'.decodeStmt)
    (h : List.Forall₂ Equivalent items items') (index : Nat) :
    Agree (decodeStmts index items) (decodeStmts index items') := by
  induction h generalizing index with
  | nil => exact .refl _
  | cons hfirst _ ih =>
    obtain ⟨hhead, hrest⟩ := List.forall_mem_cons.mp hitem
    rw [decodeStmts, decodeStmts]
    refine ((hhead _ hfirst).under _).bind fun s => ?_
    exact (ih hrest (index + 1)).bind fun more => .refl _

/-- The list of a sequence is a list in both spellings, or in neither. -/
theorem Equivalent.list_cases (h : Equivalent d d') :
    (∃ items items', d = .list items ∧ d' = .list items' ∧ List.Forall₂ Equivalent items items') ∨
      (∀ items, d ≠ .list items) ∧ ∀ items, d' ≠ .list items := by
  cases h with
  | list hitems => exact .inl ⟨_, _, rfl, rfl, hitems⟩
  | atom hatom =>
    right
    cases d with
    | list => cases hatom
    | _ => exact ⟨nofun, nofun⟩
  | integer hn hn' => right; cases hn <;> cases hn' <;> exact ⟨nofun, nofun⟩
  | mapping hfields hfields' => right; cases hfields <;> cases hfields' <;> exact ⟨nofun, nofun⟩
  | table => exact .inr ⟨nofun, nofun⟩

private theorem SameFields.decodeStmt (h : SameFields fs fs')
    (hparts : ∀ name, Agree (member fs name).decodeStmt (member fs' name).decodeStmt)
    (hitems : ∀ items items', member fs "statements" = .list items →
      List.Forall₂ Equivalent items items' → Agree (decodeStmts 0 items) (decodeStmts 0 items')) :
    Agree (record fs).decodeStmt (record fs').decodeStmt := by
  rw [decodeStmt.eq_def (record fs), decodeStmt.eq_def (record fs')]
  refine h.located ?_
  rw [h.nodeType_eq]
  split
  · refine (h.requiredText "name").bind fun name => ?_
    exact ((h.members "value").decodeExpr.under _).bind fun value => .refl _
  · refine ((h.members "condition").decodeExpr.under _).bind fun condition => ?_
    refine ((hparts "then").under _).bind fun yes => ?_
    exact ((h.members "else").optionalStmt (hparts "else") _).bind fun no => .refl _
  · refine ((h.members "condition").decodeExpr.under _).bind fun condition => ?_
    exact ((hparts "body").under _).bind fun body => .refl _
  case h_4 | h_5 =>
    -- Whether the list is there is asked of the names, and what it is of the members.
    rw [h.names "statements"]
    split
    · obtain ⟨items, items', hlist, hlist', hsame⟩ | ⟨hother, hother'⟩ :=
        (h.members "statements").list_cases
      · split
        · next found hfound =>
          obtain rfl := list.inj (hlist.symm.trans hfound)
          split
          · next found' hfound' =>
            obtain rfl := list.inj (hlist'.symm.trans hfound')
            exact ((hitems _ _ hlist hsame).under _).bind fun stmts => .refl _
          · next hnone => exact absurd hlist' (hnone items')
        · next hnone => exact absurd hlist (hnone items)
      · split
        · next found hfound => exact absurd hfound (hother found)
        · exact .error rfl
    · refine ((hparts "first").under _).bind fun first => ?_
      exact ((hparts "second").under _).bind fun second => .refl _
  · refine (h.optionalText "prefix").bind fun lead => ?_
    exact ((h.members "expression").decodeExpr.under _).bind fun expression => .refl _
  · exact ((h.members "expression").decodeExpr.under _).bind fun expression => .refl _
  · refine ((hparts "body").under _).bind fun body => ?_
    refine (h.requiredText "binding").bind fun binding => ?_
    exact ((h.members "handler").optionalStmt (hparts "handler") _).bind fun handler => .refl _
  · exact .refl _
  · exact .refl _
  · exact .refl _

private theorem Equivalent.decodeStmt {d d' : Document} (h : Equivalent d d') :
    Agree d.decodeStmt d'.decodeStmt := by
  obtain ⟨fs, fs', hfs, hfs', hsame⟩ | ⟨fault, fault', hfault, hfault'⟩ := h.fields
  · rw [decodeStmt_of_fields hfs, decodeStmt_of_fields hfs']
    refine hsame.decodeStmt (fun name => (hsame.members name).decodeStmt) ?_
    intro items items' hlist hitems
    exact agree_decodeStmts (fun item hmem item' hitem => hitem.decodeStmt) hitems 0
  · rw [decodeStmt_of_fault hfault, decodeStmt_of_fault hfault']
    exact .error rfl
termination_by sizeOf d
decreasing_by
  · exact sizeOf_member_lt hfs name
  · have hlt := sizeOf_member_lt hfs "statements"
    have hitem := List.sizeOf_lt_of_mem hmem
    rw [hlist, list.sizeOf_spec] at hlt
    omega

private theorem Equivalent.decodeNode (h : Equivalent d d') : Agree d.decodeNode d'.decodeNode := by
  unfold Document.decodeNode
  obtain ⟨fs, fs', hfs, hfs', hsame⟩ | ⟨fault, fault', hfault, hfault'⟩ := h.fields
  · rw [hfs, hfs']
    dsimp only
    rw [hsame.nodeType_eq]
    split
    · exact h.decodeExpr.map _
    · exact h.decodeStmt.map _
  · rw [hfault, hfault']
    exact .error rfl

private theorem Equivalent.ofDocument (h : Equivalent d d') :
    (Value.ofDocument d).toOption = (Value.ofDocument d').toOption := by
  have hliteral := h.decodeLiteral
  unfold Value.ofDocument
  cases hd : d.decodeLiteral <;> cases hd' : d'.decodeLiteral <;> simp_all [Except.toOption]

end Trees

/-- Two documents are read alike, whatever they are read as: with the same
    result, spans included, or with a fault at the same place. A literal or a
    value has no place; it is the same, or refused in both. -/
structure ReadAlike (d d' : Document) : Prop where
  stmt : Agree d.decodeStmt d'.decodeStmt
  expr : Agree d.decodeExpr d'.decodeExpr
  node : Agree d.decodeNode d'.decodeNode
  literal : d.decodeLiteral.toOption = d'.decodeLiteral.toOption
  value : (Value.ofDocument d).toOption = (Value.ofDocument d').toOption

/-- Every integer that is accepted, alone, in a literal or anywhere in a tree,
    is the exact one: the rules of the grammar relate it to the number that the
    document spells out at its place. -/
structure ReadsExactly (d : Document) : Prop where
  /-- A number is accepted if it fits 64 bits, as it is, and refused otherwise.
      -/
  spelled : ∀ n, Spells d n → ∀ k : Int64, d.toInteger = .ok k ↔ k.toInt = n
  integer : ∀ k, d.toInteger = .ok k → IsInteger d k
  literal : ∀ v, d.decodeLiteral = .ok v → IsLiteral d v
  expr : ∀ e, d.decodeExpr = .ok e → DenotesExpr d e
  stmt : ∀ s, d.decodeStmt = .ok s → DenotesStmt d s

private theorem readsExactly (d : Document) : ReadsExactly d where
  spelled := fun _ hn _ => hn.toInteger_eq_ok_iff
  integer := fun _ => toInteger_eq_ok_iff.mp
  literal := fun _ => decodeLiteral_eq_ok_iff.mp
  expr := fun _ => denotesExpr_of_decodeExpr
  stmt := fun _ => denotesStmt_of_decodeStmt

/-- All spellings of a document are read alike, as the same statement,
    expression, node, literal or value, or all with a fault at the same place,
    and the integers that are accepted in them are exact. -/
theorem spellings_read_alike {d d' : Document} (h : Equivalent d d') :
    ReadAlike d d' ∧ ReadsExactly d ∧ ReadsExactly d' := by
  refine ⟨?_, readsExactly d, readsExactly d'⟩
  exact {
    stmt := h.decodeStmt
    expr := h.decodeExpr
    node := h.decodeNode
    literal := h.decodeLiteral
    value := h.ofDocument }

section Spelled

/-- The greatest integer, as a reader that keeps numbers as they are written
    represents it. -/
def writtenMaximum : Document :=
  .record [("type", .text "Val"), ("value", .record [("int", .number "+09223372036854775807")])]

/-- The same, as a reader with numbers of 64 bits and keys of any sort
    represents it. -/
def storedMaximum : Document :=
  .table [(.text "value", .table [(.text "int", .uint64 9223372036854775807)]),
    (.text "type", .text "Val")]

/-- A mapping with one field. -/
theorem Equivalent.singleton {d d' value value' : Document} {name : String}
    (hfields : HasFields d [(name, value)])
    (hfields' : HasFields d' [(name, value')]) (hvalue : Equivalent value value') : Equivalent d d' := by
  refine .mapping hfields hfields' rfl (fun other => ?_) fun other => ?_
  · by_cases hname : other = name <;> simp [List.lookup_cons, beq_eq_false_iff_ne.mpr, hname]
  · by_cases hname : other = name
    · simpa [member, hname] using hvalue
    · simpa [member, List.lookup_cons, beq_eq_false_iff_ne.mpr hname] using Equivalent.atom rfl

private theorem equivalent_maximum : Equivalent writtenMaximum storedMaximum := by
  have hnumeral : Number.IsNumeral "+09223372036854775807".toList 9223372036854775807 :=
    Number.parseInt_eq_ok_iff (n := Int64.maxValue) |>.mp (by decide)
  have hvalue : Equivalent (.record [("int", .number "+09223372036854775807")])
      (.table [(.text "int", .uint64 9223372036854775807)]) :=
    .singleton (.record _) (.table [("int", _)]) (.integer (.number hnumeral) (.uint64 rfl))
  refine .mapping (.record _) (.table [("value", _), ("type", _)]) rfl (fun name => ?_) fun name => ?_
  · by_cases htype : name = "type" <;> by_cases hname : name = "value" <;>
      simp_all [List.lookup_cons, beq_eq_false_iff_ne.mpr]
  · by_cases htype : name = "type"
    · simpa [member, htype, List.lookup_cons] using Equivalent.atom rfl
    · by_cases hname : name = "value"
      · simpa [member, hname, List.lookup_cons] using hvalue
      · simpa [member, List.lookup_cons, beq_eq_false_iff_ne.mpr htype,
          beq_eq_false_iff_ne.mpr hname] using Equivalent.atom rfl

/-- The greatest integer is read alike from its digits in a record and from an
    unsigned number in a table. -/
theorem spellings_read_alike_maximum :
    Equivalent writtenMaximum storedMaximum ∧
      writtenMaximum.decodeExpr = .ok (.int .zero Int64.maxValue) ∧
      storedMaximum.decodeExpr = .ok (.int .zero Int64.maxValue) := by
  have hwritten : writtenMaximum.decodeExpr = .ok (.int .zero Int64.maxValue) := by
    decide +kernel
  refine ⟨equivalent_maximum, hwritten, ?_⟩
  have hagree := (spellings_read_alike equivalent_maximum).1.expr
  rw [hwritten] at hagree
  generalize storedMaximum.decodeExpr = read at hagree
  cases hagree
  rfl

end Spelled

end WhilePlus.Document
