import WhilePlus.Proofs.Document.PartByPart

namespace WhilePlus.Document

/-- Why a document cannot be the node that is expected. -/
inductive Misfit (sort : NodeSort) : Document → Fault → Prop where
  | missing : Misfit sort .null .missingNode
  | notMapping {d : Document} (hnull : d ≠ .null) (hrecord : ∀ fs, d ≠ .record fs)
      (htable : ∀ entries, d ≠ .table entries) : Misfit sort d (.notMapping d.typeName)
  | otherKey {entries : List (Document × Document)} {key value : Document}
      (hmem : (key, value) ∈ entries) (hkey : ∀ s, key ≠ .text s) :
      Misfit sort (.table entries) (.keyNotText key.display)
  | untyped {d : Document} {fs : List (String × Document)} (hfields : HasFields d fs)
      (htype : ∀ type, type ≠ "" → fs.lookup "type" ≠ some (.text type)) : Misfit sort d .missingType
  | foreign {d : Document} {fs : List (String × Document)} {type : String} (hfields : HasFields d fs)
      (htype : fs.lookup "type" = some (.text type)) (hne : type ≠ "") (hforeign : type ∉ sort.types) :
      Misfit sort d (sort.foreignType type)

/-- How a document is refused: it is no node of the sort, or the parts of the
    node fit up to one that does not. -/
inductive Refused (sort : NodeSort) (d : Document) : DecodeError → Prop where
  | misfit {fault : Fault} (h : Misfit sort d fault) : Refused sort d ⟨[], fault⟩
  | part {fs : List (String × Document)} {before after : List Part} {part : Part} {e : DecodeError}
      (hfields : d.fields = .ok fs) (htype : nodeType fs ∈ sort.types)
      (hparts : parts fs = before ++ part :: after) (hbefore : ∀ b ∈ before, b.expected.Fits b.found)
      (hread : part.expected.read part.found = .error e) : Refused sort d (e.below part.place)

section Refusal

variable {sort : NodeSort} {d : Document} {fs : List (String × Document)} {e : DecodeError}

private theorem exists_key_of_textEntries {entries : List (Document × Document)} {fault : Fault}
    (h : textEntries entries = .error fault) :
    ∃ key value, (key, value) ∈ entries ∧ (∀ s, key ≠ .text s) ∧ fault = .keyNotText key.display := by
  induction entries with
  | nil => cases h
  | cons entry rest ih =>
    obtain ⟨key, value⟩ := entry
    cases key with
    | text name =>
      rw [textEntries] at h
      cases hrest : textEntries rest with
      | ok fs =>
        rw [hrest] at h
        cases h
      | error fault' =>
        rw [hrest] at h
        cases h
        obtain ⟨key, value, hmem, hkey⟩ := ih hrest
        exact ⟨key, value, List.mem_cons_of_mem _ hmem, hkey⟩
    | _ =>
      cases h
      refine ⟨_, value, List.mem_cons_self, fun s hkey => ?_, rfl⟩
      cases hkey

private theorem misfit_of_fields {fault : Fault} (h : d.fields = .error fault) : Misfit sort d fault := by
  cases d with
  | null =>
    cases h
    exact .missing
  | record fs => cases h
  | table entries =>
    obtain ⟨key, value, hmem, hkey, rfl⟩ := exists_key_of_textEntries h
    exact .otherKey hmem hkey
  | _ =>
    cases h
    exact .notMapping nofun nofun nofun

private theorem misfit_of_type (hfields : d.fields = .ok fs) (htype : nodeType fs ∉ sort.types) :
    Misfit sort d (if nodeType fs = "" then .missingType else sort.foreignType (nodeType fs)) := by
  split
  · next hempty =>
    refine .untyped (fields_eq_ok_iff.mp hfields) fun type hne hfound => hne ?_
    rw [← (nodeType_eq_iff hne).mpr hfound, hempty]
  · next hne =>
    exact .foreign (fields_eq_ok_iff.mp hfields) ((nodeType_eq_iff hne).mp rfl) hne htype

private theorem decodeExpr_foreign (h : nodeType fs ∉ NodeSort.expr.types) :
    (record fs).decodeExpr =
      (if nodeType fs = "" then .missingType else .unknownExpression (nodeType fs) : Fault).here := by
  rw [decodeExpr.eq_def]
  dsimp only [fields]
  split
  case h_6 hname => rw [hname, if_pos rfl]; rfl
  case h_7 hname => rw [if_neg hname]; rfl
  all_goals simp_all [NodeSort.types]

private theorem decodeStmt_foreign (h : nodeType fs ∉ NodeSort.stmt.types) :
    (record fs).decodeStmt =
      (if nodeType fs = "" then .missingType else .unknownStatement (nodeType fs) : Fault).here := by
  rw [decodeStmt.eq_def]
  dsimp only [fields]
  split
  case h_10 hname => rw [hname, if_pos rfl]; rfl
  case h_11 hname => rw [if_neg hname]; rfl
  all_goals simp_all [NodeSort.types]

private theorem decode_of_fault {fault : Fault} (h : d.fields = .error fault) : sort.decode d = fault.here := by
  cases sort with
  | expr => rw [NodeSort.decode, decodeExpr_of_fault h]; rfl
  | stmt => rw [NodeSort.decode, decodeStmt_of_fault h]; rfl

private theorem decode_foreign (hfields : d.fields = .ok fs) (htype : nodeType fs ∉ sort.types) :
    sort.decode d =
      (if nodeType fs = "" then .missingType else sort.foreignType (nodeType fs) : Fault).here := by
  cases sort with
  | expr => rw [NodeSort.decode, decodeExpr_of_fields hfields, decodeExpr_foreign htype]; rfl
  | stmt => rw [NodeSort.decode, decodeStmt_of_fields hfields, decodeStmt_foreign htype]; rfl

private theorem refused_of_decode (h : sort.decode d = .error e) : Refused sort d e := by
  cases hfields : d.fields with
  | error fault =>
    obtain rfl := Except.error.inj (h.symm.trans (decode_of_fault hfields))
    exact .misfit (misfit_of_fields hfields)
  | ok fs =>
    by_cases htype : nodeType fs ∈ sort.types
    · obtain ⟨before, part, after, hparts, hbefore, hpart⟩ :=
        (readsParts_decode hfields htype).eq_error_iff.mp h
      obtain ⟨e', hread, rfl⟩ := Part.read_eq_error_iff.mp hpart
      refine .part hfields htype hparts (fun b hb => ?_) hread
      exact Expected.read_eq_ok_iff.mp (Part.read_eq_ok_iff.mp (hbefore b hb))
    · obtain rfl := Except.error.inj (h.symm.trans (decode_foreign hfields htype))
      exact .misfit (misfit_of_type hfields htype)

private theorem exists_fields_of_decode {n : Node} (h : sort.decode d = .ok n) :
    ∃ fs, d.fields = .ok fs ∧ nodeType fs ∈ sort.types := by
  cases hfields : d.fields with
  | error fault => cases h.symm.trans (decode_of_fault hfields)
  | ok fs =>
    by_cases htype : nodeType fs ∈ sort.types
    · exact ⟨fs, rfl, htype⟩
    · cases h.symm.trans (decode_foreign hfields htype)

end Refusal

section Nodes

variable {sort sort' : NodeSort} {d d' : Document} {p : Place}

/-- A node that is accepted has a known type, and all its parts fit. -/
theorem fits_node_iff : Expected.Fits (.node sort) d ↔
    ∃ fs, d.fields = .ok fs ∧ nodeType fs ∈ sort.types ∧
      ∀ part ∈ parts fs, part.expected.Fits part.found := by
  rw [← exists_decode_iff]
  have hparts {fs : List (String × Document)} (hfields : d.fields = .ok fs)
      (htype : nodeType fs ∈ sort.types) : (∃ n, sort.decode d = .ok n) ↔
        ∀ part ∈ parts fs, part.expected.Fits part.found := by
    rw [(readsParts_decode hfields htype).eq_ok_iff]
    exact forall₂_congr fun part _ => Part.read_eq_ok_iff.trans Expected.read_eq_ok_iff
  constructor
  · rintro ⟨n, h⟩
    obtain ⟨fs, hfields, htype⟩ := exists_fields_of_decode h
    exact ⟨fs, hfields, htype, (hparts hfields htype).mp ⟨n, h⟩⟩
  · rintro ⟨fs, hfields, htype, hfit⟩
    exact (hparts hfields htype).mpr hfit

private theorem fits_of_nodeAt (h : NodeAt sort d p sort' d') (hd : Expected.Fits (.node sort) d) :
    Expected.Fits (.node sort') d' := by
  induction h with
  | root => exact hd
  | part _ hfields _ hpart hnode ih =>
    obtain ⟨fs, hfields', -, hfit⟩ := fits_node_iff.mp ih
    obtain rfl := Except.ok.inj (hfields.symm.trans hfields')
    exact hnode ▸ hfit _ hpart

end Nodes

/-- A node that is read before what is at a place: it stands in a part before
    the one that leads to the place, in the node at hand or in a node on the
    way. -/
inductive ReadBefore : NodeSort → Document → Place → NodeSort → Document → Prop where
  | sibling {sort sort' below : NodeSort} {d d' : Document} {fs : List (String × Document)}
      {before after : List Part} {part other : Part} {p q : Place} (hfields : d.fields = .ok fs)
      (hparts : parts fs = before ++ part :: after) (hother : other ∈ before)
      (hnode : other.expected = .node sort') (hbelow : NodeAt sort' other.found q below d') :
      ReadBefore sort d (part.place ++ p) below d'
  | within {sort sort' below : NodeSort} {d d' : Document} {fs : List (String × Document)} {part : Part}
      {p : Place} (hfields : d.fields = .ok fs) (hpart : part ∈ parts fs)
      (hnode : part.expected = .node sort') (hbefore : ReadBefore sort' part.found p below d') :
      ReadBefore sort d (part.place ++ p) below d'

/-- A fault at a place: no node where one is expected, or a part of a node that
    does not fit, which is then the fault of what stands there. -/
inductive FaultAt (sort : NodeSort) (d : Document) : Place → Fault → Prop where
  | node {sort' : NodeSort} {d' : Document} {p : Place} {fault : Fault}
      (hat : NodeAt sort d p sort' d') (h : Misfit sort' d' fault) : FaultAt sort d p fault
  | part {sort' : NodeSort} {d' : Document} {p : Place} {fs : List (String × Document)} {part : Part}
      {fault : Fault} (hat : NodeAt sort d p sort' d') (hfields : d'.fields = .ok fs)
      (htype : nodeType fs ∈ sort'.types) (hpart : part ∈ parts fs)
      (hvalue : ∀ below, part.expected ≠ .node below) (hfits : ¬ part.expected.Fits part.found)
      (hread : part.expected.read part.found = .error ⟨[], fault⟩) :
      FaultAt sort d (p ++ part.place) fault

/-- An error points at the fault of a document. -/
structure PointsAtFault (sort : NodeSort) (d : Document) (e : DecodeError) : Prop where
  /-- Every step of the place leads somewhere, except perhaps the last one. -/
  resolves : (d.at? e.place.dropLast).isSome
  /-- The text of the place says which place it is. -/
  readable : ∀ p : Place, p.IsPlain → p.display = e.place.display → p = e.place
  /-- What stands there has the fault. -/
  fault : FaultAt sort d e.place e.fault
  /-- The nodes that are read before are nodes. -/
  before : ∀ below d', ReadBefore sort d e.place below d' → Expected.Fits (.node below) d'
  /-- Every node on the way has the fault at the rest of the place. -/
  same : ∀ below d' p q, NodeAt sort d p below d' → e.place = p ++ q →
    below.decode d' = .error ⟨q, e.fault⟩

section Pointing

variable {sort : NodeSort} {d : Document} {e : DecodeError}

/-- What is no node is refused as a whole: the fault of a plain value lies at
    the value itself, not further down. -/
theorem exists_fault_of_value {expected : Expected} (hvalue : ∀ sort, expected ≠ .node sort)
    (h : expected.read d = .error e) : ∃ fault, e = ⟨[], fault⟩ := by
  have hlift {α : Type} {x : Except Fault α}
      (h : verdict (x.mapError (DecodeError.mk [])) = .error e) : ∃ fault, e = ⟨[], fault⟩ := by
    cases x with
    | error fault =>
      cases h
      exact ⟨fault, rfl⟩
    | ok a => cases h
  cases expected with
  | node sort => exact absurd rfl (hvalue sort)
  | literal => exact hlift h
  | integer => exact hlift h
  | bool => exact hlift h
  | mapping => exact hlift h
  | _ =>
    rw [Expected.read.eq_def] at h
    dsimp only at h
    repeat' split at h
    all_goals
      cases h
      try exact ⟨_, rfl⟩

/-- A part on the way to a place is not followed by another one on that way. The
    parts of a node have places of which none continues another. -/
theorem not_on_way {fs : List (String × Document)} {before after : List Part} {part other : Part}
    {p : Place} (h : parts fs = before ++ part :: after) (hother : other ∈ after)
    (hp : part.place <+: p) : ¬ other.place <+: p := by
  intro hp'
  have hpairwise := pairwise_parts fs
  rw [h] at hpairwise
  obtain ⟨hnot, hnot'⟩ := List.rel_of_pairwise_cons (List.pairwise_append.mp hpairwise).2.1 hother
  exact (List.prefix_or_prefix_of_prefix hp hp').elim hnot hnot'

/-- Two parts on the way to one place are one part, with the same parts before
    it. -/
theorem part_eq_of_prefix {fs : List (String × Document)} {before after before' after' : List Part}
    {part part' : Part} {p : Place} (h : parts fs = before ++ part :: after)
    (h' : parts fs = before' ++ part' :: after') (hp : part.place <+: p) (hp' : part'.place <+: p) :
    before = before' ∧ part = part' := by
  obtain ⟨between, hbefore, hrest⟩ | ⟨between, hbefore, hrest⟩ :=
    List.append_eq_append_iff.mp (h.symm.trans h')
  · cases between with
    | nil => exact ⟨by rw [hbefore, List.append_nil], (List.cons.inj hrest).1⟩
    | cons first between =>
      obtain ⟨-, rfl⟩ := List.cons.inj hrest
      exact absurd hp' (not_on_way h (List.mem_append_right _ List.mem_cons_self) hp)
  · cases between with
    | nil => exact ⟨by rw [hbefore, List.append_nil], (List.cons.inj hrest).1.symm⟩
    | cons first between =>
      obtain ⟨-, rfl⟩ := List.cons.inj hrest
      exact absurd hp (not_on_way h' (List.mem_append_right _ List.mem_cons_self) hp')

/-- On the way to its fault, a node is refused for the part that stands there,
    with the rest of the way. All parts that are read before it are as expected. -/
theorem refused_below {fs : List (String × Document)} {before after : List Part} {part : Part} {p : Place}
    {fault : Fault} (h : sort.decode d = .error ⟨part.place ++ p, fault⟩) (hfields : d.fields = .ok fs)
    (hparts : parts fs = before ++ part :: after) :
    (∀ b ∈ before, b.expected.Fits b.found) ∧ part.expected.read part.found = .error ⟨p, fault⟩ := by
  have hpart : part ∈ parts fs := hparts ▸ List.mem_append_right _ List.mem_cons_self
  generalize he : (⟨part.place ++ p, fault⟩ : DecodeError) = e at h
  cases refused_of_decode h with
  | misfit =>
    obtain ⟨hplace, -⟩ := DecodeError.mk.inj he
    exact absurd (List.append_eq_nil_iff.mp hplace).1 (place_ne_nil hpart)
  | @part _ _ _ part' e' hfields' _ hparts' hbefore hread =>
    obtain rfl := Except.ok.inj (hfields.symm.trans hfields')
    obtain ⟨hplace, rfl⟩ := DecodeError.mk.inj he
    obtain ⟨rfl, rfl⟩ := part_eq_of_prefix hparts hparts' ⟨p, hplace⟩ (List.prefix_append _ _)
    obtain rfl := List.append_cancel_left hplace
    exact ⟨hbefore, hread⟩

private theorem decode_of_nodeAt {sort' : NodeSort} {d' : Document} {p q : Place} {fault : Fault}
    (hat : NodeAt sort d p sort' d') (h : sort.decode d = .error ⟨p ++ q, fault⟩) :
    sort'.decode d' = .error ⟨q, fault⟩ := by
  induction hat generalizing q with
  | root => exact h
  | part _ hfields _ hpart hnode ih =>
    obtain ⟨before, after, hparts⟩ := List.append_of_mem hpart
    rw [List.append_assoc] at h
    obtain ⟨-, hread⟩ := refused_below (ih h) hfields hparts
    rw [hnode] at hread
    exact verdict_eq_error_iff.mp hread

private theorem fits_of_readBefore {sort' : NodeSort} {d' : Document} {p : Place} {fault : Fault}
    (hat : ReadBefore sort d p sort' d') (h : sort.decode d = .error ⟨p, fault⟩) :
    Expected.Fits (.node sort') d' := by
  induction hat with
  | sibling hfields hparts hother hnode hbelow =>
    obtain ⟨hbefore, -⟩ := refused_below h hfields hparts
    exact fits_of_nodeAt hbelow (hnode ▸ hbefore _ hother)
  | within hfields hpart hnode _ ih =>
    obtain ⟨before, after, hparts⟩ := List.append_of_mem hpart
    obtain ⟨-, hread⟩ := refused_below h hfields hparts
    rw [hnode] at hread
    exact ih (verdict_eq_error_iff.mp hread)

private theorem FaultAt.under {sort' : NodeSort} {fs : List (String × Document)} {part : Part} {p : Place}
    {fault : Fault} (h : FaultAt sort' part.found p fault) (hfields : d.fields = .ok fs)
    (htype : nodeType fs ∈ sort.types) (hpart : part ∈ parts fs) (hnode : part.expected = .node sort') :
    FaultAt sort d (part.place ++ p) fault := by
  cases h with
  | node hat hmisfit => exact .node (hat.inside hfields htype hpart hnode) hmisfit
  | part hat hfields' htype' hpart' hvalue hfits hread =>
    rw [← List.append_assoc]
    exact .part (hat.inside hfields htype hpart hnode) hfields' htype' hpart' hvalue hfits hread

/-- By induction on the length of the place: a node that is refused for a node
    in it has a fault further in. -/
theorem faultAt_of_decode (h : sort.decode d = .error e) :
    FaultAt sort d e.place e.fault ∧ e.place.IsPlain := by
  induction hlength : e.place.length using Nat.strong_induction_on generalizing sort d e with
  | _ length ih =>
    cases refused_of_decode h with
    | misfit hmisfit => exact ⟨.node (.root) hmisfit, Place.isPlain_nil⟩
    | @part fs before after part e' hfields htype hparts _ hread =>
      have hpart : part ∈ parts fs := hparts ▸ List.mem_append_right _ List.mem_cons_self
      by_cases hnode : ∃ sort', part.expected = .node sort'
      · obtain ⟨sort', hnode⟩ := hnode
        rw [hnode] at hread
        have hshorter : e'.place.length < length := by
          have := List.length_pos_iff.mpr (place_ne_nil hpart)
          rw [← hlength, DecodeError.below, List.length_append]
          omega
        obtain ⟨hfault, hplain⟩ := ih _ hshorter (verdict_eq_error_iff.mp hread) rfl
        exact ⟨hfault.under hfields htype hpart hnode,
          Place.isPlain_append.mpr ⟨isPlain_place hpart, hplain⟩⟩
      · have hvalue (sort' : NodeSort) : part.expected ≠ .node sort' := fun h => hnode ⟨sort', h⟩
        obtain ⟨fault, rfl⟩ := exists_fault_of_value hvalue hread
        have hfits : ¬ part.expected.Fits part.found := fun hfits => by
          rw [Expected.read_eq_ok_iff.mpr hfits] at hread
          cases hread
        rw [DecodeError.below, List.append_nil]
        exact ⟨.part (.root) hfields htype hpart hvalue hfits hread, isPlain_place hpart⟩

private theorem resolves_of_faultAt {p : Place} {fault : Fault} (h : FaultAt sort d p fault) :
    (d.at? p.dropLast).isSome := by
  cases h with
  | node hat _ =>
    cases hat with
    | root => rfl
    | part habove hfields _ hpart _ => exact at?_dropLast_of_part habove hfields hpart
  | part hat hfields _ hpart => exact at?_dropLast_of_part hat hfields hpart

/-- The error of a document that is refused points at its fault. -/
theorem pointsAtFault_of_decode (h : sort.decode d = .error e) : PointsAtFault sort d e where
  resolves := resolves_of_faultAt (faultAt_of_decode h).1
  readable _ hp htext := Place.display_injective hp (faultAt_of_decode h).2 htext
  fault := (faultAt_of_decode h).1
  before _ _ hbefore := fits_of_readBefore hbefore h
  same _ _ _ _ hat hplace := decode_of_nodeAt hat (by rw [← hplace]; exact h)

/-- A loop whose body is a list, the second statement of which prints nothing. -/
def printlessLoop : Document :=
  .record [("type", .text "While"),
    ("condition", .record [("type", .text "Var"), ("name", .text "x")]),
    ("body", .record [("type", .text "Seq"),
      ("statements", .list [.record [("type", .text "Skip")],
        .table [(.text "type", .text "Print"), (.text "prefix", .null)]])])]

/-- The fault is below the body of the loop, in the second of its statements:
    the expression to print is missing. -/
theorem pointsAtFault_of_decode_printless :
    NodeSort.stmt.decode printlessLoop =
        .error ⟨[.field "body", .field "statements", .index 1, .field "expression"], .missingNode⟩ ∧
      PointsAtFault .stmt printlessLoop
        ⟨[.field "body", .field "statements", .index 1, .field "expression"], .missingNode⟩ := by
  have hdecode : NodeSort.stmt.decode printlessLoop =
      .error ⟨[.field "body", .field "statements", .index 1, .field "expression"], .missingNode⟩ := by
    decide +kernel
  exact ⟨hdecode, pointsAtFault_of_decode hdecode⟩

end Pointing

end WhilePlus.Document
