import WhilePlus.Program
import WhilePlus.Proofs.Document.Shape

namespace WhilePlus

namespace Document

/-- The fields that are read from a statement, as its type says. -/
def statementFields : String → List String
  | "Assign" => ["type", "span", "name", "value"]
  | "If" => ["type", "span", "condition", "then", "else"]
  | "While" => ["type", "span", "condition", "body"]
  | "Sequence" | "Seq" => ["type", "span", "statements", "first", "second"]
  | "Print" => ["type", "span", "prefix", "expression"]
  | "Throw" => ["type", "span", "expression"]
  | "Try" => ["type", "span", "body", "binding", "handler"]
  | _ => ["type", "span"]

/-- The fields of a statement without those that are not read. -/
def knownFields (fs : List (String × Document)) : List (String × Document) :=
  fs.filter fun field => (statementFields (nodeType fs)).contains field.1

variable {fs fs' : List (String × Document)}

private theorem lookup_filter (fs : List (String × Document)) (keep : String → Bool) (name : String) :
    (fs.filter fun field => keep field.1).lookup name = if keep name then fs.lookup name else none := by
  induction fs with
  | nil => simp
  | cons field rest ih =>
    obtain ⟨other, value⟩ := field
    by_cases hname : name = other
    · subst hname
      cases hkeep : keep name <;> simp [hkeep, ih]
    · have hne : (name == other) = false := beq_eq_false_iff_ne.mpr hname
      cases hkeep : keep other <;> simp [hkeep, ih, List.lookup_cons, hne]

private theorem type_mem_statementFields (type : String) : "type" ∈ statementFields type := by
  unfold statementFields
  split <;> simp

private theorem span_mem_statementFields (type : String) : "span" ∈ statementFields type := by
  unfold statementFields
  split <;> simp

/-- A statement is read from the fields of its type only. -/
theorem decodeStmt_congr
    (h : ∀ name ∈ statementFields (nodeType fs), fs.lookup name = fs'.lookup name) :
    (record fs).decodeStmt = (record fs').decodeStmt := by
  have hmember : ∀ name ∈ statementFields (nodeType fs), member fs name = member fs' name := by
    intro name hname
    rw [member, member, h name hname]
  have htype : nodeType fs' = nodeType fs := by
    rw [nodeType, nodeType, hmember _ (type_mem_statementFields _)]
  have hspan : decodeSpan fs = decodeSpan fs' := by
    rw [decodeSpan, decodeSpan, hmember _ (span_mem_statementFields _)]
  rw [decodeStmt.eq_def (record fs), decodeStmt.eq_def (record fs')]
  simp only [located, fields, hspan, htype]
  congr 1
  -- Which fields are alike depends on the type, so the members are exchanged type by type.
  split
  · next hname =>
    rw [hname] at hmember
    simp only [requiredText, hmember "name" (by decide), hmember "value" (by decide)]
  · next hname =>
    rw [hname] at hmember
    simp only [hmember "condition" (by decide), hmember "then" (by decide), hmember "else" (by decide)]
  · next hname =>
    rw [hname] at hmember
    simp only [hmember "condition" (by decide), hmember "body" (by decide)]
  case h_4 hname | h_5 hname =>
    rw [hname] at hmember h
    rw [h "statements" (by decide), hmember "first" (by decide), hmember "second" (by decide)]
    congr 1
    -- The match keeps an equation for its list, so the list cannot be exchanged in place.
    split
    · next items hitems =>
      rw [hmember "statements" (by decide)] at hitems
      split
      · next items' hitems' =>
        cases hitems.symm.trans hitems'
        rfl
      · next hother => exact absurd hitems (hother items)
    · next hother =>
      rw [hmember "statements" (by decide)] at hother ⊢
      split
      · next items' hitems' => exact absurd hitems' (hother items')
      · rfl
  · next hname =>
    rw [hname] at hmember
    simp only [optionalText, hmember "prefix" (by decide), hmember "expression" (by decide)]
  · next hname =>
    rw [hname] at hmember
    simp only [hmember "expression" (by decide)]
  · next hname =>
    rw [hname] at hmember
    simp only [requiredText, hmember "body" (by decide), hmember "binding" (by decide),
      hmember "handler" (by decide)]
  · rfl
  · rfl
  · rfl

private theorem decodeStmt_knownFields (fs : List (String × Document)) :
    (record (knownFields fs)).decodeStmt = (record fs).decodeStmt := by
  refine (decodeStmt_congr fun name hname => ?_).symm
  rw [knownFields, lookup_filter, if_pos (List.contains_iff_mem.mpr hname)]

end Document

section Names

variable {α : Type} {name : String}

private theorem mem_names_insertBinding {other : String} {a : α} {bindings : List (String × α)} :
    name ∈ (insertBinding other a bindings).map Prod.fst ↔
      name = other ∨ name ∈ bindings.map Prod.fst := by
  induction bindings with
  | nil => simp [insertBinding]
  | cons head rest ih =>
    rw [insertBinding]
    split
    · simp
    split
    · next heq =>
      subst heq
      simp
    · rw [List.map_cons, List.mem_cons, ih, List.map_cons, List.mem_cons, or_left_comm]

private theorem mem_names_sortFields {fs : List (String × α)} :
    name ∈ (sortFields fs).map Prod.fst ↔ name ∈ fs.map Prod.fst := by
  suffices ∀ sorted : List (String × α),
      name ∈ (fs.foldl (fun sorted f => insertBinding f.1 f.2 sorted) sorted).map Prod.fst ↔
        name ∈ sorted.map Prod.fst ∨ name ∈ fs.map Prod.fst by
    simpa [sortFields] using this []
  induction fs with
  | nil => simp
  | cons field rest ih =>
    intro sorted
    rw [List.foldl_cons, ih, mem_names_insertBinding, List.map_cons, List.mem_cons, or_assoc,
      or_left_comm]

/-- A search among the sorted fields that looks at names only. -/
theorem find?_sortFields_eq_none_iff {fs : List (String × α)} (unknown : String → Bool) :
    ((sortFields fs).find? fun f => unknown f.1) = none ↔
      ∀ name ∈ fs.map Prod.fst, unknown name = false := by
  have hnames : (∀ name ∈ (sortFields fs).map Prod.fst, unknown name = false) ↔
      ∀ name ∈ fs.map Prod.fst, unknown name = false :=
    forall_congr' fun name => imp_congr_left mem_names_sortFields
  rw [← hnames, List.find?_eq_none, List.forall_mem_map]
  simp

end Names

private theorem Stmt.ofDocument_eq_ok_iff {d : Document} {s : Stmt} :
    Stmt.ofDocument d = .ok s ↔ d.decodeStmt = .ok s := by
  unfold Stmt.ofDocument
  cases d.decodeStmt <;> simp

namespace Program

/-- The fields of a document that has the statement under `program`: beside it
    there is at most the store, and it is read. -/
structure Wraps (fs : List (String × Document)) (p : Program) : Prop where
  body : ∃ d, fs.lookup "program" = some d ∧ d.decodeStmt = .ok p.body
  store : Store.ofDocument (Document.member fs "store") = .ok p.store
  names : ∀ name ∈ fs.map Prod.fst, name = "program" ∨ name = "store"

/-- The fields of a document that is the statement itself. Only the fields of
    the statement are read, and the program starts from the empty store. -/
structure IsBare (fs : List (String × Document)) (p : Program) : Prop where
  body : (Document.record (Document.knownFields fs)).decodeStmt = .ok p.body
  store : p.store = .empty
  unwrapped : fs.lookup "program" = none

private theorem ofFields_eq_ok_iff {fs : List (String × Document)} {p : Program} :
    ofFields fs = .ok p ↔ Wraps fs p ∨ IsBare fs p := by
  unfold ofFields
  cases hprogram : fs.lookup "program" with
  | none =>
    rw [bind_eq_ok_iff]
    constructor
    · rintro ⟨body, hbody, ⟨⟩⟩
      rw [Stmt.ofDocument_eq_ok_iff, ← Document.decodeStmt_knownFields] at hbody
      exact .inr ⟨hbody, rfl, hprogram⟩
    · rintro (⟨⟨d, hd, _⟩, _, _⟩ | ⟨hbody, hstore, _⟩)
      · simp [hprogram] at hd
      · rw [Document.decodeStmt_knownFields] at hbody
        refine ⟨p.body, Stmt.ofDocument_eq_ok_iff.mpr hbody, ?_⟩
        rw [← hstore]
  | some d =>
    have hknown : ((sortFields fs).find? fun f => f.1 != "program" && f.1 != "store") = none ↔
        ∀ name ∈ fs.map Prod.fst, name = "program" ∨ name = "store" := by
      rw [find?_sortFields_eq_none_iff fun name => name != "program" && name != "store"]
      refine forall₂_congr fun name _ => ?_
      rw [Bool.and_eq_false_iff, bne_eq_false_iff_eq, bne_eq_false_iff_eq]
    dsimp only
    split
    · next field hfield =>
      constructor
      · nofun
      · rintro (⟨_, _, hnames⟩ | ⟨_, _, hnone⟩)
        · rw [hknown.mpr hnames] at hfield
          cases hfield
        · rw [hprogram] at hnone
          cases hnone
    · next hfield =>
      constructor
      · intro h
        obtain ⟨store, hstore, h⟩ := bind_eq_ok_iff.mp h
        obtain ⟨body, hbody, ⟨⟩⟩ := bind_eq_ok_iff.mp h
        exact .inl ⟨⟨d, hprogram, Stmt.ofDocument_eq_ok_iff.mp hbody⟩, hstore, hknown.mp hfield⟩
      · rintro (⟨⟨d', hd', hbody⟩, hstore, _⟩ | ⟨_, _, hnone⟩)
        · cases hprogram.symm.trans hd'
          rw [hstore, ok_bind, Stmt.ofDocument_eq_ok_iff.mpr hbody]
          rfl
        · rw [hprogram] at hnone
          cases hnone

/-- Which documents are accepted, and as what: those with a statement under
    `program`, a store beside it and nothing else, and those that are a
    statement, where any other field is passed over. -/
theorem parse_eq_ok_iff {bytes : List UInt8} {format : Format} {p : Program} :
    parse bytes format = .ok p ↔
      ∃ fs, readDocument bytes format = .ok (.record fs) ∧ (Wraps fs p ∨ IsBare fs p) := by
  unfold parse
  rw [bind_eq_ok_iff]
  constructor
  · rintro ⟨d, hread, hp⟩
    unfold ofDocument at hp
    split at hp
    · exact ⟨_, hread, ofFields_eq_ok_iff.mp hp⟩
    · cases hp
  · rintro ⟨fs, hread, hp⟩
    exact ⟨_, hread, ofFields_eq_ok_iff.mpr hp⟩

/-- The document of a skip with a store beside it. -/
def strayStore : List UInt8 :=
  Text.toBytes "\x7b\"type\": \"Skip\", \"store\": \x7b\"x\": \x7b\"int\": 1\x7d\x7d\x7d"

/-- The fields of that document. -/
def strayFields : List (String × Document) :=
  [("type", .text "Skip"), ("store", .record [("x", .record [("int", .number "1")])])]

private theorem readDocument_strayStore : readDocument strayStore .json = .ok (.record strayFields) := by
  have hdecoded : Text.decodeLossy strayStore =
      "\x7b\"type\": \"Skip\", \"store\": \x7b\"x\": \x7b\"int\": 1\x7d\x7d\x7d".toList := by
    decide +kernel
  rw [readDocument, hdecoded]
  rfl

private theorem ofFields_strayFields : ofFields strayFields = .ok ⟨.empty, .skip .zero⟩ := by
  decide +kernel

/-- A store beside a statement that stands alone is accepted, though no
    statement has such a field, and the program starts from the empty store. -/
theorem parse_strayStore :
    ∃ fs p, readDocument strayStore .json = .ok (.record fs) ∧ parse strayStore .json = .ok p ∧
      (fs.lookup "store").isSome ∧ p.store = .empty ∧
      ¬ ((fs.lookup "program").isSome ∧ ∀ name ∈ fs.map Prod.fst, name = "program" ∨ name = "store") ∧
      ¬ ∀ name ∈ fs.map Prod.fst, name ∈ Document.statementFields (Document.nodeType fs) := by
  refine ⟨strayFields, ⟨.empty, .skip .zero⟩, readDocument_strayStore, ?_, by decide, rfl, by decide,
    by decide⟩
  rw [parse, readDocument_strayStore]
  exact ofFields_strayFields

end Program

end WhilePlus
