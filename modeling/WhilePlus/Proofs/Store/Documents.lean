import WhilePlus.Document.Encode
import WhilePlus.Proofs.Program.Safety
import WhilePlus.Proofs.Store.Rebinding

namespace WhilePlus

section Sorting

variable {α : Type} {fs fs' : List (String × α)}

private theorem increasing_sortFields (fs : List (String × α)) : Increasing (sortFields fs) :=
  increasing_rebind (k := id) (v := id) fs

/-- Sorting a record keeps its fields, if no name is there twice. -/
theorem mem_sortFields_iff (hnodup : (fs.map Prod.fst).Nodup) {f : String × α} :
    f ∈ sortFields fs ↔ f ∈ fs := by
  obtain ⟨name, a⟩ := f
  have hfound : (sortFields fs).lookup name = some a ↔ ∃ f ∈ fs, f.1 = name ∧ f.2 = a :=
    lookup_rebind_iff (v := id) (agree_of_nodup hnodup)
  rw [(increasing_sortFields fs).mem_iff_lookup, hfound]
  constructor
  · rintro ⟨f, hmem, rfl, rfl⟩
    exact hmem
  · intro hmem
    exact ⟨(name, a), hmem, rfl, rfl⟩

private theorem sortFields_perm (hnodup : (fs.map Prod.fst).Nodup) (hperm : fs'.Perm fs) :
    sortFields fs' = sortFields fs :=
  rebind_perm_iff.mpr (agree_of_nodup (v := id) hnodup) fs' hperm

end Sorting

section Bindings

variable {fields : List (String × Document)} {bindings : List (String × Cell)} {e : Error}

/-- What a field binds its name to, if it is a value. -/
def boundValue? (field : String × Document) : Option (String × Cell) :=
  (Value.ofDocument field.2).toOption.map fun v => (field.1, some v)

private theorem boundValue?_eq_some_iff {field : String × Document} {b : String × Cell} :
    boundValue? field = some b ↔
      b.1 = field.1 ∧ ∃ v, Value.ofDocument field.2 = .ok v ∧ b.2 = some v := by
  obtain ⟨name, cell⟩ := b
  rw [boundValue?]
  cases Value.ofDocument field.2 with
  | error fault => simp [Except.toOption]
  | ok v => simp [Except.toOption, eq_comm]

/-- Bindings are read if all fields are values, and then each name is bound to
    the value of its field. -/
theorem decodeBindings_eq_ok_iff :
    decodeBindings fields = .ok bindings ↔
      (∀ f ∈ fields, ∃ v, Value.ofDocument f.2 = .ok v) ∧ bindings = fields.filterMap boundValue? := by
  induction fields generalizing bindings with
  | nil => simp [decodeBindings, eq_comm]
  | cons field rest ih =>
    obtain ⟨name, d⟩ := field
    rw [decodeBindings, bind_eq_ok_iff, List.forall_mem_cons]
    constructor
    · rintro ⟨v, hv, h⟩
      obtain ⟨more, hmore, ⟨⟩⟩ := bind_eq_ok_iff.mp h
      have hv := within_eq_ok_iff.mp hv
      obtain ⟨hvalues, rfl⟩ := ih.mp hmore
      have hbound : boundValue? (name, d) = some (name, some v) :=
        boundValue?_eq_some_iff.mpr ⟨rfl, v, hv, rfl⟩
      exact ⟨⟨⟨v, hv⟩, hvalues⟩, by rw [List.filterMap_cons_some hbound]⟩
    · rintro ⟨⟨⟨v, hv⟩, hvalues⟩, rfl⟩
      have hbound : boundValue? (name, d) = some (name, some v) :=
        boundValue?_eq_some_iff.mpr ⟨rfl, v, hv, rfl⟩
      refine ⟨v, within_eq_ok_iff.mpr hv, ?_⟩
      rw [ih.mpr ⟨hvalues, rfl⟩, List.filterMap_cons_some hbound]
      rfl

/-- The field that is reported comes after fields that are values. -/
theorem exists_of_decodeBindings_eq_error (h : decodeBindings fields = .error e) :
    ∃ before f after fault, fields = before ++ f :: after ∧
      (∀ b ∈ before, ∃ v, Value.ofDocument b.2 = .ok v) ∧
      Value.ofDocument f.2 = .error fault ∧ e = fault.under ("store." ++ f.1 ++ ": ") := by
  induction fields with
  | nil => cases h
  | cons field rest ih =>
    obtain ⟨name, d⟩ := field
    rw [decodeBindings] at h
    cases hd : Value.ofDocument d with
    | error fault =>
      rw [hd] at h
      cases h
      exact ⟨[], (name, d), rest, fault, rfl, by simp, hd, rfl⟩
    | ok v =>
      cases hrest : decodeBindings rest with
      | error e' =>
        rw [hd, hrest] at h
        cases h
        obtain ⟨before, f, after, fault, rfl, hbefore, hf⟩ := ih hrest
        exact ⟨(name, d) :: before, f, after, fault, rfl,
          List.forall_mem_cons.mpr ⟨⟨v, hd⟩, hbefore⟩, hf⟩
      | ok more =>
        rw [hd, hrest] at h
        cases h

private theorem Increasing.filterMap_boundValue? (h : Increasing fields) :
    Increasing (fields.filterMap boundValue?) := by
  refine List.Pairwise.filterMap boundValue? (fun f f' hprecedes b hb b' hb' => ?_) h
  rw [(boundValue?_eq_some_iff.mp hb).1, (boundValue?_eq_some_iff.mp hb').1]
  exact hprecedes

end Bindings

section Reading

variable {fields : List (String × Document)} {s : Store} {e : Error} {name : String} {cell : Cell}

private theorem Store.bindings_ofList (bindings : List (String × Cell)) :
    (ofList bindings).bindings = rebind id id bindings := by
  induction bindings using List.reverseRecOn with
  | nil => rfl
  | append_singleton bindings b ih =>
    rw [rebind_snoc, ← ih, ofList, List.foldl_append]
    rfl

private theorem Store.ofDocument_eq_ok_iff :
    Store.ofDocument (.record fields) = .ok s ↔
      (∀ f ∈ sortFields fields, ∃ v, Value.ofDocument f.2 = .ok v) ∧
        s.bindings = (sortFields fields).filterMap boundValue? := by
  have hbindings : (ofList ((sortFields fields).filterMap boundValue?)).bindings =
      (sortFields fields).filterMap boundValue? := by
    rw [bindings_ofList, (increasing_sortFields fields).filterMap_boundValue?.rebind_eq]
  rw [Store.ofDocument, bind_eq_ok_iff]
  constructor
  · rintro ⟨bindings, hread, ⟨⟩⟩
    obtain ⟨hvalues, rfl⟩ := decodeBindings_eq_ok_iff.mp hread
    exact ⟨hvalues, hbindings⟩
  · rintro ⟨hvalues, hs⟩
    refine ⟨_, decodeBindings_eq_ok_iff.mpr ⟨hvalues, rfl⟩, congrArg Except.ok ?_⟩
    refine ext_get? fun name => ?_
    rw [get?, get?, hbindings, hs]

/-- The error is that of a field that is no value, and the others that are none
    come after it. -/
theorem Store.ofDocument_eq_error (h : Store.ofDocument (.record fields) = .error e) :
    ∃ f ∈ sortFields fields, ∃ fault, Value.ofDocument f.2 = .error fault ∧
      e = fault.under ("store." ++ f.1 ++ ": ") ∧
      ∀ other ∈ sortFields fields, (∃ fault', Value.ofDocument other.2 = .error fault') →
        other = f ∨ Text.Precedes f.1 other.1 := by
  have hread : decodeBindings (sortFields fields) = .error e := by
    rw [Store.ofDocument] at h
    cases hread : decodeBindings (sortFields fields) with
    | error e' =>
      rw [hread] at h
      cases h
      rfl
    | ok bindings =>
      rw [hread] at h
      cases h
  obtain ⟨before, f, after, fault, hfields, hbefore, hf, he⟩ :=
    exists_of_decodeBindings_eq_error hread
  have hafter : ∀ other ∈ after, Text.Precedes f.1 other.1 := by
    have hincreasing := increasing_sortFields fields
    rw [hfields] at hincreasing
    exact (List.pairwise_cons.mp (List.pairwise_append.mp hincreasing).2.1).1
  rw [hfields]
  refine ⟨f, by simp, fault, hf, he, ?_⟩
  rintro other hother ⟨fault', hfault⟩
  rcases List.mem_append.mp hother with hmem | hmem
  · obtain ⟨v, hv⟩ := hbefore other hmem
    cases hv.symm.trans hfault
  · exact (List.mem_cons.mp hmem).imp_right (hafter other)

/-- What is said of a document that is no value is no crash. -/
theorem Value.cause_ne_crash {d : Document} (h : Value.ofDocument d = .error e) (text : String) :
    e.cause ≠ .crash text := by
  rw [Value.ofDocument] at h
  split at h
  · cases h
  · cases h
    rw [Error.ofLiteral]
    split <;> simp [Error.ofText]

private theorem Value.ofDocument_toDocument (v : Value) : Value.ofDocument v.toDocument = .ok v := by
  cases v <;> rfl

/-- The fields of a store: under every name the tagged form of its value. -/
def Store.toFields (s : Store) : List (String × Document) :=
  s.bindings.filterMap fun b => b.2.map fun v => (b.1, v.toDocument)

private theorem Store.increasing_toFields (s : Store) : Increasing s.toFields := by
  refine List.Pairwise.filterMap _ (fun b b' hprecedes f hf f' hf' => ?_) s.increasing
  obtain ⟨v, -, rfl⟩ := Option.map_eq_some_iff.mp hf
  obtain ⟨v', -, rfl⟩ := Option.map_eq_some_iff.mp hf'
  exact hprecedes

/-- A store without empty cells is read back from its fields. -/
theorem Store.Full.ofDocument_toFields (h : s.Full) :
    Store.ofDocument (.record s.toFields) = .ok s := by
  have hsorted : sortFields s.toFields = s.toFields := s.increasing_toFields.rebind_eq
  rw [ofDocument_eq_ok_iff, hsorted]
  constructor
  · intro f hf
    obtain ⟨b, -, hb⟩ := List.mem_filterMap.mp hf
    obtain ⟨v, -, rfl⟩ := Option.map_eq_some_iff.mp hb
    exact ⟨v, Value.ofDocument_toDocument v⟩
  · rw [toFields, List.filterMap_filterMap, eq_comm]
    calc s.bindings.filterMap (fun b => (b.2.map fun v => (b.1, v.toDocument)).bind boundValue?)
        = s.bindings.filterMap some := by
          refine List.filterMap_congr fun b hb => ?_
          obtain ⟨v, hv⟩ := h b hb
          obtain ⟨name, cell⟩ := b
          obtain rfl : cell = some v := hv
          exact boundValue?_eq_some_iff.mpr ⟨rfl, v, Value.ofDocument_toDocument v, rfl⟩
      _ = s.bindings := List.filterMap_some

end Reading

/-- Stores are read from records field by field, and values are written in the
    form that they are read in. A record, whose names are all different, is a
    store exactly if each of its fields is a value; then the store binds exactly
    the names of the record, each to its value. Otherwise the error names the
    field that is no value and comes first by the bytes of its name. The order
    of the fields makes no difference. A store without empty cells is what the
    record of its values is read as, in any order. -/
theorem Store.ofDocument_fieldwise :
    (∀ fields : List (String × Document), (fields.map Prod.fst).Nodup →
      ((∃ s, Store.ofDocument (.record fields) = .ok s) ↔
        ∀ f ∈ fields, ∃ v, Value.ofDocument f.2 = .ok v) ∧
      (∀ s, Store.ofDocument (.record fields) = .ok s → ∀ name cell, s.get? name = some cell ↔
        ∃ d v, (name, d) ∈ fields ∧ Value.ofDocument d = .ok v ∧ cell = some v) ∧
      (∀ e, Store.ofDocument (.record fields) = .error e →
        ∃ name d fault, (name, d) ∈ fields ∧ Value.ofDocument d = .error fault ∧
          e.cause = fault.cause ∧ e.message = "store." ++ name ++ ": " ++ fault.message ∧
          ∀ other d', (other, d') ∈ fields → (∃ fault', Value.ofDocument d' = .error fault') →
            other = name ∨ Text.Precedes name other) ∧
      ∀ fields' : List (String × Document), fields'.Perm fields →
        Store.ofDocument (.record fields') = Store.ofDocument (.record fields)) ∧
    ∀ s : Store, s.Full → ∀ fields : List (String × Document), fields.Perm s.toFields →
      Store.ofDocument (.record fields) = .ok s := by
  have hperm : ∀ fields fields' : List (String × Document), (fields.map Prod.fst).Nodup →
      fields'.Perm fields →
      Store.ofDocument (.record fields') = Store.ofDocument (.record fields) := by
    intro fields fields' hnodup hperm
    rw [Store.ofDocument, Store.ofDocument, sortFields_perm hnodup hperm]
  refine ⟨fun fields hnodup => ⟨?_, fun s hs name cell => ?_, fun e he => ?_,
    fun fields' => hperm fields fields' hnodup⟩, fun s hfull fields hfields => ?_⟩
  · constructor
    · rintro ⟨s, hs⟩ f hf
      exact (ofDocument_eq_ok_iff.mp hs).1 f ((mem_sortFields_iff hnodup).mpr hf)
    · intro hvalues
      cases hread : Store.ofDocument (.record fields) with
      | ok s => exact ⟨s, rfl⟩
      | error e =>
        obtain ⟨f, hf, fault, hfault, -⟩ := ofDocument_eq_error hread
        obtain ⟨v, hv⟩ := hvalues f ((mem_sortFields_iff hnodup).mp hf)
        cases hv.symm.trans hfault
  · rw [← mem_bindings_iff, (ofDocument_eq_ok_iff.mp hs).2, List.mem_filterMap]
    simp only [boundValue?_eq_some_iff, mem_sortFields_iff hnodup]
    constructor
    · rintro ⟨⟨_, d⟩, hmem, rfl, v, hv, rfl⟩
      exact ⟨d, v, hmem, hv, rfl⟩
    · rintro ⟨d, v, hmem, hv, rfl⟩
      exact ⟨(name, d), hmem, rfl, v, hv, rfl⟩
  · obtain ⟨⟨name, d⟩, hf, fault, hfault, rfl, hfirst⟩ := ofDocument_eq_error he
    have hmessage := Error.message_under (Value.cause_ne_crash hfault) ("store." ++ name ++ ": ")
    refine ⟨name, d, fault, (mem_sortFields_iff hnodup).mp hf, hfault, Error.cause_under, hmessage, ?_⟩
    intro other d' hother hfails
    exact (hfirst _ ((mem_sortFields_iff hnodup).mpr hother) hfails).imp_left (congrArg Prod.fst)
  · rw [hperm s.toFields fields s.increasing_toFields.nodup_names hfields, hfull.ofDocument_toFields]

/-- A record in which two of three fields are no values. -/
def faultyFields : List (String × Document) :=
  [("c", .null), ("b", .record [("int", .text "one")]), ("a", .record [("BoolVal", .bool true)])]

/-- A store with the least number. -/
def extremeStore : Store :=
  .ofList [("y", some (.bool false)), ("x", some (.int (-9223372036854775808)))]

/-- Of two faulty fields the one with the lesser name is reported, though it
    comes last, and the extreme integers come back from their document. -/
theorem Store.ofDocument_fieldwise_faulty :
    (faultyFields.map Prod.fst).Nodup ∧
    (∃ e, Store.ofDocument (.record faultyFields.reverse) = .error e ∧
      e.message = "store.b: expected integer, got string" ∧
      ∃ name d fault, (name, d) ∈ faultyFields ∧ Value.ofDocument d = .error fault ∧
        e.message = "store." ++ name ++ ": " ++ fault.message) ∧
    extremeStore.Full ∧
    Store.ofDocument (.record extremeStore.toFields.reverse) = .ok extremeStore := by
  obtain ⟨hrecord, hstore⟩ := Store.ofDocument_fieldwise
  obtain ⟨-, -, herror, hperm⟩ := hrecord faultyFields (by decide)
  have hfull : extremeStore.Full := Store.full_ofList (by simp)
  refine ⟨by decide, ?_, hfull, hstore extremeStore hfull _ (List.reverse_perm _)⟩
  obtain ⟨name, d, fault, hmem, hfault, -, hmessage, -⟩ := herror _ rfl
  exact ⟨_, hperm _ (List.reverse_perm _), by decide, name, d, fault, hmem, hfault, hmessage⟩

end WhilePlus
