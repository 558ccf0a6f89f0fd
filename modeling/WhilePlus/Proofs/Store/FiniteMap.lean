import Mathlib.Data.List.Perm.Subperm
import WhilePlus.Proofs.Store.Bindings
import WhilePlus.Proofs.Text.Bytes
import WhilePlus.Run.Execute

namespace WhilePlus

namespace Store

/-- The store after some bindings were written to it, one after the other. -/
def setAll (s : Store) (writes : List (String × Cell)) : Store :=
  writes.foldl (fun s b => s.set b.1 b.2) s

variable {s other : Store} {name : String}

/-- What was written last under a name is found there. -/
theorem get?_setAll (s : Store) (writes : List (String × Cell)) (name : String) :
    (s.setAll writes).get? name = (writes.reverse.lookup name).or (s.get? name) := by
  induction writes generalizing s with
  | nil => rfl
  | cons w writes ih =>
    obtain ⟨written, cell⟩ := w
    have hrest : (s.setAll ((written, cell) :: writes)).get? name =
        ((s.set written cell).setAll writes).get? name := rfl
    rw [hrest, ih, get?_set, List.reverse_cons, List.lookup_append, Option.or_assoc]
    congr 1
    by_cases hname : name = written
    · subst hname
      simp
    · have hne : (name == written) = false := beq_eq_false_iff_ne.mpr hname
      simp [hname, List.lookup_cons, hne]

private theorem mem_names_iff : name ∈ s.names ↔ (s.get? name).isSome = true := by
  rw [names, List.mem_map, Option.isSome_iff_exists]
  constructor
  · rintro ⟨⟨_, cell⟩, hmem, rfl⟩
    exact ⟨cell, mem_bindings_iff.mp hmem⟩
  · rintro ⟨cell, hget⟩
    exact ⟨(name, cell), mem_bindings_iff.mpr hget, rfl⟩

private theorem nodup_bindings (s : Store) : s.bindings.Nodup :=
  s.increasing.nodup_names.of_map

private theorem equal_iff : s.equal other = true ↔
    s.size = other.size ∧ ∀ b ∈ s.bindings, other.get? b.1 = some b.2 := by
  rw [equal, Bool.and_eq_true, beq_iff_eq, List.all_eq_true]
  refine and_congr_right fun _ => forall₂_congr fun b _ => ?_
  cases other.get? b.1 with
  | none => simp
  | some cell => rw [Option.some_inj, Cell.equal_iff, eq_comm]

/-- As the bindings of a store are all different, one that has equally many as
    another one and all of them there has no others. -/
theorem equal_iff_eq : s.equal other = true ↔ s = other := by
  rw [equal_iff]
  constructor
  · rintro ⟨hsize, hbound⟩
    have hsubset : s.bindings ⊆ other.bindings := fun b hb => mem_bindings_iff.mpr (hbound b hb)
    have hsubperm : s.bindings.Subperm other.bindings := s.nodup_bindings.subperm hsubset
    have hperm := hsubperm.perm_of_length_le (le_of_eq hsize.symm)
    have hbindings := s.increasing.ext other.increasing fun b => hperm.mem_iff
    cases s
    cases other
    simpa using hbindings
  · rintro rfl
    exact ⟨rfl, fun b hb => mem_bindings_iff.mp hb⟩

instance : LawfulBEq Store where
  rfl := equal_iff_eq.mpr rfl
  eq_of_beq := equal_iff_eq.mp

private theorem equal_iff_get? : s.equal other = true ↔ ∀ name, s.get? name = other.get? name := by
  rw [equal_iff_eq]
  exact ⟨fun h name => congrArg (get? · name) h, ext_get?⟩

private theorem set_comm (s : Store) {name name' : String} (hne : name ≠ name') (cell cell' : Cell) :
    (s.set name cell).set name' cell' = (s.set name' cell').set name cell := by
  refine ext_get? fun found => ?_
  simp only [get?_set]
  by_cases hfound : found = name
  · subst hfound
    simp [hne]
  · simp [hfound]

private theorem pairwise_names : s.names.Pairwise Text.Precedes :=
  List.pairwise_map.mpr s.increasing

/-- The names that are read from bytes have the order of their bytes, and none
    of them stands there twice. -/
theorem pairwise_bytes_names (h : ∀ name ∈ s.names, ∃ bytes, name = Text.ofBytes bytes) :
    s.names.Pairwise fun a b => Text.toBytes a < Text.toBytes b := by
  have hspelled : ∀ name ∈ s.names, Text.ofBytes (Text.toBytes name) = name := by
    intro name hname
    obtain ⟨bytes, rfl⟩ := h name hname
    rw [Text.toBytes_ofBytes]
  refine s.pairwise_names.imp_of_mem fun {a b} ha hb hprecedes => ?_
  exact hprecedes.bytes_lt (hspelled a ha) (hspelled b hb)

end Store

/-- Writing to a run is writing to its store. -/
theorem State.store_foldl_write (st : State) (writes : List (String × Cell)) :
    (writes.foldl (fun st b => st.write b.1 b.2) st).store = st.store.setAll writes := by
  induction writes generalizing st with
  | nil => rfl
  | cons b writes ih => exact ih (st.write b.1 b.2)

/-- Stores are finite maps, whatever was written to them and in which order.
    Under a name is what was written there last, else what was there initially,
    else nothing; runs write in the same way. The comparison of two stores tells
    whether they agree on every name. So it is an equivalence, writes to
    different names commute, and stores that compare equal have the same size,
    the same names and the same display. The names are the bound ones, each once
    and in the order of their bytes. -/
theorem Store.finite_map :
    (∀ initial writes name, ((ofList initial).setAll writes).get? name =
      (writes.reverse.lookup name).or (initial.reverse.lookup name)) ∧
    (∀ (st : State) (writes : List (String × Cell)),
      (writes.foldl (fun st b => st.write b.1 b.2) st).store = st.store.setAll writes) ∧
    (∀ s other : Store, s.equal other = true ↔ ∀ name, s.get? name = other.get? name) ∧
    (Equivalence fun s other : Store => s.equal other = true) ∧
    (∀ (s : Store) (name name' : String) (cell cell' : Cell), name ≠ name' →
      ((s.set name cell).set name' cell').equal ((s.set name' cell').set name cell) = true) ∧
    (∀ s other : Store, s.equal other = true →
      s.size = other.size ∧ s.names = other.names ∧ s.display = other.display) ∧
    ∀ s : Store, (∀ name, name ∈ s.names ↔ (s.get? name).isSome = true) ∧
      s.names.Pairwise (fun a b => a ≠ b ∧ Text.toBytes a ≤ Text.toBytes b) ∧
      ((∀ name ∈ s.names, ∃ bytes, name = Text.ofBytes bytes) →
        s.names.Pairwise fun a b => Text.toBytes a < Text.toBytes b) := by
  refine ⟨fun initial writes name => ?_, State.store_foldl_write, fun s other => equal_iff_get?, ?_,
    fun s name name' cell cell' hne => ?_, fun s other h => ?_, fun s => ⟨fun name => mem_names_iff, ?_,
      pairwise_bytes_names⟩⟩
  · have hinitial := get?_setAll empty initial name
    rw [get?_setAll]
    exact congrArg _ (hinitial.trans (Option.or_none))
  · simp only [equal_iff_eq]
    exact eq_equivalence
  · rw [equal_iff_eq]
    exact s.set_comm hne cell cell'
  · obtain rfl := equal_iff_eq.mp h
    exact ⟨rfl, rfl, rfl⟩
  · exact List.pairwise_map.mpr s.bytes_increasing

/-- A store with two names, of which one was written twice. -/
def Store.rewritten : Store :=
  (Store.ofList [("b", some (.int 1))]).setAll [("b", some (.bool true)), ("a", some (.int 2)), ("b", none)]

/-- The last write to a name counts, even of no value, and the order of two
    writes to different names makes no difference. -/
theorem Store.finite_map_rewritten :
    rewritten.get? "b" = some none ∧
      ((rewritten.set "c" none).set "d" none).display = ((rewritten.set "d" none).set "c" none).display ∧
      rewritten.names.Pairwise fun a b => Text.toBytes a < Text.toBytes b := by
  obtain ⟨hget, -, -, -, hcommute, hequal, hnames⟩ := finite_map
  have hread : ∀ name ∈ rewritten.names, ∃ bytes, name = Text.ofBytes bytes := by
    have hrewritten : rewritten.names = [Text.ofBytes [97], Text.ofBytes [98]] := by decide +kernel
    rw [hrewritten]
    simp
  have hswapped := hcommute rewritten "c" "d" none none (by decide)
  exact ⟨hget _ _ "b", (hequal _ _ hswapped).2.2, (hnames rewritten).2.2 hread⟩

end WhilePlus
