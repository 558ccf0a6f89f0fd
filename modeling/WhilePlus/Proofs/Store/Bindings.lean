import Mathlib.Data.List.Sort
import WhilePlus.Store

namespace WhilePlus

section Increasing

variable {α : Type} {name : String} {a : α} {bindings bindings' : List (String × α)}

instance (bindings : List (String × α)) : Decidable (Increasing bindings) :=
  inferInstanceAs (Decidable (List.Pairwise _ bindings))

/-- Where names strictly increase, a binding is there exactly if it is found
    under its name. -/
theorem Increasing.mem_iff_lookup (h : Increasing bindings) :
    (name, a) ∈ bindings ↔ bindings.lookup name = some a := by
  induction bindings with
  | nil => simp
  | cons head rest ih =>
    obtain ⟨other, b⟩ := head
    obtain ⟨hhead, hrest⟩ := List.pairwise_cons.mp h
    rw [List.mem_cons, List.lookup_cons, ih hrest]
    by_cases hname : name = other
    · subst hname
      have habsent : rest.lookup name ≠ some a := by
        intro hfound
        exact (Text.Precedes.irrefl name) (hhead _ ((ih hrest).mpr hfound))
      simp [habsent, eq_comm]
    · have hne : (name == other) = false := beq_eq_false_iff_ne.mpr hname
      simp [hname, hne]

/-- Where names strictly increase, none occurs twice. -/
theorem Increasing.nodup_names (h : Increasing bindings) : (bindings.map Prod.fst).Nodup := by
  refine List.pairwise_map.mpr (h.imp fun {a b} hprecedes heq => ?_)
  rw [heq] at hprecedes
  exact Text.Precedes.irrefl _ hprecedes

/-- Two lists in order with the same members are the same: order and members
    leave no choice. -/
theorem Increasing.ext (h : Increasing bindings) (h' : Increasing bindings')
    (hmem : ∀ b, b ∈ bindings ↔ b ∈ bindings') : bindings = bindings' := by
  have hirrefl : Std.Irrefl fun a b : String × α => Text.Precedes a.1 b.1 :=
    ⟨fun b => Text.Precedes.irrefl b.1⟩
  have hantisymm : Std.Antisymm fun a b : String × α => Text.Precedes a.1 b.1 :=
    ⟨fun a b hab hba => absurd (hab.trans hba) (Text.Precedes.irrefl a.1)⟩
  exact List.Pairwise.eq_of_mem_iff h h' hmem

end Increasing

namespace Store

variable {s s' : Store} {name : String} {cell : Cell}

/-- A store has a binding exactly if it binds the name to the cell. -/
theorem mem_bindings_iff : (name, cell) ∈ s.bindings ↔ s.get? name = some cell :=
  s.increasing.mem_iff_lookup

/-- Stores that give the same for every name are the same. -/
theorem ext_get? (h : ∀ name, s.get? name = s'.get? name) : s = s' := by
  obtain ⟨bindings, hbindings⟩ := s
  obtain ⟨bindings', hbindings'⟩ := s'
  obtain rfl : bindings = bindings' := by
    refine hbindings.ext hbindings' fun b => ?_
    rw [hbindings.mem_iff_lookup, hbindings'.mem_iff_lookup]
    exact iff_of_eq (congrArg (· = some b.2) (h b.1))
  rfl

/-- Every name stands there once, and the names have the order of their bytes. -/
theorem bytes_increasing (s : Store) :
    s.bindings.Pairwise fun a b => a.1 ≠ b.1 ∧ Text.toBytes a.1 ≤ Text.toBytes b.1 := by
  refine s.increasing.imp fun {a b} h => ⟨?_, ?_⟩
  · intro heq
    rw [heq] at h
    exact Text.Precedes.irrefl b.1 h
  · obtain hlt | ⟨heq, _⟩ := h
    · exact List.le_of_lt hlt
    · rw [heq]
      exact List.le_refl _

end Store

end WhilePlus
