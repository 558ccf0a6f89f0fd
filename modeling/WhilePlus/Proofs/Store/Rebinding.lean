import Mathlib.Data.List.Induction
import Mathlib.Data.List.Nodup
import WhilePlus.Proofs.Store.Bindings

namespace WhilePlus

section Rebinding

variable {α β : Type} {k : String → String} {v : α → β} {known order : List (String × α)} {name : String}

/-- The bindings of a map under new names and with new values, the later ones in
    place of earlier ones. -/
def rebind (k : String → String) (v : α → β) (known : List (String × α)) : List (String × β) :=
  known.foldl (fun found a => insertBinding (k a.1) (v a.2) found) []

/-- Whether entries that get one name also get one value. -/
def Agree (k : String → String) (v : α → β) (known : List (String × α)) : Prop :=
  ∀ a ∈ known, ∀ b ∈ known, k a.1 = k b.1 → v a.2 = v b.2

/-- The last binding is put in at the end. -/
theorem rebind_snoc (known : List (String × α)) (a : String × α) :
    rebind k v (known ++ [a]) = insertBinding (k a.1) (v a.2) (rebind k v known) := by
  rw [rebind, List.foldl_append]
  rfl

/-- Whatever is put in, the names strictly increase. -/
theorem increasing_rebind (known : List (String × α)) : Increasing (rebind k v known) := by
  induction known using List.reverseRecOn with
  | nil => exact .nil
  | append_singleton known a ih =>
    rw [rebind_snoc]
    exact increasing_insertBinding _ _ ih

/-- What is found under a new name comes from a binding that has got this name. -/
theorem exists_of_lookup_rebind {b : β} (h : (rebind k v known).lookup name = some b) :
    ∃ a ∈ known, k a.1 = name ∧ v a.2 = b := by
  induction known using List.reverseRecOn with
  | nil => cases h
  | append_singleton known a ih =>
    rw [rebind_snoc, lookup_insertBinding] at h
    split at h
    · next hname => exact ⟨a, by simp, hname.symm, Option.some.inj h⟩
    · obtain ⟨a, ha, hfound⟩ := ih h
      exact ⟨a, List.mem_append_left _ ha, hfound⟩

/-- Under the new name of every binding something is found, though it may come
    from another one. -/
theorem exists_lookup_rebind {a : String × α} (h : a ∈ known) :
    ∃ b, (rebind k v known).lookup (k a.1) = some b := by
  induction known using List.reverseRecOn with
  | nil => cases h
  | append_singleton known last ih =>
    rw [rebind_snoc, lookup_insertBinding]
    split
    · exact ⟨_, rfl⟩
    · next hname =>
      rcases List.mem_append.mp h with h | h
      · exact ih h
      · exact absurd (congrArg (fun a => k a.1) (List.mem_singleton.mp h)) hname

/-- Entries that agree are all there afterwards. -/
theorem lookup_rebind_iff {b : β} (h : Agree k v known) :
    (rebind k v known).lookup name = some b ↔ ∃ a ∈ known, k a.1 = name ∧ v a.2 = b := by
  refine ⟨exists_of_lookup_rebind, ?_⟩
  rintro ⟨a, ha, rfl, rfl⟩
  obtain ⟨b, hb⟩ := exists_lookup_rebind (v := v) (k := k) ha
  obtain ⟨a', ha', hname, rfl⟩ := exists_of_lookup_rebind hb
  rw [hb, h a' ha' a ha hname]

private theorem Agree.perm (h : Agree k v known) (hperm : order.Perm known) : Agree k v order :=
  fun a ha b hb => h a (hperm.mem_iff.mp ha) b (hperm.mem_iff.mp hb)

/-- Bindings with names of their own agree, whatever their values. -/
theorem agree_of_nodup (h : (known.map Prod.fst).Nodup) : Agree id v known := by
  intro a ha b hb hname
  rw [List.inj_on_of_nodup_map h ha hb hname]

/-- Under their own names the bindings of a map are what they were. -/
theorem lookup_rebind_of_nodup (h : (known.map Prod.fst).Nodup) (name : String) :
    (rebind id v known).lookup name = (known.lookup name).map v := by
  induction known using List.reverseRecOn with
  | nil => rfl
  | append_singleton known a ih =>
    rw [List.map_append, List.nodup_append] at h
    obtain ⟨hknown, -, hfresh⟩ := h
    rw [rebind_snoc, lookup_insertBinding, ih hknown, List.lookup_append, List.lookup_cons]
    by_cases hname : name = a.1
    · have hnone : known.lookup name = none := by
        refine List.lookup_eq_none_iff.mpr fun b hb => bne_iff_ne.mpr fun hsame => ?_
        exact hfresh b.1 (List.mem_map_of_mem hb) a.1 List.mem_cons_self (hsame.symm.trans hname)
      rw [id, if_pos hname, hnone, beq_iff_eq.mpr hname]
      rfl
    · rw [id, if_neg hname, beq_false_of_ne hname]
      exact congrArg (Option.map v) (Option.or_none (o := known.lookup name)).symm

/-- What is in order stays as it is. -/
theorem Increasing.rebind_eq (h : Increasing known) : rebind id id known = known := by
  refine (increasing_rebind known).ext h fun b => ?_
  rw [(increasing_rebind known).mem_iff_lookup, h.mem_iff_lookup, lookup_rebind_of_nodup h.nodup_names,
    Option.map_id]
  rfl

/-- The order makes no difference exactly if the entries agree: otherwise each
    of two that do not can come last. -/
theorem rebind_perm_iff :
    (∀ order, order.Perm known → rebind k v order = rebind k v known) ↔ Agree k v known := by
  constructor
  · intro h a ha b hb hname
    have hlast {c : String × α} (hc : c ∈ known) : (rebind k v known).lookup (k c.1) = some (v c.2) := by
      obtain ⟨before, after, rfl⟩ := List.append_of_mem hc
      rw [← h (before ++ after ++ [c]) ((List.perm_append_singleton c _).trans List.perm_middle.symm),
        rebind_snoc, lookup_insertBinding, if_pos rfl]
    have hlookup := hlast ha
    rw [hname, hlast hb] at hlookup
    exact (Option.some.inj hlookup).symm
  · intro h order hperm
    refine (increasing_rebind order).ext (increasing_rebind known) fun c => ?_
    rw [(increasing_rebind order).mem_iff_lookup, (increasing_rebind known).mem_iff_lookup,
      lookup_rebind_iff (h.perm hperm), lookup_rebind_iff h]
    simp only [hperm.mem_iff]

end Rebinding

end WhilePlus
