import WhilePlus.Proofs.Yaml.Mapping

namespace WhilePlus.Yaml

section Words

variable {sheet : Sheet} {key : Node} {name : String}

private theorem value?_of_isWord (hword : IsWord name) (h : sheet.text? key = some name) :
    sheet.value? key = some (.text name) := by
  unfold Sheet.text? at h
  unfold Sheet.value?
  generalize sheet.target key = target at h
  cases target with
  | scalar line tag text =>
    obtain ⟨d, hd, h⟩ := Option.bind_eq_some_iff.mp h
    dsimp only
    rw [hd]
    split at h
    · cases h
    split at h
    · cases d with
      | text s => rw [Option.some.inj h]
      | _ => cases h
    · next hbinary =>
      obtain rfl := Option.some.inj h
      rw [Yaml.value?, if_neg hbinary, resolve?, hword] at hd
      split at hd
      · exact hd.symm
      · next htag =>
        simp only [Bool.or_eq_true, not_or] at htag
        have hne : (strTag == tag) = false := by
          rw [Bool.beq_comm]
          exact Bool.eq_false_iff.mpr htag.2
        have hint : (strTag == intTag) = false := by decide
        simp only [Option.getD_none, hne, hint, Bool.and_false, Bool.false_eq_true, if_false] at hd
        cases hd
  | _ => cases h

end Words

/-- Entries that were read inside a merge with some keys taken: their names are
    free and distinct, and taken afterwards. -/
structure Fresh (taken : List Document) (entries : List Entry) (after : List Document) : Prop where
  mono : taken ⊆ after
  takes : ∀ e ∈ entries, .text e.name ∈ after
  free : ∀ e ∈ entries, .text e.name ∉ taken
  distinct : entries.Pairwise fun a b => a.name ≠ b.name

section Distinct

variable {sheet : Sheet} {taken : List Document}

private theorem text_not_mem_of_free {name : String} (h : isTaken (some taken) name = false) :
    .text name ∉ taken := by
  intro hmem
  refine Bool.false_ne_true (h.symm.trans (List.any_eq_true.mpr ⟨.text name, hmem, ?_⟩))
  exact beq_self_eq_true name

private theorem Fresh.nil (taken : List Document) : Fresh taken [] taken :=
  ⟨List.Subset.refl taken, nofun, nofun, .nil⟩

private theorem Fresh.cons {entry : Entry} {entries : List Entry} {after : List Document}
    (hfree : .text entry.name ∉ taken) (h : Fresh (.text entry.name :: taken) entries after) :
    Fresh taken (entry :: entries) after where
  mono := fun _ hd => h.mono (List.mem_cons_of_mem _ hd)
  takes := List.forall_mem_cons.mpr ⟨h.mono List.mem_cons_self, h.takes⟩
  free := List.forall_mem_cons.mpr ⟨hfree, fun e he hmem => h.free e he (List.mem_cons_of_mem _ hmem)⟩
  distinct := List.pairwise_cons.mpr ⟨fun e he hname => h.free e he (hname ▸ List.mem_cons_self), h.distinct⟩

private theorem Fresh.append {first more : List Entry} {between after : List Document}
    (h : Fresh taken first between) (h' : Fresh between more after) : Fresh taken (first ++ more) after where
  mono := List.Subset.trans h.mono h'.mono
  takes := List.forall_mem_append.mpr ⟨fun e he => h'.mono (h.takes e he), h'.takes⟩
  free := List.forall_mem_append.mpr ⟨h.free, fun e he hmem => h'.free e he (h.mono hmem)⟩
  distinct := List.pairwise_append.mpr ⟨h.distinct, h'.distinct, fun a ha b hb hname =>
    h'.free b hb (hname ▸ h.takes a ha)⟩

private theorem fresh_entries (sheet : Sheet) (seen : List String) (taken : List Document) (pairs : List (Node × Node)) :
    ∃ after, (sheet.entries seen (some taken) pairs).2 = some after ∧
      Fresh taken (sheet.entries seen (some taken) pairs).1 after := by
  induction pairs generalizing seen taken with
  | nil => exact ⟨taken, rfl, .nil taken⟩
  | cons pair rest ih =>
    obtain ⟨key, value⟩ := pair
    rw [Sheet.entries]
    split
    · exact ih seen taken
    split
    · exact ih seen taken
    · next name _ =>
      split
      · exact ih seen taken
      · next hfree =>
        obtain ⟨after, htaken, hfresh⟩ := ih (name :: seen) (.text name :: taken)
        exact ⟨after, htaken, hfresh.cons (text_not_mem_of_free (Bool.eq_false_iff.mpr hfree))⟩

private theorem fresh_mergedEntries (sheet : Sheet)
    {below : Option (List Document) → List (Node × Node) → List Entry × Option (List Document)}
    (h : ∀ taken pairs, ∃ after, (below (some taken) pairs).2 = some after ∧
      Fresh taken (below (some taken) pairs).1 after) (taken : List Document) (nodes : List Node) :
    ∃ after, (sheet.mergedEntries below (some taken) nodes).2 = some after ∧
      Fresh taken (sheet.mergedEntries below (some taken) nodes).1 after := by
  induction nodes generalizing taken with
  | nil => exact ⟨taken, rfl, .nil taken⟩
  | cons n rest ih =>
    rw [Sheet.mergedEntries]
    split
    · next line tag pairs _ =>
      obtain ⟨between, hbetween, hfirst⟩ := h taken pairs
      obtain ⟨after, hafter, hmore⟩ := ih between
      dsimp only
      rw [hbetween]
      exact ⟨after, hafter, hfirst.append hmore⟩
    · exact ih taken

private theorem fresh_allEntries (sheet : Sheet) (bound : Nat) (taken : List Document) (pairs : List (Node × Node)) :
    ∃ after, (sheet.allEntries bound (some taken) pairs).2 = some after ∧
      Fresh taken (sheet.allEntries bound (some taken) pairs).1 after := by
  induction bound generalizing taken pairs with
  | zero => exact fresh_entries sheet [] taken pairs
  | succ bound ih =>
    obtain ⟨between, hbetween, hown⟩ := fresh_entries sheet [] taken pairs
    rw [Sheet.allEntries]
    split
    · exact ⟨between, hbetween, hown⟩
    · next value _ =>
      obtain ⟨after, hafter, hmerged⟩ := fresh_mergedEntries sheet ih between (mergedNodes value)
      rw [Sheet.withMerged, hbetween]
      exact ⟨after, hafter, hown.append hmerged⟩

private theorem distinct_entries (seen : List String) (pairs : List (Node × Node))
    (h : ∀ e ∈ (sheet.entries seen none pairs).1, e.again = false) :
    (∀ e ∈ (sheet.entries seen none pairs).1, e.name ∉ seen) ∧
      (sheet.entries seen none pairs).1.Pairwise fun a b => a.name ≠ b.name := by
  induction pairs generalizing seen with
  | nil => exact ⟨nofun, .nil⟩
  | cons pair rest ih =>
    obtain ⟨key, value⟩ := pair
    rw [Sheet.entries] at h ⊢
    by_cases hmerge : key.isMerge
    · rw [if_pos hmerge] at h ⊢
      exact ih seen h
    rw [if_neg hmerge] at h ⊢
    cases hname : sheet.text? key with
    | none =>
      rw [hname] at h
      exact ih seen h
    | some name =>
      rw [hname] at h
      obtain ⟨hfirst, hrest⟩ := List.forall_mem_cons.mp h
      obtain ⟨hfree, hdistinct⟩ := ih (name :: seen) hrest
      refine ⟨List.forall_mem_cons.mpr ⟨?_, fun e he hmem => hfree e he (List.mem_cons_of_mem _ hmem)⟩,
        List.pairwise_cons.mpr ⟨fun e he hsame => hfree e he (hsame ▸ List.mem_cons_self), hdistinct⟩⟩
      intro hmem
      exact Bool.false_ne_true (hfirst.symm.trans (List.contains_iff_mem.mpr hmem))

private theorem mem_of_entries {seen : List String} {taken : Option (List Document)} {pairs : List (Node × Node)}
    {entry : Entry} (h : entry ∈ (sheet.entries seen taken pairs).1) :
    (entry.key, entry.value) ∈ pairs ∧ sheet.text? entry.key = some entry.name := by
  induction pairs generalizing seen taken with
  | nil => cases h
  | cons pair rest ih =>
    have hrest {seen : List String} {taken : Option (List Document)}
        (h : entry ∈ (sheet.entries seen taken rest).1) :
        (entry.key, entry.value) ∈ pair :: rest ∧ sheet.text? entry.key = some entry.name :=
      (ih h).imp_left (List.mem_cons_of_mem _)
    obtain ⟨key, value⟩ := pair
    rw [Sheet.entries] at h
    split at h
    · exact hrest h
    split at h
    · exact hrest h
    · next name hname =>
      split at h
      · exact hrest h
      · rcases List.mem_cons.mp h with rfl | h
        · exact ⟨List.mem_cons_self, hname⟩
        · exact hrest h

private theorem taken_entries_none (seen : List String) (pairs : List (Node × Node)) :
    (sheet.entries seen none pairs).2 = none := by
  induction pairs generalizing seen with
  | nil => rfl
  | cons pair rest ih =>
    obtain ⟨key, value⟩ := pair
    rw [Sheet.entries]
    split
    · exact ih seen
    split
    · exact ih seen
    · next name _ => exact ih (name :: seen)

/-- In a record that repeats no field, a word is the name of one entry at most,
    merged ones included: what is merged cannot set it again. -/
theorem distinct_words (bound : Nat) (pairs : List (Node × Node))
    (h : ∀ e ∈ (sheet.allEntries bound none pairs).1, e.again = false) :
    (sheet.allEntries bound none pairs).1.Pairwise fun a b => IsWord a.name → a.name ≠ b.name := by
  have hown (h : ∀ e ∈ (sheet.entries [] none pairs).1, e.again = false) :
      (sheet.entries [] none pairs).1.Pairwise fun a b => IsWord a.name → a.name ≠ b.name :=
    (distinct_entries [] pairs h).2.imp fun {a b} (hne : a.name ≠ b.name) (_ : IsWord a.name) => hne
  cases bound with
  | zero => exact hown h
  | succ bound =>
    rw [Sheet.allEntries] at h ⊢
    split at h
    · exact hown h
    · next value _ =>
      rw [Sheet.withMerged, taken_entries_none] at h ⊢
      obtain ⟨after, -, hmerged⟩ := fresh_mergedEntries sheet (fresh_allEntries sheet bound)
        (pairs.filterMap fun p => sheet.value? p.1) (mergedNodes value)
      refine List.pairwise_append.mpr ⟨hown (List.forall_mem_append.mp h).1, ?_, ?_⟩
      · exact hmerged.distinct.imp fun {a b} (hne : a.name ≠ b.name) (_ : IsWord a.name) => hne
      · intro a ha b hb hword hname
        obtain ⟨hpair, htext⟩ := mem_of_entries ha
        refine hmerged.free b hb (List.mem_filterMap.mpr ⟨_, hpair, ?_⟩)
        rw [← hname]
        exact value?_of_isWord hword htext

end Distinct

end WhilePlus.Yaml
