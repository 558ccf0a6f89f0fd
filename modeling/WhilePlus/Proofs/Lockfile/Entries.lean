import WhilePlus.Lockfile.Basic

namespace WhilePlus

section Entries

variable {s : LockedSuite} {name : String}

/-- The entries that do not have a name, in their order. -/
def otherEntries (name : String) (suites : List (Option LockedSuite)) : List (Option LockedSuite) :=
  suites.filter fun entry => !isNamed name entry

/-- An entry that is there is known by its name; a missing one has no name. -/
theorem isNamed_some : isNamed name (some s) = true ↔ s.name = name := by
  simp [isNamed]

private theorem find?_putSuite_self (s : LockedSuite) (suites : List (Option LockedSuite)) :
    (putSuite s suites).find? (isNamed s.name) = some (some s) := by
  induction suites with
  | nil => simp [putSuite, isNamed]
  | cons other rest ih =>
    rw [putSuite]
    by_cases hnamed : isNamed s.name other = true
    · rw [if_pos hnamed, List.find?_cons_of_pos (isNamed_some.mpr rfl)]
    · rw [if_neg hnamed, List.find?_cons_of_neg hnamed, ih]

private theorem otherEntries_cons (name : String) (entry : Option LockedSuite)
    (rest : List (Option LockedSuite)) :
    otherEntries name (entry :: rest) =
      if isNamed name entry then otherEntries name rest else entry :: otherEntries name rest := by
  rw [otherEntries, List.filter_cons]
  cases isNamed name entry <;> rfl

/-- Putting an entry leaves those with other names alone, and in their order. -/
theorem otherEntries_putSuite (s : LockedSuite) (suites : List (Option LockedSuite)) :
    otherEntries s.name (putSuite s suites) = otherEntries s.name suites := by
  have hself : isNamed s.name (some s) = true := isNamed_some.mpr rfl
  induction suites with
  | nil => rw [putSuite, otherEntries_cons, if_pos hself]
  | cons other rest ih =>
    rw [putSuite, otherEntries_cons s.name other]
    by_cases hnamed : isNamed s.name other = true
    · rw [if_pos hnamed, if_pos hnamed, otherEntries_cons, if_pos hself]
    · rw [if_neg hnamed, if_neg hnamed, otherEntries_cons, if_neg hnamed, ih]

private theorem find?_putSuite_of_ne (h : s.name ≠ name) (suites : List (Option LockedSuite)) :
    (putSuite s suites).find? (isNamed name) = suites.find? (isNamed name) := by
  have hself : ¬ isNamed name (some s) = true := mt isNamed_some.mp h
  induction suites with
  | nil => rw [putSuite, List.find?_cons_of_neg hself]
  | cons other rest ih =>
    rw [putSuite]
    by_cases hnamed : isNamed s.name other = true
    · have hother : ¬ isNamed name other = true := by
        cases other with
        | none => simp [isNamed]
        | some old =>
          rw [isNamed_some] at hnamed ⊢
          exact fun hold => h (hnamed.symm.trans hold)
      rw [if_pos hnamed, List.find?_cons_of_neg hself, List.find?_cons_of_neg hother]
    · rw [if_neg hnamed, List.find?_cons, List.find?_cons, ih]

private theorem filter_putSuite {p : Option LockedSuite → Bool}
    (h : ∀ entry, isNamed s.name entry → p entry = false) (suites : List (Option LockedSuite)) :
    (putSuite s suites).filter p = suites.filter p := by
  have hothers : ∀ entries : List (Option LockedSuite),
      entries.filter p = (otherEntries s.name entries).filter p := by
    intro entries
    rw [otherEntries, List.filter_filter]
    refine List.filter_congr fun entry _ => ?_
    cases hnamed : isNamed s.name entry with
    | false => simp
    | true => simp [h entry hnamed]
  rw [hothers, otherEntries_putSuite, ← hothers]

/-- The names of the entries that are there. -/
def entryNames (suites : List (Option LockedSuite)) : List String :=
  (suites.filterMap id).map LockedSuite.name

/-- The names in a lockfile are those of the entries that are there. -/
theorem mem_entryNames_iff {suites : List (Option LockedSuite)} :
    name ∈ entryNames suites ↔ ∃ s, some s ∈ suites ∧ s.name = name := by
  simp [entryNames]

private theorem mem_entryNames_putSuite {suites : List (Option LockedSuite)}
    (h : name ∈ entryNames (putSuite s suites)) : name = s.name ∨ name ∈ entryNames suites := by
  by_cases hname : s.name = name
  · exact .inl hname.symm
  · obtain ⟨found, hmem, rfl⟩ := mem_entryNames_iff.mp h
    have hkept : some found ∈ otherEntries s.name (putSuite s suites) :=
      List.mem_filter.mpr ⟨hmem, by simpa [isNamed] using Ne.symm hname⟩
    rw [otherEntries_putSuite] at hkept
    exact .inr (mem_entryNames_iff.mpr ⟨found, (List.mem_filter.mp hkept).1, rfl⟩)

/-- Names that occur once still do after an entry was put. -/
theorem nodup_entryNames_putSuite {suites : List (Option LockedSuite)}
    (h : (entryNames suites).Nodup) : (entryNames (putSuite s suites)).Nodup := by
  induction suites with
  | nil => simp [putSuite, entryNames]
  | cons other rest ih =>
    rw [putSuite]
    cases other with
    | none => exact ih h
    | some old =>
      obtain ⟨hfresh, hrest⟩ := List.nodup_cons.mp h
      split
      · next hnamed =>
        rw [isNamed_some] at hnamed
        exact List.nodup_cons.mpr ⟨hnamed ▸ hfresh, hrest⟩
      · next hnamed =>
        refine List.nodup_cons.mpr ⟨fun hmem => ?_, ih hrest⟩
        rcases mem_entryNames_putSuite hmem with heq | hmem
        · exact hnamed (isNamed_some.mpr heq)
        · exact hfresh hmem

end Entries

namespace Lockfile

variable {lock : Lockfile} {entries : List LockedSuite} {name : String}

/-- An entry that was put is found under its name. Names may have been there
    twice. -/
theorem find?_put_self (lock : Lockfile) (s : LockedSuite) : (lock.put s).find? s.name = some s := by
  rw [find?, put, find?_putSuite_self]
  rfl

private theorem find?_put_of_ne {s : LockedSuite} (h : s.name ≠ name) :
    (lock.put s).find? name = lock.find? name := by
  rw [find?, put, find?_putSuite_of_ne h, find?]

/-- The lockfile after some entries were put, one after the other. -/
def putAll (lock : Lockfile) (entries : List LockedSuite) : Lockfile :=
  entries.foldl put lock

/-- Putting entries changes nothing but the entries. -/
theorem putAll_eq (lock : Lockfile) (entries : List LockedSuite) :
    lock.putAll entries = { lock with suites := (lock.putAll entries).suites } := by
  induction entries generalizing lock with
  | nil => rfl
  | cons s rest ih => exact ih (lock.put s)

/-- What entries there are after some were put depends on the entries alone, not
    on the rest of the lockfile. -/
theorem suites_putAll {lock' : Lockfile} (h : lock.suites = lock'.suites) (entries : List LockedSuite) :
    (lock.putAll entries).suites = (lock'.putAll entries).suites := by
  induction entries generalizing lock lock' with
  | nil => exact h
  | cons s rest ih => exact @ih (lock.put s) (lock'.put s) (congrArg (putSuite s) h)

/-- The entry of a name is the last one that was put under it. -/
theorem find?_putAll (lock : Lockfile) (entries : List LockedSuite) (name : String) :
    (lock.putAll entries).find? name =
      (entries.filter (·.name == name)).getLast?.or (lock.find? name) := by
  induction entries generalizing lock with
  | nil => rfl
  | cons s rest ih =>
    rw [putAll, List.foldl_cons, ← putAll, ih, List.filter_cons]
    by_cases hname : s.name = name
    · subst hname
      rw [find?_put_self, if_pos (beq_self_eq_true _), List.getLast?_cons]
      cases (rest.filter (·.name == s.name)).getLast? <;> rfl
    · rw [find?_put_of_ne hname, if_neg (by simpa using hname)]

/-- Entries that are picked by other names stay, in their order. The test must
    refuse every entry with the name of one that is put. -/
theorem filter_putAll {p : Option LockedSuite → Bool}
    (h : ∀ s ∈ entries, ∀ entry, isNamed s.name entry → p entry = false) (lock : Lockfile) :
    (lock.putAll entries).suites.filter p = lock.suites.filter p := by
  induction entries generalizing lock with
  | nil => rfl
  | cons s rest ih =>
    obtain ⟨hfirst, hrest⟩ := List.forall_mem_cons.mp h
    exact (ih hrest (lock.put s)).trans (filter_putSuite hfirst lock.suites)

/-- Putting entries makes no name occur twice. -/
theorem nodup_entryNames_putAll (h : (entryNames lock.suites).Nodup) :
    (entryNames (lock.putAll entries).suites).Nodup := by
  induction entries generalizing lock with
  | nil => exact h
  | cons s rest ih => exact ih (nodup_entryNames_putSuite h)

/-- A name that is there after entries were put is one of theirs, or was there
    before. -/
theorem mem_entryNames_putAll (h : name ∈ entryNames (lock.putAll entries).suites) :
    name ∈ entries.map LockedSuite.name ∨ name ∈ entryNames lock.suites := by
  induction entries generalizing lock with
  | nil => exact .inr h
  | cons s rest ih =>
    rcases ih h with hrest | hput
    · exact .inl (List.mem_cons_of_mem _ hrest)
    · rcases mem_entryNames_putSuite hput with rfl | hold
      · exact .inl List.mem_cons_self
      · exact .inr hold

end Lockfile

end WhilePlus
