import Mathlib.Data.List.Nodup
import WhilePlus.Lockfile.File
import WhilePlus.Proofs.Document.Shape
import WhilePlus.Proofs.Lockfile.Entries
import WhilePlus.Proofs.Text.Trim

namespace WhilePlus

section Sorted

variable {s : LockedSuite} {suites : List LockedSuite} {entries : List (Option LockedSuite)}
  {name : String}

/-- Whether an entry may stand before another one. -/
def LockedSuite.notAfter (a b : LockedSuite) : Bool :=
  !decide (Text.Precedes b.name a.name)

/-- The order of entries is that of the bytes of their names. -/
theorem LockedSuite.notAfter_iff {a b : LockedSuite} :
    a.notAfter b = true ↔ ¬ Text.Precedes b.name a.name := by
  simp [notAfter]

private theorem LockedSuite.notAfter_trans (a b c : LockedSuite) (hab : a.notAfter b = true)
    (hbc : b.notAfter c = true) : a.notAfter c = true := by
  rw [notAfter_iff] at *
  intro hca
  by_cases hname : b.name = c.name
  · exact hab (hname ▸ hca)
  · rcases Text.precedes_or_precedes_of_ne hname with h | h
    · exact hab (h.trans hca)
    · exact hbc h

private theorem LockedSuite.notAfter_total (a b : LockedSuite) : (a.notAfter b || b.notAfter a) = true := by
  rw [Bool.or_eq_true, notAfter_iff, notAfter_iff, ← not_and_or]
  rintro ⟨hba, hab⟩
  exact Text.Precedes.irrefl _ (hba.trans hab)

/-- The entries that are there, trimmed. -/
def trimmedEntries (entries : List (Option LockedSuite)) : List LockedSuite :=
  (entries.filterMap id).map LockedSuite.trimmed

/-- Entries are normalized in two steps: they are trimmed, with the missing ones
    left out, and then sorted by name. -/
theorem normalizeSuites_eq (entries : List (Option LockedSuite)) :
    normalizeSuites entries = (trimmedEntries entries).mergeSort LockedSuite.notAfter := rfl

/-- Sorting loses no entry and makes none. -/
theorem normalizeSuites_perm (entries : List (Option LockedSuite)) :
    (normalizeSuites entries).Perm (trimmedEntries entries) :=
  List.mergeSort_perm _ _

/-- The names of normalized entries do not decrease. They may repeat. -/
theorem pairwise_normalizeSuites (entries : List (Option LockedSuite)) :
    (normalizeSuites entries).Pairwise fun a b => a.notAfter b = true :=
  List.pairwise_mergeSort LockedSuite.notAfter_trans LockedSuite.notAfter_total _

/-- Entries that are in order already keep their order, even between others that
    are moved. This is the stability of the sort. -/
theorem sublist_normalizeSuites (hsorted : suites.Pairwise fun a b => a.notAfter b = true)
    (h : suites.Sublist (trimmedEntries entries)) : suites.Sublist (normalizeSuites entries) :=
  List.sublist_mergeSort LockedSuite.notAfter_trans LockedSuite.notAfter_total hsorted h

/-- Entries with one name keep their order. -/
theorem filter_normalizeSuites (entries : List (Option LockedSuite)) (name : String) :
    (normalizeSuites entries).filter (·.name == name) =
      (trimmedEntries entries).filter (·.name == name) := by
  have hsorted : ((trimmedEntries entries).filter (·.name == name)).Pairwise
      fun a b => a.notAfter b = true := by
    refine List.pairwise_of_forall_mem_list fun a ha b hb => ?_
    have ha : a.name = name := by simpa using (List.mem_filter.mp ha).2
    have hb : b.name = name := by simpa using (List.mem_filter.mp hb).2
    rw [LockedSuite.notAfter_iff, ha, hb]
    exact Text.Precedes.irrefl name
  have hkept := (sublist_normalizeSuites hsorted List.filter_sublist).filter (·.name == name)
  rw [List.filter_filter] at hkept
  simp only [Bool.and_self] at hkept
  exact (hkept.eq_of_length ((normalizeSuites_perm entries).filter _).length_eq.symm).symm

private theorem find?_normalizeSuites (entries : List (Option LockedSuite)) (name : String) :
    (normalizeSuites entries).find? (·.name == name) =
      (trimmedEntries entries).find? (·.name == name) := by
  rw [← List.head?_filter, filter_normalizeSuites, List.head?_filter]

private theorem LockedSuite.trimmed_trimmed (s : LockedSuite) : s.trimmed.trimmed = s.trimmed := by
  simp only [trimmed, Text.trim_trim]

/-- No white space is left around the parts of a normalized entry. -/
theorem trimmed_of_mem_normalizeSuites (h : s ∈ normalizeSuites entries) : s.trimmed = s := by
  obtain ⟨old, -, rfl⟩ := List.mem_map.mp ((normalizeSuites_perm entries).mem_iff.mp h)
  exact old.trimmed_trimmed

/-- In a list of entries that are all there, none is left out. -/
theorem filterMap_map_some (suites : List LockedSuite) : (suites.map some).filterMap id = suites := by
  rw [List.filterMap_map]
  exact List.filterMap_some

private theorem trimmedEntries_map_some (h : ∀ s ∈ suites, s.trimmed = s) :
    trimmedEntries (suites.map some) = suites := by
  rw [trimmedEntries, filterMap_map_some, List.map_congr_left h, List.map_id']

/-- Entries that are in order, and trimmed, are left alone. -/
theorem normalizeSuites_normalizeSuites (entries : List (Option LockedSuite)) :
    normalizeSuites ((normalizeSuites entries).map some) = normalizeSuites entries := by
  rw [normalizeSuites_eq ((normalizeSuites entries).map some),
    trimmedEntries_map_some fun s hs => trimmed_of_mem_normalizeSuites hs]
  exact List.mergeSort_of_pairwise (pairwise_normalizeSuites entries)

/-- Trimming keeps the names, if they have no white space around them. -/
theorem map_name_trimmedEntries (h : ∀ n ∈ entryNames entries, Text.trim n = n) :
    (trimmedEntries entries).map LockedSuite.name = entryNames entries := by
  rw [trimmedEntries, List.map_map, entryNames]
  refine List.map_congr_left fun s hs => ?_
  exact h s.name (List.mem_map_of_mem hs)

/-- Names that occur once are strictly increasing. They must have no white space
    around them, for two names may become one when it is dropped. -/
theorem strict_normalizeSuites (htrimmed : ∀ n ∈ entryNames entries, Text.trim n = n)
    (honce : (entryNames entries).Nodup) :
    ((normalizeSuites entries).map LockedSuite.name).Pairwise Text.Precedes := by
  have hnames := (normalizeSuites_perm entries).map LockedSuite.name
  rw [map_name_trimmedEntries htrimmed] at hnames
  have hapart := List.pairwise_map.mp (hnames.nodup_iff.mpr honce)
  rw [List.pairwise_map]
  refine ((pairwise_normalizeSuites entries).and hapart).imp ?_
  rintro a b ⟨hsorted, hne⟩
  exact (Text.precedes_or_precedes_of_ne hne).resolve_right (LockedSuite.notAfter_iff.mp hsorted)

/-- Entries with strictly increasing names can be arranged in one way only, so
    whatever has the right members and is strictly in order is the result. No
    sort has to be computed to know it. -/
theorem normalizeSuites_of_strict (hperm : suites.Perm (trimmedEntries entries))
    (hstrict : (suites.map LockedSuite.name).Pairwise Text.Precedes) :
    normalizeSuites entries = suites := by
  have hsorted : suites.Pairwise fun a b => a.notAfter b = true :=
    (List.pairwise_map.mp hstrict).imp fun h => LockedSuite.notAfter_iff.mpr fun h' =>
      Text.Precedes.irrefl _ (h.trans h')
  have honce : (suites.map LockedSuite.name).Nodup := by
    refine hstrict.imp ?_
    rintro a b h rfl
    exact Text.Precedes.irrefl a h
  have hsame := (normalizeSuites_perm entries).trans hperm.symm
  refine List.Perm.eq_of_pairwise ?_ (pairwise_normalizeSuites entries) hsorted hsame
  intro a b ha hb hab hba
  apply List.inj_on_of_nodup_map honce (hsame.mem_iff.mp ha) hb
  refine Decidable.byContradiction fun hne => ?_
  rcases Text.precedes_or_precedes_of_ne hne with h | h
  · exact LockedSuite.notAfter_iff.mp hba h
  · exact LockedSuite.notAfter_iff.mp hab h

end Sorted

namespace Lockfile

variable {lock : Lockfile}

/-- The entry of a name is the first one with that name among those that are
    there. -/
theorem find?_eq (lock : Lockfile) (name : String) :
    lock.find? name = (lock.suites.filterMap id).find? (·.name == name) := by
  have hnamed : isNamed name = fun entry => (id entry).any (·.name == name) := by
    funext entry
    cases entry <;> rfl
  rw [List.find?_filterMap, ← hnamed, find?]

/-- Where names have no white space around them, putting a lockfile in order
    trims what is found. -/
theorem find?_normalize (h : ∀ n ∈ entryNames lock.suites, Text.trim n = n) (name : String) :
    lock.normalize.find? name = (lock.find? name).map LockedSuite.trimmed := by
  rw [find?_eq, find?_eq, normalize, filterMap_map_some, find?_normalizeSuites, trimmedEntries,
    List.find?_map, ← List.head?_filter, ← List.head?_filter]
  refine congrArg (fun found : List LockedSuite => found.head?.map LockedSuite.trimmed) ?_
  refine List.filter_congr fun s hs => ?_
  have hname : Text.trim s.name = s.name := h s.name (List.mem_map_of_mem hs)
  simp [LockedSuite.trimmed, hname]

/-- A lockfile that is in order is left alone, so putting it in order twice is
    putting it in order once. -/
theorem normalize_normalize (lock : Lockfile) : lock.normalize.normalize = lock.normalize := by
  simp only [normalize, Text.trim_trim, normalizeSuites_normalizeSuites]

/-- The record of a lockfile in order: texts without white space around them,
    and the entries by name. -/
theorem toRecord_normalize (lock : Lockfile) :
    lock.normalize.toRecord = ⟨Text.trim lock.project, lock.generated, Text.trim lock.tool,
      normalizeSuites lock.suites⟩ := by
  rw [toRecord, normalize, filterMap_map_some]

/-- Reading a lockfile back from its record changes nothing, if it was in order
    and no white space stands around its time stamp, the only text of a record
    that normalizing leaves as it is. -/
theorem toLockfile_toRecord (hnormal : lock.normalize = lock)
    (hgenerated : Text.trim lock.generated = lock.generated) :
    lock.toRecord.toLockfile lock.path = lock := by
  have hsuites : lock.suites = (normalizeSuites lock.suites).map some :=
    (congrArg Lockfile.suites hnormal).symm
  have hthere : (lock.suites.filterMap id).map some = lock.suites := by
    rw [hsuites, filterMap_map_some]
  rw [LockRecord.toLockfile, toRecord, hgenerated, hthere]
  exact hnormal

/-- What is loaded is in order. -/
theorem normalize_of_load {d : Disk} {path : String} (h : load d path = .ok lock) :
    lock.normalize = lock := by
  rw [load] at h
  split at h
  · cases h
  dsimp only at h
  split at h
  · cases h
  obtain ⟨content, -, h⟩ := bind_eq_ok_iff.mp (within_eq_ok_iff.mp h)
  cases content with
  | none => cases h
  | some sheet =>
    obtain ⟨r, -, h⟩ := bind_eq_ok_iff.mp h
    cases h
    exact normalize_normalize _

end Lockfile

end WhilePlus
