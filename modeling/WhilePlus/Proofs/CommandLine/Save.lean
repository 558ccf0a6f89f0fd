import WhilePlus.Proofs.CommandLine.Fetch
import WhilePlus.Proofs.CommandLine.Test
import WhilePlus.Proofs.Lockfile.Signature

namespace WhilePlus

section Gains

variable {before mid after : Option Lockfile} {a : List LockedSuite} {old : Lockfile}

/-- The lockfile, if there is one, has become another by putting entries into
    it, one after the other. -/
def Gains (before after : Option Lockfile) : Prop :=
  ∃ entries : List LockedSuite, after = before.map (·.putAll entries)

private theorem Gains.refl (lock : Option Lockfile) : Gains lock lock :=
  ⟨[], Option.map_id'.symm⟩

private theorem Gains.put (lock : Option Lockfile) (s : LockedSuite) : Gains lock (lock.map (·.put s)) :=
  ⟨[s], rfl⟩

private theorem Gains.trans (hbefore : Gains before mid) (hafter : Gains mid after) : Gains before after := by
  obtain ⟨first, rfl⟩ := hbefore
  obtain ⟨later, rfl⟩ := hafter
  refine ⟨first ++ later, ?_⟩
  rw [Option.map_map]
  exact congrArg (before.map ·) (funext fun lock => List.foldl_append.symm)

/-- Putting an entry takes none away. -/
theorem exists_putSuite_map_some (s : LockedSuite) (a : List LockedSuite) :
    ∃ b : List LockedSuite, putSuite s (a.map some) = b.map some ∧ a.length ≤ b.length := by
  induction a with
  | nil => exact ⟨[s], rfl, Nat.zero_le _⟩
  | cons other rest ih =>
    obtain ⟨b, hb, hlength⟩ := ih
    rw [List.map_cons, putSuite]
    by_cases hnamed : isNamed s.name (some other) = true
    · exact ⟨s :: rest, by rw [if_pos hnamed, List.map_cons], Nat.le_refl _⟩
    · exact ⟨other :: b, by rw [if_neg hnamed, hb, List.map_cons], Nat.succ_le_succ hlength⟩

private theorem exists_suites_putAll {lock : Lockfile} (h : lock.suites = a.map some)
    (entries : List LockedSuite) :
    ∃ b : List LockedSuite, (lock.putAll entries).suites = b.map some ∧ a.length ≤ b.length := by
  induction entries generalizing lock a with
  | nil => exact ⟨a, h, Nat.le_refl _⟩
  | cons s rest ih =>
    obtain ⟨mid, hmid, hlength⟩ := exists_putSuite_map_some s a
    have hput : (lock.put s).suites = mid.map some := by rw [Lockfile.put, h, hmid]
    obtain ⟨b, hb, hlength'⟩ := ih hput
    exact ⟨b, hb, Nat.le_trans hlength hlength'⟩

private theorem Gains.exists_suites (h : Gains (some old) after) (hold : old.suites = a.map some) :
    ∃ (lock : Lockfile) (b : List LockedSuite), after = some lock ∧ lock.suites = b.map some ∧
      a.length ≤ b.length := by
  obtain ⟨entries, rfl⟩ := h
  obtain ⟨b, hb, hlength⟩ := exists_suites_putAll hold entries
  exact ⟨old.putAll entries, b, rfl, hb, hlength⟩

end Gains

namespace Suite

/-- Fetching a suite puts its entry into the lockfile if it succeeds. -/
theorem gains_fetchPinned (cloner : Cloner) (cache : Option String) (st : State) (name : String)
    (spec : SuiteSpec) : Gains st.lock (fetchPinned cloner cache st name spec).1.lock := by
  obtain ⟨_, locked, _, _, heq⟩ | ⟨fetched, _, hkept, heq⟩ :=
    fetchPinned_cases cloner cache st name spec
  · rw [heq]
    exact .put st.lock locked
  · rw [heq, hkept]
    exact .refl st.lock

private theorem gains_refetch (cloner : Cloner) (cache : Option String) (name : String) (st : State)
    (checkout : String) (pinned : LockedSuite) (spec : SuiteSpec) :
    Gains st.lock (locate.refetch cloner cache name st checkout pinned spec).1.lock := by
  rw [locate.refetch]
  dsimp only
  split
  · exact .refl st.lock
  · next disk _ =>
    exact gains_fetchPinned cloner cache
      { st with disk, records := st.records ++ [staleRecord name pinned.version] } name spec

/-- Whatever locating a suite comes to, it only puts entries into the lockfile. -/
theorem gains_locate (cloner : Cloner) (cache : Option String) (st : State) (m : Manifest)
    (name : String) : Gains st.lock (locate cloner cache st m name).1.lock := by
  rw [locate]
  split
  · exact .refl st.lock
  split
  · exact .refl st.lock
  dsimp only
  split
  · exact gains_fetchPinned ..
  split
  · exact gains_fetchPinned ..
  split
  · split
    · exact .refl st.lock
    · exact gains_refetch ..
  · exact gains_refetch ..

end Suite

namespace Testing

variable {env : Surroundings} {options : Options} {manifest : Option Manifest} {cache : String}
  {t : Testing} {m : Manifest} {old lock : Lockfile} {a : List LockedSuite}

/-- The test after some targets were located, one after the other, whether they
    were found or not. -/
def locateAll (env : Surroundings) (options : Options) (manifest : Option Manifest) (cache : String)
    (t : Testing) (targets : List String) : Testing :=
  targets.foldl (fun t target => (t.locate env options manifest cache target).1) t

private theorem gains_locate (t : Testing) (target : String) :
    Gains t.suites.lock (t.locate env options manifest cache target).1.suites.lock := by
  rw [locate]
  split
  · exact Suite.gains_locate ..
  · split <;> exact .refl _

private theorem gains_locateAll (t : Testing) (targets : List String) :
    Gains t.suites.lock (t.locateAll env options manifest cache targets).suites.lock := by
  induction targets generalizing t with
  | nil => exact .refl _
  | cons target rest ih => exact (t.gains_locate target).trans (ih _)

/-- The fixtures of a target are run after it was located, and leave the suites
    alone. -/
theorem suites_runTarget (t : Testing) (target : String) :
    (t.runTarget env options manifest cache target).1.suites =
      (t.locate env options manifest cache target).1.suites := by
  rw [runTarget]
  split
  · next found _ heq => rw [heq]
  · next found directory heq =>
    rw [heq]
    split
    · rfl
    · rfl
    · exact suites_runFixtures ..

private theorem gains_runTargets (t : Testing) (targets : List String) :
    Gains t.suites.lock (t.runTargets env options manifest cache targets).1.suites.lock := by
  induction targets generalizing t with
  | nil => exact .refl _
  | cons target rest ih =>
    have hfirst : Gains t.suites.lock
        (t.runTarget env options manifest cache target).1.suites.lock := by
      rw [suites_runTarget]
      exact t.gains_locate target
    rw [runTargets]
    split
    · next heq => rwa [heq] at hfirst
    · next heq =>
      rw [heq] at hfirst
      exact hfirst.trans (ih _)

private theorem save_of_locked (h : t.suites.lock = some lock) :
    t.save env (some m) (some old) =
      if lock.signature? = old.signature? then .ok t.suites.disk
      else (lock.save t.suites.disk env.now m.lockPath).2 := by
  unfold save
  simp only [h, beq_iff_eq]

/-- Saving writes the lockfile exactly if its entries are not the old ones. -/
def SavesChanges (env : Surroundings) (m : Manifest) (old : Lockfile) (t : Testing) : Prop :=
  ∃ lock, t.suites.lock = some lock ∧ t.save env (some m) (some old) =
    if lock.suites = old.suites then .ok t.suites.disk
    else (lock.save t.suites.disk env.now m.lockPath).2

private theorem savesChanges_of_gains (hold : old.suites = a.map some) (ha : Legible a)
    (h : Gains (some old) t.suites.lock) : t.SavesChanges env m old := by
  obtain ⟨lock, b, hlock, hsuites, hlength⟩ := h.exists_suites hold
  have hsignature : lock.signature? = old.signature? ↔ lock.suites = old.suites := by
    rw [Lockfile.signature?_of_suites hsuites, Lockfile.signature?_of_suites hold, hsuites, hold,
      Option.some_inj, List.map_inj_right fun _ _ => Option.some.inj]
    exact ⟨fun heq => (ha.eq_of_signatureOf_eq (.inl hlength) heq.symm).symm, congrArg signatureOf⟩
  refine ⟨lock, hlock, ?_⟩
  rw [save_of_locked hlock]
  simp only [hsignature]

end Testing

/-- The lockfile is written whenever it has changed, as far as its entries are
    legible. A loaded lockfile has no empty places among its entries. They are
    told from all others that are no fewer by the signature exactly if they are
    legible, and then also from all others without bars; and after any sequence
    of targets that are located, found or not, and after any test of targets,
    saving leaves the files alone exactly if the entries are the loaded ones,
    and otherwise writes the lockfile. -/
theorem lockfile_written_when_changed (env : Surroundings) (options : Options) (m : Manifest) (cache : String)
    (old : Lockfile) :
    (suiteStorage env m = .ok (cache, old) → ∃ a : List LockedSuite, old.suites = a.map some) ∧
    ∀ a : List LockedSuite, old.suites = a.map some →
      (Legible a ↔ ∀ (new : Lockfile) (b : List LockedSuite), new.suites = b.map some → a.length ≤ b.length →
        old.signature? = new.signature? → a = b) ∧
      (Legible a → ∀ (new : Lockfile) (b : List LockedSuite), new.suites = b.map some →
        (∀ s ∈ b, s.IsBarFree) → old.signature? = new.signature? → a = b) ∧
      (Legible a → ∀ (t : Testing) (targets : List String), t.suites.lock = some old →
        (t.locateAll env options (some m) cache targets).SavesChanges env m old ∧
        (t.runTargets env options (some m) cache targets).1.SavesChanges env m old) := by
  refine ⟨fun hstorage => ⟨_, suites_lockfileFor (suiteStorage_eq_ok hstorage).2⟩,
    fun a hold => ⟨⟨?_, ?_⟩, ?_, ?_⟩⟩
  · intro ha new b hnew hlength hsame
    rw [Lockfile.signature?_of_suites hold, Lockfile.signature?_of_suites hnew, Option.some_inj] at hsame
    exact ha.eq_of_signatureOf_eq (.inl hlength) hsame
  · intro htold
    refine legible_of_forall_eq fun b hlength hsame => ?_
    refine htold { old with suites := b.map some } b rfl (Nat.le_of_eq hlength) ?_
    rw [Lockfile.signature?_of_suites hold, Lockfile.signature?_of_suites rfl, hsame]
  · intro ha new b hnew hb hsame
    rw [Lockfile.signature?_of_suites hold, Lockfile.signature?_of_suites hnew, Option.some_inj] at hsame
    exact ha.eq_of_signatureOf_eq (.inr hb) hsame
  · intro ha t targets ht
    have hlocated : Gains t.suites.lock (t.locateAll env options (some m) cache targets).suites.lock :=
      t.gains_locateAll targets
    have htested : Gains t.suites.lock (t.runTargets env options (some m) cache targets).1.suites.lock :=
      t.gains_runTargets targets
    rw [ht] at hlocated htested
    exact ⟨Testing.savesChanges_of_gains hold ha hlocated, Testing.savesChanges_of_gains hold ha htested⟩

section Bar

/-- The commit that the suite is pinned to. -/
def barCommit : String :=
  "0123456789abcdef0123456789abcdef01234567"

/-- The manifest of a project with one suite, whose address holds a bar. -/
def barManifest : Manifest :=
  ⟨"/whileplus.yml", "demo", [], [("s", some { git := "x|y", rev := barCommit })], 0⟩

/-- What the suite is pinned as; the commit has no files. -/
def barEntry : LockedSuite where
  name := "s"
  version := barCommit
  source := "git+x|y@" ++ barCommit
  checksum := "e3b0c44298fc1c149afbf4c8996fb92427ae41e4649b934ca495991b7852b855"

/-- The project with a lockfile, and a cache that holds a checkout of the
    commit. -/
def barProject (lock : String) : Surroundings where
  disk := {
    root := .directory [
      ("c", .directory [("suites", .directory [("s", .directory [(barCommit, .directory
        [(".git", .directory [("HEAD", .file (Text.toBytes barCommit))])])])])]),
      ("whileplus.lock", .file (Text.toBytes lock))]
    directory := "/" }
  cacheHome := "/c"
  now := "2024-01-01T00:00:00Z"
  logTime := "2024-01-01T00:00:00Z"
  runId := fun _ => "run"
  cloner := Suite.unreachable

/-- The lockfile that is loaded if there is one entry in it. -/
def lockfileOf (s : LockedSuite) : Lockfile :=
  ⟨"/whileplus.lock", "", "", "", [some s]⟩

/-- The project in which the suite is located next. -/
def barTesting (lock : String) (s : LockedSuite) : Testing where
  suites := { disk := (barProject lock).disk, lock := some (lockfileOf s) }

private theorem find_lockPath_barProject (lock : String) :
    (barProject lock).disk.find ((barProject lock).disk.absolute barManifest.lockPath) =
      .ok (.file (Text.toBytes lock)) := by
  have hplace : Path.absolute "/" barManifest.lockPath = Path.ofNames true ["whileplus.lock"] := by decide
  have hnames : ∀ n ∈ ["whileplus.lock"], Path.IsName n := by
    simpa using ⟨by decide, by decide, by decide, by decide⟩
  rw [Disk.absolute, show (barProject lock).disk.directory = "/" from rfl, hplace, Disk.find_ofNames_iff hnames]
  exact ⟨⟨by decide, by decide, by decide⟩, rfl, rfl⟩

private theorem cacheDirectory_barProject (lock : String) :
    Suite.cacheDirectory (barProject lock).disk "/c" = .ok "/c" := by
  have htrim : Text.trim "/c" = "/c" := by decide
  have hplace : Path.absolute "/" "/c" = "/c" := by decide
  rw [Suite.cacheDirectory, htrim, if_pos (by decide), Disk.absolute,
    show (barProject lock).disk.directory = "/" from rfl, hplace]

private theorem suiteStorage_barProject {lock : String} {s : LockedSuite} (hs : s.trimmed = s)
    (hread : LockRecord.read? (Text.toBytes lock) = some { suites := [s] }) :
    suiteStorage (barProject lock) barManifest = .ok ("/c", lockfileOf s) := by
  have hload := Lockfile.load_of_read? (by decide) (find_lockPath_barProject lock) hread
  have hplace : Path.absolute "/" barManifest.lockPath = "/whileplus.lock" := by decide
  have hsuites : normalizeSuites [some s] = [s] := by
    rw [normalizeSuites_eq, show trimmedEntries [some s] = [s.trimmed] from rfl, hs,
      List.mergeSort_singleton]
  have hmeant : LockRecord.toLockfile { suites := [s] } "/whileplus.lock" = lockfileOf s := by
    rw [LockRecord.toLockfile, Lockfile.normalize, List.map_singleton, hsuites]
    rfl
  rw [Disk.absolute, show (barProject lock).disk.directory = "/" from rfl, hplace, hmeant] at hload
  rw [suiteStorage, show (barProject lock).cacheHome = "/c" from rfl, cacheDirectory_barProject, ok_bind,
    lockfileFor_eq, hload]
  rfl

/-- The test in the project after the suite was located. -/
def barLocated (lock : String) (s : LockedSuite) : Testing :=
  (barTesting lock s).locateAll (barProject lock) {} (some barManifest) "/c" ["s"]

/-- An entry of another version of the suite. -/
def outdatedEntry : LockedSuite :=
  ⟨"s", "v1", "", ""⟩

/-- A lockfile with that entry alone. -/
def outdatedText : String :=
  "suites:\n- name: s\n  version: v1\n"

private theorem suiteStorage_outdated :
    suiteStorage (barProject outdatedText) barManifest = .ok ("/c", lockfileOf outdatedEntry) :=
  suiteStorage_barProject (by decide +kernel) (by decide +kernel)

/-- The entry of the version that is located takes the place of the outdated
    one, and is written. -/
theorem lockfile_written_when_changed_outdated :
    suiteStorage (barProject outdatedText) barManifest = .ok ("/c", lockfileOf outdatedEntry) ∧
      (lockfileOf outdatedEntry).signature? ≠ (lockfileOf barEntry).signature? ∧
      (barLocated outdatedText outdatedEntry).suites.lock = some (lockfileOf barEntry) ∧
      (barLocated outdatedText outdatedEntry).save (barProject outdatedText) (some barManifest)
          (some (lockfileOf outdatedEntry)) =
        ((lockfileOf barEntry).save (barLocated outdatedText outdatedEntry).suites.disk
          "2024-01-01T00:00:00Z" "/whileplus.lock").2 := by
  have hlegible : Legible [outdatedEntry] := by decide
  have hother : outdatedEntry ≠ barEntry := by decide
  have hlocated : (barLocated outdatedText outdatedEntry).suites.lock = some (lockfileOf barEntry) := by
    decide +kernel
  obtain ⟨hentries, hall⟩ := lockfile_written_when_changed (barProject outdatedText) {} barManifest "/c"
    (lockfileOf outdatedEntry)
  obtain ⟨a, ha⟩ := hentries suiteStorage_outdated
  obtain rfl : [outdatedEntry] = a := List.map_injective_iff.mpr (Option.some_injective _) ha
  obtain ⟨htold, -, hwritten⟩ := hall [outdatedEntry] ha
  refine ⟨suiteStorage_outdated, fun hsame => ?_, hlocated, ?_⟩
  · have hsuites := htold.mp hlegible (lockfileOf barEntry) [barEntry] rfl (Nat.le_refl _) hsame
    exact hother (List.cons.inj hsuites).1
  · obtain ⟨⟨lock, hlock, hsave⟩, -⟩ := hwritten hlegible (barTesting outdatedText outdatedEntry) ["s"] rfl
    rw [← barLocated] at hlock hsave
    obtain rfl := Option.some.inj (hlocated.symm.trans hlock)
    have hchanged : (lockfileOf barEntry).suites ≠ (lockfileOf outdatedEntry).suites := by
      simpa [lockfileOf] using hother.symm
    have hpath : barManifest.lockPath = "/whileplus.lock" := by decide
    rw [if_neg hchanged, hpath] at hsave
    exact hsave

/-- The entry that is located, with one bar and the text before it moved from
    the source to the version. -/
def movedEntry : LockedSuite :=
  { barEntry with version := barCommit ++ "|git+x", source := "y@" ++ barCommit }

/-- A lockfile with that entry alone. -/
def movedText : String :=
  "suites:\n- name: s\n  version: " ++ barCommit ++ "|git+x\n  source: y@" ++ barCommit ++
    "\n  checksum: " ++ barEntry.checksum ++ "\n"

private theorem suiteStorage_moved :
    suiteStorage (barProject movedText) barManifest = .ok ("/c", lockfileOf movedEntry) :=
  suiteStorage_barProject (by decide +kernel) (by decide +kernel)

/-- A bar that moves from one field to another is not noticed: the located entry
    is not the loaded one, but the signature is the same, and saving leaves the
    files alone. -/
theorem save_misses_moved_bar :
    suiteStorage (barProject movedText) barManifest = .ok ("/c", lockfileOf movedEntry) ∧
      (barLocated movedText movedEntry).suites.lock = some (lockfileOf barEntry) ∧
      (lockfileOf barEntry).suites ≠ (lockfileOf movedEntry).suites ∧
      (lockfileOf barEntry).signature? = (lockfileOf movedEntry).signature? ∧
      (barLocated movedText movedEntry).save (barProject movedText) (some barManifest)
        (some (lockfileOf movedEntry)) = .ok (barLocated movedText movedEntry).suites.disk := by
  have hlocated : (barLocated movedText movedEntry).suites.lock = some (lockfileOf barEntry) := by
    decide +kernel
  have hsignature : (lockfileOf barEntry).signature? = (lockfileOf movedEntry).signature? := by
    decide +kernel
  refine ⟨suiteStorage_moved, hlocated, by decide +kernel, hsignature, ?_⟩
  rw [Testing.save_of_locked hlocated, if_pos hsignature]

end Bar

end WhilePlus
