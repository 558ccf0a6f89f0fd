import WhilePlus.CommandLine.Command
import WhilePlus.Proofs.Lockfile.RoundTrip
import WhilePlus.Proofs.Manifest.Load
import WhilePlus.Proofs.Suite.Entry

open WhilePlus.Path (ofNames IsName)

namespace WhilePlus

open Disk (Grown)

section Steps

variable {env : Surroundings} {options : Options} {m : Manifest} {cache name : String}
  {f final : Fetching} {names : List String} {entries : List LockedSuite}

/-- All that fetching one suite can do. -/
inductive FetchStep (cloner : Suite.Cloner) (m : Manifest) (cache : String) (f : Fetching)
    (name : String) : Fetching × Except Error Unit → Prop where
  | undeclared {e : Error} : FetchStep cloner m cache f name (f, .error e)
  | skipped {spec : SuiteSpec} {pieces : List Piece}
      (hdeclared : (m.suites.lookup name).bind id = some spec) (hlocal : spec.isGit = false) :
      FetchStep cloner m cache f name ({ f with pieces }, .ok ())
  | failed {spec : SuiteSpec} {st : Suite.State} {pieces : List Piece} {e : Error}
      (hfetch : Suite.fetch cloner (some cache) { disk := f.disk } name (some spec) = (st, .error e)) :
      FetchStep cloner m cache f name ({ f with disk := st.disk, pieces }, .error e)
  | fetched {spec : SuiteSpec} {st : Suite.State} {locked : LockedSuite} {directory : String}
      {pieces : List Piece} (hdeclared : (m.suites.lookup name).bind id = some spec)
      (hgit : spec.isGit = true)
      (hfetch : Suite.fetch cloner (some cache) { disk := f.disk } name (some spec) =
        (st, .ok (locked, directory))) :
      FetchStep cloner m cache f name
        ({ disk := st.disk, lock := f.lock.put locked, count := f.count + 1, pieces }, .ok ())

private theorem fetchStep_fetchSuite (env : Surroundings) (options : Options) (m : Manifest) (cache : String)
    (f : Fetching) (name : String) :
    FetchStep env.cloner m cache f name (f.fetchSuite env options m cache name) := by
  rw [Fetching.fetchSuite]
  split
  · exact .undeclared
  next spec hdeclared =>
    split
    · next hlocal => exact .skipped hdeclared (by simpa using hlocal)
    · next hgit =>
      have hgit : spec.isGit = true := by simpa using hgit
      cases hfetch : Suite.fetch env.cloner (some cache) { disk := f.disk } name (some spec) with
      | mk st fetched =>
        cases fetched with
        | error e => exact .failed hfetch
        | ok locked => exact .fetched hdeclared hgit hfetch

/-- The entries that fetching some suites returns, one after the other, when all
    of it works; a local suite has none. -/
inductive Fetches (cloner : Suite.Cloner) (m : Manifest) (cache : String) :
    Disk → List String → List LockedSuite → Disk → Prop where
  | done {d : Disk} : Fetches cloner m cache d [] [] d
  | skipped {d d' : Disk} {name : String} {rest : List String} {entries : List LockedSuite}
      {spec : SuiteSpec} (hdeclared : (m.suites.lookup name).bind id = some spec)
      (hlocal : spec.isGit = false) (h : Fetches cloner m cache d rest entries d') :
      Fetches cloner m cache d (name :: rest) entries d'
  | fetched {d d' : Disk} {name : String} {rest : List String} {entries : List LockedSuite}
      {spec : SuiteSpec} {st : Suite.State} {locked : LockedSuite} {directory : String}
      (hdeclared : (m.suites.lookup name).bind id = some spec) (hgit : spec.isGit = true)
      (hfetch : Suite.fetch cloner (some cache) { disk := d } name (some spec) =
        (st, .ok (locked, directory)))
      (h : Fetches cloner m cache st.disk rest entries d') :
      Fetches cloner m cache d (name :: rest) (locked :: entries) d'

/-- What the command has fetched when all of it worked. -/
theorem fetches_of_fetchSuites (h : f.fetchSuites env options m cache names = (final, .ok ())) :
    ∃ entries, Fetches env.cloner m cache f.disk names entries final.disk ∧
      final.lock = f.lock.putAll entries ∧ final.count = f.count + entries.length := by
  induction names generalizing f with
  | nil =>
    cases h
    exact ⟨[], .done, rfl, rfl⟩
  | cons name rest ih =>
    have hstep := fetchStep_fetchSuite env options m cache f name
    rw [Fetching.fetchSuites] at h
    generalize f.fetchSuite env options m cache name = result at hstep h
    cases hstep with
    | undeclared | failed => cases h
    | skipped hdeclared hlocal =>
      obtain ⟨entries, hfetches, hlock, hcount⟩ := ih h
      exact ⟨entries, .skipped hdeclared hlocal hfetches, hlock, hcount⟩
    | @fetched spec st locked _ _ hdeclared hgit hfetch =>
      obtain ⟨entries, hfetches, hlock, hcount⟩ := ih h
      refine ⟨locked :: entries, .fetched hdeclared hgit hfetch hfetches, hlock, ?_⟩
      rw [hcount, List.length_cons, Nat.add_comm entries.length, ← Nat.add_assoc]

/-- While suites are fetched only directories are added, whether it works or
    not. -/
theorem grown_fetchSuites (hcloner : env.cloner.GivesDirectories)
    (hcache : Path.isAbsolute cache = true) (hroot : f.disk.isDirectory (ofNames true []) = true) :
    Grown f.disk (f.fetchSuites env options m cache names).1.disk := by
  induction names generalizing f with
  | nil => exact .refl
  | cons name rest ih =>
    have hstep := fetchStep_fetchSuite env options m cache f name
    rw [Fetching.fetchSuites]
    generalize f.fetchSuite env options m cache name = result at hstep
    cases hstep with
    | undeclared => exact .refl
    | @skipped _ pieces _ _ => exact ih (f := { f with pieces }) hroot
    | @failed spec st _ _ hfetch =>
      have hgrown := Suite.grown_fetch hcloner hcache { disk := f.disk } hroot name (some spec)
      rw [hfetch] at hgrown
      exact hgrown
    | @fetched spec st _ _ _ _ _ hfetch =>
      have hgrown := Suite.grown_fetch hcloner hcache { disk := f.disk } hroot name (some spec)
      rw [hfetch] at hgrown
      have hroot' : st.disk.isDirectory (ofNames true []) = true :=
        hgrown.isDirectory (by simp) hroot
      exact hgrown.trans (ih (f := { f with disk := st.disk, lock := _, count := _, pieces := _ }) hroot')

end Steps

section Entries

variable {cloner : Suite.Cloner} {m : Manifest} {cache name : String} {d d' : Disk}
  {names : List String} {entries : List LockedSuite} {locked : LockedSuite}

/-- A suite that a manifest takes from a repository. -/
def Manifest.DeclaresGit (m : Manifest) (name : String) : Prop :=
  ∃ spec, (m.suites.lookup name).bind id = some spec ∧ spec.isGit = true

private theorem Manifest.not_declaresGit {spec : SuiteSpec}
    (hdeclared : (m.suites.lookup name).bind id = some spec) (hlocal : spec.isGit = false) :
    ¬ m.DeclaresGit name := by
  rintro ⟨spec', hdeclared', hgit⟩
  obtain rfl := Option.some.inj (hdeclared.symm.trans hdeclared')
  rw [hlocal] at hgit
  cases hgit

/-- The suites of the entries are those from repositories. -/
theorem Fetches.exists_entry_iff (h : Fetches cloner m cache d names entries d') :
    (∃ locked ∈ entries, locked.name = name) ↔ name ∈ names ∧ m.DeclaresGit name := by
  induction h with
  | done => simp
  | @skipped d d' other rest entries spec hdeclared hlocal _ ih =>
    rw [ih, List.mem_cons]
    constructor
    · exact fun ⟨hmem, hgit⟩ => ⟨.inr hmem, hgit⟩
    · rintro ⟨rfl | hmem, hgit⟩
      · exact absurd hgit (Manifest.not_declaresGit hdeclared hlocal)
      · exact ⟨hmem, hgit⟩
  | @fetched d d' other rest entries spec st locked directory hdeclared hgit hfetch _ ih =>
    have hnamed := (Suite.fetched_of_fetch hfetch).named
    constructor
    · rintro ⟨found, hmem, rfl⟩
      rcases List.mem_cons.mp hmem with rfl | hmem
      · exact ⟨hnamed ▸ List.mem_cons_self, spec, hnamed ▸ hdeclared, hgit⟩
      · obtain ⟨hrest, hfound⟩ := ih.mp ⟨found, hmem, rfl⟩
        exact ⟨List.mem_cons_of_mem _ hrest, hfound⟩
    · rintro ⟨hmem, hfound⟩
      rcases List.mem_cons.mp hmem with rfl | hmem
      · exact ⟨locked, List.mem_cons_self, hnamed⟩
      · obtain ⟨found, hentry, hname⟩ := ih.mpr ⟨hmem, hfound⟩
        exact ⟨found, List.mem_cons_of_mem _ hentry, hname⟩

private theorem Fetches.trimmed (h : Fetches cloner m cache d names entries d')
    (hcloner : cloner.NamesCommits)
    (hspecs : ∀ {name spec}, (m.suites.lookup name).bind id = some spec → spec.trimmed = spec) :
    ∀ locked ∈ entries, locked.trimmed = { locked with name := Text.trim locked.name } := by
  induction h with
  | done => simp
  | skipped _ _ _ ih => exact ih
  | fetched hdeclared _ hfetch _ ih =>
    obtain ⟨hname, htrimmed⟩ := Suite.trimmed_of_fetch hcloner (hspecs hdeclared) hfetch
    exact List.forall_mem_cons.mpr ⟨by rw [htrimmed, hname], ih⟩

end Entries

section Record

variable {m : Manifest} {old : Lockfile} {selected : List String} {entries : List LockedSuite}
  {env : Surroundings} {name : String}

/-- The record that is written holds what was fetched for the selected suites,
    beside what the lockfile held before. -/
structure Locks (m : Manifest) (selected : List String) (old : Lockfile) (entries : List LockedSuite)
    (r : LockRecord) : Prop where
  /-- Every selected suite from a repository has the entry that was returned
      last, without white space around its name. -/
  fetched : ∀ name ∈ selected, m.DeclaresGit name → ∃ locked,
    (entries.filter (·.name == name)).getLast? = some locked ∧
      { locked with name := Text.trim name } ∈ r.suites
  /-- If no selected name has white space around it, that very entry is found
      under the name. -/
  found : (∀ name ∈ selected, Text.trim name = name) → ∀ name ∈ selected, m.DeclaresGit name →
    r.suites.find? (·.name == name) = (entries.filter (·.name == name)).getLast?
  /-- All entries of suites that are not selected are kept, in their order. -/
  kept : ((old.suites.filterMap id).filter fun s => !selected.contains s.name).Sublist r.suites
  project_eq : r.project = m.name
  tool_eq : r.tool = toolVersion
  trimmed : ∀ s ∈ r.suites, s.trimmed = s
  sorted : r.suites.Pairwise fun a b => ¬ Text.Precedes b.name a.name

section Load

-- what is loaded must not be followed when both sides are compared
seal Lockfile.load

/-- The lockfile of a project is the one on the disk, or a new one if there is
    none. Nothing is asked of the manifest: its path alone says where the
    lockfile is. -/
theorem lockfileFor_eq (env : Surroundings) (m : Manifest) :
    lockfileFor env m =
      match Lockfile.load env.disk m.lockPath with
      | .ok lock => .ok lock
      | .error ⟨_, .notFound _⟩ =>
        .ok { Lockfile.new m.name toolVersion env.now with path := m.lockPath }
      | .error e => .error e := rfl

end Load

/-- The lockfile of a project holds trimmed entries, in order. -/
theorem suites_lockfileFor (h : lockfileFor env m = .ok old) :
    old.suites = (normalizeSuites old.suites).map some := by
  rw [lockfileFor_eq] at h
  cases hload : Lockfile.load env.disk m.lockPath with
  | ok lock =>
    rw [hload] at h
    obtain rfl := Except.ok.inj h
    exact (congrArg Lockfile.suites (Lockfile.normalize_of_load hload)).symm
  | error e =>
    rw [hload] at h
    obtain ⟨context, cause⟩ := e
    cases cause with
    | notFound text =>
      obtain rfl := Except.ok.inj h
      have hnone : normalizeSuites [] = [] := List.mergeSort_nil
      exact (congrArg (List.map some) hnone).symm
    | _ => cases h

/-- An entry that was fetched is written without white space around its name. -/
theorem mem_normalizeSuites_of_last {locked : LockedSuite}
    (hlast : (entries.filter (·.name == name)).getLast? = some locked) :
    locked.trimmed ∈ normalizeSuites (old.putAll entries).suites := by
  have hfound : (old.putAll entries).find? name = some locked := by
    rw [Lockfile.find?_putAll, hlast]
    rfl
  rw [Lockfile.find?_eq] at hfound
  have hmem := List.mem_of_find?_eq_some hfound
  exact (normalizeSuites_perm _).mem_iff.mpr (List.mem_map_of_mem hmem)

/-- The old entries whose names are not selected are kept, in their order. The
    old lockfile must be in order, which it is when it was loaded, and the new
    entries must be ones that were selected. -/
theorem kept_putAll (hold : old.suites = (normalizeSuites old.suites).map some)
    (hselected : ∀ locked ∈ entries, locked.name ∈ selected) :
    ((old.suites.filterMap id).filter fun s => !selected.contains s.name).Sublist
      (normalizeSuites (old.putAll entries).suites) := by
  have hothers := @Lockfile.filter_putAll entries (fun entry => entry.any (!selected.contains ·.name))
    (fun locked hmem entry hnamed => by
      obtain _ | s := entry
      · rfl
      · rw [isNamed_some] at hnamed
        simpa [hnamed] using hselected locked hmem) old
  generalize hsuites : normalizeSuites old.suites = suites at hold
  rw [hold, List.filter_map] at hothers
  rw [hold, filterMap_map_some]
  -- the entries that are kept are trimmed and in order already
  have hkept : ((suites.filter fun s => !selected.contains s.name).map some).Sublist
      (old.putAll entries).suites :=
    hothers ▸ List.filter_sublist
  have hsame : (suites.filter fun s => !selected.contains s.name).map LockedSuite.trimmed =
      suites.filter fun s => !selected.contains s.name := by
    refine (List.map_congr_left fun s hs => ?_).trans (List.map_id _)
    exact trimmed_of_mem_normalizeSuites (hsuites ▸ (List.mem_filter.mp hs).1)
  refine sublist_normalizeSuites ?_ ?_
  · exact (hsuites ▸ pairwise_normalizeSuites old.suites).filter _
  · have hthere := (hkept.filterMap id).map LockedSuite.trimmed
    rwa [filterMap_map_some, hsame] at hthere

private theorem exists_last_entry (h : ∃ locked ∈ entries, locked.name = name) :
    ∃ locked ∈ entries, locked.name = name ∧
      (entries.filter (·.name == name)).getLast? = some locked := by
  obtain ⟨first, hfirst, hnamed⟩ := h
  have hne : entries.filter (·.name == name) ≠ [] :=
    List.ne_nil_of_mem (List.mem_filter.mpr ⟨hfirst, by simpa using hnamed⟩)
  obtain ⟨hentry, hlocked⟩ := List.mem_filter.mp (List.getLast_mem hne)
  exact ⟨_, hentry, by simpa using hlocked, List.getLast?_eq_some_getLast hne⟩

private theorem trim_of_mem_entryNames_putAll (hold : old.suites = (normalizeSuites old.suites).map some)
    (hclean : ∀ locked ∈ entries, Text.trim locked.name = locked.name) :
    ∀ n ∈ entryNames (old.putAll entries).suites, Text.trim n = n := by
  intro n hn
  rcases Lockfile.mem_entryNames_putAll hn with hput | hthere
  · obtain ⟨locked, hentry, rfl⟩ := List.mem_map.mp hput
    exact hclean locked hentry
  · obtain ⟨s, hs, rfl⟩ := mem_entryNames_iff.mp hthere
    rw [hold] at hs
    obtain ⟨s', hs', heq⟩ := List.mem_map.mp hs
    cases heq
    exact congrArg LockedSuite.name (trimmed_of_mem_normalizeSuites hs')

private theorem locks_stamped {lock : Lockfile} (hold : old.suites = (normalizeSuites old.suites).map some)
    (hname : Text.trim m.name = m.name)
    (hentries : ∀ name, (∃ locked ∈ entries, locked.name = name) ↔ name ∈ selected ∧ m.DeclaresGit name)
    (htrimmed : ∀ locked ∈ entries, locked.trimmed = { locked with name := Text.trim locked.name })
    (hproject : lock.project = m.name) (htool : lock.tool = toolVersion)
    (hsuites : lock.suites = (old.putAll entries).suites) (now path : String) :
    Locks m selected old entries (lock.stamped now path).toRecord := by
  have hselected : ∀ locked ∈ entries, locked.name ∈ selected :=
    fun locked hentry => ((hentries _).mp ⟨locked, hentry, rfl⟩).1
  rw [Lockfile.stamped, Lockfile.toRecord_normalize]
  dsimp only
  rw [hsuites, hproject, htool]
  exact {
    fetched := by
      intro name hmem hgit
      obtain ⟨locked, hentry, rfl, hlast⟩ := exists_last_entry ((hentries name).mpr ⟨hmem, hgit⟩)
      refine ⟨locked, hlast, ?_⟩
      rw [← htrimmed locked hentry]
      exact mem_normalizeSuites_of_last hlast
    found := by
      intro hclean name hmem hgit
      obtain ⟨locked, hentry, rfl, hlast⟩ := exists_last_entry ((hentries name).mpr ⟨hmem, hgit⟩)
      have hfound := Lockfile.find?_normalize (trim_of_mem_entryNames_putAll hold fun locked hentry =>
        hclean _ (hselected locked hentry)) locked.name
      rw [Lockfile.find?_eq, Lockfile.normalize, filterMap_map_some, Lockfile.find?_putAll, hlast]
        at hfound
      rw [hfound, hlast]
      exact congrArg some ((htrimmed locked hentry).trans (by rw [hclean _ hmem]))
    kept := kept_putAll hold hselected
    project_eq := hname
    tool_eq := show Text.trim toolVersion = toolVersion by decide
    trimmed := fun s hs => trimmed_of_mem_normalizeSuites hs
    sorted := (pairwise_normalizeSuites _).imp LockedSuite.notAfter_iff.mp }

end Record

section Command

variable {env : Surroundings} {options : Options} {m : Manifest} {names ns : List String}

/-- The suites that a fetch is of: those that are named, or all of the project. -/
def selectedSuites (m : Manifest) (names : List String) : List String :=
  if names.isEmpty then m.suiteNames else names

private theorem isAbsolute_cacheDirectory {d : Disk} {asked cache : String} (hrooted : d.IsRooted)
    (h : Suite.cacheDirectory d asked = .ok cache) : Path.isAbsolute cache = true := by
  rw [Suite.cacheDirectory] at h
  split at h
  · obtain rfl := Except.ok.inj h
    rw [Disk.absolute, Path.absolute_eq_ofNames hrooted.directory]
    exact Path.isAbsolute_ofNames_of_isName (Path.isName_of_mem_names _)
  split at h
  · cases h
  · next hhome =>
    obtain rfl := Except.ok.inj h
    have hne : d.home ≠ "" := mt String.isEmpty_iff.mpr hhome
    rw [Path.isAbsolute_join hne]
    exact hrooted.home.resolve_left hne

/-- If the storage of the suites is known, then so are its two parts. -/
theorem suiteStorage_eq_ok {cache : String} {old : Lockfile}
    (h : suiteStorage env m = .ok (cache, old)) :
    Suite.cacheDirectory env.disk env.cacheHome = .ok cache ∧ lockfileFor env m = .ok old := by
  obtain ⟨cache', hcache, h⟩ := bind_eq_ok_iff.mp h
  obtain ⟨old', hold, h⟩ := bind_eq_ok_iff.mp h
  cases h
  exact ⟨hcache, hold⟩

private theorem abort_spec (command : String) (pieces : List Piece) (disk : Disk) (e : Error) :
    (Response.abort command pieces disk e).code ≠ .success ∧
      (Response.abort command pieces disk e).disk = disk := by
  rw [Response.abort]
  cases e.cause <;> exact ⟨by simp, rfl⟩

/-- The start of a fetch. -/
def startFetching (env : Surroundings) (m : Manifest) (old : Lockfile) : Fetching :=
  { disk := env.disk, lock := { old with project := m.name, tool := toolVersion } }

private theorem make_of_storage {cache : String} {old : Lockfile} (hm : manifestFor env.disk "" = .ok (some m))
    (hstorage : suiteStorage env m = .ok (cache, old)) (names : List String) :
    FetchPlan.make env names =
      .ok ⟨m, selectedSuites m names, cache, (startFetching env m old).lock⟩ := by
  rw [FetchPlan.make, hm, ok_bind]
  dsimp only
  rw [hstorage]
  rfl

private theorem make_of_storage_error {e : Error} (hm : manifestFor env.disk "" = .ok (some m))
    (hstorage : suiteStorage env m = .error e) (names : List String) :
    FetchPlan.make env names = .error e := by
  rw [FetchPlan.make, hm, ok_bind]
  dsimp only
  rw [hstorage]
  rfl

/-- All that a fetch can do: it fails before its first suite, or after some of
    them, or it saves what it has fetched. -/
inductive FetchRun (env : Surroundings) (options : Options) (m : Manifest) (names : List String) :
    Response → Prop where
  | unprepared {r : Response} (hcode : r.code ≠ .success) (hdisk : r.disk = env.disk) :
      FetchRun env options m names r
  | failed {r : Response} {cache : String} {old : Lockfile}
      (hstorage : suiteStorage env m = .ok (cache, old)) (hcode : r.code ≠ .success)
      (hdisk : r.disk = ((startFetching env m old).fetchSuites env options m cache
        (selectedSuites m names)).1.disk) :
      FetchRun env options m names r
  | saved {r : Response} {cache : String} {old : Lockfile} {f : Fetching}
      (hstorage : suiteStorage env m = .ok (cache, old)) (hcode : r.code = .success)
      (hfetched : (startFetching env m old).fetchSuites env options m cache (selectedSuites m names) =
        (f, .ok ())) (hsaved : f.save env m = .ok r.disk) :
      FetchRun env options m names r

private theorem fetchRun_fetchCommand (hm : manifestFor env.disk "" = .ok (some m)) (options : Options)
    (names : List String) : FetchRun env options m names (fetchCommand env options names) := by
  cases hstorage : suiteStorage env m with
  | error e =>
    rw [fetchCommand, make_of_storage_error hm hstorage]
    obtain ⟨hcode, hdisk⟩ := abort_spec "whilep suites fetch" [] env.disk e
    exact .unprepared hcode hdisk
  | ok storage =>
    obtain ⟨cache, old⟩ := storage
    rw [fetchCommand, make_of_storage hm hstorage]
    dsimp only
    generalize hfetched : Fetching.fetchSuites env options m cache _ _ = result
    obtain ⟨f, result⟩ := result
    have hfetched : (startFetching env m old).fetchSuites env options m cache
        (selectedSuites m names) = (f, result) := hfetched
    cases result with
    | error e =>
      obtain ⟨hcode, hdisk⟩ := abort_spec "whilep suites fetch" f.pieces f.disk e
      exact .failed hstorage hcode (by rw [hfetched]; exact hdisk)
    | ok _ =>
      dsimp only
      cases hsaved : f.save env m with
      | error e =>
        obtain ⟨hcode, hdisk⟩ := abort_spec "whilep suites fetch" f.pieces f.disk e
        exact .failed hstorage hcode (by rw [hfetched]; exact hdisk)
      | ok disk => exact .saved hstorage rfl hfetched hsaved

/-- The content of the lockfile of a project is the same, or there is still
    none. -/
def KeepsLock (m : Manifest) (d d' : Disk) : Prop :=
  (d'.read m.lockPath).toOption = (d.read m.lockPath).toOption

private theorem isName_lockName : IsName Manifest.lockName :=
  ⟨by decide, by decide, by decide, by decide⟩

private theorem keepsLock_of_grown {d d' : Disk} (hplace : m.StandsIn d ns) (h : Grown d d') :
    KeepsLock m d d' := by
  rw [KeepsLock, hplace.lockPath_eq]
  exact (h.sameFilesIn hplace.names).read hplace.isDirectory Manifest.lockName isName_lockName

/-- A lockfile that was saved holds the record that was written. The manifest
    must stand in a directory of the disk, so that its lockfile has a place. -/
theorem read_of_save {d d' : Disk} {lock : Lockfile} {now : String} (hplace : m.StandsIn env.disk ns)
    (h : (lock.save d now m.lockPath).2 = .ok d') :
    d'.read m.lockPath = .ok (Text.toBytes (lock.stamped now m.lockPath).toRecord.write) := by
  have hnames : ∀ n ∈ ns ++ [Manifest.lockName], IsName n :=
    List.forall_mem_append.mpr ⟨hplace.names, by simpa using isName_lockName⟩
  have hne : m.lockPath ≠ "" := by
    rw [hplace.lockPath_eq]
    exact Path.ofNames_ne_empty fun n hn => (hnames n hn).nonempty
  have habsolute : d.absolute m.lockPath = m.lockPath := by
    rw [hplace.lockPath_eq, Disk.absolute, Path.absolute_ofNames hnames]
  have hsave : lock.save d now m.lockPath = ((lock.save d now m.lockPath).1, .ok d') := by
    rw [← h]
  obtain ⟨hsaved, hwrite⟩ := Lockfile.write_of_save hne hsave
  rw [hsaved, habsolute] at hwrite
  rw [hplace.lockPath_eq] at hwrite ⊢
  rw [Disk.read, (Disk.find_write hnames hwrite).2]

private theorem grown_of_storage {cache : String} {old : Lockfile} (hrooted : env.disk.IsRooted)
    (hcloner : env.cloner.GivesDirectories) (hplace : m.StandsIn env.disk ns)
    (hstorage : suiteStorage env m = .ok (cache, old)) (selected : List String) :
    Grown env.disk ((startFetching env m old).fetchSuites env options m cache selected).1.disk := by
  have hcache := isAbsolute_cacheDirectory hrooted (suiteStorage_eq_ok hstorage).1
  have hroot : env.disk.isDirectory (ofNames true []) = true :=
    Disk.isDirectory_of_append hplace.names hplace.isDirectory
  exact grown_fetchSuites (f := startFetching env m old) hcloner hcache hroot

/-- A fetch that fails leaves the lockfile alone, whether it held anything or
    not. The cloner must give directories, for then all that was fetched before
    the failure only adds to the disk. -/
theorem FetchRun.keepsLock {r : Response} (h : FetchRun env options m names r)
    (hrooted : env.disk.IsRooted) (hcloner : env.cloner.GivesDirectories)
    (hplace : m.StandsIn env.disk ns) (hcode : r.code ≠ .success) : KeepsLock m env.disk r.disk := by
  cases h with
  | unprepared _ hdisk =>
    rw [hdisk]
    rfl
  | failed hstorage _ hdisk =>
    rw [hdisk]
    exact keepsLock_of_grown hplace (grown_of_storage hrooted hcloner hplace hstorage _)
  | saved _ hsuccess => exact absurd hsuccess hcode

/-- A fetch that works has returned entries; without any the lockfile is left
    alone, and otherwise it is written with them. -/
theorem FetchRun.entries {r : Response} (h : FetchRun env options m names r)
    (hrooted : env.disk.IsRooted) (hcloner : env.cloner.GivesDirectories)
    (hcommits : env.cloner.NamesCommits) (hplace : m.StandsIn env.disk ns)
    (hcode : r.code = .success) :
    ∃ cache old entries fetched, suiteStorage env m = .ok (cache, old) ∧
      Fetches env.cloner m cache env.disk (selectedSuites m names) entries fetched ∧
      (entries = [] → KeepsLock m env.disk r.disk) ∧
      (entries ≠ [] → ∃ record, Locks m (selectedSuites m names) old entries record ∧
        r.disk.read m.lockPath = .ok (Text.toBytes record.write)) := by
  cases h with
  | unprepared hfailed _ => exact absurd hcode hfailed
  | failed _ hfailed _ => exact absurd hcode hfailed
  | @saved cache old f hstorage _ hfetched hsaved =>
    obtain ⟨entries, hfetches, hlock, hcount⟩ := fetches_of_fetchSuites hfetched
    have hcount : f.count = entries.length := hcount.trans (Nat.zero_add _)
    have hgrown := @grown_of_storage env options m ns cache old hrooted hcloner hplace hstorage
      (selectedSuites m names)
    rw [hfetched] at hgrown
    rw [Fetching.save] at hsaved
    refine ⟨cache, old, entries, f.disk, hstorage, hfetches, ?_, ?_⟩
    · intro hnone
      rw [hnone] at hcount
      rw [if_pos (show f.count = 0 from hcount)] at hsaved
      rw [← Except.ok.inj hsaved]
      exact keepsLock_of_grown hplace hgrown
    · intro hne
      have hfilled : ¬ f.count = 0 := by
        rw [hcount]
        exact fun hzero => hne (List.length_eq_zero_iff.mp hzero)
      rw [if_neg hfilled] at hsaved
      refine ⟨_, ?_, read_of_save hplace hsaved⟩
      have hrest := Lockfile.putAll_eq (startFetching env m old).lock entries
      rw [← hlock] at hrest
      apply locks_stamped (suites_lockfileFor (suiteStorage_eq_ok hstorage).2) hplace.trim_name
        (fun name => hfetches.exists_entry_iff) (hfetches.trimmed hcommits hplace.trimmed_of_declared)
      · rw [hrest]
        rfl
      · rw [hrest]
        rfl
      · rw [hlock]
        exact @Lockfile.suites_putAll (startFetching env m old).lock old rfl entries

private theorem parse_fetch (arguments : List String) :
    Options.parse ("suites" :: "fetch" :: arguments) =
      (Options.parse arguments).map fun parsed => (parsed.1, "suites" :: "fetch" :: parsed.2) := by
  have hsuites : Options.classify "suites" = .plain := by decide
  have hfetch : Options.classify "fetch" = .plain := by decide
  rw [Options.parse, Options.parseFrom, hsuites]
  dsimp only
  rw [Options.parseFrom, hfetch]
  dsimp only
  rw [Options.parse]
  cases Options.parseFrom {} arguments <;> rfl

private theorem commandLine_fetch {arguments : List String}
    (hparsed : Options.parse arguments = .ok (options, names)) :
    commandLine env ("suites" :: "fetch" :: arguments) = fetchCommand env options names := by
  rw [commandLine, parse_fetch, hparsed]
  rfl

/-- A fetch without a manifest fails, and changes nothing. -/
theorem fetchCommand_of_no_manifest (h : ∀ m, manifestFor env.disk "" ≠ .ok (some m)) :
    (fetchCommand env options names).code ≠ .success ∧
      (fetchCommand env options names).disk = env.disk := by
  have hmake : ∃ e, FetchPlan.make env names = .error e := by
    rw [FetchPlan.make]
    cases hm : manifestFor env.disk "" with
    | error e => exact ⟨e, rfl⟩
    | ok found =>
      cases found with
      | none => exact ⟨_, rfl⟩
      | some m => exact absurd hm (h m)
  obtain ⟨e, hmake⟩ := hmake
  rw [fetchCommand, hmake]
  exact abort_spec _ _ _ _

/-- The command that fetches suites is all or nothing for the lockfile. If it
    fails, the content of the lockfile is unchanged, and without a manifest
    everything is. If it works and none of the selected suites is from a
    repository, the content is unchanged as well. Otherwise it is written anew:
    every selected suite from a repository has the entry that fetching it
    returned last, without white space around its name, all entries of suites
    that were not selected are kept, project and tool are set, and the names do
    not decrease. -/
theorem fetch_all_or_nothing (env : Surroundings) (arguments : List String)
    (hrooted : env.disk.IsRooted) (hcloner : env.cloner.GivesDirectories)
    (hcommits : env.cloner.NamesCommits) (r : Response)
    (hr : commandLine env ("suites" :: "fetch" :: arguments) = r) :
    ((∀ m, manifestFor env.disk "" ≠ .ok (some m)) → r.code ≠ .success ∧ r.disk = env.disk) ∧
    ∀ m, manifestFor env.disk "" = .ok (some m) →
      (r.code ≠ .success → KeepsLock m env.disk r.disk) ∧
      (r.code = .success → ∃ options names, Options.parse arguments = .ok (options, names) ∧
        ((∀ name ∈ selectedSuites m names, ¬ m.DeclaresGit name) → KeepsLock m env.disk r.disk) ∧
        ((∃ name ∈ selectedSuites m names, m.DeclaresGit name) →
          ∃ cache old entries fetched record, suiteStorage env m = .ok (cache, old) ∧
            Fetches env.cloner m cache env.disk (selectedSuites m names) entries fetched ∧
            Locks m (selectedSuites m names) old entries record ∧
            r.disk.read m.lockPath = .ok (Text.toBytes record.write))) := by
  cases hparsed : Options.parse arguments with
  | error e =>
    -- the options are refused before anything is looked at
    rw [commandLine, parse_fetch, hparsed] at hr
    obtain rfl := hr
    exact ⟨fun _ => ⟨fun hcode => (by cases hcode), rfl⟩,
      fun m _ => ⟨fun _ => rfl, fun hcode => (by cases hcode)⟩⟩
  | ok parsed =>
    obtain ⟨options, names⟩ := parsed
    rw [commandLine_fetch hparsed] at hr
    subst hr
    refine ⟨fun hnone => fetchCommand_of_no_manifest hnone, fun m hm => ?_⟩
    have hrun := fetchRun_fetchCommand hm options names
    obtain ⟨ns, hplace⟩ := Manifest.standsIn_of_nearestManifest hm
    refine ⟨hrun.keepsLock hrooted hcloner hplace, fun hcode => ⟨options, names, rfl, ?_⟩⟩
    obtain ⟨cache, old, entries, fetched, hstorage, hfetches, hkept, hwritten⟩ :=
      hrun.entries hrooted hcloner hcommits hplace hcode
    refine ⟨fun hlocal => hkept ?_, fun hgit => ?_⟩
    · refine List.eq_nil_iff_forall_not_mem.mpr fun locked hmem => ?_
      obtain ⟨hselected, hfound⟩ := hfetches.exists_entry_iff.mp ⟨locked, hmem, rfl⟩
      exact hlocal _ hselected hfound
    · obtain ⟨name, hselected, hfound⟩ := hgit
      obtain ⟨locked, hmem, -⟩ := hfetches.exists_entry_iff.mpr ⟨hselected, hfound⟩
      obtain ⟨record, hlocks, hread⟩ := hwritten (List.ne_nil_of_mem hmem)
      exact ⟨cache, old, entries, fetched, record, hstorage, hfetches, hlocks, hread⟩

end Command

section Padded

/-- The commit that the suites are pinned to. -/
def paddedCommit : String :=
  "0123456789abcdef0123456789abcdef01234567"

/-- The checkouts of a suite, of which there is one: that of the commit, without
    any files. -/
def emptyCheckouts : FileTree :=
  .directory [(paddedCommit, .directory [(".git", .directory [("HEAD", .file (Text.toBytes paddedCommit))])])]

/-- A project with one suite, whose checkout is cached. The suites are tagged as
    null, so that the white space around the name stays. -/
def paddedProject : Surroundings where
  disk := {
    root := .directory [
      ("c", .directory [("suites", .directory [("s", emptyCheckouts)])]),
      ("whileplus.yml", .file (Text.toBytes
        ("name: demo\nsuites: !!null\n  ' s ': \x7bgit: /nowhere, rev: " ++ paddedCommit ++ "\x7d\n")))]
    directory := "/" }
  cacheHome := "/c"
  now := "2024-01-01T00:00:00Z"
  logTime := "2024-01-01T00:00:00Z"
  runId := fun _ => "run"
  cloner := Suite.unreachable

/-- The manifest of the project, as it is read from its file. -/
def paddedManifest : Manifest where
  path := "/whileplus.yml"
  name := "demo"
  programs := []
  suites := [(" s ", some { git := "/nowhere", rev := paddedCommit })]
  maxSteps := 0

/-- What fetching the suite returns; the checksum is that of no files. -/
def paddedEntry : LockedSuite where
  name := " s "
  version := paddedCommit
  source := "git+/nowhere@" ++ paddedCommit
  checksum := "e3b0c44298fc1c149afbf4c8996fb92427ae41e4649b934ca495991b7852b855"

private theorem isRooted_paddedProject : paddedProject.disk.IsRooted :=
  ⟨by decide, .inl rfl⟩

private theorem givesDirectories_unreachable : Suite.unreachable.GivesDirectories := by
  intro address revision commit repository files hcloned
  cases hcloned

private theorem namesCommits_unreachable : Suite.unreachable.NamesCommits := by
  intro address revision commit repository files hcloned
  cases hcloned

/-- What is found in that project, what fetching the suite returns, and how the
    command ends. -/
private theorem run_paddedProject :
    manifestFor paddedProject.disk "" = .ok (some paddedManifest) ∧
      (Suite.fetch paddedProject.cloner (some "/c") { disk := paddedProject.disk } " s "
        (some { git := "/nowhere", rev := paddedCommit })).2 =
          .ok (paddedEntry, "/c/suites/s/" ++ paddedCommit) ∧
      (commandLine paddedProject ["suites", "fetch"]).code = .success := by
  decide +kernel

private theorem selectedSuites_paddedManifest : selectedSuites paddedManifest [] = [" s "] := by
  decide

private theorem declaresGit_paddedManifest : paddedManifest.DeclaresGit " s " :=
  ⟨_, rfl, by decide⟩

/-- The very entry that is returned for the suite is not in the lockfile,
    whatever it is loaded as. -/
theorem fetch_omits_padded_entry :
    manifestFor paddedProject.disk "" = .ok (some paddedManifest) ∧
    selectedSuites paddedManifest [] = [" s "] ∧ paddedManifest.DeclaresGit " s " ∧
    (Suite.fetch paddedProject.cloner (some "/c") { disk := paddedProject.disk } " s "
      (some { git := "/nowhere", rev := paddedCommit })).2 =
        .ok (paddedEntry, "/c/suites/s/" ++ paddedCommit) ∧
    (commandLine paddedProject ["suites", "fetch"]).code = .success ∧
    (∃ record : LockRecord, paddedEntry ∉ record.suites ∧
      (commandLine paddedProject ["suites", "fetch"]).disk.read paddedManifest.lockPath =
        .ok (Text.toBytes record.write)) ∧
    ∀ lock, Lockfile.load (commandLine paddedProject ["suites", "fetch"]).disk paddedManifest.lockPath =
      .ok lock → some paddedEntry ∉ lock.suites := by
  have hpadded : ¬ paddedEntry.trimmed = paddedEntry := by decide
  obtain ⟨hmanifest, hfetched, hcode⟩ := run_paddedProject
  refine ⟨hmanifest, selectedSuites_paddedManifest, declaresGit_paddedManifest, hfetched, hcode, ?_,
    fun lock hload hmem => ?_⟩
  · obtain ⟨ns, hplace⟩ := Manifest.standsIn_of_nearestManifest hmanifest
    have hcommand : commandLine paddedProject ["suites", "fetch"] = fetchCommand paddedProject {} [] :=
      commandLine_fetch rfl
    rw [hcommand] at hcode ⊢
    obtain ⟨cache, old, entries, fetched, -, hfetches, -, hwritten⟩ :=
      (fetchRun_fetchCommand hmanifest {} []).entries isRooted_paddedProject
        givesDirectories_unreachable namesCommits_unreachable hplace hcode
    obtain ⟨locked, hentry, -⟩ := hfetches.exists_entry_iff.mpr
      ⟨selectedSuites_paddedManifest ▸ List.mem_singleton_self " s ", declaresGit_paddedManifest⟩
    obtain ⟨record, hlocks, hread⟩ := hwritten (List.ne_nil_of_mem hentry)
    exact ⟨record, fun hmem => hpadded (hlocks.trimmed _ hmem), hread⟩
  · rw [← Lockfile.normalize_of_load hload] at hmem
    obtain ⟨found, hfound, heq⟩ := List.mem_map.mp hmem
    cases heq
    exact hpadded (trimmed_of_mem_normalizeSuites hfound)

end Padded

section Mixed

/-- A suite that was locked and is not declared any more. -/
def droppedEntry : LockedSuite where
  name := "dropped"
  version := "v1"
  source := "git+/nowhere@v1"
  checksum := "a"

/-- A project with a suite of each kind, where the checkout of the one from a
    repository is cached. The lockfile has the entry of a suite that is not
    declared any more. -/
def mixedProject : Surroundings :=
  { paddedProject with
    disk := {
      root := .directory [
        ("c", .directory [("suites", .directory [("s", emptyCheckouts)])]),
        ("whileplus.lock", .file (Text.toBytes
          "suites:\n- \x7bname: dropped, version: v1, source: git+/nowhere@v1, checksum: a\x7d\n")),
        ("whileplus.yml", .file (Text.toBytes
          ("name: demo\nsuites:\n  local: fixtures\n  s: \x7bgit: /nowhere, rev: " ++ paddedCommit ++ "\x7d\n")))]
      directory := "/" } }

/-- The manifest of that project, as it is read from its file. -/
def mixedManifest : Manifest where
  path := "/whileplus.yml"
  name := "demo"
  programs := []
  suites := [("local", some { path := "fixtures" }), ("s", some { git := "/nowhere", rev := paddedCommit })]
  maxSteps := 0

/-- The lockfile of that project, as it is read from its file. -/
def mixedLock : Lockfile where
  path := "/whileplus.lock"
  project := ""
  generated := ""
  tool := ""
  suites := [some droppedEntry]

/-- What is found in that project. -/
private theorem reads_mixedProject :
    manifestFor mixedProject.disk "" = .ok (some mixedManifest) ∧
      suiteStorage mixedProject mixedManifest = .ok ("/c", mixedLock) := by
  decide +kernel

private theorem code_mixedProject : (commandLine mixedProject ["suites", "fetch"]).code = .success := by
  have hcommand : commandLine mixedProject ["suites", "fetch"] = fetchCommand mixedProject {} [] :=
    commandLine_fetch rfl
  rw [hcommand, fetchCommand, make_of_storage reads_mixedProject.1 reads_mixedProject.2]
  decide +kernel

/-- The suite from a repository gets the very entry that was returned for it,
    and that of the suite which is not declared any more is kept. -/
theorem fetch_all_or_nothing_mixed :
    ∃ (cache : String) (old : Lockfile) (record : LockRecord) (locked : LockedSuite),
      suiteStorage mixedProject mixedManifest = .ok (cache, old) ∧ some droppedEntry ∈ old.suites ∧
      selectedSuites mixedManifest [] = ["local", "s"] ∧
      (commandLine mixedProject ["suites", "fetch"]).disk.read mixedManifest.lockPath =
        .ok (Text.toBytes record.write) ∧
      record.suites.find? (·.name == "s") = some locked ∧ droppedEntry ∈ record.suites := by
  have hgit : mixedManifest.DeclaresGit "s" := ⟨_, rfl, by decide⟩
  obtain ⟨-, hwritten⟩ := fetch_all_or_nothing mixedProject [] ⟨by decide, .inl rfl⟩
    givesDirectories_unreachable namesCommits_unreachable _ rfl
  obtain ⟨-, hsuccess⟩ := hwritten mixedManifest reads_mixedProject.1
  obtain ⟨options, names, hparsed, -, hlocks⟩ := hsuccess code_mixedProject
  cases hparsed
  have hselected : selectedSuites mixedManifest [] = ["local", "s"] := by decide
  rw [hselected] at hlocks
  obtain ⟨cache, old, entries, fetched, record, hstorage, -, hlocks, hread⟩ := hlocks ⟨"s", by decide, hgit⟩
  obtain ⟨locked, hlast, -⟩ := hlocks.fetched "s" (by decide) hgit
  obtain ⟨rfl, rfl⟩ := Prod.mk.inj (Except.ok.inj (reads_mixedProject.2.symm.trans hstorage))
  have hfound := hlocks.found (by decide) "s" (by decide) hgit
  have hkept := hlocks.kept.subset (List.mem_filter.mpr ⟨List.mem_singleton_self droppedEntry, by decide⟩)
  exact ⟨"/c", mixedLock, record, locked, hstorage, List.mem_singleton_self _, hselected, hread,
    hfound.trans hlast, hkept⟩

end Mixed

end WhilePlus
