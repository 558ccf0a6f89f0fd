import WhilePlus.CommandLine.Fetch
import WhilePlus.Proofs.Disk.Make
import WhilePlus.Proofs.Suite.Pinning

namespace WhilePlus.Suite

section Checkout

variable {cloner : Cloner} {cache : Option String} {st final : State} {name : String}
  {spec : SuiteSpec} {locked : LockedSuite} {directory sum : String} {d d' : Disk}
  {base version commit : String}

/-- How a suite was checked out, once the directory for it was made: the
    checkout of the revision was there, or that of the cloned commit was, or the
    clone was put into its place. -/
inductive Ensured (cloner : Cloner) (base : String) (spec : SuiteSpec) (made : Disk) :
    Disk → String → String → Prop where
  | atRevision : Ensured cloner base spec made made spec.rev spec.rev
  | existing {revision : Revision} {repository : Repository} {commit : String} {files : FileTree}
      (hrevision : revision? spec = some revision) (hcloned : cloner spec.git = .ok repository)
      (hchecked : repository.checkout revision.name = .ok (commit, files)) :
      Ensured cloner base spec made made (pinnedVersion revision.descriptor commit) commit
  | cloned {revision : Revision} {repository : Repository} {commit : String} {files : FileTree}
      (hrevision : revision? spec = some revision) (hcloned : cloner spec.git = .ok repository)
      (hchecked : repository.checkout revision.name = .ok (commit, files))
      (hfree : made.contains
        (Path.join [base, segment (pinnedVersion revision.descriptor commit)]) = false) :
      Ensured cloner base spec made
        { made with root := made.root.put files (Path.names (made.absolute
          (Path.join [base, segment (pinnedVersion revision.descriptor commit)]))) }
        (pinnedVersion revision.descriptor commit) commit

/-- A checkout that is made sure of has its directory made first, and then is
    there in one of the ways that there are. -/
theorem ensured_of_ensureCheckout
    (h : ensureCheckout cloner d base spec = (d', .ok (version, commit))) :
    ∃ made, d.makeDirectories base = (made, .ok ()) ∧
      Ensured cloner base spec made d' version commit := by
  rw [ensureCheckout] at h
  split at h
  · cases h
  next made hmade =>
    refine ⟨made, hmade, ?_⟩
    split at h
    · cases h
    next revision hrevision =>
      split at h
      · cases h
        exact .atRevision
      split at h
      · cases h
      next repository hcloned =>
        split at h
        · cases h
        next cloned files hchecked =>
          dsimp only at h
          split at h
          · cases h
            exact .existing hrevision hcloned hchecked
          · next hfree =>
            obtain ⟨rfl, hok⟩ := Prod.mk.inj h
            cases hok
            exact .cloned hrevision hcloned hchecked (Bool.eq_false_iff.mpr hfree)

private theorem pinnedVersion_self (commit : String) : pinnedVersion commit commit = commit := by
  rw [pinnedVersion]
  split
  · rfl
  · rw [if_pos (by simp)]

private theorem revision?_of_rev (h : spec.rev ≠ "") : revision? spec = some ⟨spec.rev, spec.rev⟩ := by
  rw [revision?, if_pos (by simpa using h)]

private theorem IsCommit.notDots (h : IsCommit commit) : NotDots commit := by
  have hnot := h.notDots_pinnedVersion commit
  rwa [pinnedVersion_self] at hnot

private theorem toOption_checksum (d : Disk) (path : String) :
    (checksum d path).toOption =
      (d.find path).toOption.map fun t => Sha256.hexDigest (checksumBytes (filesAt path t)) := by
  rw [checksum]
  cases d.find path <;> rfl

/-- What a cloner finds at a revision of a repository, if anything, is a commit
    with the name of the revision, and its files at a path have the given
    checksum. -/
def Cloner.Yields (cloner : Cloner) (address revision path sum : String) : Prop :=
  ∀ (repository : Repository) (commit : String) (files : FileTree),
    cloner address = .ok repository → repository.checkout revision = .ok (commit, files) →
      commit = revision ∧ Sha256.hexDigest (checksumBytes (filesAt path files)) = sum

/-- Where nothing exists, nothing is found. -/
theorem toOption_find_of_not_contains {path : String} (h : d.contains path = false) :
    (d.find path).toOption = none := by
  rw [Disk.contains] at h
  cases hfound : d.find path with
  | error _ => rfl
  | ok t =>
    rw [hfound] at h
    cases h

/-- What is put at a path has the checksum that is then found there. -/
theorem checksum_put {path : String} {files : FileTree}
    (h : checksum { d with root := d.root.put files (Path.names (d.absolute path)) } path = .ok sum) :
    Sha256.hexDigest (checksumBytes (filesAt path files)) = sum := by
  obtain ⟨t, hfound, hsum⟩ := find_of_checksum h
  have hget := Disk.get?_of_find_root hfound
  rw [Disk.absolute, FileTree.get?_put_self] at hget
  cases hget
  exact hsum

/-- A fetched commit has the checksum of what stood in the place of its checkout
    before; only if nothing did, it has that of the repository. -/
theorem Fetched.checksum_of_commit (h : Fetched cloner cache st name spec final locked directory)
    (hrev : IsCommit spec.rev)
    (hclone : cloner.Yields spec.git spec.rev (checkoutDirectory (cache.getD "") name spec.rev) sum) :
    locked.version = spec.rev ∧ locked.checksum =
      (checksum st.disk (checkoutDirectory (cache.getD "") name spec.rev)).toOption.getD sum := by
  obtain ⟨-, ⟨commit, hensured⟩, hverified, -⟩ := h
  obtain ⟨made, hmade, hensured⟩ := ensured_of_ensureCheckout hensured
  have hrevision := revision?_of_rev hrev.ne_empty
  have hname := isName_segment_iff.mpr hrev.notDots
  have hbefore : (made.find (checkoutDirectory (cache.getD "") name spec.rev)).toOption =
      (st.disk.find (checkoutDirectory (cache.getD "") name spec.rev)).toOption :=
    Disk.find_makeDirectories (baseDirectory_ne_empty _ name) hname hmade
  rw [toOption_checksum, ← hbefore, ← toOption_checksum]
  -- in each case the version is the revision, since a clone has it under its own name
  generalize final.disk = disk at hensured hverified
  generalize locked.version = version at hensured hverified
  cases hensured with
  | atRevision => exact ⟨rfl, by rw [hverified]; rfl⟩
  | existing hfound hcloned hchecked =>
    obtain rfl := Option.some.inj (hrevision.symm.trans hfound)
    obtain ⟨rfl, -⟩ := hclone _ _ _ hcloned hchecked
    rw [pinnedVersion_self] at hverified ⊢
    exact ⟨rfl, by rw [hverified]; rfl⟩
  | cloned hfound hcloned hchecked hfree =>
    obtain rfl := Option.some.inj (hrevision.symm.trans hfound)
    obtain ⟨rfl, hsum⟩ := hclone _ _ _ hcloned hchecked
    rw [pinnedVersion_self] at hverified hfree ⊢
    refine ⟨rfl, ?_⟩
    rw [toOption_checksum, checkoutDirectory, toOption_find_of_not_contains hfree]
    rw [checkoutDirectory] at hsum
    exact (checksum_put hverified).symm.trans hsum

end Checkout

section Kept

variable {cloner : Cloner} {cache : Option String} {st final : State} {m : Manifest} {name : String}
  {spec : SuiteSpec} {pinned : LockedSuite} {directory : String}

/-- A suite that is pinned to the commit which its manifest asks for, by a
    cloner that finds the pinned files there. -/
structure PinnedCommit (cloner : Cloner) (cache : Option String) (st : State) (m : Manifest)
    (name : String) (spec : SuiteSpec) (pinned : LockedSuite) : Prop
    extends IsPinned cache st m name spec pinned where
  commit : IsCommit spec.rev
  version : pinned.version = spec.rev
  yields : cloner.Yields spec.git spec.rev (checkoutDirectory (cache.getD "") name spec.rev)
    pinned.checksum

/-- No checkout is found in its place after it was discarded. The version must
    be no dots: those would be another place. -/
theorem checksum_of_removeAll {d d' : Disk} {cache name version : String} (hversion : NotDots version)
    (h : d.removeAll (checkoutDirectory cache name version) = .ok d') :
    (checksum d' (checkoutDirectory cache name version)).toOption = none := by
  rw [toOption_checksum, Disk.find_removeAll ?_ h]
  · rfl
  · rw [checkoutDirectory, Disk.absolute, Path.names_absolute_join (isName_segment_iff.mpr hversion)
      (baseDirectory_ne_empty cache name)]
    simp

/-- A suite that is fetched once the checkout was discarded has the checksum
    that it had. -/
theorem PinnedCommit.checksum_refetched (h : PinnedCommit cloner cache st m name spec pinned)
    {disk : Disk} {records : List Record}
    (hremoved : st.disk.removeAll (checkoutDirectory (cache.getD "") name pinned.version) = .ok disk)
    (hfetch : fetchPinned cloner cache { st with disk, records } name spec =
      (final, .ok directory)) :
    ∃ kept, final.lock.bind (·.find? name) = some kept ∧ kept.version = spec.rev ∧
      kept.checksum = pinned.checksum := by
  obtain ⟨fetched, locked, _, hfetched, heq⟩ | ⟨_, _, _, heq⟩ :=
    fetchPinned_cases cloner cache { st with disk, records } name spec
  · obtain ⟨lock, hlock, -⟩ := Option.bind_eq_some_iff.mp h.locked
    rw [hfetch, hlock] at heq
    obtain ⟨rfl, -⟩ := Prod.mk.inj heq
    obtain ⟨hversion, hsum⟩ := hfetched.checksum_of_commit h.commit h.yields
    rw [h.version] at hremoved
    rw [checksum_of_removeAll h.commit.notDots hremoved] at hsum
    obtain rfl := hfetched.named
    exact ⟨locked, lock.find?_put_self locked, hversion, hsum⟩
  · rw [hfetch] at heq
    cases heq

private theorem PinnedCommit.checksum_locate (h : PinnedCommit cloner cache st m name spec pinned)
    (hlocate : locate cloner cache st m name = (final, .ok directory)) :
    ∃ kept, final.lock.bind (·.find? name) = some kept ∧ kept.version = spec.rev ∧
      kept.checksum = pinned.checksum := by
  have hlocated := located_locate cloner st h.declared h.isGit h.cached
  generalize locate cloner cache st m name = result at hlocated hlocate
  cases hlocated with
  | kept =>
    cases hlocate
    exact ⟨pinned, h.locked, h.version, rfl⟩
  | undiscarded => cases hlocate
  | refetched hlocked hremoved =>
    obtain rfl := Option.some.inj (h.locked.symm.trans hlocked)
    exact h.checksum_refetched hremoved hlocate
  | fetched hunlocked =>
    rw [h.locked] at hunlocked
    cases hunlocked

end Kept

section Command

variable {env : Surroundings} {options : Options} {m : Manifest} {cache name : String}
  {f final : Fetching} {spec : SuiteSpec}

/-- What the command that fetches suites does with one from a repository, if it
    succeeds. -/
theorem fetched_of_fetchSuite (hdeclared : (m.suites.lookup name).bind id = some spec)
    (hgit : spec.isGit = true) (h : f.fetchSuite env options m cache name = (final, .ok ())) :
    ∃ fetched locked directory,
      Fetched env.cloner (some cache) { disk := f.disk } name spec fetched locked directory ∧
        final.lock = f.lock.put locked := by
  rw [Fetching.fetchSuite, hdeclared] at h
  simp only [hgit, Bool.not_true, Bool.false_eq_true, if_false] at h
  split at h
  · cases h
  · next locked directory hfetch =>
    obtain ⟨rfl, -⟩ := Prod.mk.inj h
    exact ⟨_, locked, directory, fetched_of_fetch (Prod.ext rfl hfetch), rfl⟩

/-- What suites are located in while some are being fetched. -/
def stateOf (f : Fetching) : State :=
  { disk := f.disk, lock := some f.lock }

/-- What becomes of the checksum of a suite that is pinned to the commit which
    its manifest asks for. Locating the suite keeps it, whatever the cache
    holds. The command that fetches suites keeps it only if the cache holds no
    checkout of the commit, or one with that checksum: any other is used as it
    is, and pinned with its own checksum. -/
theorem checksum_of_pinned_commit (env : Surroundings) (options : Options) (m : Manifest)
    (cache name : String) (f : Fetching) (spec : SuiteSpec) (pinned : LockedSuite)
    (h : PinnedCommit env.cloner (some cache) (stateOf f) m name spec pinned) :
    (∀ final directory, locate env.cloner (some cache) (stateOf f) m name = (final, .ok directory) →
        ∃ kept, final.lock.bind (·.find? name) = some kept ∧ kept.version = spec.rev ∧
          kept.checksum = pinned.checksum) ∧
      ∀ final, f.fetchSuite env options m cache name = (final, .ok ()) →
        ∃ fetched, final.lock.find? name = some fetched ∧ fetched.version = spec.rev ∧
          fetched.checksum =
            (checksum f.disk (checkoutDirectory cache name spec.rev)).toOption.getD
              pinned.checksum := by
  refine ⟨fun final directory => h.checksum_locate, fun final hfetch => ?_⟩
  obtain ⟨_, locked, _, hfetched, hlock⟩ := fetched_of_fetchSuite h.declared h.isGit hfetch
  obtain ⟨hversion, hsum⟩ := hfetched.checksum_of_commit h.commit h.yields
  obtain rfl := hfetched.named
  exact ⟨locked, by rw [hlock, Lockfile.find?_put_self], hversion, hsum⟩

/-- The manifest of a project with one suite, at a commit. -/
def commitManifest : Manifest :=
  ⟨"/whileplus.yml", "demo", [], [("s", some
    { git := "/nowhere", rev := "0123456789abcdef0123456789abcdef01234567" })], 0⟩

/-- The pin of that suite; the commit has one file `a` with the content `bc`. -/
def commitPin : LockedSuite :=
  ⟨"s", "0123456789abcdef0123456789abcdef01234567",
    "git+/nowhere@0123456789abcdef0123456789abcdef01234567",
    "ba7816bf8f01cfea414140de5dae2223b00361a396177a9cb410ff61f20015ad"⟩

/-- A checkout of the commit in which the content of the file was changed to
    `bd`. -/
def changedCheckout : FileTree :=
  .directory [(".git", .directory [("HEAD",
    .file (Text.toBytes "0123456789abcdef0123456789abcdef01234567"))]), ("a", .file [98, 100])]

/-- A cache that holds it, and a lockfile with the pin. -/
def changedCache : Fetching where
  disk := {
    root := .directory [("c", .directory [("suites", .directory [("s", .directory
      [("0123456789abcdef0123456789abcdef01234567", changedCheckout)])])])]
    directory := "/" }
  lock := ⟨"/whileplus.lock", "demo", "", "", [some commitPin]⟩

/-- Surroundings in which repositories can be cloned. -/
def changedSurroundings (cloner : Cloner) : Surroundings where
  disk := changedCache.disk
  now := ""
  logTime := ""
  runId := fun _ => ""
  cloner := cloner

private theorem pinnedCommit_changed {cloner : Cloner}
    (hyields : cloner.Yields "/nowhere" commitPin.version
      (checkoutDirectory "/c" "s" commitPin.version) commitPin.checksum) :
    PinnedCommit cloner (some "/c") (stateOf changedCache) commitManifest "s"
      { git := "/nowhere", rev := commitPin.version } commitPin where
  declared := rfl
  isGit := rfl
  cached := by decide
  locked := rfl
  commit := ⟨by decide, by simp [commitPin]⟩
  version := rfl
  yields := hyields

/-- Locating the suite brings back the files of the commit, with their checksum. -/
theorem checksum_of_pinned_commit_changed :
    ∃ final kept, locate mirror (some "/c") (stateOf changedCache) commitManifest "s" =
        (final, .ok "/c/suites/s/0123456789abcdef0123456789abcdef01234567") ∧
      final.lock.bind (·.find? "s") = some kept ∧ kept.checksum = commitPin.checksum := by
  have hpinned : PinnedCommit mirror (some "/c") (stateOf changedCache) commitManifest "s"
      { git := "/nowhere", rev := commitPin.version } commitPin := by
    refine pinnedCommit_changed ?_
    rintro _ _ _ ⟨⟩ ⟨⟩
    exact ⟨rfl, by decide +kernel⟩
  have hresult := eq_of_toOption (x := locate mirror (some "/c") (stateOf changedCache)
    commitManifest "s") (a := "/c/suites/s/0123456789abcdef0123456789abcdef01234567")
    (by decide +kernel)
  obtain ⟨kept, hkept, -, hsum⟩ := (checksum_of_pinned_commit (changedSurroundings mirror) {}
    commitManifest "/c" "s" changedCache _ commitPin hpinned).1 _ _ hresult
  exact ⟨_, kept, hresult, hkept, hsum⟩

/-- Fetching the suite pins it to the changed files, without looking at the
    repository. -/
theorem fetchSuite_pins_changed_files :
    PinnedCommit unreachable (some "/c") (stateOf changedCache) commitManifest "s"
        { git := "/nowhere", rev := commitPin.version } commitPin ∧
      (changedCache.fetchSuite (changedSurroundings unreachable) {} commitManifest "/c" "s").map
          (·.lock.find? "s") (·.toOption) =
        (some { commitPin with
          checksum := "a52d159f262b2c6ddb724a61840befc36eb30c88877a4030b65cbe86298449c9" },
        some ()) := by
  refine ⟨pinnedCommit_changed ?_, by decide +kernel⟩
  rintro _ _ _ ⟨⟩

end Command

end WhilePlus.Suite
