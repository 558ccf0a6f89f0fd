import WhilePlus.Proofs.Disk.Find
import WhilePlus.Proofs.Suite.Segment
import WhilePlus.Suite.Fetch

namespace WhilePlus.Suite

open Disk (KeptOutside)

section Checkout

variable {name version : String}

/-- The directory of all suites in a cache. -/
def suitesDirectory (cache : String) : String :=
  Path.join [cache, "suites"]

/-- The directory of a version of a suite in a cache. -/
def checkoutDirectory (cache name version : String) : String :=
  Path.join [baseDirectory cache name, segment version]

private theorem isName_suites : Path.IsName "suites" :=
  ⟨by decide, by decide, by decide, by decide⟩

private theorem suitesDirectory_spec (cache : String) :
    suitesDirectory cache ≠ "" ∧ Path.clean (suitesDirectory cache) = suitesDirectory cache ∧
      ∃ above, Path.trail (suitesDirectory cache) = "suites" :: above := by
  by_cases hcache : cache = ""
  · subst hcache
    exact ⟨by decide, by decide, [], by decide⟩
  · rw [suitesDirectory]
    refine ⟨Path.join_ne_empty hcache _, ?_, Path.trail cache, ?_⟩
    · rw [Path.join_pair hcache, Path.clean_clean]
    · rw [Path.trail_join hcache, Path.parts_of_noSlash isName_suites.noSlash,
        Path.cleanParts_name isName_suites]

private theorem baseDirectory_eq (cache name : String) :
    baseDirectory cache name = Path.join [suitesDirectory cache, segment name] := by
  by_cases hcache : cache = ""
  · subst hcache
    rfl
  · exact Path.join_join hcache _ _

/-- The directory of a suite in the cache has a path, whatever the cache and the
    name. -/
theorem baseDirectory_ne_empty (cache name : String) : baseDirectory cache name ≠ "" := by
  rw [baseDirectory_eq]
  exact Path.join_ne_empty (suitesDirectory_spec cache).1 _

/-- The directory of a suite starts at the root if the cache does. -/
theorem isAbsolute_baseDirectory {cache : String} (hcache : Path.isAbsolute cache = true) (name : String) :
    Path.isAbsolute (baseDirectory cache name) = true := by
  rw [baseDirectory_eq, Path.isAbsolute_join (suitesDirectory_spec cache).1, suitesDirectory,
    Path.isAbsolute_join (Path.ne_empty_of_isAbsolute hcache), hcache]

/-- The path of the directory of a suite is clean already. -/
theorem clean_baseDirectory (cache name : String) :
    Path.clean (baseDirectory cache name) = baseDirectory cache name := by
  rw [baseDirectory_eq, Path.join_pair (suitesDirectory_spec cache).1, Path.clean_clean]

/-- The names that lead to a checkout, before the last two of them are followed. -/
theorem checkoutDirectory_eq (cache name version : String) :
    checkoutDirectory cache name version =
      Path.ofNames (Path.isAbsolute (suitesDirectory cache))
        (Path.cleanParts (Path.isAbsolute (suitesDirectory cache))
          (Path.cleanParts (Path.isAbsolute (suitesDirectory cache))
            (Path.trail (suitesDirectory cache)) [segment name]) [segment version]).reverse := by
  have hne := (suitesDirectory_spec cache).1
  rw [checkoutDirectory, Path.join_eq (baseDirectory_ne_empty cache name), baseDirectory_eq,
    Path.isAbsolute_join hne, Path.trail_join hne, Path.parts_of_noSlash (noSlash_segment name),
    Path.parts_of_noSlash (noSlash_segment version)]

/-- The checkout of a version is two levels below the directory of all suites,
    unless dots lead elsewhere. -/
theorem checkoutDirectory_eq_iff (cache name version : String) :
    checkoutDirectory cache name version =
        suitesDirectory cache ++ "/" ++ segment name ++ "/" ++ segment version ↔
      NotDots name ∧ NotDots version := by
  obtain ⟨-, hclean, above, htrail⟩ := suitesDirectory_spec cache
  have hbelow : suitesDirectory cache ++ "/" ++ segment name ++ "/" ++ segment version =
      Path.ofNames (Path.isAbsolute (suitesDirectory cache))
        ((Path.trail (suitesDirectory cache)).reverse ++ [segment name] ++ [segment version]) := by
    rw [Path.ofNames_concat (by simp), Path.ofNames_concat (by simp [htrail]), ← Path.clean_eq,
      hclean]
  rw [checkoutDirectory_eq, hbelow, ← isName_segment_iff, ← isName_segment_iff]
  generalize Path.isAbsolute (suitesDirectory cache) = rooted
  constructor
  · intro h
    have hslash : ∀ n ∈ Path.trail (suitesDirectory cache), '/' ∉ n.toList :=
      fun _ hn => (Path.mem_trail hn).2
    rw [htrail] at h hslash
    exact Path.isName_of_ofNames_eq (by decide) hslash (noSlash_segment name)
      (noSlash_segment version) h
  · rintro ⟨hname, hversion⟩
    rw [Path.cleanParts_name hname, Path.cleanParts_name hversion, List.reverse_cons,
      List.reverse_cons]

private theorem names_baseDirectory (hname : NotDots name) (cache directory : String) :
    Path.names (Path.absolute directory (baseDirectory cache name)) =
      Path.names (Path.absolute directory (suitesDirectory cache)) ++ [segment name] := by
  rw [baseDirectory_eq]
  exact Path.names_absolute_join (isName_segment_iff.mpr hname) (suitesDirectory_spec cache).1 _

private theorem trail_baseDirectory (hname : NotDots name) (cache : String) :
    Path.trail (baseDirectory cache name) ≠ [] := by
  rw [baseDirectory_eq, Path.trail_join (suitesDirectory_spec cache).1,
    Path.parts_of_noSlash (noSlash_segment name),
    Path.cleanParts_name (isName_segment_iff.mpr hname)]
  exact List.cons_ne_nil _ _

private theorem names_checkoutDirectory (hname : NotDots name) (hversion : NotDots version)
    (cache directory : String) :
    Path.names (Path.absolute directory (checkoutDirectory cache name version)) =
      Path.names (Path.absolute directory (suitesDirectory cache)) ++
        [segment name, segment version] := by
  rw [checkoutDirectory, Path.names_absolute_join (isName_segment_iff.mpr hversion)
    (baseDirectory_ne_empty cache name), names_baseDirectory hname, List.append_assoc]
  rfl

end Checkout

section Locate

variable {cloner : Cloner} {name : String}

/-- The commits that repositories give are written in base 16. -/
def Cloner.NamesCommits (cloner : Cloner) : Prop :=
  ∀ (address revision commit : String) (repository : Repository) (files : FileTree),
    cloner address = .ok repository → repository.checkout revision = .ok (commit, files) →
      IsCommit commit

/-- The checkouts of a suite, for a cache that is seen from a working directory:
    what is two names below the directory of all suites, or deeper. -/
def InCheckout (directory cache name : String) (names : List String) : Prop :=
  ∃ version, NotDots version ∧
    Path.names (Path.absolute directory (suitesDirectory cache)) ++
      [segment name, segment version] <+: names

/-- What checking out a suite does to the disk: it makes the directory of the
    suite, and puts the files into it if that worked. -/
theorem ensureCheckout_disk (cloner : Cloner) (d : Disk) (base : String) (spec : SuiteSpec) :
    (ensureCheckout cloner d base spec).1 = (d.makeDirectories base).1 ∨
      ∃ (d' : Disk) (revision : Revision) (repository : Repository) (commit : String)
        (files : FileTree), d.makeDirectories base = (d', .ok ()) ∧
          cloner spec.git = .ok repository ∧
          repository.checkout revision.name = .ok (commit, files) ∧
          (ensureCheckout cloner d base spec).1 =
            { d' with root := d'.root.put files (Path.names (d'.absolute
              (Path.join [base, segment (pinnedVersion revision.descriptor commit)]))) } := by
  rw [ensureCheckout]
  split
  · rename_i hmade
    exact .inl (by rw [hmade])
  rename_i d' hmade
  rw [hmade]
  split
  · exact .inl rfl
  rename_i revision _
  split
  · exact .inl rfl
  split
  · exact .inl rfl
  rename_i repository hcloned
  split
  · exact .inl rfl
  rename_i commit files hchecked
  dsimp only
  split
  · exact .inl rfl
  · exact .inr ⟨d', revision, repository, commit, files, rfl, hcloned, hchecked, rfl⟩

private theorem keptOutside_ensureCheckout (hcloner : cloner.NamesCommits) (hname : NotDots name)
    (d : Disk) (cache : String) (spec : SuiteSpec) :
    KeptOutside (InCheckout d.directory cache name) d
      (ensureCheckout cloner d (baseDirectory cache name) spec).1 := by
  have hkept := Disk.keptOutside_makeDirectories (InCheckout d.directory cache name) d
    (baseDirectory cache name)
  rcases ensureCheckout_disk cloner d (baseDirectory cache name) spec with
    hdisk | ⟨d', revision, repository, commit, files, hmade, hcloned, hchecked, hdisk⟩
  · rwa [hdisk]
  · rw [hdisk]
    rw [hmade] at hkept
    have hversion := (hcloner _ _ _ _ _ hcloned hchecked).notDots_pinnedVersion revision.descriptor
    -- the directory of the suite is there by now, so no file stands in the way
    obtain ⟨entries, habove⟩ := Disk.get?_of_makeDirectories (trail_baseDirectory hname cache) hmade
    rw [clean_baseDirectory] at habove
    have hplace := Path.names_absolute_join (isName_segment_iff.mpr hversion)
      (baseDirectory_ne_empty cache name) d'.directory
    rw [Disk.absolute, hplace]
    refine hkept.trans ((Disk.keptOutside_put habove files).mono fun names hinside => ?_)
    refine ⟨_, hversion, ?_⟩
    rw [← names_checkoutDirectory hname hversion, ← hkept.directory, checkoutDirectory, hplace]
    exact hinside

private theorem keptOutside_fetch (hcloner : cloner.NamesCommits) (hname : NotDots name)
    (cache : Option String) (st : State) (spec : Option SuiteSpec) :
    KeptOutside (InCheckout st.disk.directory (cache.getD "") name) st.disk
      (fetch cloner cache st name spec).1.disk := by
  rw [fetch]
  dsimp only
  split
  · exact .refl _ _
  split
  · exact .refl _ _
  rename_i spec
  split
  · exact .refl _ _
  have hkept := keptOutside_ensureCheckout hcloner hname st.disk (cache.getD "") spec
  split
  · rename_i disk e hensured
    rwa [hensured] at hkept
  rename_i disk version commit hensured
  rw [hensured] at hkept
  split <;> exact hkept

private theorem keptOutside_fetchPinned (hcloner : cloner.NamesCommits) (hname : NotDots name)
    (cache : Option String) (st : State) (spec : SuiteSpec) :
    KeptOutside (InCheckout st.disk.directory (cache.getD "") name) st.disk
      (fetchPinned cloner cache st name spec).1.disk := by
  have hkept := keptOutside_fetch hcloner hname cache st (some spec)
  rw [fetchPinned]
  split
  all_goals
    rename_i hfetched
    rwa [hfetched] at hkept

private theorem keptOutside_refetch (hcloner : cloner.NamesCommits) (hname : NotDots name)
    (cache : Option String) (st : State) {pinned : LockedSuite} (hversion : NotDots pinned.version)
    (spec : SuiteSpec) :
    KeptOutside (InCheckout st.disk.directory (cache.getD "") name) st.disk
      (locate.refetch cloner cache name st
        (checkoutDirectory (cache.getD "") name pinned.version) pinned spec).1.disk := by
  rw [locate.refetch]
  dsimp only
  split
  · exact .refl _ _
  · rename_i disk hremoved
    have hkept : KeptOutside (InCheckout st.disk.directory (cache.getD "") name) st.disk disk := by
      refine (Disk.keptOutside_removeAll hremoved).mono fun names hinside => ?_
      rw [Disk.absolute, names_checkoutDirectory hname hversion] at hinside
      exact ⟨pinned.version, hversion, hinside⟩
    have hfetched := keptOutside_fetchPinned hcloner hname cache
      { st with disk, records := st.records ++ [staleRecord name pinned.version] } spec
    dsimp only at hfetched
    rw [hkept.directory] at hfetched
    exact hkept.trans hfetched

private theorem keptOutside_locate (hcloner : cloner.NamesCommits) (hname : NotDots name)
    (cache : Option String) (st : State) (m : Manifest)
    (hpinned : ∀ pinned, st.lock.bind (·.find? name) = some pinned → NotDots pinned.version) :
    KeptOutside (InCheckout st.disk.directory (cache.getD "") name) st.disk
      (locate cloner cache st m name).1.disk := by
  rw [locate]
  split
  · exact .refl _ _
  rename_i spec _
  split
  · exact .refl _ _
  dsimp only
  split
  · exact keptOutside_fetchPinned hcloner hname cache st spec
  rename_i pinned hlocked
  split
  · exact keptOutside_fetchPinned hcloner hname cache st spec
  split
  · split
    · exact .refl _ _
    · exact keptOutside_refetch hcloner hname cache st (hpinned pinned hlocked) spec
  · exact keptOutside_refetch hcloner hname cache st (hpinned pinned hlocked) spec

/-- The cache of suites stays inside its own directory as long as no suite name
    and no pinned version is one or two dots. The name of a cache directory is
    never empty and has no character but letters, digits, dots, dashes and
    underscores; it leads one level down exactly if the text is not dots. A
    checkout lies two levels below the directory of all suites exactly if this
    holds for the name of the suite and for the version, and then locating the
    suite, whatever the manifest, the lockfile and the disk are, loses nothing
    outside the checkouts of that suite. -/
theorem locate_confined (cloner : Cloner) (cache : Option String) (st : State) (m : Manifest)
    (name version : String) :
    (segment version ≠ "" ∧ ∀ c ∈ (segment version).toList, isSegmentChar c = true) ∧
      (Path.IsName (segment version) ↔ NotDots version) ∧
      (checkoutDirectory (cache.getD "") name version =
          suitesDirectory (cache.getD "") ++ "/" ++ segment name ++ "/" ++ segment version ↔
        NotDots name ∧ NotDots version) ∧
      (cloner.NamesCommits → NotDots name →
        (∀ pinned, st.lock.bind (·.find? name) = some pinned → NotDots pinned.version) →
        KeptOutside (InCheckout st.disk.directory (cache.getD "") name) st.disk
          (locate cloner cache st m name).1.disk) :=
  ⟨⟨segment_ne_empty version, isSegmentChar_of_mem_segment version⟩, isName_segment_iff,
    checkoutDirectory_eq_iff (cache.getD "") name version,
    fun hcloner hname hpinned => keptOutside_locate hcloner hname cache st m hpinned⟩

/-- A cache with two suites and a file of its own. -/
def sharedDisk : Disk where
  root := .directory [("c", .directory [("notes", .file [1]), ("suites", .directory [
    ("other", .directory [("v1", .directory [("case", .file [2])])]),
    ("s", .directory [("v2", .directory [("case", .file [3])])])])])]
  directory := "/"

/-- The same with one of the suites pinned to a version, whose checksum is out
    of date. -/
def sharedState (version : String) : State where
  disk := sharedDisk
  lock := some ⟨"/whileplus.lock", "demo", "", "", [some ⟨"s", version, "git+/nowhere@0", ""⟩]⟩

/-- A manifest that declares that suite. -/
def sharedManifest : Manifest :=
  ⟨"/whileplus.yml", "demo", [], [("s", some { git := "/nowhere", rev := "0" })], 0⟩

/-- A cloner that finds no repository. -/
def unreachable : Cloner :=
  fun _ => .error "repository not found"

/-- Locating one suite leaves the checkout of the other one as it was. -/
theorem locate_confined_sharedState :
    NotDots "s" ∧ NotDots "v2" ∧
      (locate unreachable (some "/c") (sharedState "v2") sharedManifest "s").1.disk.root.look
        ["c", "suites", "other", "v1", "case"] = some (some [2]) := by
  have hsuites : Path.names (Path.absolute (sharedState "v2").disk.directory
      (suitesDirectory ((some "/c").getD ""))) = ["c", "suites"] := by decide
  have hkept := (locate_confined unreachable (some "/c") (sharedState "v2") sharedManifest "s"
    "v2").2.2.2 (by intro address revision commit repository files h; cases h) (by decide)
    (by intro pinned h; cases h; decide)
  refine ⟨by decide, by decide, hkept.look ?_ rfl⟩
  rintro ⟨version, -, rest, hrest⟩
  simp only [hsuites, List.cons_append, List.nil_append, List.cons.injEq, true_and] at hrest
  exact absurd hrest.1 (by decide)

/-- A suite that is pinned to the version `..` has the directory of all suites
    for its checkout, so that the other suites are lost when it is located. -/
theorem locate_loses_other_suite :
    segment ".." = ".." ∧ checkoutDirectory "/c" "s" ".." = suitesDirectory "/c" ∧
      (sharedState "..").disk.root.look ["c", "suites", "other", "v1", "case"] = some (some [2]) ∧
      (locate unreachable (some "/c") (sharedState "..") sharedManifest "s").1.disk.root.look
        ["c", "suites", "other", "v1", "case"] = none := by
  decide +kernel

end Locate

end WhilePlus.Suite
