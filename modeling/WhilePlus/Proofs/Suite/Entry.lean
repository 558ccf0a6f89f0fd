import WhilePlus.Proofs.Disk.Rooted
import WhilePlus.Proofs.Suite.Commit
import WhilePlus.Proofs.Text.Trim

open WhilePlus.Path (ofNames IsName)

namespace WhilePlus.Suite

open Disk (Grown Adds)

section Disk

variable {cloner : Cloner} {d : Disk} {ns : List String} {cache : String}

/-- What is checked out of a repository is a directory. -/
def Cloner.GivesDirectories (cloner : Cloner) : Prop :=
  ∀ (address revision commit : String) (repository : Repository) (files : FileTree),
    cloner address = .ok repository → repository.checkout revision = .ok (commit, files) →
      files.isDirectory = true

/-- A checkout is put below the directory of its suite, in a place where nothing
    was found. -/
theorem adds_checkout {version : String} {files : FileTree} (hnames : ∀ n ∈ ns, IsName n)
    (hbase : d.isDirectory (ofNames true ns) = true)
    (hfree : ¬ d.contains (Path.join [ofNames true ns, segment version]) = true)
    (hfiles : files.isDirectory = true) :
    Adds d { d with root := d.root.put files (Path.names (d.absolute
      (Path.join [ofNames true ns, segment version]))) } := by
  have hfree : d.contains (Path.join [ofNames true ns, segment version]) = false :=
    Bool.eq_false_iff.mpr hfree
  have hname : IsName (segment version) :=
    Disk.isName_of_not_contains hnames (noSlash_segment version) (segment_ne_empty version) hbase hfree
  have hall : ∀ n ∈ ns ++ [segment version], IsName n :=
    List.forall_mem_append.mpr ⟨hnames, by simpa using hname⟩
  rw [Path.join_ofNames_name hnames hname] at hfree ⊢
  rw [Disk.absolute, Path.absolute_ofNames hall, Path.names_ofNames hall]
  obtain ⟨-, entries, hentries⟩ := (Disk.isDirectory_ofNames_iff hnames).mp hbase
  exact .mk hall hentries (toOption_find_of_not_contains hfree) hfiles

private theorem grown_ensureCheckout (hcloner : cloner.GivesDirectories) (hnames : ∀ n ∈ ns, IsName n)
    (hroot : d.isDirectory (ofNames true []) = true) (spec : SuiteSpec) :
    Grown d (ensureCheckout cloner d (ofNames true ns) spec).1 := by
  have hmake := Disk.makeDirectories_ofNames hnames d
  have hgrown : Grown d (d.makeDirectories (ofNames true ns)).1 := by
    rw [hmake]
    exact Disk.grown_makeBelow hnames
  rw [ensureCheckout]
  split
  · next hmade =>
    rw [hmade] at hgrown
    exact hgrown
  next made hmade =>
    rw [hmade] at hgrown hmake
    split
    · exact hgrown
    split
    · exact hgrown
    split
    · exact hgrown
    next repository hcloned =>
      split
      · exact hgrown
      next commit files hchecked =>
        dsimp only
        split
        · exact hgrown
        · next hfree =>
          have hbase := Disk.isDirectory_of_makeBelow hnames hroot hmake.symm
          exact hgrown.tail (adds_checkout hnames hbase hfree (hcloner _ _ _ _ _ hcloned hchecked))

private theorem baseDirectory_eq_ofNames (hcache : Path.isAbsolute cache = true) (name : String) :
    baseDirectory cache name = ofNames true (Path.names (baseDirectory cache name)) := by
  rw [← Path.clean_of_isAbsolute (isAbsolute_baseDirectory hcache name), clean_baseDirectory]

/-- Fetching a suite only adds directories, whether it succeeds or not. The
    cloner must give directories, and the cache must be at an absolute path. -/
theorem grown_fetch (hcloner : cloner.GivesDirectories) (hcache : Path.isAbsolute cache = true)
    (st : State) (hroot : st.disk.isDirectory (ofNames true []) = true) (name : String)
    (spec : Option SuiteSpec) : Grown st.disk (fetch cloner (some cache) st name spec).1.disk := by
  rw [fetch]
  dsimp only
  split
  · exact .refl
  split
  · exact .refl
  next spec =>
    split
    · exact .refl
    have hgrown := grown_ensureCheckout hcloner
      (Path.isName_of_mem_names (baseDirectory cache name)) hroot spec
    rw [← baseDirectory_eq_ofNames hcache] at hgrown
    split
    · next hensured =>
      rw [Option.getD_some] at hensured
      rwa [hensured] at hgrown
    · next hensured =>
      rw [Option.getD_some] at hensured
      rw [hensured] at hgrown
      split <;> exact hgrown

end Disk

section Entry

variable {cloner : Cloner} {cache : Option String} {st final : State} {spec : SuiteSpec}
  {locked : LockedSuite} {name directory version commit : String}

/-- The parts of the entry that a fetch returns. -/
theorem entry_of_fetch
    (h : fetch cloner cache st name (some spec) = (final, .ok (locked, directory))) :
    ∃ version commit bytes made, Ensured cloner (baseDirectory (cache.getD "") name) spec made
        final.disk version commit ∧
      locked = ⟨name, version, "git+" ++ spec.git ++ "@" ++ commit, Sha256.hexDigest bytes⟩ := by
  rw [fetch] at h
  dsimp only at h
  split at h
  · cases h
  split at h
  · cases h
  split at h
  · cases h
  next disk version commit hensured =>
    split at h
    · cases h
    next sum hsum =>
      obtain ⟨made, -, hensured⟩ := ensured_of_ensureCheckout hensured
      obtain ⟨t, -, hdigest⟩ := find_of_checksum hsum
      cases h
      exact ⟨version, commit, _, made, hensured, by rw [hdigest]⟩

private theorem trim_hexDigest (bytes : List UInt8) :
    Text.trim (Sha256.hexDigest bytes) = Sha256.hexDigest bytes := by
  refine Text.trim_eq_self_of_forall fun c hc => ?_
  rw [Sha256.hexDigest, String.toList_ofList] at hc
  obtain ⟨word, -, hword⟩ := List.mem_flatMap.mp hc
  exact Text.isBlank_of_mem_digits _ _ _ c hword

private theorem IsCommit.trim_eq (h : IsCommit commit) : Text.trim commit = commit := by
  refine Text.trim_eq_self_of_forall fun c hc => ?_
  have hdigit := h.digit c hc
  have hrange : 48 ≤ c.toNat ∧ c.toNat ≤ 102 := by
    simp only [Char.le_def, UInt32.le_iff_toNat_le, Char.reduceVal, UInt32.reduceToNat] at hdigit
    simp only [Char.toNat]
    omega
  simp only [Text.isBlank]
  simp
  omega

private theorem trim_pinnedVersion {descriptor : String} (hdescriptor : Text.trim descriptor = descriptor)
    (hcommit : Text.trim commit = commit) :
    Text.trim (pinnedVersion descriptor commit) = pinnedVersion descriptor commit := by
  rw [pinnedVersion]
  split
  · exact hdescriptor
  next hne =>
    split
    · exact hcommit
    · next hother =>
      have hdescriptor' : descriptor ≠ "" := by
        rintro rfl
        exact hother rfl
      exact Text.trim_append hdescriptor hcommit hdescriptor' (mt String.isEmpty_iff.mpr hne) "@"

private theorem trim_source (address : String) (hcommit : Text.trim commit = commit) :
    Text.trim ("git+" ++ address ++ "@" ++ commit) = "git+" ++ address ++ "@" ++ commit := by
  by_cases hne : commit = ""
  · subst hne
    rw [String.append_empty]
    exact Text.trim_append (by decide) (by decide) (by decide) (by decide) address
  · have hmid : "git+" ++ address ++ "@" ++ commit = "git+" ++ (address ++ "@") ++ commit := by
      simp only [String.append_assoc]
    rw [hmid]
    exact Text.trim_append (by decide) hcommit (by decide) hne (address ++ "@")

private theorem trim_descriptor {revision : Revision} (hspec : spec.trimmed = spec)
    (h : revision? spec = some revision) : Text.trim revision.descriptor = revision.descriptor := by
  rw [revision?] at h
  split at h
  · cases h
    exact congrArg SuiteSpec.rev hspec
  split at h
  · cases h
    exact congrArg SuiteSpec.tag hspec
  split at h
  · cases h
    exact congrArg SuiteSpec.branch hspec
  · cases h

/-- Only the name of a fetched entry may have white space around it. The other
    fields come from a trimmed declaration and the name of a commit. -/
theorem trimmed_of_fetch (hcloner : cloner.NamesCommits) (hspec : spec.trimmed = spec)
    (h : fetch cloner cache st name (some spec) = (final, .ok (locked, directory))) :
    locked.name = name ∧ locked.trimmed = { locked with name := Text.trim name } := by
  obtain ⟨version, commit, bytes, made, hensured, rfl⟩ := entry_of_fetch h
  have hparts : Text.trim version = version ∧ Text.trim commit = commit := by
    generalize final.disk = disk at hensured
    cases hensured with
    | atRevision => exact ⟨congrArg SuiteSpec.rev hspec, congrArg SuiteSpec.rev hspec⟩
    | existing hrevision hcloned hchecked =>
      have hcommit := (hcloner _ _ _ _ _ hcloned hchecked).trim_eq
      exact ⟨trim_pinnedVersion (trim_descriptor hspec hrevision) hcommit, hcommit⟩
    | cloned hrevision hcloned hchecked _ =>
      have hcommit := (hcloner _ _ _ _ _ hcloned hchecked).trim_eq
      exact ⟨trim_pinnedVersion (trim_descriptor hspec hrevision) hcommit, hcommit⟩
  refine ⟨rfl, ?_⟩
  rw [LockedSuite.trimmed, hparts.1, trim_source spec.git hparts.2, trim_hexDigest]

end Entry

end WhilePlus.Suite
