import Mathlib.Data.List.Infix
import WhilePlus.Proofs.Disk.Rooted
import WhilePlus.Proofs.Manifest.Validation
import WhilePlus.Proofs.Suite.Pinning

open WhilePlus.Path (cleanParts isAbsolute ofNames parts IsName)

namespace WhilePlus

namespace Path

/-- A path is that of a directory or of something below it: names go on after a
    slash. The slash of the root stands there already. -/
inductive Within (directory : String) : String → Prop where
  | self : Within directory directory
  | below {names : List String} (hne : names ≠ []) (hnames : ∀ n ∈ names, IsName n) :
      Within directory
        ((if directory = "/" then "/" else directory ++ "/") ++ "/".intercalate names)

/-- The parts of a path that lead anywhere. -/
def steps (path : String) : List String :=
  (parts path).filter fun part => part ≠ "" ∧ part ≠ "."

section Descent

variable {rooted : Bool} {stack ps above names : List String} {path directory : String}

/-- The bytes of a part of a path stand in the bytes of the path. -/
theorem toBytes_infix_of_mem_parts {part : String} (h : part ∈ parts path) :
    Text.toBytes part <:+: Text.toBytes path := by
  obtain ⟨cs, hcs, rfl⟩ := List.mem_map.mp h
  rw [Text.toBytes, Text.toBytes, String.toList_ofList]
  exact (infix_of_mem_splitChars hcs).flatMap _

/-- Without two dots, following parts only adds names. -/
theorem cleanParts_of_noUp (h : ".." ∉ ps) :
    cleanParts rooted stack ps =
      (ps.filter fun part => part ≠ "" ∧ part ≠ ".").reverse ++ stack := by
  induction ps generalizing stack with
  | nil => simp [cleanParts]
  | cons part rest ih =>
    obtain ⟨hup, hrest⟩ := not_or.mp (mt List.mem_cons.mpr h)
    rw [cleanParts_cons, ih hrest]
    by_cases hpart : part ≠ "" ∧ part ≠ "."
    · rw [cleanParts_down hpart (Ne.symm hup), List.filter_cons_of_pos (by simpa using hpart)]
      simp
    · have hskip : part = "" ∨ part = "." := by
        by_contra hnone
        exact hpart (not_or.mp hnone)
      rw [cleanParts_skip hskip, List.filter_cons_of_neg (by simpa using hpart)]
      simp [cleanParts]

private theorem isName_of_mem_steps (h : ".." ∉ parts path) : ∀ n ∈ steps path, IsName n := by
  intro n hn
  obtain ⟨hpart, hstep⟩ := List.mem_filter.mp hn
  rw [decide_eq_true_eq] at hstep
  refine ⟨hstep.1, hstep.2, ?_, noSlash_of_mem_parts hpart⟩
  rintro rfl
  exact h hpart

private theorem within_ofNames (habove : ∀ n ∈ above, IsName n) (hnames : ∀ n ∈ names, IsName n) :
    Within (ofNames true above) (ofNames true (above ++ names)) := by
  by_cases hmore : names = []
  · rw [hmore, List.append_nil]
    exact .self
  have hbelow : Within (ofNames true above) _ := .below hmore hnames
  by_cases hne : above = []
  · subst hne
    exact hbelow
  · have hroot : ofNames true above ≠ "/" := by
      have htext : ofNames false above ≠ "" := ofNames_ne_empty fun n hn => (habove n hn).nonempty
      simpa [ofNames, hne] using htext
    rwa [if_neg hroot, ← ofNames_append hne hmore] at hbelow

/-- A path without two dots, followed from a directory, leads through the names
    of the directory and then down one name for each of its steps. -/
theorem names_join_of_noUp (hdirectory : isAbsolute directory = true) (h : ".." ∉ parts path) :
    Path.names (join [directory, path]) = Path.names directory ++ steps path := by
  rw [join_pair (ne_empty_of_isAbsolute hdirectory), names_clean, Path.names, parts_append,
    cleanParts_append, cleanParts_of_noUp h, List.reverse_append, List.reverse_reverse]
  simp [Path.names, steps]

private theorem join_within_of_noUp (hdirectory : isAbsolute directory = true)
    (hclean : clean directory = directory) (h : ".." ∉ parts path) :
    Within directory (join [directory, path]) := by
  have hne := ne_empty_of_isAbsolute hdirectory
  have hjoin : clean (join [directory, path]) = join [directory, path] := by
    rw [join_pair hne, clean_clean]
  have hwithin := within_ofNames (isName_of_mem_names directory) (isName_of_mem_steps h)
  rw [← names_join_of_noUp hdirectory h, ← clean_of_isAbsolute hdirectory, hclean,
    ← clean_of_isAbsolute (by rwa [isAbsolute_join hne]), hjoin] at hwithin
  exact hwithin

end Descent

end Path

namespace Suite

section Directory

variable {cloner : Cloner} {cache name directory : String} {st final : State} {spec : SuiteSpec}

private theorem noUp_of_isSound (h : spec.IsSound) : ".." ∉ parts spec.dir := fun hup =>
  h.inside (Path.toBytes_infix_of_mem_parts hup)

private theorem isAbsolute_checkoutDirectory (hcache : isAbsolute cache = true) (name version : String) :
    isAbsolute (checkoutDirectory cache name version) = true := by
  rw [checkoutDirectory, Path.isAbsolute_join (baseDirectory_ne_empty cache name),
    isAbsolute_baseDirectory hcache name]

private theorem clean_checkoutDirectory (cache name version : String) :
    Path.clean (checkoutDirectory cache name version) = checkoutDirectory cache name version := by
  rw [checkoutDirectory, Path.join_pair (baseDirectory_ne_empty cache name), Path.clean_clean]

/-- The directory that fetching a suite returns is seen from the checkout. -/
theorem directory_of_fetchPinned {cache : Option String}
    (h : fetchPinned cloner cache st name spec = (final, .ok directory)) :
    ∃ version, directory = Path.join [checkoutDirectory (cache.getD "") name version, spec.dir] := by
  obtain ⟨_, locked, _, hfetched, heq⟩ | ⟨_, _, _, heq⟩ := fetchPinned_cases cloner cache st name spec
  · rw [h] at heq
    cases heq
    exact ⟨locked.version, hfetched.directory_eq⟩
  · rw [h] at heq
    cases heq

/-- Wherever a suite from a repository was located, its directory is seen from
    one of its checkouts. -/
theorem Located.directory_eq {cache : Option String}
    (h : Located cloner cache st name spec (final, .ok directory)) :
    ∃ version, directory = Path.join [checkoutDirectory (cache.getD "") name version, spec.dir] := by
  generalize hresult : (final, Except.ok (ε := Error) directory) = result at h
  cases h with
  | @kept pinned _ _ =>
    cases hresult
    exact ⟨pinned.version, rfl⟩
  | undiscarded => cases hresult
  | refetched _ _ | fetched _ => exact directory_of_fetchPinned hresult.symm

/-- The directory of a suite that passes the checks stays inside the checkout,
    whatever its text is. Seen from a clean path from the root it is that path
    or a path below it, namely the one that goes through the parts of the text
    that are neither empty nor a dot. So the directory that fetching the suite
    returns is in the checkout that was fetched, and the one that locating it
    returns is in a checkout of the suite. -/
theorem directory_within_checkout (spec : SuiteSpec) (hvalid : spec.issues = []) :
    (∀ checkout, isAbsolute checkout = true → Path.clean checkout = checkout →
      Path.Within checkout (Path.join [checkout, spec.dir]) ∧
        Path.names (Path.join [checkout, spec.dir]) =
          Path.names checkout ++ Path.steps spec.dir) ∧
    (∀ cloner cache st name final locked directory, isAbsolute cache = true →
      fetch cloner (some cache) st name (some spec) = (final, .ok (locked, directory)) →
        Path.Within (checkoutDirectory cache name locked.version) directory) ∧
    ∀ cloner cache st m name final directory, isAbsolute cache = true →
      (m : Manifest).suites.lookup name = some (some spec) → spec.isGit = true →
      locate cloner (some cache) st m name = (final, .ok directory) →
        ∃ version, Path.Within (checkoutDirectory cache name version) directory := by
  have hup := noUp_of_isSound (SuiteSpec.issues_eq_nil_iff.mp hvalid)
  have hwithin : ∀ cache name version, isAbsolute cache = true →
      Path.Within (checkoutDirectory cache name version)
        (Path.join [checkoutDirectory cache name version, spec.dir]) :=
    fun cache name version hcache => Path.join_within_of_noUp
      (isAbsolute_checkoutDirectory hcache name version) (clean_checkoutDirectory cache name version) hup
  refine ⟨fun checkout hrooted hclean => ?_, fun cloner cache st name final locked directory hcache h => ?_,
    fun cloner cache st m name final directory hcache hdeclared hgit h => ?_⟩
  · exact ⟨Path.join_within_of_noUp hrooted hclean hup, Path.names_join_of_noUp hrooted hup⟩
  · rw [(fetched_of_fetch h).directory_eq]
    exact hwithin cache name locked.version hcache
  · have hfound : ((m.suites.lookup name).bind id) = some spec := by simp [hdeclared]
    have hlocated : Located cloner (some cache) st name spec (locate cloner (some cache) st m name) :=
      located_locate cloner st hfound hgit (Path.ne_empty_of_isAbsolute hcache)
    rw [h] at hlocated
    obtain ⟨version, hdirectory⟩ := hlocated.directory_eq
    rw [hdirectory]
    exact ⟨version, hwithin cache name version hcache⟩

/-- A suite whose directory is spelled with a slash in front, a dot and two
    slashes at the end. -/
def dottedSuite : SuiteSpec := { git := "/nowhere", rev := "0", dir := "/./cases//" }

/-- A manifest with this suite. -/
def dottedManifest : Manifest :=
  ⟨"/whileplus.yml", "demo", [], [("s", some dottedSuite)], 0⟩

/-- A directory that is spelled with dots and slashes too many is found in the
    checkout. -/
theorem directory_within_checkout_dotted :
    dottedSuite.issues = [] ∧ Path.Within "/c" (Path.join ["/c", "/./cases//"]) ∧
      ∃ final version,
        locate mirror (some "/c") { disk := ⟨.directory [], "/", ""⟩ } dottedManifest "s" = (final,
          .ok "/c/suites/s/0_0123456789abcdef0123456789abcdef01234567/cases") ∧
        Path.Within (checkoutDirectory "/c" "s" version)
          "/c/suites/s/0_0123456789abcdef0123456789abcdef01234567/cases" := by
  have hvalid : dottedSuite.issues = [] := by decide
  obtain ⟨hjoin, -, hlocate⟩ := directory_within_checkout dottedSuite hvalid
  have hresult := eq_of_toOption
    (x := locate mirror (some "/c") { disk := ⟨.directory [], "/", ""⟩ } dottedManifest "s")
    (a := "/c/suites/s/0_0123456789abcdef0123456789abcdef01234567/cases") (by decide +kernel)
  obtain ⟨version, hwithin⟩ := hlocate _ _ _ dottedManifest "s" _ _ (by decide) rfl (by decide) hresult
  exact ⟨hvalid, (hjoin "/c" (by decide) (by decide)).1, _, version, hresult, hwithin⟩

end Directory

end Suite

end WhilePlus
