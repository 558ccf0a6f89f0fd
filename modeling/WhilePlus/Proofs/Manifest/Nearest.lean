import Mathlib.Logic.Function.Iterate
import WhilePlus.Manifest.File
import WhilePlus.Proofs.Disk.Rooted

open WhilePlus.Path (ofNames parent isAbsolute IsName)

namespace WhilePlus

/-- What is known of files: which paths lead anywhere, and which of them to a
    directory. -/
structure Survey where
  contains : String → Bool
  isDirectory : String → Bool

namespace Survey

/-- Whether a path leads to something that is no directory. -/
def isFile (s : Survey) (path : String) : Bool :=
  s.contains path && !s.isDirectory path

/-- The directory that the search for the manifest of a path starts in. -/
def origin (s : Survey) (start : String) : String :=
  if s.isFile start then parent start else start

end Survey

/-- What a disk shows of its files. -/
def Disk.survey (d : Disk) : Survey :=
  ⟨d.contains, d.isDirectory⟩

private theorem Disk.isFile_survey (d : Disk) (path : String) : d.survey.isFile path = d.isFile path := by
  simp only [survey, Survey.isFile, contains, isDirectory, isFile]
  cases d.find path <;> rfl

namespace Manifest

/-- Where a manifest is looked for in a directory, or in the one that is some
    levels above. -/
def candidate (directory : String) (levels : Nat) : String :=
  Path.join [parent^[levels] directory, fileName]

/-- A search for a manifest that starts in a directory, with the number of
    directories that it looks at and what it finds. It goes on in the parent of
    a directory without a manifest, and ends in one that is its own parent. -/
inductive Search (s : Survey) : String → Nat → Option String → Prop where
  | found {directory : String} (hfile : s.isFile (candidate directory 0) = true) :
      Search s directory 1 (some (candidate directory 0))
  | top {directory : String} (hfile : s.isFile (candidate directory 0) = false)
      (htop : parent directory = directory) : Search s directory 1 none
  | up {directory : String} {steps : Nat} {result : Option String}
      (hfile : s.isFile (candidate directory 0) = false) (hup : parent directory ≠ directory)
      (hrest : Search s (parent directory) steps result) : Search s directory (steps + 1) result

/-- The manifest in the nearest directory that has one, seen from a directory. -/
def IsNearest (s : Survey) (directory path : String) : Prop :=
  ∃ levels, path = candidate directory levels ∧ s.isFile path = true ∧
    ∀ nearer < levels, s.isFile (candidate directory nearer) = false

/-- A result of looking for a manifest from a directory on: the nearest one, or
    none if no directory up to the root has one. -/
structure IsOutcome (s : Survey) (directory : String) (result : Option String) : Prop where
  some_iff : ∀ path, result = some path ↔ IsNearest s directory path
  none_iff : result = none ↔ ∀ levels, s.isFile (candidate directory levels) = false

section Search

variable {s : Survey} {directory path : String} {steps : Nat} {result : Option String}

private theorem candidate_parent (directory : String) (levels : Nat) :
    candidate (parent directory) levels = candidate directory (levels + 1) := rfl

private theorem candidate_of_top (htop : parent directory = directory) (levels : Nat) :
    candidate directory levels = candidate directory 0 := by
  rw [candidate, Function.iterate_fixed htop]
  rfl

/-- What is nearest above is nearest for a directory that has nothing itself. -/
theorem isNearest_parent_iff (hfile : s.isFile (candidate directory 0) = false) :
    IsNearest s (parent directory) path ↔ IsNearest s directory path := by
  simp only [IsNearest, candidate_parent]
  constructor
  · rintro ⟨levels, hpath, hfound, hnearer⟩
    refine ⟨levels + 1, hpath, hfound, fun nearer hlt => ?_⟩
    cases nearer with
    | zero => exact hfile
    | succ nearer => exact hnearer nearer (Nat.lt_of_succ_lt_succ hlt)
  · rintro ⟨levels, hpath, hfound, hnearer⟩
    cases levels with
    | zero =>
      rw [hpath, hfile] at hfound
      cases hfound
    | succ levels => exact ⟨levels, hpath, hfound, fun nearer hlt => hnearer _ (Nat.succ_lt_succ hlt)⟩

private theorem none_parent_iff (hfile : s.isFile (candidate directory 0) = false) :
    (∀ levels, s.isFile (candidate (parent directory) levels) = false) ↔
      ∀ levels, s.isFile (candidate directory levels) = false := by
  simp only [candidate_parent]
  constructor
  · rintro h (_ | levels)
    · exact hfile
    · exact h levels
  · exact fun h levels => h (levels + 1)

/-- A search ends with the nearest manifest, or with none if there is none. -/
theorem Search.isOutcome (h : Search s directory steps result) : IsOutcome s directory result := by
  induction h with
  | @found directory hfile =>
    refine ⟨fun path => ⟨?_, ?_⟩, iff_of_false nofun fun hnone => ?_⟩
    · rintro ⟨⟩
      exact ⟨0, rfl, hfile, fun _ hlt => absurd hlt (Nat.not_lt_zero _)⟩
    · rintro ⟨levels, rfl, -, hnearer⟩
      cases levels with
      | zero => rfl
      | succ levels => exact absurd hfile (by simp [hnearer 0 (Nat.succ_pos levels)])
    · exact absurd hfile (by simp [hnone 0])
  | @top directory hfile htop =>
    have hnone : ∀ levels, s.isFile (candidate directory levels) = false := fun levels => by
      rw [candidate_of_top htop, hfile]
    refine ⟨fun path => iff_of_false nofun ?_, iff_of_true rfl hnone⟩
    rintro ⟨levels, rfl, hfound, -⟩
    exact absurd hfound (by simp [hnone levels])
  | up hfile _ _ ih =>
    exact ⟨fun path => (ih.some_iff path).trans (isNearest_parent_iff hfile),
      ih.none_iff.trans (none_parent_iff hfile)⟩

/-- A directory that is named like a manifest does not stop a search, which goes
    on one level up. At the root there is no such level. -/
theorem search_succ_iff (hdirectory : s.isDirectory (candidate directory 0) = true)
    (hup : parent directory ≠ directory) :
    Search s directory (steps + 1) result ↔ Search s (parent directory) steps result := by
  have hfile : s.isFile (candidate directory 0) = false := by simp [Survey.isFile, hdirectory]
  constructor
  · intro h
    cases h with
    | found hfound => exact absurd hfound (by simp [hfile])
    | top _ htop => exact absurd htop hup
    | up _ _ hrest => exact hrest
  · exact .up hfile hup

end Search

section Names

variable {names stack : List String} {name start : String}

private theorem candidate_zero (h : ∀ n ∈ names, IsName n) :
    candidate (ofNames true names) 0 = ofNames true (names ++ [fileName]) :=
  Path.join_ofNames_name h ⟨by decide, by decide, by decide, by decide⟩

private theorem parent_ofNames_ne (h : ∀ n ∈ names, IsName n) (hname : IsName name) :
    ofNames true names ≠ ofNames true (names ++ [name]) := by
  intro heq
  have hnames := congrArg Path.names heq
  rw [Path.names_ofNames h,
    Path.names_ofNames (List.forall_mem_append.mpr ⟨h, by simpa using hname⟩)] at hnames
  exact absurd (congrArg List.length hnames) (by simp)

/-- The search ends, as every parent has one name less. -/
theorem exists_search (s : Survey) (h : ∀ n ∈ stack, IsName n) :
    ∃ steps ≤ stack.length + 1, ∃ result, Search s (ofNames true stack.reverse) steps result := by
  induction stack with
  | nil =>
    cases hfile : s.isFile (candidate (ofNames true []) 0) with
    | true => exact ⟨1, Nat.le_refl 1, _, .found hfile⟩
    | false => exact ⟨1, Nat.le_refl 1, _, .top hfile Path.parent_root⟩
  | cons name outer ih =>
    obtain ⟨hname, houter⟩ := List.forall_mem_cons.mp h
    have hnames : ∀ n ∈ outer.reverse, IsName n := by simpa using houter
    rw [List.reverse_cons]
    cases hfile : s.isFile (candidate (ofNames true (outer.reverse ++ [name])) 0) with
    | true => exact ⟨1, Nat.le_add_left 1 _, _, .found hfile⟩
    | false =>
      obtain ⟨steps, hsteps, result, hsearch⟩ := ih houter
      rw [← Path.parent_ofNames hnames hname] at hsearch
      refine ⟨steps + 1, Nat.succ_le_succ hsteps, result, .up hfile ?_ hsearch⟩
      rw [Path.parent_ofNames hnames hname]
      exact parent_ofNames_ne hnames hname

/-- Going up a path by its names is searching. -/
theorem search_findFrom (d : Disk) (h : ∀ n ∈ stack, IsName n) :
    ∃ steps ≤ stack.length + 1, Search d.survey (ofNames true stack.reverse) steps (findFrom d stack) := by
  induction stack with
  | nil =>
    rw [findFrom, List.reverse_nil]
    have hcandidate : candidate (ofNames true []) 0 = ofNames true [fileName] := candidate_zero (by simp)
    rw [← hcandidate, ← d.isFile_survey]
    split
    · next hfile => exact ⟨1, Nat.le_refl 1, .found hfile⟩
    · next hfile => exact ⟨1, Nat.le_refl 1, .top (Bool.eq_false_iff.mpr hfile) Path.parent_root⟩
  | cons name outer ih =>
    obtain ⟨hname, houter⟩ := List.forall_mem_cons.mp h
    have hnames : ∀ n ∈ outer.reverse, IsName n := by simpa using houter
    have hall : ∀ n ∈ (name :: outer).reverse, IsName n := fun n hn => h n (List.mem_reverse.mp hn)
    rw [findFrom, ← candidate_zero hall, ← d.isFile_survey]
    split
    · next hfile => exact ⟨1, Nat.le_add_left 1 _, .found hfile⟩
    · next hfile =>
      obtain ⟨steps, hsteps, hsearch⟩ := ih houter
      rw [List.reverse_cons] at hfile ⊢
      rw [← Path.parent_ofNames hnames hname] at hsearch
      refine ⟨steps + 1, Nat.succ_le_succ hsteps, .up (Bool.eq_false_iff.mpr hfile) ?_ hsearch⟩
      rw [Path.parent_ofNames hnames hname]
      exact parent_ofNames_ne hnames hname

private theorem find_eq_findFrom (d : Disk) (hroot : isAbsolute start = true) (hclean : Path.clean start = start) :
    find d start = findFrom d (Path.names (d.survey.origin start)).reverse := by
  have habsolute : d.absolute start = start := by rw [Disk.absolute, Path.absolute, if_pos hroot, hclean]
  rw [find, habsolute, Survey.origin, d.isFile_survey]

/-- A clean path from the root is spelled by its names, and so is the directory
    that its search starts in. -/
theorem exists_origin (s : Survey) (hroot : isAbsolute start = true) (hclean : Path.clean start = start) :
    ∃ stack : List String, (∀ n ∈ stack, IsName n) ∧ s.origin start = ofNames true stack.reverse ∧
      stack.length ≤ (Path.names start).length := by
  have hnames := Path.isName_of_mem_names start
  have hspelled : start = ofNames true (Path.names start) :=
    hclean.symm.trans (Path.clean_of_isAbsolute hroot)
  rw [Survey.origin]
  split
  · rcases List.eq_nil_or_concat (Path.names start) with hnil | ⟨above, name, hconcat⟩
    · refine ⟨[], by simp, ?_, Nat.zero_le _⟩
      rw [hspelled, hnil, Path.parent_root]
      rfl
    · rw [List.concat_eq_append] at hconcat
      rw [hconcat] at hnames hspelled ⊢
      obtain ⟨habove, hname⟩ := List.forall_mem_append.mp hnames
      refine ⟨above.reverse, by simpa using habove, ?_, by simp⟩
      rw [hspelled, Path.parent_ofNames habove (hname name List.mem_cons_self), List.reverse_reverse]
  · exact ⟨(Path.names start).reverse, by simpa using hnames, by rwa [List.reverse_reverse], by simp⟩

/-- The parents of a directory lead to the root. -/
theorem iterate_parent_ofNames (h : ∀ n ∈ stack, IsName n) :
    parent^[stack.length] (ofNames true stack.reverse) = "/" := by
  induction stack with
  | nil => rfl
  | cons name outer ih =>
    obtain ⟨hname, houter⟩ := List.forall_mem_cons.mp h
    have hnames : ∀ n ∈ outer.reverse, IsName n := by simpa using houter
    rw [List.length_cons, Function.iterate_succ_apply, List.reverse_cons,
      Path.parent_ofNames hnames hname, ih houter]

end Names

/-- Looking for the manifest of a clean path from the root ends, whatever is
    known of the files: each step goes to the parent, and the parents come down
    to the root. What it ends with is the manifest in the nearest directory that
    has one, seen from the path itself or, if this is a file, from its parent;
    it ends with none exactly if no directory up to the root has one. On a disk
    this is what is found. A directory that is named like a manifest does not
    stop it. -/
theorem find_nearest {start : String} (hroot : isAbsolute start = true) (hclean : Path.clean start = start) :
    (∀ s : Survey, ∃ steps ≤ (Path.names start).length + 1, ∃ result,
      Search s (s.origin start) steps result) ∧
    (∀ (s : Survey) (steps : Nat) (result : Option String),
      Search s (s.origin start) steps result → IsOutcome s (s.origin start) result) ∧
    (∀ s : Survey, ∃ levels ≤ (Path.names start).length, parent^[levels] (s.origin start) = "/") ∧
    (∀ d : Disk, IsOutcome d.survey (d.survey.origin start) (find d start) ∧
      ∃ steps ≤ (Path.names start).length + 1,
        Search d.survey (d.survey.origin start) steps (find d start)) ∧
    ∀ (s : Survey) (directory : String) (steps : Nat) (result : Option String),
      s.isDirectory (candidate directory 0) = true → parent directory ≠ directory →
      (Search s directory (steps + 1) result ↔ Search s (parent directory) steps result) := by
  have hsearch : ∀ d : Disk, ∃ steps ≤ (Path.names start).length + 1,
      Search d.survey (d.survey.origin start) steps (find d start) := by
    intro d
    obtain ⟨stack, hstack, horigin, hlength⟩ := exists_origin d.survey hroot hclean
    obtain ⟨steps, hsteps, hsearch⟩ := search_findFrom d hstack
    refine ⟨steps, by omega, ?_⟩
    rw [find_eq_findFrom d hroot hclean, horigin, Path.names_ofNames (by simpa using hstack),
      List.reverse_reverse]
    exact hsearch
  refine ⟨fun s => ?_, fun s steps result h => h.isOutcome, fun s => ?_, fun d => ?_, ?_⟩
  · obtain ⟨stack, hstack, horigin, hlength⟩ := exists_origin s hroot hclean
    obtain ⟨steps, hsteps, result, hsearch⟩ := exists_search s hstack
    exact ⟨steps, by omega, result, horigin ▸ hsearch⟩
  · obtain ⟨stack, hstack, horigin, hlength⟩ := exists_origin s hroot hclean
    exact ⟨stack.length, hlength, horigin ▸ iterate_parent_ofNames hstack⟩
  · obtain ⟨steps, hsteps, h⟩ := hsearch d
    exact ⟨h.isOutcome, steps, hsteps, h⟩
  · exact fun s directory steps result => search_succ_iff

/-- A directory with the name of a manifest is passed by on the way to the file
    above it. -/
theorem find_nearest_aboveDirectory :
    let d : Disk := ⟨.directory [("a", .directory
      [("b", .directory [("whileplus.yml", .directory [])]), ("whileplus.yml", .file [])])], "/", ""⟩
    (isAbsolute "/a/b" = true ∧ Path.clean "/a/b" = "/a/b") ∧ find d "/a/b" = some "/a/whileplus.yml" ∧
      IsNearest d.survey "/a/b" "/a/whileplus.yml" := by
  intro d
  have hstart : isAbsolute "/a/b" = true ∧ Path.clean "/a/b" = "/a/b" := by decide
  have hfind : find d "/a/b" = some "/a/whileplus.yml" := by decide
  have horigin : d.survey.origin "/a/b" = "/a/b" := by decide
  have houtcome := ((find_nearest hstart.1 hstart.2).2.2.2.1 d).1
  rw [horigin] at houtcome
  exact ⟨hstart, hfind, (houtcome.some_iff _).mp hfind⟩

end Manifest

end WhilePlus
