import Mathlib.Logic.Relation
import WhilePlus.Proofs.Disk.Make

open WhilePlus.Path (cleanParts ofNames parts isAbsolute IsName)

namespace WhilePlus

namespace Path

section Rooted

variable {stack ps above ns : List String} {name path directory : String}

/-- From the root, two dots only take back names, so that names are all that is
    left. The parts may be anything between slashes. -/
theorem isName_of_mem_cleanParts (hstack : ∀ n ∈ stack, IsName n) (hps : ∀ p ∈ ps, '/' ∉ p.toList) :
    ∀ n ∈ cleanParts true stack ps, IsName n := by
  fun_induction cleanParts true stack ps with
  | case1 => exact hstack
  | case2 stack part rest _ ih => exact ih hstack (List.forall_mem_cons.mp hps).2
  | case3 part rest _ _ ih => exact ih (by simp) (List.forall_mem_cons.mp hps).2
  | case4 part rest _ _ last before hlast ih =>
    exact absurd (beq_iff_eq.mp hlast) (List.forall_mem_cons.mp hstack).1.notUp
  | case5 part rest _ _ last before _ ih =>
    exact ih (List.forall_mem_cons.mp hstack).2 (List.forall_mem_cons.mp hps).2
  | case6 stack part rest hskip hup ih =>
    obtain ⟨hpart, hrest⟩ := List.forall_mem_cons.mp hps
    have hskip : part ≠ "" ∧ part ≠ "." := by simpa using hskip
    have hname : IsName part := ⟨hskip.1, hskip.2, by simpa using hup, hpart⟩
    exact ih (List.forall_mem_cons.mpr ⟨hname, hstack⟩) hrest

/-- The names on the way to a path are proper names: no part that is empty, goes
    nowhere or goes up is left among them. -/
theorem isName_of_mem_names (path : String) : ∀ n ∈ names path, IsName n := fun n hn =>
  isName_of_mem_cleanParts (by simp) (fun _ hp => noSlash_of_mem_parts hp) n (List.mem_reverse.mp hn)

/-- A path from the root is cleaned to the path of its names. -/
theorem clean_of_isAbsolute (h : isAbsolute path = true) : clean path = ofNames true (names path) := by
  rw [clean, h, names]

/-- The path from the root through proper names starts at the root. -/
theorem isAbsolute_ofNames_of_isName (h : ∀ n ∈ ns, IsName n) : isAbsolute (ofNames true ns) = true :=
  isAbsolute_ofNames fun n hn => ⟨(h n hn).nonempty, (h n hn).noSlash⟩

/-- The names of the path through some names are these, if they are proper ones. -/
theorem names_ofNames (h : ∀ n ∈ ns, IsName n) : names (ofNames true ns) = ns := by
  rw [names, cleanParts_parts_ofNames fun n hn => (h n hn).noSlash, cleanParts_names h,
    List.append_nil, List.reverse_reverse]

/-- A path from the root stays as it is in every directory, if its names are
    proper ones. -/
theorem absolute_ofNames (h : ∀ n ∈ ns, IsName n) (directory : String) :
    absolute directory (ofNames true ns) = ofNames true ns := by
  have habsolute := isAbsolute_ofNames_of_isName h
  rw [absolute, if_pos habsolute, clean_of_isAbsolute habsolute, names_ofNames h]

/-- Seen from the root, every path is spelled by names. -/
theorem absolute_eq_ofNames (h : isAbsolute directory = true) (path : String) :
    absolute directory path = ofNames true (names (absolute directory path)) := by
  have hdirectory := ne_empty_of_isAbsolute h
  rw [absolute]
  split
  · next hpath => rw [names_clean, clean_of_isAbsolute hpath]
  · have habsolute : isAbsolute (directory ++ "/" ++ path) = true := by
      rwa [isAbsolute_append_slash hdirectory]
    rw [join_pair hdirectory, names_clean, clean_of_isAbsolute habsolute]

private theorem join_ofNames (h : ∀ n ∈ ns, IsName n) (part : String) (hpart : '/' ∉ part.toList) :
    join [ofNames true ns, part] = ofNames true (cleanParts true ns.reverse [part]).reverse := by
  have hne : ofNames true ns ≠ "" := ofNames_ne_empty fun n hn => (h n hn).nonempty
  have htrail : trail (ofNames true ns) = ns.reverse := by
    rw [trail, isAbsolute_ofNames_of_isName h, ← List.reverse_reverse (cleanParts _ _ _), ← names,
      names_ofNames h]
  rw [join_eq hne, isAbsolute_ofNames_of_isName h, htrail, parts_of_noSlash hpart]

/-- Joining a name to a path from the root puts it behind the others. -/
theorem join_ofNames_name (h : ∀ n ∈ ns, IsName n) (hname : IsName name) :
    join [ofNames true ns, name] = ofNames true (ns ++ [name]) := by
  rw [join_ofNames h name hname.noSlash, cleanParts_name hname, List.reverse_cons,
    List.reverse_reverse]

private theorem parent_append_slash (path : String) (hname : '/' ∉ name.toList) :
    parent (path ++ "/" ++ name) = clean (path ++ "/") := by
  have hdrop : (name.toList.reverse ++ '/' :: path.toList.reverse).dropWhile (· != '/') =
      '/' :: path.toList.reverse := by
    rw [List.dropWhile_append_of_pos]
    · rfl
    · intro c hc
      rw [bne_iff_ne]
      rintro rfl
      exact hname (List.mem_reverse.mp hc)
  rw [parent]
  refine congrArg clean (String.toList_injective ?_)
  simp [hdrop]

/-- The parent of a path is one name shorter. -/
theorem parent_ofNames (h : ∀ n ∈ above, IsName n) (hname : IsName name) :
    parent (ofNames true (above ++ [name])) = ofNames true above := by
  by_cases hne : above = []
  · subst hne
    exact parent_append_slash "" hname.noSlash
  · have habove : ofNames true above ≠ "" := ofNames_ne_empty fun n hn => (h n hn).nonempty
    have hslash : ofNames true above ++ "/" = ofNames true above ++ "/" ++ "" := by simp
    have hskip : parts "" = [""] := rfl
    rw [ofNames_concat hne, parent_append_slash _ hname.noSlash, hslash, clean_eq,
      trail_append_slash habove, isAbsolute_append_slash habove, hskip, cleanParts_skip (.inl rfl)]
    exact (clean_of_isAbsolute (isAbsolute_ofNames_of_isName h)).trans (by rw [names_ofNames h])

/-- The root is its own parent. -/
theorem parent_root : parent (ofNames true []) = ofNames true [] := by decide

end Rooted

end Path

namespace Disk

/-- The directories that a disk is used from are given from the root. -/
structure IsRooted (d : Disk) : Prop where
  directory : isAbsolute d.directory = true
  home : d.home = "" ∨ isAbsolute d.home = true

section Find

variable {d d' : Disk} {t t' : FileTree} {outer : List FileTree} {above names ns : List String}
  {name path : String} {content : List UInt8}

/-- The names of a path that fits into the limits. -/
structure Fits (names : List String) : Prop where
  noZero : Char.ofNat 0 ∉ (ofNames true names).toList
  short : (Text.toBytes (ofNames true names)).length < pathLimit
  names : ∀ n ∈ names, (Text.toBytes n).length ≤ maxName

/-- If a place fits the limits of the disk, then so does every place above it. -/
theorem Fits.of_append (h : Fits (above ++ ns)) : Fits above := by
  have hnames : ∀ n ∈ above, (Text.toBytes n).length ≤ maxName :=
    fun n hn => h.names n (List.mem_append_left _ hn)
  by_cases hne : above = []
  · subst hne
    exact ⟨by decide, by decide, hnames⟩
  by_cases hmore : ns = []
  · rwa [hmore, List.append_nil] at h
  obtain ⟨hzero, hshort, -⟩ := h
  rw [Path.ofNames_append hne hmore] at hzero hshort
  refine ⟨fun hmem => hzero ?_, ?_, hnames⟩
  · simp only [String.toList_append]
    exact List.mem_append_left _ (List.mem_append_left _ hmem)
  · simp only [Text.toBytes, String.toList_append, List.flatMap_append, List.length_append] at hshort ⊢
    omega

/-- Names are followed one by one, unless one of them is too long. -/
theorem walk_names_iff (hnames : ∀ n ∈ ns, IsName n) :
    (∃ outer', walk (t :: outer) ns = .ok (t' :: outer')) ↔
      (∀ n ∈ ns, (Text.toBytes n).length ≤ maxName) ∧ t.get? ns = some t' := by
  induction ns generalizing t outer with
  | nil => simp [walk, FileTree.get?]
  | cons name rest ih =>
    obtain ⟨hname, hrest⟩ := List.forall_mem_cons.mp hnames
    cases t with
    | file content => simp [walk, FileTree.get?, FileTree.entries]
    | directory entries =>
      have hskip : ¬ ((name == "" || name == ".") = true) := by
        simp [hname.nonempty, hname.notHere]
      have hup : ¬ ((name == "..") = true) := by simp [hname.notUp]
      rw [walk, if_neg hskip, if_neg hup, List.forall_mem_cons, FileTree.get?]
      by_cases hlong : maxName < (Text.toBytes name).length
      · rw [if_pos hlong]
        simp only [reduceCtorEq, exists_false, false_iff]
        omega
      · rw [if_neg hlong, FileTree.entries_directory]
        cases entries.lookup name with
        | none => simp
        | some child => simp [ih hrest, Nat.le_of_not_lt hlong]

private theorem walk_root_iff (hnames : ∀ n ∈ ns, IsName n) :
    (∃ outer', walk [d.root] (parts (ofNames true ns)) = .ok (t :: outer')) ↔
      d.root.isDirectory = true ∧ (∀ n ∈ ns, (Text.toBytes n).length ≤ maxName) ∧
        d.root.get? ns = some t := by
  rw [Path.parts_ofNames fun n hn => (hnames n hn).noSlash]
  cases hroot : d.root with
  | file content => simp [walk, FileTree.isDirectory]
  | directory entries =>
    rw [if_pos rfl, List.singleton_append, walk_skip_directory (.inl rfl)]
    by_cases hne : ns = []
    · subst hne
      rw [if_pos rfl, if_pos rfl, walk_skip_directory (.inl rfl), walk_names_iff (by simp)]
      simp [FileTree.isDirectory]
    · rw [if_neg hne, walk_names_iff hnames]
      simp [FileTree.isDirectory]

private theorem origin_ofNames (hnames : ∀ n ∈ ns, IsName n) : d.origin (ofNames true ns) = .ok [d.root] := by
  rw [origin, if_pos (Path.isAbsolute_ofNames_of_isName hnames)]

/-- A path from the root is found exactly if it fits and something stands under
    its names. -/
theorem find_ofNames_iff (hnames : ∀ n ∈ ns, IsName n) :
    d.find (ofNames true ns) = .ok t ↔
      Fits ns ∧ d.root.isDirectory = true ∧ d.root.get? ns = some t := by
  have horigin : d.origin (ofNames true ns) = .ok [d.root] := origin_ofNames hnames
  have hne : ¬ (ofNames true ns).isEmpty = true :=
    mt String.isEmpty_iff.mp (Path.ofNames_ne_empty fun n hn => (hnames n hn).nonempty)
  constructor
  · intro hfind
    obtain ⟨start, outer, hstart, hwalk⟩ := find_eq_ok hfind
    obtain rfl := Except.ok.inj (horigin.symm.trans hstart)
    obtain ⟨hroot, hshort, hget⟩ := (walk_root_iff hnames).mp ⟨outer, hwalk⟩
    rw [find_eq, if_neg hne] at hfind
    split at hfind
    · cases hfind
    next hzero =>
      split at hfind
      · cases hfind
      next hlength =>
        exact ⟨⟨by simpa using hzero, Nat.lt_of_not_le hlength, hshort⟩, hroot, hget⟩
  · rintro ⟨⟨hzero, hlength, hshort⟩, hroot, hget⟩
    obtain ⟨outer, hwalk⟩ := (walk_root_iff hnames).mpr ⟨hroot, hshort, hget⟩
    rw [find_eq, if_neg hne, if_neg (by simpa using hzero), if_neg (Nat.not_le_of_lt hlength), horigin]
    simp [Except.bind, hwalk]

/-- Some names lead to a directory exactly if they fit the limits and one stands
    under them. The working directory does not matter, as the path starts at the
    root. -/
theorem isDirectory_ofNames_iff (hnames : ∀ n ∈ ns, IsName n) :
    d.isDirectory (ofNames true ns) = true ↔
      Fits ns ∧ ∃ entries, d.root.get? ns = some (.directory entries) := by
  rw [isDirectory_iff]
  constructor
  · rintro ⟨entries, hfound⟩
    obtain ⟨hfits, -, hget⟩ := (find_ofNames_iff hnames).mp hfound
    exact ⟨hfits, entries, hget⟩
  · rintro ⟨hfits, entries, hget⟩
    have hroot : d.root.isDirectory = true := by
      cases hroot : d.root with
      | file content =>
        rw [hroot] at hget
        cases ns <;> cases hget
      | directory _ => rfl
    exact ⟨entries, (find_ofNames_iff hnames).mpr ⟨hfits, hroot, hget⟩⟩

/-- Above a directory that is found there are only such directories. The names
    must be plain, so that each prefix of them is a way. -/
theorem isDirectory_of_append (hnames : ∀ n ∈ above ++ ns, IsName n)
    (h : d.isDirectory (ofNames true (above ++ ns)) = true) :
    d.isDirectory (ofNames true above) = true := by
  by_cases hmore : ns = []
  · rwa [hmore, List.append_nil] at h
  obtain ⟨hfits, entries, hget⟩ := (isDirectory_ofNames_iff hnames).mp h
  refine (isDirectory_ofNames_iff (List.forall_mem_append.mp hnames).1).mpr ⟨hfits.of_append, ?_⟩
  rw [FileTree.get?_append] at hget
  obtain ⟨t, habove, hrest⟩ := Option.bind_eq_some_iff.mp hget
  cases t with
  | file content =>
    obtain ⟨first, rest, rfl⟩ := List.exists_cons_of_ne_nil hmore
    cases hrest
  | directory entries => exact ⟨entries, habove⟩

/-- A name that is not found below a directory fits there. What exceeds a limit
    of the disk gives another error. -/
theorem fits_of_notFound (hnames : ∀ n ∈ above ++ [name], IsName n)
    (hdirectory : d.isDirectory (ofNames true above) = true)
    (h : d.find (ofNames true (above ++ [name])) = .error .notFound) : Fits (above ++ [name]) := by
  obtain ⟨habove, hname⟩ := List.forall_mem_append.mp hnames
  have hname : IsName name := hname name List.mem_cons_self
  obtain ⟨entries, hfound⟩ := isDirectory_iff.mp hdirectory
  obtain ⟨start, outer, hstart, hwalk⟩ := find_eq_ok hfound
  obtain rfl := Except.ok.inj ((origin_ofNames habove).symm.trans hstart)
  have hne : ofNames true (above ++ [name]) ≠ "" :=
    Path.ofNames_ne_empty fun n hn => (hnames n hn).nonempty
  have hmissing := walk_of_find_notFound hne (origin_ofNames hnames) h
  rw [walk_concat (fun n hn => (habove n hn).noSlash) hname.noSlash hwalk] at hmissing
  have hshort : (Text.toBytes name).length ≤ maxName := by
    refine Nat.le_of_not_lt fun hlong => ?_
    rw [walk, if_neg (by simp [hname.nonempty, hname.notHere]), if_neg (by simp [hname.notUp]),
      if_pos hlong] at hmissing
    cases hmissing
  have hfits := ((isDirectory_ofNames_iff habove).mp hdirectory).1
  rw [find_eq, if_neg (mt String.isEmpty_iff.mp hne)] at h
  split at h
  · cases h
  next hzero =>
    split at h
    · cases h
    next hlength =>
      refine ⟨by simpa using hzero, Nat.lt_of_not_le hlength, ?_⟩
      exact List.forall_mem_append.mpr ⟨hfits.names, by simpa using hshort⟩

private theorem isDirectory_put (t new : FileTree) (hne : ns ≠ []) : (t.put new ns).isDirectory = true := by
  obtain ⟨first, rest, rfl⟩ := List.exists_cons_of_ne_nil hne
  rfl

private theorem find_put (hnames : ∀ n ∈ ns, IsName n) (hne : ns ≠ []) (hfits : Fits ns) (new : FileTree) :
    ({ d with root := d.root.put new ns } : Disk).find (ofNames true ns) = .ok new :=
  (find_ofNames_iff hnames).mpr ⟨hfits, isDirectory_put d.root new hne, FileTree.get?_put_self ..⟩

/-- A file that was written is found at its path, and the working directory
    stays the same. That it was written says that its directory was there. -/
theorem find_write (hnames : ∀ n ∈ ns, IsName n)
    (h : d.write (ofNames true ns) content = .ok d') :
    d'.directory = d.directory ∧ d'.find (ofNames true ns) = .ok (.file content) := by
  have hplace : Path.names (d.absolute (ofNames true ns)) = ns := by
    rw [Disk.absolute, Path.absolute_ofNames hnames, Path.names_ofNames hnames]
  rw [write, hplace] at h
  split at h
  · next old hfound =>
    obtain rfl := Except.ok.inj h
    obtain ⟨hfits, hroot, hget⟩ := (find_ofNames_iff hnames).mp hfound
    refine ⟨rfl, find_put hnames ?_ hfits _⟩
    rintro rfl
    rw [Option.some.inj hget] at hroot
    cases hroot
  · cases h
  · next hmissing =>
    split at h
    · next entries hparent =>
      obtain rfl := Except.ok.inj h
      rcases List.eq_nil_or_concat ns with rfl | ⟨above, name, rfl⟩
      · rw [Path.parent_root, hmissing] at hparent
        cases hparent
      · rw [List.concat_eq_append] at *
        obtain ⟨habove, hname⟩ := List.forall_mem_append.mp hnames
        rw [Path.parent_ofNames habove (hname name List.mem_cons_self)] at hparent
        have hfits := fits_of_notFound hnames (isDirectory_iff.mpr ⟨entries, hparent⟩) hmissing
        exact ⟨rfl, find_put hnames (by simp) hfits _⟩
    · cases h
    · cases h
  · cases h

/-- A file that is there can be written. -/
theorem exists_write (h : d.find path = .ok (.file content)) (new : List UInt8) :
    ∃ d', d.write path new = .ok d' := by
  rw [write, h]
  exact ⟨_, rfl⟩

private theorem toOption_read (d : Disk) (path : String) :
    (d.read path).toOption = (d.find path).toOption.bind FileTree.content? := by
  rw [read]
  cases d.find path with
  | error trouble => rfl
  | ok t => cases t <;> rfl

end Find

section Grow

variable {d d' : Disk} {above names ns : List String} {name path : String}

/-- A directory was added in a place where nothing was found. -/
inductive Adds (d : Disk) : Disk → Prop where
  | mk {above : List String} {name : String} {entries : List (String × FileTree)} {new : FileTree}
      (hnames : ∀ n ∈ above ++ [name], IsName n)
      (habove : d.root.get? above = some (.directory entries))
      (hmissing : (d.find (ofNames true (above ++ [name]))).toOption = none)
      (hnew : new.isDirectory = true) :
      Adds d { d with root := d.root.put new (above ++ [name]) }

/-- Directories were added, one after the other. -/
def Grown (d d' : Disk) : Prop :=
  Relation.ReflTransGen Adds d d'

/-- What is the same about the files of a directory: they have their content,
    and there are no new ones. -/
structure SameFilesIn (ns : List String) (d d' : Disk) : Prop where
  directory : d'.directory = d.directory
  isDirectory : d.isDirectory (ofNames true ns) = true → d'.isDirectory (ofNames true ns) = true
  read : d.isDirectory (ofNames true ns) = true → ∀ name, IsName name →
    (d'.read (ofNames true (ns ++ [name]))).toOption = (d.read (ofNames true (ns ++ [name]))).toOption

private theorem SameFilesIn.refl (ns : List String) (d : Disk) : SameFilesIn ns d d :=
  ⟨rfl, fun h => h, fun _ _ _ => rfl⟩

private theorem SameFilesIn.trans {d'' : Disk} (h : SameFilesIn ns d d') (h' : SameFilesIn ns d' d'') :
    SameFilesIn ns d d'' where
  directory := h'.directory.trans h.directory
  isDirectory hdirectory := h'.isDirectory (h.isDirectory hdirectory)
  read hdirectory name hname :=
    (h'.read (h.isDirectory hdirectory) name hname).trans (h.read hdirectory name hname)

private theorem toOption_find_eq_some_iff {t : FileTree} :
    (d.find path).toOption = some t ↔ d.find path = .ok t := by
  cases d.find path <;> simp [Except.toOption]

/-- The content of a file that a path from the root leads to. -/
theorem toOption_read_eq_some_iff {content : List UInt8} (hnames : ∀ n ∈ ns, IsName n) :
    (d.read (ofNames true ns)).toOption = some content ↔
      Fits ns ∧ d.root.isDirectory = true ∧ d.root.look ns = some (some content) := by
  rw [toOption_read, FileTree.look, Option.bind_eq_some_iff, Option.map_eq_some_iff]
  simp only [toOption_find_eq_some_iff, find_ofNames_iff hnames]
  constructor
  · rintro ⟨t, ⟨hfits, hroot, hget⟩, hcontent⟩
    exact ⟨hfits, hroot, t, hget, hcontent⟩
  · rintro ⟨hfits, hroot, t, hget, hcontent⟩
    exact ⟨t, ⟨hfits, hroot, hget⟩, hcontent⟩

private theorem look_eq_directory_iff {t : FileTree} :
    t.look ns = some none ↔ ∃ entries, t.get? ns = some (.directory entries) := by
  rw [FileTree.look, Option.map_eq_some_iff]
  constructor
  · rintro ⟨t, hget, hcontent⟩
    cases t with
    | file content => cases hcontent
    | directory entries => exact ⟨entries, hget⟩
  · rintro ⟨entries, hget⟩
    exact ⟨_, hget, rfl⟩

private theorem Adds.sameFilesIn (h : Adds d d') (hnames : ∀ n ∈ ns, IsName n) : SameFilesIn ns d d' := by
  cases h with
  | @mk above added entries new hadded habove hmissing hnew =>
    -- nothing is added above a directory, since that is found
    have hbeside : d.isDirectory (ofNames true ns) = true → ¬ above ++ [added] <+: ns := by
      rintro hdirectory ⟨rest, rfl⟩
      obtain ⟨_, hfound⟩ := isDirectory_iff.mp (isDirectory_of_append hnames hdirectory)
      rw [hfound] at hmissing
      cases hmissing
    refine ⟨rfl, fun hdirectory => ?_, fun hdirectory name hname => Option.ext fun content => ?_⟩
    · obtain ⟨hfits, hhere⟩ := (isDirectory_ofNames_iff hnames).mp hdirectory
      refine (isDirectory_ofNames_iff hnames).mpr ⟨hfits, look_eq_directory_iff.mp ?_⟩
      rw [FileTree.look_put habove (hbeside hdirectory), look_eq_directory_iff]
      exact hhere
    · have hbelow : ∀ n ∈ ns ++ [name], IsName n :=
        List.forall_mem_append.mpr ⟨hnames, by simpa using hname⟩
      obtain ⟨_, hfound⟩ := isDirectory_iff.mp hdirectory
      have hroot := ((find_ofNames_iff hnames).mp hfound).2.1
      rw [toOption_read_eq_some_iff hbelow, toOption_read_eq_some_iff hbelow]
      by_cases hhere : above ++ [added] <+: ns ++ [name]
      · -- a directory was added in the place of the file, so there is no file before or after
        have hplace := (List.prefix_concat_iff.mp hhere).resolve_right (hbeside hdirectory)
        rw [hplace] at hmissing ⊢
        constructor
        · rintro ⟨-, -, hlook⟩
          cases new with
          | file content => cases hnew
          | directory entries => simp [FileTree.look, FileTree.get?_put_self, FileTree.content?] at hlook
        · rintro ⟨hfits, -, hlook⟩
          obtain ⟨t, hget, -⟩ := Option.map_eq_some_iff.mp hlook
          rw [(find_ofNames_iff hbelow).mpr ⟨hfits, hroot, hget⟩] at hmissing
          cases hmissing
      · rw [FileTree.look_put habove hhere]
        simp only [hroot, isDirectory_put d.root new (List.append_ne_nil_of_right_ne_nil above
          (List.cons_ne_nil added []))]

/-- A disk that has only grown has the same files beside a directory that was
    there. Directories may be new elsewhere. -/
theorem Grown.sameFilesIn (h : Grown d d') (hnames : ∀ n ∈ ns, IsName n) : SameFilesIn ns d d' := by
  induction h with
  | refl => exact .refl ns d
  | tail _ hadds ih => exact ih.trans (hadds.sameFilesIn hnames)

/-- A directory of a disk is a directory of every disk that it grows to. The
    path must be spelled by plain names from the root. -/
theorem Grown.isDirectory (h : Grown d d') (hnames : ∀ n ∈ ns, IsName n)
    (hdirectory : d.isDirectory (ofNames true ns) = true) : d'.isDirectory (ofNames true ns) = true :=
  (h.sameFilesIn hnames).isDirectory hdirectory

/-- Making directories only makes the disk grow, also where it fails: those that
    were made before stay. -/
theorem grown_makeBelow (hnames : ∀ n ∈ above ++ names, IsName n) :
    Grown d (makeBelow true d above names).1 := by
  fun_induction makeBelow true d above names with
  | case1 | case3 | case5 | case6 => exact .refl
  | case2 d above name rest path entries _ ih => exact ih (by simpa using hnames)
  | case4 d above name rest path hmissing hdirectory ih =>
    have hhere : ∀ n ∈ above ++ [name], IsName n := fun n hn => hnames n (by
      rw [List.append_cons]
      exact List.mem_append_left _ hn)
    have hplace : Path.names (d.absolute path) = above ++ [name] := by
      rw [Disk.absolute, Path.absolute_ofNames hhere, Path.names_ofNames hhere]
    obtain ⟨_, entries, habove⟩ :=
      (isDirectory_ofNames_iff (List.forall_mem_append.mp hhere).1).mp hdirectory
    have hadds : Adds d { d with root := d.root.put (.directory []) (above ++ [name]) } :=
      .mk hhere habove (by rw [hmissing]; rfl) rfl
    rw [hplace] at ih ⊢
    exact (Relation.ReflTransGen.single hadds).trans (ih (by simpa using hnames))

/-- A path along which all directories were made is found. It suffices that what
    is above was a directory before. -/
theorem isDirectory_of_makeBelow (hnames : ∀ n ∈ above ++ names, IsName n)
    (hdirectory : d.isDirectory (ofNames true above) = true)
    (h : makeBelow true d above names = (d', .ok ())) :
    d'.isDirectory (ofNames true (above ++ names)) = true := by
  fun_induction makeBelow true d above names with
  | case1 =>
    cases h
    rwa [List.append_nil]
  | case2 d above name rest path entries hfound ih =>
    rw [List.append_cons] at hnames ⊢
    exact ih hnames (isDirectory_iff.mpr ⟨entries, hfound⟩) h
  | case4 d above name rest path hmissing hparent ih =>
    rw [List.append_cons] at hnames ⊢
    have hhere := (List.forall_mem_append.mp hnames).1
    have hplace : Path.names (d.absolute path) = above ++ [name] := by
      rw [Disk.absolute, Path.absolute_ofNames hhere, Path.names_ofNames hhere]
    rw [hplace] at ih h
    refine ih hnames (isDirectory_iff.mpr ⟨[], ?_⟩) h
    exact find_put hhere (by simp) (fits_of_notFound hhere hparent hmissing) _
  | case3 | case5 | case6 => cases h

/-- Along a path from the root directories are made from the root on, name by
    name. -/
theorem makeDirectories_ofNames (hnames : ∀ n ∈ ns, IsName n) (d : Disk) :
    d.makeDirectories (ofNames true ns) = makeBelow true d [] ns := by
  rw [makeDirectories, Path.isAbsolute_ofNames_of_isName hnames, ← Path.names, Path.names_ofNames hnames]

/-- In a directory that is found, only a new name is not found: a dot leads to
    the directory itself, and two dots to the one above it. -/
theorem isName_of_not_contains {part : String} (hnames : ∀ n ∈ ns, IsName n)
    (hpart : '/' ∉ part.toList) (hne : part ≠ "")
    (hdirectory : d.isDirectory (ofNames true ns) = true)
    (h : d.contains (Path.join [ofNames true ns, part]) = false) : IsName part := by
  have hfound : ∀ above rest, ns = above ++ rest →
      Path.join [ofNames true ns, part] ≠ ofNames true above := by
    rintro above rest rfl hjoin
    obtain ⟨_, hfound⟩ := isDirectory_iff.mp (isDirectory_of_append hnames hdirectory)
    rw [hjoin, contains, hfound] at h
    cases h
  refine ⟨hne, ?_, ?_, hpart⟩
  · rintro rfl
    apply hfound ns [] (List.append_nil ns).symm
    rw [Path.join_ofNames hnames _ hpart, Path.cleanParts_skip (.inr rfl)]
    simp [cleanParts]
  · rintro rfl
    rcases List.eq_nil_or_concat ns with rfl | ⟨above, name, rfl⟩
    · exact hfound [] [] rfl (by decide)
    · rw [List.concat_eq_append] at *
      apply hfound above [name] rfl
      have hname : IsName name := hnames name (by simp)
      rw [Path.join_ofNames hnames _ hpart, List.reverse_append, List.reverse_singleton,
        List.singleton_append, Path.cleanParts_up hname.notUp, List.reverse_reverse]

end Grow

end Disk

end WhilePlus
