import WhilePlus.Proofs.Disk.Tree
import WhilePlus.Proofs.Path.Clean

open WhilePlus.Path (cleanParts ofNames parts isAbsolute)

namespace WhilePlus.Disk

section Walk

variable {d : Disk} {root t : FileTree} {path : String} {names ps : List String}
  {stack stack' outer : List FileTree}

/-- A way down from the root: the names on it and what stands under them, with
    the last ones first. -/
inductive Way (root : FileTree) : List String → List FileTree → Prop where
  | top : Way root [] [root]
  | down {t child : FileTree} {name : String} {names : List String} {outer : List FileTree}
      (h : Way root names (t :: outer)) (hname : name ≠ "..")
      (hchild : t.entries.lookup name = some child) : Way root (name :: names) (child :: t :: outer)

private theorem Way.get? (h : Way root names (t :: outer)) : root.get? names.reverse = some t := by
  generalize hstack : t :: outer = stack at h
  induction h generalizing t outer with
  | top => cases hstack; rfl
  | down h _ hchild ih =>
    cases hstack
    rw [List.reverse_cons, FileTree.get?_append, ih rfl]
    simp [FileTree.get?, hchild]

private theorem Way.exists_top (h : Way root names stack) : ∃ t outer, stack = t :: outer := by
  cases h <;> exact ⟨_, _, rfl⟩

/-- The way back up. -/
theorem Way.up (h : Way root names stack) (rest : List String) :
    ∃ names', cleanParts true names (".." :: rest) = cleanParts true names' rest ∧
      Way root names' (if stack.tail.isEmpty then stack else stack.tail) := by
  cases h with
  | top => exact ⟨[], by simp [cleanParts], .top⟩
  | down h hname _ => exact ⟨_, by simp [cleanParts, hname], h⟩

/-- Following a path ends at the names that it comes down to. Steps that lead up
    are taken back on both sides, so the stack and the names stay alike. -/
theorem Way.walk (h : Way root names stack) (hwalk : walk stack ps = .ok stack') :
    Way root (cleanParts true names ps) stack' := by
  -- what is carried along is that the trees so far are the way down the names so far
  fun_induction Disk.walk stack ps generalizing names with
  | case1 => cases hwalk; exact h
  | case2 part rest entries outer hskip ih =>
    rw [Path.cleanParts_skip (by simpa using hskip)]
    exact ih h hwalk
  | case3 part rest entries outer _ hup ih =>
    obtain rfl := beq_iff_eq.mp hup
    obtain ⟨names', hnames, hway⟩ := h.up rest
    rw [hnames]
    exact ih hway hwalk
  | case4 => cases hwalk
  | case5 part rest entries outer hskip hup _ child hchild ih =>
    have hpart : part ≠ "" ∧ part ≠ "." := by simpa using hskip
    have hup : part ≠ ".." := by simpa using hup
    rw [Path.cleanParts_cons, Path.cleanParts_down hpart hup]
    exact ih (h.down hup hchild) hwalk
  | case6 => cases hwalk
  | case7 => cases hwalk

/-- Where a path starts: at the root, or in the working directory. -/
def origin (d : Disk) (path : String) : Except Trouble (List FileTree) :=
  if isAbsolute path then .ok [d.root] else walk [d.root] (parts d.directory)

private theorem way_origin (h : d.origin path = .ok stack) :
    Way d.root (if isAbsolute path then [] else (Path.names d.directory).reverse) stack := by
  rw [origin] at h
  split at h
  · cases h
    rw [if_pos ‹_›]
    exact .top
  · rw [if_neg ‹_›, Path.names, List.reverse_reverse]
    exact Way.top.walk h

/-- What a path leads to, in three steps: the path itself may be refused, then
    it has a place to start from, and then its parts are followed. -/
theorem find_eq (d : Disk) (path : String) :
    d.find path =
      if path.isEmpty then .error .notFound
      else if path.toList.contains (Char.ofNat 0) then .error .invalid
      else if pathLimit ≤ (Text.toBytes path).length then .error .nameTooLong
      else (d.origin path).bind fun start =>
        (walk start (parts path)).bind fun stack => .ok (stack.headD d.root) := by
  rw [find, origin]
  cases isAbsolute path <;> rfl

/-- A path that leads somewhere has a place to start from, and what it leads to
    is on top of the directories that were followed. -/
theorem find_eq_ok (h : d.find path = .ok t) :
    ∃ start outer, d.origin path = .ok start ∧ walk start (parts path) = .ok (t :: outer) := by
  rw [find_eq] at h
  split at h
  · cases h
  split at h
  · cases h
  split at h
  · cases h
  cases hstart : d.origin path with
  | error => rw [hstart] at h; cases h
  | ok start =>
    rw [hstart] at h
    cases hwalk : walk start (parts path) with
    | error => simp only [Except.bind, hwalk] at h; cases h
    | ok stack =>
      have hway := (way_origin hstart).walk hwalk
      obtain ⟨top, outer, rfl⟩ := hway.exists_top
      simp only [Except.bind, hwalk] at h
      cases h
      exact ⟨start, outer, rfl, hwalk⟩

/-- What a path leads to stands under its names. -/
theorem get?_of_find (h : d.find path = .ok t) :
    d.root.get? (Path.names (d.absolute path)) = some t := by
  obtain ⟨start, outer, hstart, hwalk⟩ := find_eq_ok h
  rw [Disk.absolute, Path.names_absolute]
  exact ((way_origin hstart).walk hwalk).get?

/-- A path that leads to nothing fails on the way, if it is not empty and has a
    place to start from. -/
theorem walk_of_find_notFound {start : List FileTree} (hne : path ≠ "")
    (hstart : d.origin path = .ok start) (h : d.find path = .error .notFound) :
    walk start (parts path) = .error .notFound := by
  rw [find_eq] at h
  split at h
  · exact absurd (String.isEmpty_iff.mp ‹_›) hne
  split at h
  · cases h
  split at h
  · cases h
  rw [hstart] at h
  cases hwalk : walk start (parts path) with
  | error trouble => simp only [Except.bind, hwalk] at h; cases h; rfl
  | ok stack => simp only [Except.bind, hwalk] at h; cases h

end Walk

section Missing

variable {d : Disk} {rooted : Bool} {name : String} {above ps : List String}
  {stack stack' outer : List FileTree} {entries : List (String × FileTree)}

/-- Parts that can be followed can be followed on from where they lead. This
    holds for parts that go up as well. -/
theorem walk_append (h : walk stack ps = .ok stack') (qs : List String) :
    walk stack (ps ++ qs) = walk stack' qs := by
  fun_induction walk stack ps with
  | case1 => cases h; rfl
  | case2 part rest entries outer hskip ih =>
    rw [List.cons_append, walk, if_pos hskip]
    exact ih h
  | case3 part rest entries outer hskip hup ih =>
    rw [List.cons_append, walk, if_neg hskip, if_pos hup]
    exact ih h
  | case5 part rest entries outer hskip hup hlong child hchild ih =>
    rw [List.cons_append, walk, if_neg hskip, if_neg hup, if_neg hlong, hchild]
    exact ih h
  | case4 | case6 | case7 => cases h

/-- An empty part and a single dot lead nowhere else. They can only be passed in
    a directory, so nothing is said of a path that fails. -/
theorem walk_skip {part : String} (hskip : part = "" ∨ part = ".")
    (h : walk stack (part :: ps) = .ok stack') : walk stack ps = .ok stack' := by
  cases stack with
  | nil => simp [walk] at h
  | cons t outer =>
    cases t with
    | file _ => simp [walk] at h
    | directory entries =>
      rw [walk, if_pos (by simpa using hskip)] at h
      exact h

/-- In a directory an empty part and a single dot make no difference, whether
    the rest can be followed or not. -/
theorem walk_skip_directory {part : String} (hskip : part = "" ∨ part = ".") :
    walk (.directory entries :: outer) (part :: ps) = walk (.directory entries :: outer) ps := by
  rw [walk, if_pos (by simpa using hskip)]

/-- One more name is one more step. No slash may be in the names, or the path
    would be cut elsewhere, and what was reached must be a directory. -/
theorem walk_concat (habove : ∀ n ∈ above, '/' ∉ n.toList) (hname : '/' ∉ name.toList)
    (h : walk stack (parts (ofNames rooted above)) = .ok (.directory entries :: outer)) :
    walk stack (parts (ofNames rooted (above ++ [name]))) =
      walk (.directory entries :: outer) [name] := by
  by_cases hne : above = []
  · subst hne
    have hname' : ∀ n ∈ [name], '/' ∉ n.toList := by simpa using hname
    rw [Path.parts_ofNames habove] at h
    rw [List.nil_append, Path.parts_ofNames hname']
    cases rooted with
    | true =>
      have hstack := walk_skip (.inl rfl) (walk_skip (.inl rfl) h)
      cases hstack
      exact walk_skip_directory (.inl rfl)
    | false =>
      have hstack := walk_skip (.inr rfl) h
      cases hstack
      rfl
  · rw [Path.ofNames_concat hne, Path.parts_append, Path.parts_of_noSlash hname]
    exact walk_append h [name]

private theorem lookup_of_walk_notFound
    (h : walk (.directory entries :: outer) [name] = .error .notFound) :
    ((name ≠ "" ∧ name ≠ ".") ∧ name ≠ "..") ∧ entries.lookup name = none := by
  rw [walk] at h
  split at h
  · cases h
  rename_i hskip
  split at h
  · cases h
  rename_i hup
  split at h
  · cases h
  split at h
  · cases h
  rename_i hlookup
  simp only [Bool.or_eq_true, beq_iff_eq, not_or] at hskip hup
  exact ⟨⟨hskip, hup⟩, hlookup⟩

/-- A path leads to a directory exactly if one is found there. -/
theorem isDirectory_iff {path : String} :
    d.isDirectory path = true ↔ ∃ entries, d.find path = .ok (.directory entries) := by
  rw [isDirectory]
  split
  · rename_i t ht
    cases t <;> simp [FileTree.isDirectory, ht]
  · rename_i ht
    simp [ht]

/-- What a directory lacks if a path one name below it is not found. Since the
    directory is found, the fault lies with the name alone: it leads down, and
    no entry has it. -/
theorem lookup_of_find_notFound (habove : ∀ n ∈ above, n ≠ "" ∧ '/' ∉ n.toList)
    (hname : name ≠ "" ∧ '/' ∉ name.toList) (hdirectory : d.isDirectory (ofNames rooted above) = true)
    (h : d.find (ofNames rooted (above ++ [name])) = .error .notFound) :
    ∃ entries, d.find (ofNames rooted above) = .ok (.directory entries) ∧
      ((name ≠ "" ∧ name ≠ ".") ∧ name ≠ "..") ∧ entries.lookup name = none := by
  have hnames : ∀ n ∈ above ++ [name], n ≠ "" ∧ '/' ∉ n.toList :=
    List.forall_mem_append.mpr ⟨habove, by simpa using hname⟩
  obtain ⟨entries, hfound⟩ := isDirectory_iff.mp hdirectory
  obtain ⟨start, outer, hstart, hwalk⟩ := find_eq_ok hfound
  have hstart' : d.origin (ofNames rooted (above ++ [name])) = .ok start := by
    rw [origin, Path.isAbsolute_ofNames hnames]
    rwa [origin, Path.isAbsolute_ofNames habove] at hstart
  -- both paths start at the same place, and the longer one is refused at its last name only
  have hmissing := walk_of_find_notFound (Path.ofNames_ne_empty fun n hn => (hnames n hn).1) hstart' h
  rw [walk_concat (fun n hn => (habove n hn).2) hname.2 hwalk] at hmissing
  exact ⟨entries, hfound, lookup_of_walk_notFound hmissing⟩

/-- A name that is not found below a directory is free there. The conclusion is
    about the tree itself, so an entry can be put at that place. -/
theorem free_of_find_notFound (habove : ∀ n ∈ above, n ≠ "" ∧ '/' ∉ n.toList)
    (hname : name ≠ "" ∧ '/' ∉ name.toList) (hdirectory : d.isDirectory (ofNames rooted above) = true)
    (h : d.find (ofNames rooted (above ++ [name])) = .error .notFound) :
    ∃ entries, d.root.get? (Path.names (d.absolute (ofNames rooted above))) = some (.directory entries) ∧
      entries.lookup name = none ∧
      Path.names (d.absolute (ofNames rooted (above ++ [name]))) =
        Path.names (d.absolute (ofNames rooted above)) ++ [name] := by
  obtain ⟨entries, hfound, hstep, hfree⟩ := lookup_of_find_notFound habove hname hdirectory h
  have hnames : ∀ n ∈ above ++ [name], n ≠ "" ∧ '/' ∉ n.toList :=
    List.forall_mem_append.mpr ⟨habove, by simpa using hname⟩
  refine ⟨entries, get?_of_find hfound, hfree, ?_⟩
  rw [Disk.absolute, Disk.absolute, Path.names_absolute, Path.names_absolute,
    Path.isAbsolute_ofNames hnames, Path.isAbsolute_ofNames habove,
    Path.cleanParts_parts_ofNames fun n hn => (hnames n hn).2,
    Path.cleanParts_parts_ofNames fun n hn => (habove n hn).2,
    Path.cleanParts_append, Path.cleanParts_down hstep.1 hstep.2, List.reverse_cons]

end Missing

section Kept

variable {inside inside' : List String → Prop} {d d' d'' : Disk}

/-- Between two states of a disk nothing was lost outside a region: files are
    still there with their content, and directories are still directories. -/
structure KeptOutside (inside : List String → Prop) (d d' : Disk) : Prop where
  directory : d'.directory = d.directory
  look : ∀ {names : List String} {seen : Option (List UInt8)}, ¬ inside names →
    d.root.look names = some seen → d'.root.look names = some seen

/-- A disk is like itself, whatever places are left out. -/
theorem KeptOutside.refl (inside : List String → Prop) (d : Disk) : KeptOutside inside d d :=
  ⟨rfl, fun _ h => h⟩

/-- Two changes inside the same places change nothing outside of them. -/
theorem KeptOutside.trans (h : KeptOutside inside d d') (h' : KeptOutside inside d' d'') :
    KeptOutside inside d d'' :=
  ⟨h'.directory.trans h.directory, fun hout hseen => h'.look hout (h.look hout hseen)⟩

/-- What is kept outside of some places is kept outside of more of them. -/
theorem KeptOutside.mono (h : KeptOutside inside d d') (hsub : ∀ names, inside names → inside' names) :
    KeptOutside inside' d d' :=
  ⟨h.directory, fun hout => h.look (mt (hsub _) hout)⟩

private theorem keptOutside_erase (d : Disk) (place : List String) :
    KeptOutside (place <+: ·) d { d with root := d.root.erase place } :=
  ⟨rfl, fun hout hseen => (FileTree.look_erase hout).trans hseen⟩

/-- Putting something into a directory that is there changes nothing outside of
    its place. An older entry with that name may be replaced. -/
theorem keptOutside_put {above : List String} {name : String} {entries : List (String × FileTree)}
    (h : d.root.get? above = some (.directory entries)) (new : FileTree) :
    KeptOutside (above ++ [name] <+: ·) d { d with root := d.root.put new (above ++ [name]) } :=
  ⟨rfl, fun hout hseen => (FileTree.look_put h hout).trans hseen⟩

private theorem keptOutside_put_new (inside : List String → Prop) {above : List String} {name : String}
    {entries : List (String × FileTree)} (h : d.root.get? above = some (.directory entries))
    (hfree : entries.lookup name = none) (new : FileTree) :
    KeptOutside inside d { d with root := d.root.put new (above ++ [name]) } :=
  ⟨rfl, fun _ hseen => FileTree.look_put_new h hfree hseen⟩

/-- Removing what a path leads to removes nothing else. -/
theorem keptOutside_removeAll {path : String} (h : d.removeAll path = .ok d') :
    KeptOutside (Path.names (d.absolute path) <+: ·) d d' := by
  rw [removeAll] at h
  -- the names must not be followed when the disks are compared
  generalize Path.names (d.absolute path) = place at h ⊢
  split at h
  · cases h
    exact keptOutside_erase d place
  · cases h
    exact .refl _ d
  · split at h
    · cases h
    · cases h
      exact .refl _ d
    · cases h

/-- Making directories removes nothing at all. -/
theorem keptOutside_makeBelow {rooted : Bool} {above names : List String}
    (hnames : ∀ n ∈ above ++ names, n ≠ "" ∧ '/' ∉ n.toList) :
    KeptOutside inside d (makeBelow rooted d above names).1 := by
  fun_induction makeBelow rooted d above names with
  | case1 => exact .refl _ _
  | case2 d above name rest _ _ _ ih => exact ih (by simpa using hnames)
  | case4 d above name rest path hmissing hdirectory ih =>
    obtain ⟨habove, hrest⟩ := List.forall_mem_append.mp hnames
    obtain ⟨entries, hentries, hfree, hplace⟩ := free_of_find_notFound habove
      (List.forall_mem_cons.mp hrest).1 hdirectory hmissing
    have hmade := keptOutside_put_new inside hentries hfree (.directory [])
    rw [← hplace] at hmade
    exact hmade.trans (ih (by simpa using hnames))
  | case3 | case5 | case6 => exact .refl _ _

private theorem get?_of_made {path : String} {place : List String}
    (h : { d with root := d.root.put (.directory []) place } = d')
    (hplace : place = Path.names (Path.absolute d.directory path)) :
    ∃ entries, d'.root.get? (Path.names (d'.absolute path)) = some (.directory entries) := by
  subst h
  rw [Disk.absolute, ← hplace]
  exact ⟨[], FileTree.get?_put_self ..⟩

/-- A path along which all directories were made is a directory. At least one
    name must be made: for none nothing is done, and nothing is known. -/
theorem get?_of_makeBelow {rooted : Bool} {above names : List String} (hne : names ≠ [])
    (h : makeBelow rooted d above names = (d', .ok ())) :
    ∃ entries, d'.root.get? (Path.names (d'.absolute (ofNames rooted (above ++ names)))) =
      some (.directory entries) := by
  fun_induction makeBelow rooted d above names with
  | case1 => exact absurd rfl hne
  | case2 d above name rest path entries hfound ih =>
    cases rest with
    | nil =>
      obtain rfl := (Prod.mk.inj h).1
      exact ⟨entries, get?_of_find hfound⟩
    | cons next rest => simpa using ih (List.cons_ne_nil _ _) h
  | case4 d above name rest path _ _ ih =>
    cases rest with
    | nil => exact get?_of_made (Prod.mk.inj h).1 rfl
    | cons next rest => simpa using ih (List.cons_ne_nil _ _) h
  | case3 | case5 | case6 => cases h

/-- Making directories keeps everything that was there, even inside the places
    that may change, and also if it fails on the way. -/
theorem keptOutside_makeDirectories (inside : List String → Prop) (d : Disk) (path : String) :
    KeptOutside inside d (d.makeDirectories path).1 :=
  keptOutside_makeBelow fun _ hn =>
    have hname := Path.mem_trail (List.mem_reverse.mp hn)
    ⟨hname.1.1, hname.2⟩

/-- After directories were made along a path, there is one in the place that the
    path names. A path without any name is left out, since it makes nothing. -/
theorem get?_of_makeDirectories {path : String} (hne : Path.trail path ≠ [])
    (h : d.makeDirectories path = (d', .ok ())) :
    ∃ entries, d'.root.get? (Path.names (d'.absolute (Path.clean path))) =
      some (.directory entries) := by
  have hmade : makeBelow (isAbsolute path) d [] (Path.trail path).reverse = (d', .ok ()) := h
  have hdirectory := get?_of_makeBelow (by simpa using hne) hmade
  rwa [List.nil_append, ← Path.clean_eq] at hdirectory

end Kept

end WhilePlus.Disk
