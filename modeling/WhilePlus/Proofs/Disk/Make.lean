import WhilePlus.Proofs.Disk.Find

open WhilePlus.Path (cleanParts ofNames parts isAbsolute IsName)

namespace WhilePlus

namespace Path

section Names

variable {rooted : Bool} {stack above names ps : List String}

/-- Proper names are only put on top of the names so far. -/
theorem cleanParts_names (h : ∀ n ∈ names, IsName n) :
    cleanParts rooted stack names = names.reverse ++ stack := by
  induction names generalizing stack with
  | nil => rfl
  | cons name rest ih =>
    obtain ⟨hname, hrest⟩ := List.forall_mem_cons.mp h
    rw [cleanParts_cons, cleanParts_name hname, ih hrest, List.reverse_cons, List.append_assoc]
    rfl

/-- Names below a place lead down from it one by one. The place itself may have
    dots in it, but the names below must be plain. -/
theorem names_absolute_ofNames_append (habove : ∀ n ∈ above, n ≠ "" ∧ '/' ∉ n.toList)
    (h : ∀ n ∈ names, IsName n) (directory : String) :
    Path.names (absolute directory (ofNames rooted (above ++ names))) =
      Path.names (absolute directory (ofNames rooted above)) ++ names := by
  have hall : ∀ n ∈ above ++ names, n ≠ "" ∧ '/' ∉ n.toList :=
    List.forall_mem_append.mpr ⟨habove, fun n hn => ⟨(h n hn).nonempty, (h n hn).noSlash⟩⟩
  rw [names_absolute, names_absolute, isAbsolute_ofNames hall, isAbsolute_ofNames habove,
    cleanParts_parts_ofNames fun n hn => (hall n hn).2,
    cleanParts_parts_ofNames fun n hn => (habove n hn).2, cleanParts_append, cleanParts_names h,
    List.reverse_append, List.reverse_reverse]

/-- In a list of names, two dots stand only at the start. -/
def UpFirst (names : List String) : Prop :=
  names.Pairwise fun before after => after = ".." → before = ".."

private theorem pairwise_cleanParts (h : stack.Pairwise fun after before => after = ".." → before = "..") :
    (cleanParts rooted stack ps).Pairwise fun after before => after = ".." → before = ".." := by
  fun_induction cleanParts rooted stack ps with
  | case1 => exact h
  | case2 _ _ _ _ ih => exact ih h
  | case3 part rest _ _ ih => exact ih (by split <;> simp)
  | case4 part rest _ _ last before hlast ih =>
    refine ih (List.pairwise_cons.mpr ⟨?_, h⟩)
    have hlast : last = ".." := by simpa using hlast
    intro n hn _
    rcases List.mem_cons.mp hn with rfl | hn
    · exact hlast
    · exact (List.pairwise_cons.mp h).1 n hn hlast
  | case5 part rest _ _ last before _ ih => exact ih (List.pairwise_cons.mp h).2
  | case6 names part rest _ hup ih =>
    exact ih (List.pairwise_cons.mpr ⟨fun n _ hpart => absurd hpart (by simpa using hup), h⟩)

private theorem upFirst_trail (path : String) : UpFirst (trail path).reverse :=
  List.pairwise_reverse.mpr (pairwise_cleanParts .nil)

end Names

end Path

namespace FileTree

private theorem get?_erase_self {t : FileTree} {place : List String} (hne : place ≠ []) :
    (t.erase place).get? place = none := by
  fun_induction erase t place with
  | case1 => exact absurd rfl hne
  | case2 name content => rfl
  | case3 name entries => simp [get?, lookup_filter_ne]
  | case4 t name rest hrest child hchild ih =>
    simp [get?, lookup_insertBinding, ih hrest]
  | case5 t name rest hrest hchild => simp [get?, hchild]

end FileTree

namespace Disk

variable {d d' : Disk} {rooted : Bool} {path base name more : String} {above names : List String}
  {t : FileTree}

/-- What a path leads to on a disk with another root stands under its names
    there. -/
theorem get?_of_find_root {root : FileTree} (h : ({ d with root } : Disk).find path = .ok t) :
    root.get? (Path.names (Path.absolute d.directory path)) = some t :=
  get?_of_find h

section Above

/-- What is walked on from is a directory. -/
theorem walk_of_append {stack stack' : List FileTree} {ps qs : List String} {q : String}
    (h : walk stack (ps ++ q :: qs) = .ok stack') :
    ∃ entries outer, walk stack ps = .ok (.directory entries :: outer) := by
  fun_induction walk stack ps with
  | case1 stack =>
    cases stack with
    | nil => simp [walk] at h
    | cons t outer =>
      cases t with
      | file content => simp [walk] at h
      | directory entries => exact ⟨entries, outer, rfl⟩
  | case2 part rest entries outer hskip ih =>
    rw [List.cons_append, walk, if_pos hskip] at h
    exact ih h
  | case3 part rest entries outer hskip hup ih =>
    rw [List.cons_append, walk, if_neg hskip, if_pos hup] at h
    exact ih h
  | case5 part rest entries outer hskip hup hlong child hchild ih =>
    rw [List.cons_append, walk, if_neg hskip, if_neg hup, if_neg hlong, hchild] at h
    exact ih h
  | case4 part rest entries outer hskip hup hlong =>
    rw [List.cons_append, walk, if_neg hskip, if_neg hup, if_pos hlong] at h
    cases h
  | case6 part rest entries outer hskip hup hlong hmissing =>
    rw [List.cons_append, walk, if_neg hskip, if_neg hup, if_neg hlong, hmissing] at h
    cases h
  | case7 => simp [walk] at h

/-- A path that leads anywhere goes through directories. This holds of any text
    behind the slash, even of dots. -/
theorem find_of_append (hne : path ≠ "") (h : d.find (path ++ "/" ++ more) = .ok t) :
    ∃ entries, d.find path = .ok (.directory entries) := by
  obtain ⟨start, outer, hstart, hwalk⟩ := find_eq_ok h
  have horigin : d.origin path = .ok start := by
    rwa [origin, Path.isAbsolute_append_slash hne] at hstart
  rw [Path.parts_append] at hwalk
  obtain ⟨first, others, hmore⟩ : ∃ first others, parts more = first :: others := by
    apply List.exists_cons_of_ne_nil
    simp [parts, Path.splitChars_ne_nil]
  rw [hmore] at hwalk
  obtain ⟨entries, outer', hdirectory⟩ := walk_of_append hwalk
  refine ⟨entries, ?_⟩
  -- the shorter path passes the same checks
  rw [find_eq] at h ⊢
  split at h
  · cases h
  split at h
  · cases h
  next hzero =>
    split at h
    · cases h
    next hlength =>
      have hzero' : ¬ path.toList.contains (Char.ofNat 0) = true := by
        simp only [String.toList_append, List.contains_eq_mem, decide_eq_true_eq] at hzero ⊢
        exact fun hmem => hzero (List.mem_append_left _ (List.mem_append_left _ hmem))
      have hlength' : ¬ pathLimit ≤ (Text.toBytes path).length := by
        simp only [Text.toBytes, String.toList_append, List.flatMap_append, List.length_append]
          at hlength ⊢
        omega
      rw [if_neg (mt String.isEmpty_iff.mp hne), if_neg hzero', if_neg hlength', horigin]
      simp [Except.bind, hdirectory]

private theorem find_ofNames_of_append (habove : ∀ n ∈ above, n ≠ "") (hne : above ≠ [])
    (hmore : names ≠ []) (h : d.find (ofNames rooted (above ++ names)) = .ok t) :
    ∃ entries, d.find (ofNames rooted above) = .ok (.directory entries) := by
  rw [Path.ofNames_append hne hmore] at h
  exact find_of_append (Path.ofNames_ne_empty habove) h

end Above

section Make

/-- Where something is found below a path, no directory has to be made. The last
    name may be that of a file; only those before it are made. -/
theorem makeBelow_of_find (hnames : ∀ n ∈ above ++ names, n ≠ "")
    (h : d.find (ofNames rooted (above ++ names ++ [name])) = .ok t) :
    makeBelow rooted d above names = (d, .ok ()) := by
  induction names generalizing above with
  | nil => rfl
  | cons first rest ih =>
    have hsplit : above ++ first :: rest = above ++ [first] ++ rest := List.append_cons ..
    rw [hsplit] at h hnames
    have hprefix := h
    rw [List.append_assoc (above ++ [first])] at hprefix
    obtain ⟨entries, hfound⟩ := find_ofNames_of_append (List.forall_mem_append.mp hnames).1
      (by simp) (by simp) hprefix
    rw [makeBelow, hfound]
    exact ih hnames h

/-- What is found below directories that were made was found before, since they
    were made empty. -/
theorem find_of_makeBelow (hnames : ∀ n ∈ above ++ names, (n ≠ "" ∧ n ≠ ".") ∧ '/' ∉ n.toList)
    (hups : Path.UpFirst names) (hname : IsName name)
    (h : (makeBelow rooted d above names).1.find (ofNames rooted (above ++ names ++ [name])) = .ok t) :
    d.find (ofNames rooted (above ++ names ++ [name])) = .ok t := by
  fun_induction makeBelow rooted d above names with
  | case1 | case3 | case5 | case6 => exact h
  | case2 d above first rest path entries _ ih =>
    have hsplit : above ++ first :: rest = above ++ [first] ++ rest := List.append_cons ..
    rw [hsplit] at h hnames ⊢
    exact ih hnames (List.pairwise_cons.mp hups).2 h
  | case4 d above first rest path hmissing hdirectory ih =>
    obtain ⟨hups, hrest⟩ := List.pairwise_cons.mp hups
    have hsplit : above ++ first :: rest = above ++ [first] ++ rest := List.append_cons ..
    rw [hsplit] at h hnames ⊢
    have hsimple : ∀ n ∈ above ++ [first], n ≠ "" ∧ '/' ∉ n.toList := fun n hn =>
      have hn := hnames n (List.mem_append_left _ hn)
      ⟨hn.1.1, hn.2⟩
    obtain ⟨_, _, hstep, _⟩ := lookup_of_find_notFound
      (fun n hn => hsimple n (List.mem_append_left _ hn)) (hsimple first (by simp)) hdirectory hmissing
    -- after a name there are only names, so the path ends inside the directory that was made
    have hbelow : ∀ n ∈ rest ++ [name], IsName n := by
      refine List.forall_mem_append.mpr ⟨fun n hn => ?_, by simpa using hname⟩
      have hsimple := hnames n (List.mem_append_right _ hn)
      exact ⟨hsimple.1.1, hsimple.1.2, fun hup => hstep.2 (hups n hn hup), hsimple.2⟩
    have hget := get?_of_find_root (ih hnames hrest h)
    rw [List.append_assoc _ rest, Path.names_absolute_ofNames_append hsimple hbelow,
      FileTree.get?_append, Disk.absolute, FileTree.get?_put_self] at hget
    cases rest <;> cases hget

/-- Making the directories above a path does not change what the path leads to,
    although it may change the error for a path that leads nowhere. -/
theorem find_makeDirectories (hbase : base ≠ "") (hname : IsName name)
    (h : d.makeDirectories base = (d', .ok ())) :
    (d'.find (Path.join [base, name])).toOption = (d.find (Path.join [base, name])).toOption := by
  have hmake : makeBelow (isAbsolute base) d [] (Path.trail base).reverse = (d', .ok ()) := h
  have hnames : ∀ n ∈ [] ++ (Path.trail base).reverse, (n ≠ "" ∧ n ≠ ".") ∧ '/' ∉ n.toList :=
    fun n hn => Path.mem_trail (List.mem_reverse.mp hn)
  have hpath : Path.join [base, name] =
      ofNames (isAbsolute base) ([] ++ (Path.trail base).reverse ++ [name]) := by
    rw [Path.join_eq hbase, Path.parts_of_noSlash hname.noSlash, Path.cleanParts_name hname,
      List.reverse_cons, List.nil_append]
  rw [hpath]
  cases hbefore : d.find (ofNames (isAbsolute base) ([] ++ (Path.trail base).reverse ++ [name])) with
  | ok t =>
    rw [makeBelow_of_find (fun n hn => (hnames n hn).1.1) hbefore] at hmake
    cases hmake
    rw [hbefore]
  | error trouble =>
    cases hafter : d'.find (ofNames (isAbsolute base) ([] ++ (Path.trail base).reverse ++ [name])) with
    | error _ => rfl
    | ok t =>
      have hfound := find_of_makeBelow (d := d) hnames (Path.upFirst_trail base) hname
        (by rw [hmake]; exact hafter)
      rw [hbefore] at hfound
      cases hfound

end Make

/-- A path leads nowhere after what it led to was removed. The root is left out,
    since something is always there. -/
theorem find_removeAll (hne : Path.names (d.absolute path) ≠ []) (h : d.removeAll path = .ok d') :
    (d'.find path).toOption = none := by
  rw [removeAll] at h
  cases hafter : d'.find path with
  | error _ => rfl
  | ok t =>
    split at h
    · obtain rfl := Except.ok.inj h
      have hget := get?_of_find_root hafter
      rw [Disk.absolute] at hne hget
      rw [FileTree.get?_erase_self hne] at hget
      cases hget
    · next hmissing =>
      obtain rfl := Except.ok.inj h
      rw [hmissing] at hafter
      cases hafter
    · next trouble _ hmissing =>
      split at h
      · cases h
      · obtain rfl := Except.ok.inj h
        rw [hmissing] at hafter
        cases hafter
      · cases h

end Disk

end WhilePlus
