import WhilePlus.Proofs.Disk.Rooted
import WhilePlus.Proofs.Disk.Walk

open WhilePlus.Path (cleanParts isAbsolute ofNames parts trail)

namespace WhilePlus

namespace Path

/-- The path that some names lead to from a place. -/
def below (root : String) (names : List String) : String :=
  if names.isEmpty then root else join (root :: names)

section Below

variable {root name : String} {names : List String} {rooted : Bool} {c : Char}

private theorem below_eq_clean (hroot : root ≠ "") (hne : names ≠ []) :
    below root names = clean (root ++ "/" ++ "/".intercalate names) := by
  have hdrop : (root :: names).dropWhile (·.isEmpty) = root :: names := by simp [hroot]
  rw [below, if_neg (by simpa using hne), join, hdrop]
  exact congrArg clean (intercalate_append (List.cons_ne_nil root []) hne)

private theorem below_ne_empty (hroot : root ≠ "") (names : List String) : below root names ≠ "" := by
  by_cases hne : names = []
  · rwa [below, hne]
  · rw [below_eq_clean hroot hne]
    exact clean_ne_empty _

private theorem isAbsolute_below (hroot : root ≠ "") (names : List String) :
    isAbsolute (below root names) = isAbsolute root := by
  by_cases hne : names = []
  · rw [below, hne]
    rfl
  · rw [below_eq_clean hroot hne, isAbsolute_clean, isAbsolute_append_slash hroot]

private theorem trail_below (hroot : root ≠ "") (h : ∀ n ∈ names, IsName n) :
    trail (below root names) = names.reverse ++ trail root := by
  by_cases hne : names = []
  · rw [below, hne]
    rfl
  · rw [below_eq_clean hroot hne, trail_clean, trail_append_slash hroot,
      parts_intercalate hne fun n hn => (h n hn).noSlash, cleanParts_names h]

/-- A name below a place, with the names that the path of the place comes down
    to. -/
theorem join_below (hroot : root ≠ "") (h : ∀ n ∈ names, IsName n) (hname : IsName name) :
    join [below root names, name] =
      ofNames (isAbsolute root) ((trail root).reverse ++ (names ++ [name])) := by
  rw [join_eq (below_ne_empty hroot names), isAbsolute_below hroot, trail_below hroot h,
    parts_of_noSlash hname.noSlash, cleanParts_name hname]
  simp

private theorem mem_toList_intercalate (h : c ∈ ("/".intercalate names).toList) :
    c = '/' ∨ ∃ n ∈ names, c ∈ n.toList := by
  induction names with
  | nil => simp at h
  | cons first rest ih =>
    cases rest with
    | nil => exact .inr ⟨first, List.mem_cons_self, by simpa using h⟩
    | cons second rest =>
      rw [intercalate_cons_cons, String.toList_append, String.toList_append, List.mem_append,
        List.mem_append] at h
      rcases h with (h | h) | h
      · exact .inr ⟨first, List.mem_cons_self, h⟩
      · exact .inl (by simpa using h)
      · obtain h | ⟨n, hn, h⟩ := ih h
        · exact .inl h
        · exact .inr ⟨n, List.mem_cons_of_mem _ hn, h⟩

/-- The characters of a path are those of its names, and two others. -/
theorem mem_toList_ofNames (h : c ∈ (ofNames rooted names).toList) :
    (c = '/' ∨ c = '.') ∨ ∃ n ∈ names, c ∈ n.toList := by
  rw [ofNames] at h
  split at h
  · rw [String.toList_append, List.mem_append] at h
    rcases h with h | h
    · exact .inl (.inl (by simpa using h))
    · exact (mem_toList_intercalate h).imp .inl id
  split at h
  · exact .inl (.inr (by simpa using h))
  · exact (mem_toList_intercalate h).imp .inl id

private theorem mem_toList_of_mem_trail (hpoint : c ≠ '.') (hname : name ∈ trail root) (h : c ∈ name.toList) :
    c ∈ root.toList := by
  have hparts : ∀ n ∈ trail root, c ∈ n.toList → c ∈ root.toList := by
    refine forall_mem_cleanParts (fun h => ?_) (by simp) fun part hpart _ _ h => ?_
    · exact absurd (by simpa using h) hpoint
    · obtain ⟨cs, hcs, rfl⟩ := List.mem_map.mp hpart
      rw [String.toList_ofList] at h
      exact (infix_of_mem_splitChars hcs).subset h
  exact hparts name hname h

end Below

end Path

namespace Disk

section Below

variable {d : Disk} {t : FileTree} {path name : String} {names ps qs : List String} {rooted : Bool}
  {start stack stack' : List FileTree} {entries : List (String × FileTree)}

private theorem walk_append_eq_ok (ps : List String) (h : walk stack (ps ++ qs) = .ok stack') :
    ∃ next, walk stack ps = .ok next ∧ walk next qs = .ok stack' := by
  cases qs with
  | nil => exact ⟨stack', by rwa [List.append_nil] at h, rfl⟩
  | cons q qs =>
    obtain ⟨entries, outer, hps⟩ := walk_of_append h
    exact ⟨_, hps, walk_append hps _ ▸ h⟩

/-- A name that was followed last was followed one level down. That it is no dot
    and not empty is needed, as both stay where they are, and two dots lead up. -/
theorem walk_concat_eq_ok {last : String} (hlast : (last ≠ "" ∧ last ≠ ".") ∧ last ≠ "..")
    (h : walk start (names ++ [last]) = .ok stack) :
    ∃ child entries outer, stack = child :: .directory entries :: outer ∧
      walk start names = .ok (.directory entries :: outer) := by
  obtain ⟨entries, outer, hnames⟩ := walk_of_append h
  rw [walk_append hnames, walk, if_neg (by simpa using hlast.1), if_neg (by simpa using hlast.2)] at h
  split at h
  · cases h
  split at h
  · next child _ =>
    cases h
    exact ⟨child, entries, outer, rfl, hnames⟩
  · cases h

/-- The names that a path comes down to lead where the path leads. A path from
    the root must start at the root, where two dots have no effect; any other
    one may start below some names. -/
theorem walk_cleanParts (htop : rooted = true → ∃ entries, start = [.directory entries])
    (hnames : ∀ n ∈ names, n ≠ "" ∧ n ≠ ".") (hstart : walk start names.reverse = .ok stack)
    (h : walk stack ps = .ok stack') : walk start (cleanParts rooted names ps).reverse = .ok stack' := by
  -- what is carried along is that the names so far lead to the trees so far
  fun_induction cleanParts rooted names ps generalizing stack with
  | case1 => cases h; exact hstart
  | case2 names part rest hskip ih => exact ih hnames hstart (walk_skip (by simpa using hskip) h)
  | case3 part rest _ hup ih =>
    obtain rfl := beq_iff_eq.mp hup
    cases hstart
    cases rooted with
    | true =>
      -- the root is above itself
      obtain ⟨entries, rfl⟩ := htop rfl
      exact ih (by simp) rfl h
    | false =>
      obtain ⟨next, hnext, hrest⟩ := walk_append_eq_ok [".."] h
      exact ih (by simp) hnext hrest
  | case4 part rest _ hup last before hlast ih =>
    obtain rfl := beq_iff_eq.mp hup
    obtain ⟨next, hnext, hrest⟩ := walk_append_eq_ok [".."] h
    refine ih (by simpa using hnames) ?_ hrest
    rw [List.reverse_cons, walk_append hstart, hnext]
  | case5 part rest _ hup last before hlast ih =>
    obtain rfl := beq_iff_eq.mp hup
    obtain ⟨hname, hbefore⟩ := List.forall_mem_cons.mp hnames
    rw [List.reverse_cons] at hstart
    obtain ⟨child, entries, outer, rfl, habove⟩ := walk_concat_eq_ok ⟨hname, by simpa using hlast⟩ hstart
    cases child with
    | file content => simp [walk] at h
    | directory inner => exact ih hbefore habove h
  | case6 names part rest hskip hup ih =>
    obtain ⟨next, hnext, hrest⟩ := walk_append_eq_ok [part] h
    have hpart : part ≠ "" ∧ part ≠ "." := by simpa using hskip
    refine ih (List.forall_mem_cons.mpr ⟨hpart, hnames⟩) ?_ hrest
    rw [List.reverse_cons, walk_append hstart, hnext]

private theorem ne_empty_of_find (h : d.find path = .ok t) : path ≠ "" ∧ Char.ofNat 0 ∉ path.toList := by
  rw [find_eq] at h
  split at h
  · cases h
  next hempty =>
    split at h
    · cases h
    next hzero => exact ⟨mt String.isEmpty_iff.mpr hempty, by simpa using hzero⟩

/-- More names below what a path leads to are followed from there. -/
theorem walk_parts_below (hstart : d.origin path = .ok start) (hwalk : walk start (parts path) = .ok stack)
    (hne : names ≠ []) (h : ∀ n ∈ names, '/' ∉ n.toList) :
    walk start (parts (ofNames (isAbsolute path) ((trail path).reverse ++ names))) = walk stack names := by
  have htop : isAbsolute path = true → ∃ entries, start = [.directory entries] := by
    intro habsolute
    rw [origin, if_pos habsolute] at hstart
    cases hstart
    obtain ⟨first, others, hparts⟩ : ∃ first others, parts path = first :: others :=
      List.exists_cons_of_ne_nil (by simp [parts, Path.splitChars_ne_nil])
    have hparts : walk [d.root] ([] ++ first :: others) = .ok stack := hparts ▸ hwalk
    obtain ⟨entries, outer, hroot⟩ := walk_of_append hparts
    obtain ⟨hroot, -⟩ := List.cons.inj (Except.ok.inj hroot)
    exact ⟨entries, by rw [hroot]⟩
  have htrail : walk start (trail path).reverse = .ok stack := walk_cleanParts htop (by simp) rfl hwalk
  rw [Path.parts_ofNames (List.forall_mem_append.mpr ⟨Path.noSlash_of_mem_trail, h⟩),
    if_neg (List.append_ne_nil_of_right_ne_nil _ hne), ← walk_append htrail names]
  split
  · next habsolute =>
    obtain ⟨entries, rfl⟩ := htop habsolute
    exact walk_skip_directory (.inl rfl)
  · rfl

private theorem noZero_below (hpath : Char.ofNat 0 ∉ path.toList) (hnames : ∀ n ∈ names, Char.ofNat 0 ∉ n.toList) :
    Char.ofNat 0 ∉ (ofNames rooted ((trail path).reverse ++ names)).toList := by
  intro hmem
  obtain hchar | ⟨n, hn, hmem⟩ := Path.mem_toList_ofNames hmem
  · exact absurd hchar (by decide)
  rcases List.mem_append.mp hn with hn | hn
  · exact hpath (Path.mem_toList_of_mem_trail (by decide) (List.mem_reverse.mp hn) hmem)
  · exact hnames n hn hmem

/-- Names below what a path leads to are found by following them from there,
    unless they make the path too long. -/
theorem exists_find_below (hpath : d.find path = .ok t) (hne : names ≠ [])
    (hnames : ∀ n ∈ names, IsEntryName n) :
    ∃ outer, d.find (ofNames (isAbsolute path) ((trail path).reverse ++ names)) =
      if pathLimit ≤ (Text.toBytes (ofNames (isAbsolute path) ((trail path).reverse ++ names))).length then
        .error .nameTooLong
      else (walk (t :: outer) names).bind fun stack => .ok (stack.headD d.root) := by
  obtain ⟨start, outer, hstart, hwalk⟩ := find_eq_ok hpath
  have hall : ∀ n ∈ (trail path).reverse ++ names, n ≠ "" ∧ '/' ∉ n.toList := by
    refine List.forall_mem_append.mpr ⟨fun n hn => ?_, fun n hn => ?_⟩
    · have hn := Path.mem_trail (List.mem_reverse.mp hn)
      exact ⟨hn.1.1, hn.2⟩
    · exact ⟨(hnames n hn).isName.nonempty, (hnames n hn).isName.noSlash⟩
  have hzero : Char.ofNat 0 ∉ (ofNames (isAbsolute path) ((trail path).reverse ++ names)).toList :=
    noZero_below (ne_empty_of_find hpath).2 fun n hn => (hnames n hn).noZero
  refine ⟨outer, ?_⟩
  rw [find_eq, if_neg (mt String.isEmpty_iff.mp (Path.ofNames_ne_empty fun n hn => (hall n hn).1)),
    if_neg (by simpa using hzero), origin, Path.isAbsolute_ofNames hall, ← origin, hstart, Except.bind,
    walk_parts_below hstart hwalk hne fun n hn => (hnames n hn).isName.noSlash]

/-- A path one name below a directory leads to the entry with that name, unless
    it is too long. -/
theorem find_join_below (hpath : d.find path = .ok t) (hnames : ∀ n ∈ names, IsEntryName n)
    (hdirectory : t.get? names = some (.directory entries)) (hname : IsEntryName name) :
    d.find (Path.join [Path.below path names, name]) =
      if pathLimit ≤ (Text.toBytes (Path.join [Path.below path names, name])).length then
        .error .nameTooLong
      else
        match t.get? (names ++ [name]) with
        | some child => .ok child
        | none => .error .notFound := by
  rw [Path.join_below (ne_empty_of_find hpath).1 (fun n hn => (hnames n hn).isName) hname.isName]
  have hall : ∀ n ∈ names ++ [name], IsEntryName n :=
    List.forall_mem_append.mpr ⟨hnames, by simpa using hname⟩
  obtain ⟨outer, hfind⟩ := exists_find_below hpath (by simp) hall
  obtain ⟨outer', habove⟩ : ∃ outer', walk (t :: outer) names = .ok (.directory entries :: outer') :=
    (walk_names_iff fun n hn => (hnames n hn).isName).mpr ⟨fun n hn => (hnames n hn).short, hdirectory⟩
  rw [hfind, FileTree.get?_append, hdirectory, Option.bind_some, FileTree.get?, FileTree.entries_directory]
  refine if_congr Iff.rfl rfl ?_
  rw [walk_append habove, walk, if_neg (by simp [hname.isName.nonempty, hname.isName.notHere]),
    if_neg (by simp [hname.isName.notUp]), if_neg (Nat.not_lt_of_le hname.short)]
  cases entries.lookup name <;> rfl

end Below

end Disk

end WhilePlus
