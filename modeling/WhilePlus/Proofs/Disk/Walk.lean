import Mathlib.Data.List.Flatten
import Mathlib.Data.List.Lex
import WhilePlus.Disk.Walk
import WhilePlus.Proofs.Disk.Tree
import WhilePlus.Proofs.Path.Clean
import WhilePlus.Proofs.Store.Bindings

namespace WhilePlus

/-- A name that an entry of a directory can have. -/
structure IsEntryName (name : String) : Prop where
  isName : Path.IsName name
  noZero : Char.ofNat 0 ∉ name.toList
  short : (Text.toBytes name).length ≤ Disk.maxName

instance (name : String) : Decidable (IsEntryName name) :=
  decidable_of_iff ((((name ≠ "" ∧ name ≠ ".") ∧ name ≠ "..") ∧ '/' ∉ name.toList) ∧
      Char.ofNat 0 ∉ name.toList ∧ (Text.toBytes name).length ≤ Disk.maxName)
    ⟨fun ⟨⟨⟨⟨h, hhere⟩, hup⟩, hslash⟩, hzero, hshort⟩ => ⟨⟨h, hhere, hup, hslash⟩, hzero, hshort⟩,
      fun ⟨⟨h, hhere, hup, hslash⟩, hzero, hshort⟩ => ⟨⟨⟨⟨h, hhere⟩, hup⟩, hslash⟩, hzero, hshort⟩⟩

/-- No list begins with one that comes after it. The order of the items need not
    be total, but no item may come before itself. -/
theorem not_prefix_of_lex {α : Type} {r : α → α → Prop} (hirrefl : ∀ a, ¬ r a a) {l m : List α}
    (h : List.Lex r l m) : ¬ m <+: l := by
  induction h with
  | nil => simp
  | @cons a l m _ ih => exact fun hprefix => ih (List.cons_prefix_cons.mp hprefix).2
  | @rel a l b m hr =>
    intro hprefix
    obtain ⟨rfl, -⟩ := List.cons_prefix_cons.mp hprefix
    exact hirrefl b hr

namespace FileTree

/-- A tree of files as disks have it: the entries of a directory have different
    names, and stand in their order. -/
inductive IsOrderly : FileTree → Prop where
  | file (content : List UInt8) : IsOrderly (.file content)
  | directory {entries : List (String × FileTree)} (hnames : ∀ entry ∈ entries, IsEntryName entry.1)
      (hincreasing : Increasing entries) (hentries : ∀ entry ∈ entries, IsOrderly entry.2) :
      IsOrderly (.directory entries)

/-- Some names lead to a directory, and none of them is hidden. -/
def Shows (t : FileTree) (names : List String) : Prop :=
  hiddenName ∉ names ∧ ∃ entries, t.get? names = some (.directory entries)

section Walk

variable {t child : FileTree} {entries : List (String × FileTree)} {name : String}
  {names above place : List String}

private theorem shows_file_iff {content : List UInt8} : (FileTree.file content).Shows names ↔ False := by
  cases names <;> simp [Shows, get?, FileTree.entries]

/-- Only a directory shows anything, be it itself. -/
theorem Shows.isDirectory (h : t.Shows names) : t.isDirectory = true := by
  cases t with
  | file content => exact (shows_file_iff.mp h).elim
  | directory entries => rfl

private theorem shows_nil : (directory entries).Shows [] :=
  ⟨List.not_mem_nil, entries, rfl⟩

private theorem shows_cons_iff : (directory entries).Shows (name :: names) ↔
    name ≠ hiddenName ∧ ∃ child, entries.lookup name = some child ∧ child.Shows names := by
  rw [Shows, get?, entries_directory, List.mem_cons, not_or, and_assoc, ne_comm]
  refine and_congr_right fun _ => ?_
  cases entries.lookup name <;> simp [Shows]

/-- In an orderly tree there are only names that entries can have, along every
    way to something that is there. -/
theorem IsOrderly.isEntryName (h : t.IsOrderly) (hget : t.get? names = some child) :
    ∀ n ∈ names, IsEntryName n := by
  induction names generalizing t with
  | nil => simp
  | cons name rest ih =>
    cases h with
    | file content => simp [get?, FileTree.entries] at hget
    | @directory entries hnames hincreasing hentries =>
      rw [get?, entries_directory] at hget
      split at hget
      · next below hlookup =>
        have hmem := hincreasing.mem_iff_lookup.mpr hlookup
        exact List.forall_mem_cons.mpr ⟨hnames _ hmem, ih (hentries _ hmem) hget⟩
      · cases hget

/-- A walk through a directory comes to it first. -/
theorem directories_directory (names : List String) (entries : List (String × FileTree)) :
    (directory entries).directories names = names :: entries.flatMap fun entry =>
      if entry.1 = hiddenName then [] else entry.2.directories (names ++ [entry.1]) := by
  rw [directories]
  congr 1
  induction entries with
  | nil => rfl
  | cons entry rest ih =>
    obtain ⟨name, child⟩ := entry
    rw [entryDirectories, ih, List.flatMap_cons]
    congr 1
    -- a file has no directories, whether its name is hidden or not
    cases child with
    | file content => simp [directories]
    | directory entries => simp [isDirectory]

/-- A walk through an orderly tree comes to exactly the directories that the
    tree shows. -/
theorem IsOrderly.mem_directories_iff (h : t.IsOrderly) :
    place ∈ t.directories above ↔ ∃ names, place = above ++ names ∧ t.Shows names := by
  induction h generalizing above place with
  | file content => simp [directories, shows_file_iff]
  | @directory entries hnames hincreasing _ ih =>
    rw [directories_directory, List.mem_cons, List.mem_flatMap]
    constructor
    · rintro (rfl | ⟨⟨name, child⟩, hentry, hplace⟩)
      · exact ⟨[], (List.append_nil _).symm, shows_nil⟩
      · split at hplace
        · cases hplace
        · next hhidden =>
          obtain ⟨names, rfl, hshows⟩ := (ih _ hentry).mp hplace
          refine ⟨name :: names, List.append_assoc .., shows_cons_iff.mpr ⟨hhidden, child, ?_, hshows⟩⟩
          exact hincreasing.mem_iff_lookup.mp hentry
    · rintro ⟨_ | ⟨name, names⟩, rfl, hshows⟩
      · exact .inl (List.append_nil _)
      · obtain ⟨hhidden, child, hlookup, hbelow⟩ := shows_cons_iff.mp hshows
        have hentry := hincreasing.mem_iff_lookup.mpr hlookup
        refine .inr ⟨(name, child), hentry, ?_⟩
        rw [if_neg hhidden]
        exact (ih _ hentry).mpr ⟨names, List.append_cons .., hbelow⟩

/-- Directories are walked through in the order of the names that lead to them. -/
theorem IsOrderly.pairwise_directories (h : t.IsOrderly) :
    (t.directories above).Pairwise (List.Lex Text.Precedes) := by
  induction h generalizing above with
  | file content => exact .nil
  | @directory entries hnames hincreasing hentries ih =>
    have hbelow : ∀ entry ∈ entries, ∀ place ∈
        (if entry.1 = hiddenName then [] else entry.2.directories (above ++ [entry.1])),
        ∃ names, place = above ++ entry.1 :: names := by
      intro entry hentry place hplace
      split at hplace
      · cases hplace
      · obtain ⟨names, rfl, -⟩ := (hentries entry hentry).mem_directories_iff.mp hplace
        exact ⟨names, List.append_assoc ..⟩
    rw [directories_directory, List.pairwise_cons, List.pairwise_flatMap]
    refine ⟨fun place hplace => ?_, fun entry hentry => ?_, ?_⟩
    · obtain ⟨entry, hentry, hplace⟩ := List.mem_flatMap.mp hplace
      obtain ⟨names, rfl⟩ := hbelow entry hentry place hplace
      simpa using List.Lex.append_left Text.Precedes (List.Lex.nil (a := entry.1) (l := names)) above
    · split
      · exact .nil
      · exact ih entry hentry
    · -- what is below one entry is compared with what is below another by the names of the two
      refine hincreasing.imp_of_mem fun {first second} hfirst hsecond hprecedes => ?_
      intro place hplace place' hplace'
      obtain ⟨names, rfl⟩ := hbelow first hfirst place hplace
      obtain ⟨names', rfl⟩ := hbelow second hsecond place' hplace'
      exact List.Lex.append_left Text.Precedes (.rel hprecedes) above

end Walk

end FileTree

end WhilePlus
