import WhilePlus.Disk.Basic

namespace WhilePlus.FileTree

variable {t new : FileTree} {name : String} {names above place : List String}
  {entries : List (String × FileTree)}

/-- The content of a file; a directory has none. -/
def content? : FileTree → Option (List UInt8)
  | file content => some content
  | directory _ => none

/-- What is seen under some names, if anything: a file with its content, or a
    directory. -/
def look (t : FileTree) (names : List String) : Option (Option (List UInt8)) :=
  (t.get? names).map content?

private theorem look_cons (t : FileTree) (name : String) (names : List String) :
    t.look (name :: names) = (t.entries.lookup name).bind (·.look names) := by
  rw [look, get?]
  cases t.entries.lookup name <;> rfl

/-- What stands under some names is found in two steps: under the first of them,
    and from there under the rest. -/
theorem get?_append (t : FileTree) (ms ns : List String) :
    t.get? (ms ++ ns) = (t.get? ms).bind (·.get? ns) := by
  induction ms generalizing t with
  | nil => rfl
  | cons m ms ih =>
    simp only [List.cons_append, get?]
    cases t.entries.lookup m with
    | none => rfl
    | some child => exact ih child

/-- The entries of a directory are those that it was made of. -/
@[simp]
theorem entries_directory (entries : List (String × FileTree)) :
    (directory entries).entries = entries := rfl

private theorem look_insertBinding (t child : FileTree) (name m : String) (ms : List String) :
    (directory (insertBinding name child t.entries)).look (m :: ms) =
      if m = name then child.look ms else t.look (m :: ms) := by
  rw [look_cons, look_cons, entries_directory, lookup_insertBinding]
  split <;> rfl

/-- Only a directory has entries. -/
theorem content?_of_lookup {child : FileTree} (h : t.entries.lookup name = some child) :
    t.content? = none := by
  cases t with
  | file _ => cases h
  | directory _ => rfl

/-- Without the entries of one name, everything else is found as before. -/
theorem lookup_filter_ne (name other : String) (entries : List (String × FileTree)) :
    (entries.filter (·.1 != name)).lookup other =
      if other = name then none else entries.lookup other := by
  induction entries with
  | nil => simp
  | cons head rest ih => grind

/-- Removing what stands at a place is seen only there and below. -/
theorem look_erase (h : ¬ place <+: names) : (t.erase place).look names = t.look names := by
  fun_induction erase t place generalizing names with
  | case1 => exact absurd List.nil_prefix h
  | case2 name content => rfl
  | case3 name entries =>
    cases names with
    | nil => rfl
    | cons m ms =>
      have hm : m ≠ name := by
        rintro rfl
        exact h (List.cons_prefix_cons.mpr ⟨rfl, List.nil_prefix⟩)
      rw [look_cons, look_cons, entries_directory, lookup_filter_ne, if_neg hm]
      rfl
  | case4 t name rest hrest child hchild ih =>
    cases names with
    | nil => exact congrArg some (content?_of_lookup hchild).symm
    | cons m ms =>
      rw [look_insertBinding]
      split
      · rename_i hm
        subst hm
        rw [look_cons, hchild]
        exact ih fun hms => h (List.cons_prefix_cons.mpr ⟨rfl, hms⟩)
      · rfl
  | case5 => rfl

/-- What was put in a place is found there, whatever stood in the way: a file on
    the way is replaced. -/
theorem get?_put_self (t new : FileTree) (place : List String) :
    (t.put new place).get? place = some new := by
  induction place generalizing t with
  | nil => rfl
  | cons name rest ih => simp [put, get?, lookup_insertBinding, ih]

/-- What is put into a directory is seen only at its place and below. The
    directory must be there before, since nothing is put elsewhere. -/
theorem look_put (habove : t.get? above = some (directory entries))
    (h : ¬ above ++ [name] <+: names) :
    (t.put new (above ++ [name])).look names = t.look names := by
  induction above generalizing t names with
  | nil =>
    obtain rfl : t = directory entries := by simpa [get?] using habove
    cases names with
    | nil => rfl
    | cons m ms =>
      have hm : m ≠ name := by
        rintro rfl
        exact h (List.cons_prefix_cons.mpr ⟨rfl, List.nil_prefix⟩)
      rw [List.nil_append, put, look_insertBinding, if_neg hm]
  | cons first rest ih =>
    cases hchild : t.entries.lookup first with
    | none => simp [get?, hchild] at habove
    | some child =>
      cases names with
      | nil => exact congrArg some (content?_of_lookup hchild).symm
      | cons m ms =>
        rw [List.cons_append, put, look_insertBinding]
        split
        · rename_i hm
          subst hm
          rw [look_cons, hchild]
          have hrest : child.get? rest = some (directory entries) := by
            simpa [get?, hchild] using habove
          exact ih hrest fun hms => h (List.cons_prefix_cons.mpr ⟨rfl, hms⟩)
        · rfl

/-- A new entry of a directory hides nothing: what was seen anywhere is seen
    there still, as the name was free. -/
theorem look_put_new {seen : Option (List UInt8)} (habove : t.get? above = some (directory entries))
    (hnew : entries.lookup name = none) (h : t.look names = some seen) :
    (t.put new (above ++ [name])).look names = some seen := by
  rw [look_put habove]
  · exact h
  · rintro ⟨rest, rfl⟩
    simp [look, get?_append, habove, get?, hnew] at h

end WhilePlus.FileTree
