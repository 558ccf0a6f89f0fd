import Mathlib.Data.List.DropRight
import WhilePlus.Text.Character

namespace WhilePlus.Text

variable {cs : List Char} {s a b : String}

/-- Neither the first nor the last of some characters is white space. -/
structure Bounded (cs : List Char) : Prop where
  head : ∀ c ∈ cs.head?, isBlank c = false
  last : ∀ c ∈ cs.getLast?, isBlank c = false

private theorem trimChars_eq_rdropWhile (cs : List Char) :
    trimChars cs = (cs.dropWhile isBlank).rdropWhile isBlank := rfl

private theorem head?_dropWhile_not_blank (cs : List Char) :
    ∀ c ∈ (cs.dropWhile isBlank).head?, isBlank c = false := by
  intro c hc
  rw [← List.find?_not_eq_head?_dropWhile] at hc
  simpa using List.find?_some hc

private theorem bounded_trimChars (cs : List Char) : Bounded (trimChars cs) := by
  rw [trimChars_eq_rdropWhile]
  constructor
  · intro c hc
    -- what is dropped at the end does not touch the start
    obtain ⟨rest, hrest⟩ := List.rdropWhile_prefix isBlank (cs.dropWhile isBlank)
    apply head?_dropWhile_not_blank cs
    rw [← hrest, List.head?_append]
    simp [Option.mem_def.mp hc]
  · intro c hc
    have hne : (cs.dropWhile isBlank).rdropWhile isBlank ≠ [] := by
      rintro hnil
      rw [hnil] at hc
      cases hc
    have hlast := List.rdropWhile_last_not isBlank _ hne
    rw [List.getLast?_eq_some_getLast hne, Option.mem_some_iff] at hc
    simpa [hc] using hlast

private theorem Bounded.trimChars_eq (h : Bounded cs) : trimChars cs = cs := by
  have hhead : cs.dropWhile isBlank = cs := by
    cases cs with
    | nil => rfl
    | cons c rest => rw [List.dropWhile_cons_of_neg (by simpa using h.head c rfl)]
  rw [trimChars_eq_rdropWhile, hhead, List.rdropWhile_eq_self_iff]
  intro hne
  simpa using h.last _ (List.getLast?_eq_some_getLast hne)

private theorem trim_eq_self_iff : trim s = s ↔ Bounded s.toList := by
  constructor
  · intro h
    have hbounded := bounded_trimChars s.toList
    rwa [← String.toList_ofList (l := trimChars s.toList), ← trim, h] at hbounded
  · intro h
    rw [trim, h.trimChars_eq, String.ofList_toList]

/-- Dropping the white space twice is dropping it once. -/
theorem trim_trim (s : String) : trim (trim s) = trim s := by
  rw [trim_eq_self_iff, trim, String.toList_ofList]
  exact bounded_trimChars s.toList

/-- A text between two others without white space around them has none around it
    either. -/
theorem trim_append (ha : trim a = a) (hb : trim b = b) (hne : a ≠ "") (hne' : b ≠ "") (mid : String) :
    trim (a ++ mid ++ b) = a ++ mid ++ b := by
  rw [trim_eq_self_iff] at *
  constructor
  · intro c hc
    apply ha.head
    simpa [hne] using hc
  · intro c hc
    apply hb.last
    simpa [hne'] using hc

/-- What has no white space in it is left at the end of a text. -/
theorem exists_trim_append (hb : ∀ c ∈ b.toList, isBlank c = false) (a : String) :
    ∃ front, trim (a ++ b) = front ++ b := by
  by_cases hne : b = ""
  · subst hne
    exact ⟨trim a, by simp⟩
  have hdrop : ∃ front, (a.toList ++ b.toList).dropWhile isBlank = front ++ b.toList := by
    rw [List.dropWhile_append]
    split
    · refine ⟨[], List.dropWhile_eq_self_iff.mpr fun hlength => ?_⟩
      simpa using hb _ (List.getElem_mem hlength)
    · exact ⟨_, rfl⟩
  obtain ⟨front, hfront⟩ := hdrop
  have hlast : (front ++ b.toList).rdropWhile isBlank = front ++ b.toList := by
    rw [List.rdropWhile_eq_self_iff]
    intro _
    rw [List.getLast_append_of_ne_nil _ (by simpa using hne)]
    simpa using hb _ (List.getLast_mem _)
  refine ⟨String.ofList front, ?_⟩
  rw [trim, String.toList_append, trimChars_eq_rdropWhile, hfront, hlast, String.ofList_append,
    String.ofList_toList]

/-- A text without white space is left alone. -/
theorem trim_eq_self_of_forall (h : ∀ c ∈ s.toList, isBlank c = false) : trim s = s :=
  trim_eq_self_iff.mpr ⟨fun c hc => h c (List.mem_of_mem_head? hc),
    fun c hc => h c (List.mem_of_getLast? hc)⟩

section Padding

/-- A text with white space around another one, which itself has none around it. -/
structure IsPadded (core text : String) : Prop where
  bounded : Bounded core.toList
  around : ∃ left right : String, text = left ++ core ++ right ∧
    (∀ c ∈ left.toList, isBlank c = true) ∧ ∀ c ∈ right.toList, isBlank c = true

private theorem isPadded_trim (text : String) : IsPadded (trim text) text := by
  refine ⟨?_, String.ofList (text.toList.takeWhile isBlank),
    String.ofList ((text.toList.dropWhile isBlank).rtakeWhile isBlank), ?_, ?_, ?_⟩
  · rw [trim, String.toList_ofList]
    exact bounded_trimChars text.toList
  · apply String.toList_injective
    simp only [trim, String.toList_append, String.toList_ofList, trimChars_eq_rdropWhile,
      List.append_assoc, List.rdropWhile_append_rtakeWhile, List.takeWhile_append_dropWhile]
  · intro c hc
    rw [String.toList_ofList] at hc
    exact List.mem_takeWhile_imp hc
  · intro c hc
    rw [String.toList_ofList] at hc
    exact List.mem_rtakeWhile_imp hc

private theorem dropWhile_blank_append {left : List Char} (hleft : ∀ c ∈ left, isBlank c = true)
    (cs : List Char) : (left ++ cs).dropWhile isBlank = cs.dropWhile isBlank := by
  rw [List.dropWhile_append, List.dropWhile_eq_nil_iff.mpr hleft]
  rfl

private theorem rdropWhile_append_blank {right : List Char} (hright : ∀ c ∈ right, isBlank c = true)
    (cs : List Char) : (cs ++ right).rdropWhile isBlank = cs.rdropWhile isBlank := by
  rw [List.rdropWhile, List.reverse_append, dropWhile_blank_append (by simpa using hright)]
  rfl

/-- White space is dropped as far as it goes, and no farther. What is between
    begins and ends with other characters, or is empty. -/
theorem trimChars_padded {left right : List Char} (h : Bounded cs)
    (hleft : ∀ c ∈ left, isBlank c = true) (hright : ∀ c ∈ right, isBlank c = true) :
    trimChars (left ++ cs ++ right) = cs := by
  rw [trimChars_eq_rdropWhile, List.append_assoc, dropWhile_blank_append hleft]
  cases cs with
  | nil =>
    rw [List.nil_append, List.dropWhile_eq_nil_iff.mpr hright]
    rfl
  | cons c rest =>
    rw [List.cons_append, List.dropWhile_cons_of_neg (by simpa using h.head c rfl),
      ← List.cons_append, rdropWhile_append_blank hright, List.rdropWhile_eq_self_iff]
    intro hne
    simpa using h.last _ (List.getLast?_eq_some_getLast hne)

/-- There is one text that another one has white space around. -/
theorem isPadded_iff {core text : String} : IsPadded core text ↔ core = trim text := by
  constructor
  · rintro ⟨hbounded, left, right, rfl, hleft, hright⟩
    rw [trim, String.toList_append, String.toList_append, trimChars_padded hbounded hleft hright,
      String.ofList_toList]
  · rintro rfl
    exact isPadded_trim text

end Padding

section Digits

private theorem isBlank_digitChar (d : Nat) : isBlank d.digitChar = false := by
  by_cases h : d < 16
  · revert d
    decide
  · have hstar : d.digitChar = '*' := by
      unfold Nat.digitChar
      repeat' rw [if_neg (by omega)]
    rw [hstar]
    decide

private theorem isBlank_of_mem_toDigitsCore {base fuel n : Nat} (h : ∀ c ∈ cs, isBlank c = false) :
    ∀ c ∈ Nat.toDigitsCore base fuel n cs, isBlank c = false := by
  induction fuel generalizing n cs with
  | zero => exact h
  | succ fuel ih =>
    have hcons : ∀ c ∈ (n % base).digitChar :: cs, isBlank c = false :=
      List.forall_mem_cons.mpr ⟨isBlank_digitChar (n % base), h⟩
    rw [Nat.toDigitsCore]
    split
    · exact hcons
    · exact ih hcons

/-- The digits of a number are no white space, nor are zeros in front of them. -/
theorem isBlank_of_mem_digits (width base n : Nat) :
    ∀ c ∈ List.replicate width '0' ++ Nat.toDigits base n, isBlank c = false := by
  intro c hc
  rcases List.mem_append.mp hc with hc | hc
  · rw [List.eq_of_mem_replicate hc]
    decide
  · exact isBlank_of_mem_toDigitsCore (by simp) c hc

end Digits

end WhilePlus.Text
