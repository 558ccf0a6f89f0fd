import WhilePlus.Proofs.Path.Clean
import WhilePlus.Proofs.Text.Bytes
import WhilePlus.Suite.Basic

namespace WhilePlus

namespace Text

section Decode

variable {b : UInt8} {rest bytes : List UInt8} {taken : Nat}

/-- A dot is only read from the byte that spells it. -/
theorem headChar?_dot (h : headChar? b rest = some ('.', taken)) : b < 128 ∧ taken = 0 := by
  have hspelled : [46] = b :: rest.take taken := utf8EncodeChar_of_headChar? h
  obtain ⟨rfl, -⟩ := List.cons.inj hspelled
  simp only [headChar?] at h
  rw [if_pos (by decide)] at h
  simp only [Option.some.injEq, Prod.mk.injEq] at h
  exact ⟨by decide, h.2.symm⟩

private theorem decode_dots (h : ∀ part ∈ decode bytes, part.shown = '.') : ∀ b ∈ bytes, b < 128 := by
  fun_induction decode bytes with
  | case1 => simp
  | case2 b rest c taken hhead ih =>
    obtain ⟨hshown, htail⟩ := List.forall_mem_cons.mp h
    obtain rfl : c = '.' := hshown
    obtain ⟨hb, rfl⟩ := headChar?_dot hhead
    exact List.forall_mem_cons.mpr ⟨hb, ih htail⟩
  | case3 b rest hhead ih =>
    have hshown := (List.forall_mem_cons.mp h).1
    exact absurd hshown (by simp [Part.shown]; decide)

private theorem charBytes_ne_nil (c : Char) : charBytes c ≠ [] := by
  rw [charBytes]
  split
  · simp
  · have hpos := Char.utf8Size_pos c
    rw [← String.length_utf8EncodeChar] at hpos
    exact List.ne_nil_of_length_pos hpos

/-- A text that is not empty has bytes. -/
theorem toBytes_ne_nil {text : String} (h : text ≠ "") : toBytes text ≠ [] := by
  have hchars : text.toList ≠ [] := by simpa using h
  obtain ⟨c, cs, hcs⟩ := List.exists_cons_of_ne_nil hchars
  rw [toBytes, hcs, List.flatMap_cons]
  exact List.append_ne_nil_of_left_ne_nil (charBytes_ne_nil c) _

private theorem not_lt_of_isCarrier (h : isCarrier c = true) : ∃ b ∈ charBytes c, ¬ b < 128 := by
  refine ⟨_, by rw [charBytes, if_pos h]; exact List.mem_cons_self, ?_⟩
  simp only [isCarrier, Bool.and_eq_true, decide_eq_true_eq] at h
  rw [UInt8.lt_iff_toNat_lt]
  simp
  omega

/-- A text in which no character carries a byte is shown as it is. -/
theorem shownChars_of_noCarrier {text : String} (h : text.toList.any isCarrier = false) :
    shownChars text = text.toList := by
  rw [shownChars, parts, h, if_neg (by simp), List.map_map]
  exact List.map_id _

private theorem shownChars_ne_nil {text : String} (h : text ≠ "") : shownChars text ≠ [] := by
  cases hcarrier : text.toList.any isCarrier with
  | false =>
    rw [shownChars_of_noCarrier hcarrier]
    simpa using h
  | true =>
    obtain ⟨b, bs, hbytes⟩ := List.exists_cons_of_ne_nil (toBytes_ne_nil h)
    rw [shownChars, parts, if_pos hcarrier, hbytes, decode]
    split <;> simp

/-- Only dots are shown as dots. -/
theorem shownChars_eq_dots_iff {text : String} {n : Nat} :
    shownChars text = List.replicate n '.' ↔ text.toList = List.replicate n '.' := by
  cases hcarrier : text.toList.any isCarrier with
  | false => rw [shownChars_of_noCarrier hcarrier]
  | true =>
    obtain ⟨c, hc, hcarries⟩ := List.any_eq_true.mp hcarrier
    constructor
    · intro h
      rw [shownChars, parts, if_pos hcarrier] at h
      have hdots : ∀ part ∈ decode (toBytes text), part.shown = '.' := fun part hpart =>
        List.eq_of_mem_replicate (h ▸ List.mem_map_of_mem hpart)
      obtain ⟨b, hb, hlarge⟩ := not_lt_of_isCarrier hcarries
      exact absurd (decode_dots hdots b (List.mem_flatMap.mpr ⟨c, hc, hb⟩)) hlarge
    · intro h
      obtain rfl : c = '.' := List.eq_of_mem_replicate (h ▸ hc)
      exact absurd hcarries (by decide)

end Decode

section Trim

private theorem mem_dropWhile_of_not {p : Char → Bool} {c : Char} {cs : List Char} (h : c ∈ cs)
    (hc : p c = false) : c ∈ cs.dropWhile p := by
  induction cs with
  | nil => cases h
  | cons first rest ih =>
    rw [List.dropWhile_cons]
    split
    · rename_i hfirst
      rcases List.mem_cons.mp h with rfl | h
      · exact absurd (hfirst.symm.trans hc) (by decide)
      · exact ih h
    · exact h

private theorem mem_trim {c : Char} {text : String} (h : c ∈ text.toList) (hc : isBlank c = false) :
    c ∈ (trim text).toList := by
  rw [trim, String.toList_ofList, trimChars, List.mem_reverse]
  exact mem_dropWhile_of_not (List.mem_reverse.mpr (mem_dropWhile_of_not h hc)) hc

end Trim

end Text

namespace Suite

section Segment

variable {text : String}

/-- The text is not one or two dots, up to white space around them. -/
def NotDots (text : String) : Prop :=
  Text.trim text ≠ "." ∧ Text.trim text ≠ ".."

instance (text : String) : Decidable (NotDots text) :=
  inferInstanceAs (Decidable (_ ∧ _))

private theorem notDots_of_mem {c : Char} (h : c ∈ text.toList) (hblank : Text.isBlank c = false)
    (hdot : c ≠ '.') : NotDots text := by
  have hmem := Text.mem_trim h hblank
  constructor
  all_goals
    intro htrim
    rw [htrim] at hmem
    simp [hdot] at hmem

/-- The name of a cache directory has only the characters that such names may
    have. -/
theorem isSegmentChar_of_mem_segment (text : String) :
    ∀ c ∈ (segment text).toList, isSegmentChar c = true := by
  rw [segment]
  split
  · exact List.all_eq_true.mp (by decide)
  · intro c hc
    rw [String.toList_ofList] at hc
    obtain ⟨shown, -, rfl⟩ := List.mem_map.mp hc
    split
    · assumption
    · decide

/-- The name of a cache directory is not empty, even for a text of white space. -/
theorem segment_ne_empty (text : String) : segment text ≠ "" := by
  rw [segment]
  split
  · decide
  · rename_i htrim
    have hshown := Text.shownChars_ne_nil (mt String.isEmpty_iff.mpr htrim)
    simpa using hshown

/-- The name of a cache directory has no slash, so it is one part of a path. -/
theorem noSlash_segment (text : String) : '/' ∉ (segment text).toList :=
  fun h => absurd (isSegmentChar_of_mem_segment text _ h) (by decide)

private theorem toList_segment_eq_dots_iff {n : Nat} (hn : 0 < n) :
    (segment text).toList = List.replicate n '.' ↔
      (Text.trim text).toList = List.replicate n '.' := by
  rw [segment]
  split
  · rename_i htrim
    rw [String.isEmpty_iff.mp htrim]
    constructor
    · intro h
      have hmem : 'h' ∈ List.replicate n '.' := h ▸ List.mem_cons_self
      exact absurd (List.eq_of_mem_replicate hmem) (by decide)
    · intro h
      have hlength := congrArg List.length h
      rw [List.length_replicate] at hlength
      exact absurd hlength (Nat.ne_of_lt hn)
  · have hdot : ∀ c, (if isSegmentChar c then c else '_') = '.' ↔ c = '.' := by
      intro c
      split
      · rfl
      · rename_i hc
        refine iff_of_false (by decide) ?_
        rintro rfl
        exact hc (by decide)
    rw [String.toList_ofList, ← Text.shownChars_eq_dots_iff]
    simp [List.eq_replicate_iff, hdot]

private theorem segment_eq_dots_iff {n : Nat} (hn : 0 < n) {dots : String}
    (hdots : dots.toList = List.replicate n '.') : segment text = dots ↔ Text.trim text = dots := by
  rw [← String.toList_inj, ← String.toList_inj, hdots]
  exact toList_segment_eq_dots_iff hn

/-- The name of a cache directory leads one level down, except for dots. -/
theorem isName_segment_iff : Path.IsName (segment text) ↔ NotDots text := by
  have hone : segment text = "." ↔ Text.trim text = "." := segment_eq_dots_iff (n := 1) (by decide) rfl
  have htwo : segment text = ".." ↔ Text.trim text = ".." :=
    segment_eq_dots_iff (n := 2) (by decide) rfl
  constructor
  · intro h
    exact ⟨mt hone.mpr h.notHere, mt htwo.mpr h.notUp⟩
  · rintro ⟨hhere, hup⟩
    exact ⟨segment_ne_empty text, mt hone.mp hhere, mt htwo.mp hup, noSlash_segment text⟩

end Segment

section Version

/-- How commits are written: 40 digits in base 16. -/
structure IsCommit (commit : String) : Prop where
  length : commit.toList.length = 40
  digit : ∀ c ∈ commit.toList, ('0' ≤ c ∧ c ≤ '9') ∨ ('a' ≤ c ∧ c ≤ 'f')

/-- A commit is not the empty text. -/
theorem IsCommit.ne_empty {commit : String} (h : IsCommit commit) : commit ≠ "" := by
  rintro rfl
  exact absurd h.length (by decide)

private theorem notDots_of_digit {text : String} {c : Char} (h : c ∈ text.toList)
    (hdigit : ('0' ≤ c ∧ c ≤ '9') ∨ ('a' ≤ c ∧ c ≤ 'f')) : NotDots text := by
  have hrange : 48 ≤ c.toNat ∧ c.toNat ≤ 102 := by
    simp only [Char.le_def, UInt32.le_iff_toNat_le, Char.reduceVal, UInt32.reduceToNat] at hdigit
    simp only [Char.toNat]
    omega
  refine notDots_of_mem h ?_ ?_
  · simp only [Text.isBlank]
    simp
    omega
  · rintro rfl
    exact absurd hrange.1 (by decide)

/-- No version of a commit is taken for a directory above. -/
theorem IsCommit.notDots_pinnedVersion {commit : String} (h : IsCommit commit)
    (descriptor : String) : NotDots (pinnedVersion descriptor commit) := by
  obtain ⟨c, hc⟩ : ∃ c, c ∈ commit.toList := by
    apply List.exists_mem_of_length_pos
    rw [h.length]
    decide
  refine notDots_of_digit (c := c) ?_ (h.digit c hc)
  rw [pinnedVersion]
  split
  · rename_i hempty
    rw [String.isEmpty_iff.mp hempty] at hc
    cases hc
  · split
    · exact hc
    · rw [String.toList_append]
      exact List.mem_append_right _ hc

end Version

end Suite

end WhilePlus
