import WhilePlus.Proofs.Suite.Confinement
import WhilePlus.Proofs.Text.Ascii
import WhilePlus.Proofs.Text.Trim

namespace WhilePlus.Suite

section Allowed

variable {c : Char} {text commit : String}

/-- The characters that may stand in the name of a directory are ASCII
    characters, and none is white space. -/
theorem isAscii_of_isSegmentChar (h : isSegmentChar c = true) :
    c.toNat < 128 ∧ Text.isBlank c = false := by
  have hrange : 45 ≤ c.toNat ∧ c.toNat ≤ 122 := by
    simp only [isSegmentChar, Bool.or_eq_true, Bool.and_eq_true, decide_eq_true_eq, beq_iff_eq] at h
    obtain (((((⟨hlow, hhigh⟩ | ⟨hlow, hhigh⟩) | ⟨hlow, hhigh⟩) | rfl) | rfl) | rfl) := h
    · exact ⟨Nat.le_trans (by decide) hlow, hhigh⟩
    · exact ⟨Nat.le_trans (by decide) hlow, Nat.le_trans hhigh (by decide)⟩
    · exact ⟨Nat.le_trans (by decide) hlow, Nat.le_trans hhigh (by decide)⟩
    all_goals decide
  refine ⟨Nat.lt_of_le_of_lt hrange.2 (by decide), ?_⟩
  simp only [Text.isBlank]
  simp
  omega

private theorem IsCommit.isSegmentChar (h : IsCommit commit) : ∀ c ∈ commit.toList, isSegmentChar c = true := by
  intro c hc
  simp only [Suite.isSegmentChar, Bool.or_eq_true, Bool.and_eq_true, decide_eq_true_eq]
  rcases h.digit c hc with hdigit | ⟨hlow, hhigh⟩
  · exact .inl (.inl (.inl (.inr hdigit)))
  · exact .inl (.inl (.inl (.inl (.inl ⟨hlow, Nat.le_trans hhigh (by decide)⟩))))

private theorem map_allowed {cs : List Char} (h : ∀ c ∈ cs, isSegmentChar c = true) :
    cs.map (fun c => if isSegmentChar c then c else '_') = cs := by
  calc cs.map (fun c => if isSegmentChar c then c else '_')
      = cs.map id := List.map_congr_left fun c hc => if_pos (h c hc)
    _ = cs := List.map_id cs

/-- What may stand in the name of a directory is kept at its end, whatever comes
    before it. An empty text would not be at the end. -/
theorem exists_segment_append (hne : text ≠ "") (h : ∀ c ∈ text.toList, isSegmentChar c = true)
    (front : String) : ∃ kept, segment (front ++ text) = kept ++ text := by
  obtain ⟨trimmed, htrim⟩ := Text.exists_trim_append
    (fun c hc => (isAscii_of_isSegmentChar (h c hc)).2) front
  obtain ⟨shown, hshown⟩ := Text.exists_shownChars_append
    (fun c hc => (isAscii_of_isSegmentChar (h c hc)).1) trimmed
  refine ⟨String.ofList (shown.map fun c => if isSegmentChar c then c else '_'), ?_⟩
  rw [segment, htrim, if_neg (by simp [hne]), hshown, List.map_append, map_allowed h,
    String.ofList_append, String.ofList_toList]

/-- A text that may name a directory does so. The empty text has another name in
    its place. -/
theorem segment_of_allowed (hne : text ≠ "") (h : ∀ c ∈ text.toList, isSegmentChar c = true) :
    segment text = text := by
  have htrim : Text.trim text = text :=
    Text.trim_eq_self_of_forall fun c hc => (isAscii_of_isSegmentChar (h c hc)).2
  have hcarrier : text.toList.any Text.isCarrier = false := by
    rw [List.any_eq_false]
    intro c hc
    simp [Text.isCarrier_of_lt (isAscii_of_isSegmentChar (h c hc)).1]
  rw [segment, htrim, if_neg (by simp [hne]), Text.shownChars_of_noCarrier hcarrier, map_allowed h,
    String.ofList_toList]

private theorem segment_segment (text : String) : segment (segment text) = segment text :=
  segment_of_allowed (segment_ne_empty text) (isSegmentChar_of_mem_segment text)

end Allowed

section Version

variable {commit commit' : String}

instance (commit : String) : Decidable (IsCommit commit) :=
  have : Decidable (∀ c ∈ commit.toList, ('0' ≤ c ∧ c ≤ '9') ∨ ('a' ≤ c ∧ c ≤ 'f')) :=
    List.decidableBAll _ _
  decidable_of_iff (commit.toList.length = 40 ∧
      ∀ c ∈ commit.toList, ('0' ≤ c ∧ c ≤ '9') ∨ ('a' ≤ c ∧ c ≤ 'f'))
    ⟨fun h => ⟨h.1, h.2⟩, fun h => ⟨h.length, h.digit⟩⟩

private theorem exists_pinnedVersion_eq (descriptor commit : String) (hne : commit ≠ "") :
    ∃ front, pinnedVersion descriptor commit = front ++ commit := by
  rw [pinnedVersion, if_neg (by simpa using hne)]
  split
  · exact ⟨"", by simp⟩
  · exact ⟨descriptor ++ "@", rfl⟩

/-- The directory of a version ends with its commit. -/
theorem IsCommit.exists_segment_eq (h : IsCommit commit) (descriptor : String) :
    ∃ kept, segment (pinnedVersion descriptor commit) = kept ++ commit := by
  obtain ⟨front, hversion⟩ := exists_pinnedVersion_eq descriptor commit h.ne_empty
  rw [hversion]
  exact exists_segment_append h.ne_empty h.isSegmentChar front

/-- As all commits have the same length, the end of a directory tells which one
    it is. -/
theorem IsCommit.eq_of_segment_eq (h : IsCommit commit) (h' : IsCommit commit') {descriptor descriptor' : String}
    (heq : segment (pinnedVersion descriptor commit) = segment (pinnedVersion descriptor' commit')) :
    commit = commit' := by
  obtain ⟨kept, hkept⟩ := h.exists_segment_eq descriptor
  obtain ⟨kept', hkept'⟩ := h'.exists_segment_eq descriptor'
  rw [hkept, hkept', ← String.toList_inj, String.toList_append, String.toList_append] at heq
  exact String.toList_injective (List.append_inj_right' heq (h.length.trans h'.length.symm))

/-- The last part of the path of a checkout is the name of its version. -/
theorem getLast?_parts_checkoutDirectory {version : String} (h : NotDots version) (cache name : String) :
    (Path.parts (checkoutDirectory cache name version)).getLast? = some (segment version) := by
  have hslash : ∀ n ∈ Path.trail (baseDirectory cache name), '/' ∉ n.toList := fun _ hn =>
    (Path.mem_trail hn).2
  have hbelow : ∀ n ∈ (Path.trail (baseDirectory cache name)).reverse ++ [segment version],
      '/' ∉ n.toList :=
    List.forall_mem_append.mpr ⟨by simpa using hslash, by simpa using noSlash_segment version⟩
  have hne : (Path.trail (baseDirectory cache name)).reverse ++ [segment version] ≠ [] := by simp
  rw [checkoutDirectory, Path.join_eq (baseDirectory_ne_empty cache name),
    Path.parts_of_noSlash (noSlash_segment version), Path.cleanParts_name (isName_segment_iff.mpr h),
    List.reverse_cons, Path.parts_ofNames hbelow, if_neg hne, ← List.append_assoc, List.getLast?_concat]

/-- Different commits never share the directory of a checkout, whatever else is
    known of them. The name of the directory of a version ends with the commit,
    so it tells which commit it is. The name of a directory names itself, as
    does every text that is not empty and has only the characters that may stand
    in such a name. -/
theorem commits_kept_apart :
    (∀ descriptor commit, IsCommit commit →
      ∃ kept, segment (pinnedVersion descriptor commit) = kept ++ commit) ∧
    (∀ descriptor descriptor' commit commit', IsCommit commit → IsCommit commit' → commit ≠ commit' →
      segment (pinnedVersion descriptor commit) ≠ segment (pinnedVersion descriptor' commit') ∧
      ∀ cache cache' name name', checkoutDirectory cache name (pinnedVersion descriptor commit) ≠
        checkoutDirectory cache' name' (pinnedVersion descriptor' commit')) ∧
    (∀ text, segment (segment text) = segment text) ∧
    ∀ text, text ≠ "" → (∀ c ∈ text.toList, isSegmentChar c = true) → segment text = text := by
  refine ⟨fun descriptor commit h => h.exists_segment_eq descriptor,
    fun descriptor descriptor' commit commit' h h' hne => ?_, segment_segment, fun _ => segment_of_allowed⟩
  have hsegment : segment (pinnedVersion descriptor commit) ≠ segment (pinnedVersion descriptor' commit') :=
    fun heq => hne (h.eq_of_segment_eq h' heq)
  refine ⟨hsegment, fun cache cache' name name' heq => hsegment ?_⟩
  have hlast := congrArg (fun path => (Path.parts path).getLast?) heq
  simp only [getLast?_parts_checkoutDirectory (h.notDots_pinnedVersion descriptor),
    getLast?_parts_checkoutDirectory (h'.notDots_pinnedVersion descriptor')] at hlast
  exact Option.some.inj hlast

/-- Two branches whose descriptions look the same in the name of a directory. -/
theorem commits_kept_apart_alike :
    segment "a/b@" = segment "a b@" ∧
      segment (pinnedVersion "a/b" "0123456789abcdef0123456789abcdef01234567") ≠
        segment (pinnedVersion "a b" "0123456789abcdef0123456789abcdef01234568") := by
  have hcommit : IsCommit "0123456789abcdef0123456789abcdef01234567" := by decide
  have hcommit' : IsCommit "0123456789abcdef0123456789abcdef01234568" := by decide
  exact ⟨by decide, (commits_kept_apart.2.1 "a/b" "a b" _ _ hcommit hcommit' (by decide)).1⟩

end Version

end WhilePlus.Suite
