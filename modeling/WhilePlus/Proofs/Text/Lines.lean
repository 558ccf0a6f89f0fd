import Mathlib.Data.List.Basic
import WhilePlus.Store

namespace WhilePlus

/-- The pieces of a text between the places where a character stands. -/
def Text.splitOn (mark : Char) (text : String) : List String :=
  (text.toList.splitOn mark).map String.ofList

namespace Text

variable {mark : Char} {piece : String}

/-- Up to its first mark a text is one piece. -/
theorem splitOn_append (h : mark ∉ piece.toList) (rest : String) :
    splitOn mark (piece ++ String.singleton mark ++ rest) = piece :: splitOn mark rest := by
  rw [splitOn, String.toList_append, String.toList_append, String.toList_singleton, List.append_assoc,
    List.singleton_append, List.splitOn_append_cons_self_of_not_mem h, List.map_cons, String.ofList_toList]
  rfl

/-- A text that holds a mark may be cut there. -/
theorem exists_cut {text : String} (h : mark ∈ text.toList) :
    ∃ before after : String, text = before ++ String.singleton mark ++ after := by
  obtain ⟨before, after, htext⟩ := List.append_of_mem h
  refine ⟨String.ofList before, String.ofList after, String.toList_injective ?_⟩
  simp [htext]

variable {before before' after after' : String}

/-- Where no mark stands before the cut, a text is cut in one way. -/
theorem cut_inj (h : mark ∉ before.toList) (h' : mark ∉ before'.toList)
    (htext : before ++ String.singleton mark ++ after = before' ++ String.singleton mark ++ after') :
    before = before' ∧ after = after' := by
  have hpieces := congrArg (splitOn mark) htext
  rw [splitOn_append h, splitOn_append h'] at hpieces
  obtain rfl := (List.cons.inj hpieces).1
  exact ⟨rfl, String.append_right_inj _ |>.mp htext⟩

/-- Where a text holds the mark only once, it is cut in one way. The mark may
    not stand before the cut in one reading and not after it in the other. -/
theorem cut_inj_of_once (h : mark ∉ before.toList) (h' : mark ∉ after.toList)
    (htext : before ++ String.singleton mark ++ after = before' ++ String.singleton mark ++ after') :
    before = before' ∧ after = after' := by
  have hchars := congrArg String.toList htext
  simp only [String.toList_append, String.toList_singleton, List.append_assoc, List.singleton_append] at hchars
  obtain ⟨hbefore, -, hafter⟩ := (List.append_cons_inj_of_notMem h h').mp hchars
  exact ⟨String.toList_injective hbefore, String.toList_injective hafter⟩

private theorem length_cut :
    (before ++ String.singleton mark ++ after).length = before.length + 1 + after.length := by
  rw [String.length_append, String.length_append, String.length_singleton]

/-- What is before a mark is not the whole text, and neither is what is behind
    it. -/
theorem before_ne_cut : before ≠ before ++ String.singleton mark ++ after := by
  intro h
  have hlength := congrArg String.length h
  rw [length_cut] at hlength
  omega

/-- What stands behind a mark is shorter than the whole. -/
theorem after_ne_cut : after ≠ before ++ String.singleton mark ++ after := by
  intro h
  have hlength := congrArg String.length h
  rw [length_cut] at hlength
  omega

end Text

private theorem renderLog_cons (line : String) (rest : List String) :
    renderLog (line :: rest) = line ++ "\n" ++ renderLog rest := by
  rw [renderLog, List.map_cons, String.join_cons]
  rfl

/-- A log is taken apart into its lines. -/
theorem splitOn_renderLog {lines : List String} (h : ∀ line ∈ lines, '\n' ∉ line.toList) :
    Text.splitOn '\n' (renderLog lines) = lines ++ [""] := by
  induction lines with
  | nil => rfl
  | cons line rest ih =>
    obtain ⟨hline, hrest⟩ := List.forall_mem_cons.mp h
    rw [renderLog_cons]
    exact (Text.splitOn_append hline (renderLog rest)).trans (congrArg (line :: ·) (ih hrest))

end WhilePlus
