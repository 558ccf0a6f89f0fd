import WhilePlus.Proofs.Number.Digits
import WhilePlus.Value

namespace WhilePlus

/-- The decimal text of an integer has digits, and a minus sign if the integer
    is negative. -/
theorem mem_decimal {x : Int} {c : Char} (hc : c ∈ (toString x).toList) :
    c.isDigit = true ∨ (x < 0 ∧ c = '-') := by
  have hdigit {m : Nat} (hc : c ∈ (Nat.repr m).toList) : c.isDigit = true := by
    rw [Nat.toList_repr] at hc
    exact Nat.isDigit_of_mem_toDigits (by decide) (by decide) hc
  cases x with
  | ofNat m => exact .inl (hdigit hc)
  | negSucc m =>
    change c ∈ ("-" ++ Nat.repr (m + 1)).toList at hc
    rw [String.toList_append] at hc
    rcases List.mem_append.mp hc with hc | hc
    · exact .inr ⟨Int.negSucc_lt_zero m, List.mem_singleton.mp hc⟩
    · exact .inl (hdigit hc)

private theorem decimal_injective {n m : Int64} (h : toString n.toInt = toString m.toInt) : n = m := by
  have hread := Number.parseInt_toString n
  rw [h, Number.parseInt_toString m] at hread
  exact (Except.ok.inj hread).symm

namespace Value

private theorem display_negative {n : Int64} (h : n < 0) :
    (int n).display = "IntVal (" ++ (toString n.toInt ++ ")") := by
  rw [display, if_pos h, String.append_assoc]

private theorem display_nonnegative {n : Int64} (h : ¬ n < 0) :
    (int n).display = "IntVal " ++ toString n.toInt := by
  rw [display, if_neg h]

/-- Brackets stand around the number exactly if it is negative, since no other
    starts with one. -/
theorem bracket_mem_display_iff {n : Int64} : '(' ∈ (int n).display.toList ↔ n < 0 := by
  constructor
  · intro hmem
    refine Decidable.byContradiction fun hn => ?_
    rw [display_nonnegative hn, String.toList_append] at hmem
    rcases List.mem_append.mp hmem with hmem | hmem
    · exact absurd hmem (by decide)
    · obtain hdigit | ⟨-, hsign⟩ := mem_decimal hmem
      · cases hdigit
      · cases hsign
  · intro hn
    rw [display_negative hn, String.toList_append]
    exact List.mem_append_left _ (by decide)

private theorem display_int_injective {n m : Int64} (h : (int n).display = (int m).display) : n = m := by
  have hsign : n < 0 ↔ m < 0 := by
    rw [← bracket_mem_display_iff, h, bracket_mem_display_iff]
  by_cases hn : n < 0
  · rw [display_negative hn, display_negative (hsign.mp hn), String.append_right_inj,
      String.append_left_inj] at h
    exact decimal_injective h
  · rw [display_nonnegative hn, display_nonnegative (mt hsign.mpr hn), String.append_right_inj] at h
    exact decimal_injective h

end Value

/-- The first letter of a display form names the kind of the cell. -/
def Cell.initial : Cell → Char
  | some (.int _) => 'I'
  | some (.bool _) => 'B'
  | none => '<'

namespace Cell

private theorem head?_display (a : Cell) : a.display.toList.head? = some a.initial := by
  match a with
  | some (.int n) =>
    change (Value.int n).display.toList.head? = some 'I'
    by_cases hn : n < 0
    · rw [Value.display_negative hn, String.toList_append]
      rfl
    · rw [Value.display_nonnegative hn, String.toList_append]
      rfl
  | some (.bool true) | some (.bool false) | none => rfl

/-- Cells are told apart by their display forms. -/
theorem display_injective {a b : Cell} (h : a.display = b.display) : a = b := by
  have hinitial : a.initial = b.initial := by
    rw [← Option.some_inj, ← head?_display, h, head?_display]
  match a, b with
  | some (.int n), some (.int m) => rw [Value.display_int_injective h]
  | some (.bool true), some (.bool true) | some (.bool false), some (.bool false) | none, none => rfl
  | some (.bool true), some (.bool false) | some (.bool false), some (.bool true) =>
    exact absurd h (by decide)
  | some (.int _), some (.bool _) | some (.int _), none | some (.bool _), some (.int _)
  | some (.bool _), none | none, some (.int _) | none, some (.bool _) =>
    exact absurd hinitial (by simp [initial])

/-- Two cells look the same exactly if they hold the same. This tells numbers
    from truth values and both from an empty cell. -/
theorem display_eq_iff {a b : Cell} : a.display = b.display ↔ a.equal b = true := by
  rw [equal_iff]
  exact ⟨display_injective, congrArg display⟩

/-- A display form is a single line. -/
theorem newline_notMem_display (a : Cell) : '\n' ∉ a.display.toList := by
  match a with
  | some (.int n) =>
    change '\n' ∉ (Value.int n).display.toList
    have hdecimal : '\n' ∉ (toString n.toInt).toList := by
      intro hmem
      obtain hdigit | ⟨-, hsign⟩ := mem_decimal hmem
      · cases hdigit
      · cases hsign
    by_cases hn : n < 0
    · simpa [Value.display_negative hn] using hdecimal
    · simpa [Value.display_nonnegative hn] using hdecimal
  | some (.bool true) | some (.bool false) | none => decide

end Cell

end WhilePlus
