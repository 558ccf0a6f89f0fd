import WhilePlus.Number.Digits
import WhilePlus.Proofs.Except

namespace WhilePlus.Number

/-- Decimal digits, at least one. -/
structure IsDigits (cs : List Char) : Prop where
  nonempty : cs ≠ []
  digits : ∀ c ∈ cs, c.isDigit = true

/-- A numeral, and the integer that it stands for. -/
inductive IsNumeral : List Char → Int → Prop where
  | unsigned {cs : List Char} (hcs : IsDigits cs) : IsNumeral cs (Nat.ofDigitChars 10 cs 0)
  | plus {cs : List Char} (hcs : IsDigits cs) : IsNumeral ('+' :: cs) (Nat.ofDigitChars 10 cs 0)
  | minus {cs : List Char} (hcs : IsDigits cs) : IsNumeral ('-' :: cs) (-Nat.ofDigitChars 10 cs 0)

private theorem isDigit_iff {c : Char} : c.isDigit = true ↔ ('0' ≤ c && c ≤ '9') = true := by
  simp [Char.isDigit, Char.le_def]

/-- Of all that has a value as a digit, only the decimal digits are below ten. -/
theorem digitValue?_lt_ten_iff {c : Char} {d : Nat} :
    digitValue? c = some d ∧ d < 10 ↔ c.isDigit = true ∧ c.toNat - '0'.toNat = d := by
  rw [isDigit_iff]
  unfold digitValue?
  split
  · next hdigit =>
    have hle : c.toNat ≤ '9'.toNat := (Bool.and_eq_true_iff.mp hdigit).2 |> of_decide_eq_true
    have hlt : c.toNat - '0'.toNat < 10 := by
      change c.toNat ≤ 57 at hle
      change c.toNat - 48 < 10
      omega
    constructor
    · rintro ⟨⟨⟩, -⟩
      exact ⟨hdigit, rfl⟩
    · rintro ⟨-, rfl⟩
      exact ⟨rfl, hlt⟩
  · next hdigit =>
    refine ⟨?_, fun h => absurd h.1 hdigit⟩
    rintro ⟨hvalue, hlt⟩
    grind

private theorem le_ofDigitChars (n : Nat) (cs : List Char) : n ≤ Nat.ofDigitChars 10 cs n := by
  rw [Nat.ofDigitChars_eq_ofDigitChars_zero]
  have hpos : 0 < 10 ^ cs.length := Nat.pow_pos (by decide)
  exact Nat.le_trans (Nat.le_mul_of_pos_left n hpos) (Nat.le_add_right _ _)

/-- Reading goes on as long as there are digits and their value fits; it can
    only grow, so it fits on the way if it does at the end. -/
theorem readDigits_eq_ok_iff {cs : List Char} {m n : Nat} (hm : m < wordLimit) :
    readDigits 10 m cs = .ok n ↔
      (∀ c ∈ cs, c.isDigit = true) ∧ Nat.ofDigitChars 10 cs m = n ∧ n < wordLimit := by
  induction cs generalizing m with
  | nil =>
    simp only [readDigits, Except.ok.injEq, Nat.ofDigitChars_nil, List.not_mem_nil, false_imp_iff,
      implies_true, true_and]
    constructor
    · rintro rfl
      exact ⟨rfl, hm⟩
    · exact And.left
  | cons c rest ih =>
    rw [readDigits, List.forall_mem_cons, Nat.ofDigitChars_cons]
    by_cases hdigit : c.isDigit = true
    · obtain ⟨hvalue, hlt⟩ := digitValue?_lt_ten_iff.mpr ⟨hdigit, rfl⟩
      simp only [hvalue, if_neg (Nat.not_le.mpr hlt), hdigit, true_and]
      rw [Nat.mul_comm m 10]
      split
      · next hlimit =>
        refine ⟨nofun, ?_⟩
        rintro ⟨-, rfl, hfits⟩
        exact absurd (Nat.lt_of_le_of_lt (le_ofDigitChars _ rest) hfits) (Nat.not_lt.mpr hlimit)
      · next hlimit => exact ih (Nat.not_le.mp hlimit)
    · simp only [hdigit, Bool.false_eq_true, false_and, iff_false]
      split
      · nofun
      · next d hvalue =>
        have hge : 10 ≤ d := by
          refine Nat.not_lt.mp fun hlt => hdigit ?_
          exact (digitValue?_lt_ten_iff.mp ⟨hvalue, hlt⟩).1
        rw [if_pos hge]
        nofun

private theorem readNat_eq_ok_iff {cs : List Char} {n : Nat} :
    readNat 10 cs = .ok n ↔ IsDigits cs ∧ Nat.ofDigitChars 10 cs 0 = n ∧ n < wordLimit := by
  unfold readNat
  split
  · next hempty =>
    refine ⟨nofun, fun h => absurd (List.isEmpty_iff.mp hempty) h.1.nonempty⟩
  · next hne =>
    rw [readDigits_eq_ok_iff (by decide)]
    have hne : cs ≠ [] := fun h => hne (List.isEmpty_iff.mpr h)
    exact ⟨fun ⟨hcs, h⟩ => ⟨⟨hne, hcs⟩, h⟩, fun ⟨hcs, h⟩ => ⟨hcs.digits, h⟩⟩

/-- The number of 64 bits with a given value, if one has it. Out of the range an
    integer is wrapped, so that its value is another one. -/
theorem ofInt_eq_iff {x : Int} {n : Int64} (hlower : -(signedLimit : Int) ≤ x)
    (hupper : x < signedLimit) : Int64.ofInt x = n ↔ n.toInt = x := by
  unfold signedLimit at hlower hupper
  constructor
  · rintro rfl
    exact Int64.toInt_ofInt_of_le (by omega) (by omega)
  · rintro rfl
    exact n.ofInt_toInt

private theorem signed_eq_ok_iff {negative : Bool} {magnitude : Nat} {n : Int64} :
    signed negative magnitude = .ok n ↔
      n.toInt = if negative then -(magnitude : Int) else magnitude := by
  have hlower := n.le_toInt
  have hupper := n.toInt_lt
  have hlimit : signedLimit = 2 ^ 63 := rfl
  unfold signed
  split
  · split
    · rw [Except.ok.injEq]
      exact ofInt_eq_iff (by omega) (by omega)
    · exact ⟨nofun, by omega⟩
  · split
    · rw [Except.ok.injEq]
      exact ofInt_eq_iff (by omega) (by omega)
    · exact ⟨nofun, by omega⟩

/-- No digit is a sign. -/
theorem IsDigits.head_ne {c : Char} {cs : List Char} (h : IsDigits (c :: cs)) :
    c ≠ '-' ∧ c ≠ '+' := by
  have hc := h.digits c List.mem_cons_self
  constructor
  · rintro rfl
    cases hc
  · rintro rfl
    cases hc

/-- A numeral is what has digits after its sign, if it has one. -/
theorem isNumeral_iff_splitSign {cs : List Char} {x : Int} :
    IsNumeral cs x ↔ IsDigits (splitSign cs).2 ∧
      x = if (splitSign cs).1 then -(Nat.ofDigitChars 10 (splitSign cs).2 0 : Int)
        else Nat.ofDigitChars 10 (splitSign cs).2 0 := by
  unfold splitSign
  constructor
  · intro h
    cases h with
    | plus hcs | minus hcs => exact ⟨hcs, rfl⟩
    | unsigned hcs =>
      split
      · exact absurd rfl hcs.head_ne.1
      · exact absurd rfl hcs.head_ne.2
      · exact ⟨hcs, rfl⟩
  · rintro ⟨hcs, rfl⟩
    split at hcs
    · exact .minus hcs
    · exact .plus hcs
    · exact .unsigned hcs

/-- A numeral stands for one integer. -/
theorem IsNumeral.eq {cs : List Char} {x y : Int} (hx : IsNumeral cs x) (hy : IsNumeral cs y) :
    x = y :=
  (isNumeral_iff_splitSign.mp hx).2.trans (isNumeral_iff_splitSign.mp hy).2.symm

/-- A text is read as an integer exactly if it is a numeral for it. -/
theorem parseInt_eq_ok_iff {text : String} {n : Int64} :
    parseInt text = .ok n ↔ IsNumeral text.toList n.toInt := by
  rw [isNumeral_iff_splitSign]
  change (readNat 10 (splitSign text.toList).2 >>= signed (splitSign text.toList).1) = .ok n ↔ _
  rw [bind_eq_ok_iff]
  generalize splitSign text.toList = parts
  obtain ⟨negative, cs⟩ := parts
  dsimp only
  constructor
  · rintro ⟨magnitude, hread, hsigned⟩
    obtain ⟨hcs, rfl, -⟩ := readNat_eq_ok_iff.mp hread
    exact ⟨hcs, signed_eq_ok_iff.mp hsigned⟩
  · rintro ⟨hcs, hn⟩
    have hlower := n.le_toInt
    have hupper := n.toInt_lt
    have hfits : Nat.ofDigitChars 10 cs 0 < wordLimit := by
      unfold wordLimit
      split at hn <;> omega
    exact ⟨_, readNat_eq_ok_iff.mpr ⟨hcs, rfl, hfits⟩, signed_eq_ok_iff.mpr hn⟩

end WhilePlus.Number
