import WhilePlus.Number.Digits

namespace WhilePlus.Number

private theorem digitValue?_digitChar {d : Nat} (h : d < 10) : digitValue? d.digitChar = some d := by
  match d, h with
  | 0, _ | 1, _ | 2, _ | 3, _ | 4, _ | 5, _ | 6, _ | 7, _ | 8, _ | 9, _ => decide

/-- One more digit at the end is read after all others. What has been read so
    far may be large, but with the digit it must stay below the limit of a word. -/
theorem readDigits_concat {m n : Nat} {cs : List Char} (h : readDigits 10 m cs = .ok n) {d : Nat}
    (hd : d < 10) (hlimit : n * 10 + d < wordLimit) :
    readDigits 10 m (cs ++ [d.digitChar]) = .ok (n * 10 + d) := by
  induction cs generalizing m with
  | nil =>
    cases h
    simp only [List.nil_append, readDigits, digitValue?_digitChar hd]
    rw [if_neg (by omega), if_neg (by omega)]
  | cons c rest ih =>
    simp only [List.cons_append, readDigits] at h ⊢
    split at h
    · cases h
    next value hvalue =>
      split at h
      · cases h
      · split at h
        · cases h
        next hbase hroom =>
          rw [if_neg hbase, if_neg hroom]
          exact ih h

private theorem readDigits_toDigits {n : Nat} (h : n < wordLimit) :
    readDigits 10 0 (Nat.toDigits 10 n) = .ok n := by
  induction n using Nat.strongRecOn with
  | ind n ih =>
    rw [Nat.toDigits_eq_if (by decide)]
    split
    · next hsmall =>
      have hread : readDigits 10 0 ([] ++ [n.digitChar]) = .ok (0 * 10 + n) :=
        readDigits_concat rfl hsmall (by omega)
      simpa using hread
    · next hlarge =>
      have hrest : n / 10 * 10 + n % 10 = n := by omega
      have hfront := ih (n / 10) (by omega) (by omega)
      have hread := readDigits_concat hfront (Nat.mod_lt n (by decide)) (by rwa [hrest])
      rwa [hrest] at hread

private theorem readNat_toDigits {n : Nat} (h : n < wordLimit) :
    readNat 10 (Nat.toDigits 10 n) = .ok n := by
  have hne : Nat.toDigits 10 n ≠ [] := by
    rw [Nat.toDigits_eq_if (by decide)]
    split <;> simp
  unfold readNat
  rw [if_neg (by simp [hne])]
  exact readDigits_toDigits h

/-- No digit is taken for a sign. -/
theorem splitSign_toDigits (n : Nat) :
    splitSign (Nat.toDigits 10 n) = (false, Nat.toDigits 10 n) := by
  have hdigit : ∀ c ∈ Nat.toDigits 10 n, c.isDigit = true :=
    fun c hc => Nat.isDigit_of_mem_toDigits (by decide) (by decide) hc
  unfold splitSign
  split
  · next hminus =>
    have := hdigit '-' (by simp [hminus])
    simp at this
  · next hplus =>
    have := hdigit '+' (by simp [hplus])
    simp at this
  · rfl

/-- Every integer of 64 bits is read back from its decimals, the least one
    included. -/
theorem parseInt_toString (n : Int64) : parseInt (toString n.toInt) = .ok n := by
  have hupper := n.toInt_lt
  have hlower := n.le_toInt
  have hn := n.ofInt_toInt
  cases hvalue : n.toInt with
  | ofNat m =>
    rw [hvalue] at hupper hn
    have hm : m < signedLimit := by
      have : (m : Int) < 2 ^ 63 := hupper
      simp only [signedLimit]
      omega
    have hread : readNat 10 (Nat.toDigits 10 m) = .ok m :=
      readNat_toDigits (Nat.lt_trans hm (by decide))
    change readInt 10 (Nat.repr m).toList = _
    rw [Nat.repr, String.toList_ofList, readInt, splitSign_toDigits]
    simp only [hread, bind, Except.bind, signed, Bool.false_eq_true, if_false, if_pos hm]
    exact congrArg _ hn
  | negSucc m =>
    rw [hvalue] at hlower hn
    have hm : m + 1 ≤ signedLimit := by
      have : -2 ^ 63 ≤ -((m : Int) + 1) := hlower
      simp only [signedLimit]
      omega
    have hread : readNat 10 (Nat.toDigits 10 (m + 1)) = .ok (m + 1) :=
      readNat_toDigits (Nat.lt_of_le_of_lt hm (by decide))
    change readInt 10 ("-" ++ Nat.repr (m + 1)).toList = _
    rw [Nat.repr, String.toList_append, String.toList_ofList, String.toList_ofList]
    change (do signed true (← readNat 10 (Nat.toDigits 10 (m + 1)))) = _
    simp only [hread, bind, Except.bind, signed, if_true, if_pos hm]
    exact congrArg _ hn

end WhilePlus.Number
