import Mathlib.Data.List.Basic
import WhilePlus.Text.Character

namespace WhilePlus.Text

section Head

variable {b : UInt8} {rest : List UInt8} {c : Char} {taken n : Nat}

private theorem continuation?_eq_some (h : continuation? b = some n) : b.toNat = n + 128 ∧ n < 64 := by
  unfold continuation? at h
  split at h
  · next hrange =>
    simp only [Bool.and_eq_true, decide_eq_true_eq, UInt8.le_iff_toNat_le] at hrange
    have hlow : 128 ≤ b.toNat := hrange.1
    have hhigh : b.toNat ≤ 191 := hrange.2
    have hn : b.toNat - 128 = n := Option.some.inj h
    omega
  · cases h

private theorem toNat_ofNat (h : n < 0xD800 ∨ 0xDFFF < n ∧ n ≤ 0x10FFFF) : (Char.ofNat n).val.toNat = n := by
  have hvalid : n.isValidChar := by
    unfold Nat.isValidChar
    omega
  rw [Char.ofNat, dif_pos hvalid]
  rfl

private theorem ofNat_eq (h : n = b.toNat) : UInt8.ofNat n = b := by
  subst h
  exact UInt8.ofNat_toNat

/-- The bytes that a character is read from are those that spell it. -/
theorem utf8EncodeChar_of_headChar? (h : headChar? b rest = some (c, taken)) :
    String.utf8EncodeChar c = b :: rest.take taken := by
  unfold headChar? at h
  split at h
  · next hlow =>
    simp only [Option.some.injEq, Prod.mk.injEq] at h
    obtain ⟨rfl, rfl⟩ := h
    have hb : b.toNat < 128 := hlow
    have hn := toNat_ofNat (n := b.toNat) (by omega)
    simp only [String.utf8EncodeChar, hn, List.take_zero]
    rw [if_pos (by omega), ofNat_eq rfl]
  split at h
  · next hrange =>
    simp only [Bool.and_eq_true, decide_eq_true_eq, UInt8.le_iff_toNat_le] at hrange
    have hlow : 194 ≤ b.toNat := hrange.1
    have hhigh : b.toNat ≤ 223 := hrange.2
    split at h
    · next b₁ _ =>
      simp only [Option.bind_eq_bind, Option.bind_eq_some_iff, Option.some.injEq, Prod.mk.injEq] at h
      obtain ⟨x₁, hx₁, rfl, rfl⟩ := h
      obtain ⟨hb₁, hx₁⟩ := continuation?_eq_some hx₁
      have hn := toNat_ofNat (n := (b.toNat - 0xC0) * 64 + x₁) (by omega)
      simp only [String.utf8EncodeChar, hn, List.take_succ_cons, List.take_zero]
      rw [if_neg (by omega), if_pos (by omega), ofNat_eq (b := b) (by omega),
        ofNat_eq (b := b₁) (by omega)]
    · cases h
  split at h
  · next hrange =>
    simp only [Bool.and_eq_true, decide_eq_true_eq, UInt8.le_iff_toNat_le] at hrange
    have hlow : 224 ≤ b.toNat := hrange.1
    have hhigh : b.toNat ≤ 239 := hrange.2
    split at h
    · next b₁ b₂ _ =>
      simp only [Option.bind_eq_bind, Option.bind_eq_some_iff] at h
      obtain ⟨x₁, hx₁, x₂, hx₂, h⟩ := h
      obtain ⟨hb₁, hx₁⟩ := continuation?_eq_some hx₁
      obtain ⟨hb₂, hx₂⟩ := continuation?_eq_some hx₂
      split at h
      · cases h
      · next hvalid =>
        simp only [Option.some.injEq, Prod.mk.injEq] at h
        obtain ⟨rfl, rfl⟩ := h
        simp only [Bool.or_eq_true, Bool.and_eq_true, decide_eq_true_eq, not_or] at hvalid
        have hn := toNat_ofNat (n := ((b.toNat - 0xE0) * 64 + x₁) * 64 + x₂) (by omega)
        simp only [String.utf8EncodeChar, hn, List.take_succ_cons, List.take_zero]
        rw [if_neg (by omega), if_neg (by omega), if_pos (by omega), ofNat_eq (b := b) (by omega),
          ofNat_eq (b := b₁) (by omega), ofNat_eq (b := b₂) (by omega)]
    · cases h
  split at h
  · next hrange =>
    simp only [Bool.and_eq_true, decide_eq_true_eq, UInt8.le_iff_toNat_le] at hrange
    have hlow : 240 ≤ b.toNat := hrange.1
    have hhigh : b.toNat ≤ 244 := hrange.2
    split at h
    · next b₁ b₂ b₃ _ =>
      simp only [Option.bind_eq_bind, Option.bind_eq_some_iff] at h
      obtain ⟨x₁, hx₁, x₂, hx₂, x₃, hx₃, h⟩ := h
      obtain ⟨hb₁, hx₁⟩ := continuation?_eq_some hx₁
      obtain ⟨hb₂, hx₂⟩ := continuation?_eq_some hx₂
      obtain ⟨hb₃, hx₃⟩ := continuation?_eq_some hx₃
      split at h
      · cases h
      · next hvalid =>
        simp only [Option.some.injEq, Prod.mk.injEq] at h
        obtain ⟨rfl, rfl⟩ := h
        simp only [Bool.or_eq_true, decide_eq_true_eq, not_or] at hvalid
        have hn := toNat_ofNat (n := (((b.toNat - 0xF0) * 64 + x₁) * 64 + x₂) * 64 + x₃) (by omega)
        simp only [String.utf8EncodeChar, hn, List.take_succ_cons, List.take_zero]
        rw [if_neg (by omega), if_neg (by omega), if_neg (by omega), ofNat_eq (b := b) (by omega),
          ofNat_eq (b := b₁) (by omega), ofNat_eq (b := b₂) (by omega), ofNat_eq (b := b₃) (by omega)]
    · cases h
  · cases h

/-- A byte that no character is read from is none of the first 128. -/
theorem not_lt_of_headChar? (h : headChar? b rest = none) : ¬ b < 128 := by
  intro hb
  unfold headChar? at h
  rw [if_pos hb] at h
  cases h

end Head

section Carrier

variable {b : UInt8} {c : Char}

private theorem charBytes_carrier (hb : ¬ b < 128) : charBytes (carrier b) = [b] := by
  have hlow : 128 ≤ b.toNat := Nat.le_of_not_lt hb
  have hhigh : b.toNat < 256 := b.toNat_lt
  have hn := toNat_ofNat (n := firstCarrier + (b.toNat - 128)) (by simp only [firstCarrier]; omega)
  have hcarrier : isCarrier (carrier b) = true := by
    simp only [isCarrier, carrier, Char.toNat, hn, Bool.and_eq_true, decide_eq_true_eq]
    omega
  rw [charBytes, if_pos hcarrier, List.singleton_inj]
  refine ofNat_eq ?_
  simp only [carrier, Char.toNat, hn]
  omega

/-- The bytes of a character that looks like a carrier are none of the first
    128. -/
theorem not_lt_of_mem_utf8EncodeChar (hc : isCarrier c = true) :
    ∀ b ∈ String.utf8EncodeChar c, ¬ b < 128 := by
  simp only [isCarrier, Bool.and_eq_true, decide_eq_true_eq] at hc
  have hlow : 0x10FF00 ≤ c.val.toNat := hc.1
  intro b hb
  simp only [String.utf8EncodeChar] at hb
  rw [if_neg (by omega), if_neg (by omega), if_neg (by omega)] at hb
  simp only [List.mem_cons, List.not_mem_nil, or_false] at hb
  rw [UInt8.lt_iff_toNat_lt]
  obtain rfl | rfl | rfl | rfl := hb <;> simp <;> omega

private theorem flatMap_charBytes_spellChar (c : Char) :
    (spellChar c).flatMap charBytes = String.utf8EncodeChar c := by
  unfold spellChar
  split
  · next hc =>
    rw [List.flatMap_map]
    calc (String.utf8EncodeChar c).flatMap (fun b => charBytes (carrier b))
        = (String.utf8EncodeChar c).flatMap fun b => [b] :=
          List.flatMap_congr fun b hb => charBytes_carrier (not_lt_of_mem_utf8EncodeChar hc b hb)
      _ = String.utf8EncodeChar c := List.flatMap_singleton' _
  · next hc => rw [List.flatMap_singleton, charBytes, if_neg hc]

end Carrier

/-- The text that is read from some bytes is spelled by these bytes. -/
theorem toBytes_ofBytes (bytes : List UInt8) : toBytes (ofBytes bytes) = bytes := by
  rw [toBytes, ofBytes, String.toList_ofList, List.flatMap_assoc]
  fun_induction decode bytes with
  | case1 => rfl
  | case2 b rest c taken hhead ih =>
    rw [List.flatMap_cons, ih, Part.spell, flatMap_charBytes_spellChar,
      utf8EncodeChar_of_headChar? hhead, List.cons_append, List.take_append_drop]
  | case3 b rest hhead ih =>
    rw [List.flatMap_cons, ih, Part.spell, List.flatMap_singleton,
      charBytes_carrier (not_lt_of_headChar? hhead), List.singleton_append]

/-- Texts that are what their bytes spell have the order of their bytes. Other
    texts may have the same bytes and still be ordered. -/
theorem Precedes.bytes_lt {a b : String} (h : Precedes a b) (ha : ofBytes (toBytes a) = a)
    (hb : ofBytes (toBytes b) = b) : toBytes a < toBytes b := by
  rcases h with h | ⟨hbytes, hlt⟩
  · exact h
  · rw [← ha, hbytes, hb] at hlt
    exact absurd hlt (String.lt_irrefl b)

end WhilePlus.Text
