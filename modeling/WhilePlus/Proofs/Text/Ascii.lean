import WhilePlus.Proofs.Text.Bytes

namespace WhilePlus.Text

section Bytes

variable {b : UInt8} {bytes rest more : List UInt8} {c : Char} {taken : Nat}

private theorem continuation?_of_lt (h : b < 128) : continuation? b = none := by
  have hlow : ¬ (0x80 : UInt8) ≤ b := UInt8.not_le.mpr h
  rw [continuation?, decide_eq_false hlow]
  rfl

private theorem headChar?_of_lt (h : b < 128) : headChar? b rest = some (Char.ofNat b.toNat, 0) := by
  unfold headChar?
  rw [if_pos h]

/-- What a byte starts does not reach into ASCII bytes that follow. -/
theorem headChar?_append (hmore : ∀ a ∈ more, a < 128) :
    headChar? b (rest ++ more) = headChar? b rest := by
  cases more with
  | nil => rw [List.append_nil]
  | cons a more =>
    have ha := continuation?_of_lt (List.forall_mem_cons.mp hmore).1
    unfold headChar?
    split
    · rfl
    split
    · cases rest with
      | nil => simp [ha]
      | cons b₁ rest => rfl
    split
    · rcases rest with _ | ⟨b₁, _ | ⟨b₂, rest⟩⟩
      · cases more <;> simp [ha]
      · simp [ha]
      · rfl
    split
    · rcases rest with _ | ⟨b₁, _ | ⟨b₂, _ | ⟨b₃, rest⟩⟩⟩
      · rcases more with _ | ⟨_, _ | ⟨_, more⟩⟩ <;> simp [ha]
      · cases more <;> simp [ha]
      · simp [ha]
      · rfl
    · rfl

private theorem decode_append (hmore : ∀ a ∈ more, a < 128) :
    decode (bytes ++ more) = decode bytes ++ decode more := by
  fun_induction decode bytes with
  | case1 => rfl
  | case2 b rest c taken hhead ih =>
    have hhead' : headChar? b (rest ++ more) = some (c, taken) := (headChar?_append hmore).trans hhead
    -- both times the character is spelled by as many bytes, so none of them is among those that follow
    have htake := (utf8EncodeChar_of_headChar? hhead).symm.trans (utf8EncodeChar_of_headChar? hhead')
    have hlength := congrArg List.length htake
    simp only [List.length_cons, List.length_take, List.length_append] at hlength
    have hdrop : (rest ++ more).drop taken = rest.drop taken ++ more := by
      cases more with
      | nil => simp
      | cons a more =>
        rw [List.length_cons] at hlength
        exact List.drop_append_of_le_length (by omega)
    rw [List.cons_append, decode, hhead']
    simp only [hdrop, ih, List.cons_append]
  | case3 b rest hhead ih =>
    rw [List.cons_append, decode, (headChar?_append hmore).trans hhead]
    simp only [ih, List.cons_append]

end Bytes

section Ascii

variable {c : Char} {cs : List Char} {front text : String}

/-- An ASCII character carries no byte. -/
theorem isCarrier_of_lt (hc : c.toNat < 128) : isCarrier c = false := by
  rw [isCarrier, Bool.and_eq_false_iff, decide_eq_false_iff_not]
  exact .inl (Nat.not_le_of_lt (Nat.lt_trans hc (by decide)))

private theorem charBytes_of_lt (hc : c.toNat < 128) : charBytes c = [c.toNat.toUInt8] := by
  have hshort : c.val.toNat ≤ 127 := Nat.le_of_lt_succ hc
  rw [charBytes, isCarrier_of_lt hc, if_neg (by decide), String.utf8EncodeChar]
  exact if_pos hshort

private theorem toNat_toUInt8_of_lt (hc : c.toNat < 128) :
    c.toNat.toUInt8.toNat = c.toNat ∧ c.toNat.toUInt8 < 128 := by
  have hbyte : c.toNat.toUInt8.toNat = c.toNat := Nat.mod_eq_of_lt (Nat.lt_trans hc (by decide))
  refine ⟨hbyte, ?_⟩
  rw [UInt8.lt_iff_toNat_lt, hbyte]
  exact hc

private theorem lt_of_mem_bytes {b : UInt8} (hcs : ∀ c ∈ cs, c.toNat < 128) (hb : b ∈ cs.flatMap charBytes) :
    b < 128 := by
  obtain ⟨c, hc, hb⟩ := List.mem_flatMap.mp hb
  rw [charBytes_of_lt (hcs c hc), List.mem_singleton] at hb
  rw [hb]
  exact (toNat_toUInt8_of_lt (hcs c hc)).2

/-- The bytes of ASCII characters are read as these characters. -/
theorem decode_ascii (hcs : ∀ c ∈ cs, c.toNat < 128) :
    decode (cs.flatMap charBytes) = cs.map .char := by
  induction cs with
  | nil => simp [decode]
  | cons c cs ih =>
    obtain ⟨hc, hcs⟩ := List.forall_mem_cons.mp hcs
    obtain ⟨hbyte, hlow⟩ := toNat_toUInt8_of_lt hc
    rw [List.flatMap_cons, charBytes_of_lt hc, List.singleton_append, decode, headChar?_of_lt hlow]
    simp only [hbyte, Char.ofNat_toNat, List.drop_zero, ih hcs, List.map_cons]

/-- ASCII characters at the end of a text are shown at its end. -/
theorem exists_shownChars_append (htext : ∀ c ∈ text.toList, c.toNat < 128) (front : String) :
    ∃ shown, shownChars (front ++ text) = shown ++ text.toList := by
  have hshown : (text.toList.map Part.char).map Part.shown = text.toList := by
    rw [List.map_map]
    exact List.map_id _
  rw [shownChars, parts]
  split
  · refine ⟨(decode (toBytes front)).map Part.shown, ?_⟩
    rw [toBytes, String.toList_append, List.flatMap_append,
      decode_append fun _ => lt_of_mem_bytes htext, decode_ascii htext, List.map_append, hshown, toBytes]
  · refine ⟨(front.toList.map Part.char).map Part.shown, ?_⟩
    rw [String.toList_append, List.map_append, List.map_append, hshown]

end Ascii

end WhilePlus.Text
