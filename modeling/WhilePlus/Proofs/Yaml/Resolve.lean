import WhilePlus.Yaml.Reading

namespace WhilePlus.Yaml

/-- What a scalar stands for, if it can be read. -/
def value? (tag text : String) : Option Document :=
  if tag == binaryTag then (binaryText? text).map .text else resolve? tag text

/-- A text that stands for nothing else when it is written plainly. -/
def IsWord (name : String) : Prop :=
  ∀ dated, specialValue? dated name = none

section Null

/-- Whether null is found under its own tag only. -/
def NullTagged (found : Option (String × Document)) : Prop :=
  ∀ tag, found = some (tag, .null) → tag = nullTag

private theorem NullTagged.or {x y : Option (String × Document)} (hx : NullTagged x) (hy : NullTagged y) :
    NullTagged (x.or y) := by
  cases x with
  | none => exact hy
  | some r => exact hx

private theorem nullTagged_none : NullTagged none :=
  nofun

private theorem nullTagged_wordValue? (text : String) : NullTagged (wordValue? text) := by
  intro tag h
  unfold wordValue? at h
  split at h <;> cases h
  all_goals rfl

private theorem nullTagged_wholeNumber? (signed : Except Number.Fault Int64) (unsigned : Except Number.Fault Nat) :
    NullTagged (wholeNumber? signed unsigned) := by
  intro tag h
  unfold wholeNumber? at h
  split at h <;> cases h

private theorem nullTagged_floatNumber? (cs : List Char) : NullTagged (floatNumber? cs) := by
  intro tag h
  unfold floatNumber? at h
  split at h <;> cases h

private theorem nullTagged_numberValue? (cs : List Char) : NullTagged (numberValue? cs) := by
  unfold numberValue?
  refine (nullTagged_wholeNumber? _ _).or ((nullTagged_floatNumber? cs).or ?_)
  split
  case h_5 => exact nullTagged_none
  all_goals exact nullTagged_wholeNumber? _ _

private theorem nullTagged_specialValue? (dated : Bool) (text : String) : NullTagged (specialValue? dated text) := by
  unfold specialValue?
  dsimp only
  split
  · exact nullTagged_wordValue? text
  split
  · refine (nullTagged_wordValue? text).or ?_
    unfold pointNumber?
    split
    · exact nullTagged_floatNumber? _
    · exact nullTagged_none
  split
  · refine (nullTagged_wordValue? text).or (.or ?_ (nullTagged_numberValue? _))
    split
    · intro tag h
      obtain ⟨t, -, ht⟩ := Option.map_eq_some_iff.mp h
      cases ht
    · exact nullTagged_none
  split
  · exact nullTagged_wordValue? text
  · exact nullTagged_none

/-- A scalar that stands for null has its tag. -/
theorem tag_of_null {tag text : String} (h : value? tag text = some .null) : tag = nullTag := by
  unfold value? at h
  split at h
  · obtain ⟨s, -, hs⟩ := Option.map_eq_some_iff.mp h
    cases hs
  unfold resolve? at h
  split at h
  · cases h
  dsimp only at h
  split at h
  · next hfound =>
    rw [← beq_iff_eq.mp hfound]
    generalize hspecial : specialValue? (tag == timestampTag) text = special at h ⊢
    cases special with
    | none => cases h
    | some found =>
      obtain ⟨other, d⟩ := found
      obtain rfl : d = .null := Option.some.inj h
      exact nullTagged_specialValue? _ text other hspecial
  split at h
  · split at h
    · obtain ⟨x, -, hx⟩ := Option.map_eq_some_iff.mp h
      cases hx
    · cases h
  · cases h

end Null

end WhilePlus.Yaml
