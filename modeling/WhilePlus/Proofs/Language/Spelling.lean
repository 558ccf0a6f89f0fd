import Mathlib.Data.List.Forall2
import Mathlib.Data.List.Nodup
import WhilePlus.Proofs.Language.WellFormed
import WhilePlus.Proofs.Text.Trim

namespace WhilePlus

namespace Text

/-- The characters that are one letter of a word when case is ignored: the
    letter itself in either case, and beyond ASCII the long s and the Kelvin
    sign. -/
inductive IsCaseOf : Char → Char → Prop where
  | same (letter : Char) : IsCaseOf letter letter
  | upper (letter : Char) : IsCaseOf letter.toUpper letter
  | lower (letter : Char) : IsCaseOf letter.toLower letter
  | longS {letter : Char} (h : letter = 's' ∨ letter = 'S') : IsCaseOf (Char.ofNat 0x17F) letter
  | kelvin {letter : Char} (h : letter = 'k' ∨ letter = 'K') : IsCaseOf (Char.ofNat 0x212A) letter

section Fold

variable {c letter : Char} {text word : String}

private theorem toLower_of_le (hc : 128 ≤ c.toNat) : c.toLower = c := by
  have hupper : ¬ (c.val ≥ 'A'.val ∧ c.val ≤ 'Z'.val) := by
    rintro ⟨-, hle⟩
    exact absurd (Nat.le_trans hc (UInt32.le_iff_toNat_le.mp hle)) (by decide)
  exact dif_neg hupper

private theorem foldChar_of_lt (hc : c.toNat < 128) : foldChar c = c.toLower := by
  rw [foldChar, if_neg (by simp; omega), if_neg (by simp; omega)]

/-- Case does not take an ASCII letter out of ASCII. -/
theorem toNat_case_lt (hletter : letter.toNat < 128) :
    letter.toUpper.toNat < 128 ∧ letter.toLower.toNat < 128 := by
  have hall : ∀ n < 128, (Char.ofNat n).toUpper.toNat < 128 ∧ (Char.ofNat n).toLower.toNat < 128 := by
    decide
  simpa only [Char.ofNat_toNat] using hall letter.toNat hletter

/-- An ASCII letter can be put in either case from the other one. -/
theorem case_case (hletter : letter.toNat < 128) :
    letter.toUpper.toLower = letter.toLower ∧ letter.toLower.toLower = letter.toLower ∧
      letter.toLower.toUpper = letter.toUpper := by
  have hall : ∀ n < 128, (Char.ofNat n).toUpper.toLower = (Char.ofNat n).toLower ∧
      (Char.ofNat n).toLower.toLower = (Char.ofNat n).toLower ∧
      (Char.ofNat n).toLower.toUpper = (Char.ofNat n).toUpper := by
    decide
  simpa only [Char.ofNat_toNat] using hall letter.toNat hletter

private theorem eq_case (hletter : letter.toNat < 128) : letter = letter.toUpper ∨ letter = letter.toLower := by
  have hall : ∀ n < 128, Char.ofNat n = (Char.ofNat n).toUpper ∨ Char.ofNat n = (Char.ofNat n).toLower := by
    decide
  simpa only [Char.ofNat_toNat] using hall letter.toNat hletter

/-- A character with the same lower case as an ASCII letter is that letter in
    one of its cases. The character need not be ASCII itself. -/
theorem eq_of_toLower_eq (hletter : letter.toNat < 128) (h : c.toLower = letter.toLower) :
    c = letter.toUpper ∨ c = letter.toLower := by
  by_cases hc : c.toNat < 128
  · obtain hupper | hlower := eq_case hc
    · rw [← (case_case hc).2.2, h, (case_case hletter).2.2] at hupper
      exact .inl hupper
    · exact .inr (hlower.trans h)
  · rw [toLower_of_le (Nat.le_of_not_lt hc)] at h
    exact .inr h

private theorem foldChar_eq_iff (hletter : letter.toNat < 128) :
    foldChar c = foldChar letter ↔ IsCaseOf c letter := by
  rw [foldChar_of_lt hletter]
  constructor
  · intro h
    rw [foldChar] at h
    split at h
    · next hlong =>
      obtain rfl : c = Char.ofNat 0x17F := by rw [← beq_iff_eq.mp hlong, Char.ofNat_toNat]
      have hcase : letter = Char.toUpper 's' ∨ letter = Char.toLower 's' :=
        eq_of_toLower_eq (by decide) h.symm
      exact .longS hcase.symm
    split at h
    · next hkelvin =>
      obtain rfl : c = Char.ofNat 0x212A := by rw [← beq_iff_eq.mp hkelvin, Char.ofNat_toNat]
      have hcase : letter = Char.toUpper 'k' ∨ letter = Char.toLower 'k' :=
        eq_of_toLower_eq (by decide) h.symm
      exact .kelvin hcase.symm
    · obtain rfl | rfl := eq_of_toLower_eq hletter h
      · exact .upper letter
      · exact .lower letter
  · rintro (_ | _ | _ | (rfl | rfl) | (rfl | rfl))
    · exact foldChar_of_lt hletter
    · rw [foldChar_of_lt (toNat_case_lt hletter).1, (case_case hletter).1]
    · rw [foldChar_of_lt (toNat_case_lt hletter).2, (case_case hletter).2.1]
    all_goals decide

/-- A word of ASCII characters in any case. -/
def IsCaseVariant (text word : String) : Prop :=
  List.Forall₂ IsCaseOf text.toList word.toList

private theorem equalFold_iff (hword : ∀ c ∈ word.toList, c.toNat < 128) :
    equalFold text word = true ↔ IsCaseVariant text word := by
  rw [equalFold, beq_iff_eq, IsCaseVariant]
  generalize text.toList = cs
  generalize word.toList = letters at hword ⊢
  induction cs generalizing letters with
  | nil => cases letters <;> simp
  | cons c cs ih =>
    cases letters with
    | nil => simp
    | cons letter letters =>
      obtain ⟨hletter, hrest⟩ := List.forall_mem_cons.mp hword
      rw [List.map_cons, List.map_cons, List.cons.injEq, List.forall₂_cons, foldChar_eq_iff hletter,
        ih letters hrest]

private theorem IsCaseVariant.exists_letter (h : IsCaseVariant text word) (hc : c ∈ text.toList) :
    ∃ letter ∈ word.toList, IsCaseOf c letter := by
  rw [IsCaseVariant] at h
  generalize text.toList = cs at h hc
  generalize word.toList = letters at h ⊢
  induction h with
  | nil => cases hc
  | @cons first letter cs letters hfirst _ ih =>
    rcases List.mem_cons.mp hc with rfl | hc
    · exact ⟨letter, List.mem_cons_self, hfirst⟩
    · obtain ⟨letter, hletter, hcase⟩ := ih hc
      exact ⟨letter, List.mem_cons_of_mem _ hletter, hcase⟩

end Fold

end Text

/-- What is searched for in a list is found if it is there and nothing else
    fits. -/
theorem find?_eq_some_iff_of_unique {α : Type} {p : α → Bool} {l : List α} {a : α}
    (hunique : ∀ a b, p a = true → p b = true → a = b) :
    l.find? p = some a ↔ a ∈ l ∧ p a = true := by
  constructor
  · intro h
    exact ⟨List.mem_of_find?_eq_some h, List.find?_some h⟩
  · rintro ⟨hmem, hfits⟩
    obtain ⟨b, hfound⟩ := Option.isSome_iff_exists.mp (List.find?_isSome.mpr ⟨a, hmem, hfits⟩)
    rw [hfound, hunique b a (List.find?_some hfound) hfits]

namespace Operator

section Spelling

variable {op op' : Operator} {core text : String}

/-- A text spells an operator: as its symbol, or as its name in any case. -/
def Spelling (op : Operator) (core : String) : Prop :=
  core = op.symbol ∨ Text.IsCaseVariant core op.name

private theorem isAscii_name (op : Operator) : ∀ c ∈ op.name.toList, c.toNat < 128 := by
  have hall : op.name.toList.all (·.toNat < 128) = true := by cases op <;> decide
  simpa only [List.all_eq_true, decide_eq_true_eq] using hall

private theorem spelledBy_iff : op.spelledBy core = true ↔ op.Spelling core := by
  rw [spelledBy, Bool.or_eq_true, beq_iff_eq, Text.equalFold_iff op.isAscii_name, Spelling]

/-- The letters of a name with the case ignored. -/
def folded (op : Operator) : List Char :=
  op.name.toList.map Text.foldChar

private theorem eq_folded_of_equalFold (h : Text.equalFold core op.name = true) :
    core.toList.map Text.foldChar = op.folded :=
  beq_iff_eq.mp h

private theorem symbol_ne_name (op op' : Operator) : op.symbol.toList.map Text.foldChar ≠ op'.folded := by
  have hall : ∀ op ∈ all, ∀ op' ∈ all, op.symbol.toList.map Text.foldChar ≠ op'.folded := by decide
  exact hall op (mem_all op) op' (mem_all op')

/-- No text spells two operators. The symbols and the folded names are all
    different, and no symbol folds to a name. -/
theorem spelledBy_unique (h : op.spelledBy core = true) (h' : op'.spelledBy core = true) : op = op' := by
  have hsymbols : (all.map symbol).Nodup := by decide
  have hnames : (all.map folded).Nodup := by decide
  rw [spelledBy, Bool.or_eq_true, beq_iff_eq] at h h'
  rcases h with rfl | h <;> rcases h' with h' | h'
  · exact List.inj_on_of_nodup_map hsymbols (mem_all op) (mem_all op') h'
  · exact absurd (eq_folded_of_equalFold h') (symbol_ne_name op op')
  · subst h'
    exact absurd (eq_folded_of_equalFold h) (symbol_ne_name op' op)
  · exact List.inj_on_of_nodup_map hnames (mem_all op) (mem_all op')
      ((eq_folded_of_equalFold h).symm.trans (eq_folded_of_equalFold h'))

private theorem parse?_eq_some_iff : parse? text = some op ↔ op.Spelling (Text.trim text) := by
  rw [parse?, find?_eq_some_iff_of_unique fun _ _ => spelledBy_unique, spelledBy_iff,
    and_iff_right (mem_all op)]

private theorem isBlank_symbol (op : Operator) : ∀ c ∈ op.symbol.toList, Text.isBlank c = false := by
  have hall : op.symbol.toList.any Text.isBlank = false := by cases op <;> decide
  simpa only [List.any_eq_false, Bool.not_eq_true] using hall

private theorem isBlank_name (op : Operator) : ∀ letter ∈ op.name.toList,
    (Text.isBlank letter = false ∧ Text.isBlank letter.toUpper = false) ∧
      Text.isBlank letter.toLower = false := by
  have hall : op.name.toList.any (fun letter => (Text.isBlank letter || Text.isBlank letter.toUpper) ||
      Text.isBlank letter.toLower) = false := by cases op <;> decide
  simpa only [List.any_eq_false, Bool.not_eq_true, Bool.or_eq_false_iff] using hall

/-- There is no white space in the spelling of an operator. -/
theorem Spelling.isBlank_eq_false (h : op.Spelling core) : ∀ c ∈ core.toList, Text.isBlank c = false := by
  rcases h with rfl | h
  · exact op.isBlank_symbol
  · intro c hc
    obtain ⟨letter, hletter, hcase⟩ := h.exists_letter hc
    obtain ⟨⟨hsame, hupper⟩, hlower⟩ := op.isBlank_name letter hletter
    cases hcase with
    | same => exact hsame
    | upper => exact hupper
    | lower => exact hlower
    | longS | kelvin => decide

private theorem Spelling.isPadded {left right : String} (h : op.Spelling core)
    (hleft : ∀ c ∈ left.toList, Text.isBlank c = true)
    (hright : ∀ c ∈ right.toList, Text.isBlank c = true) :
    Text.IsPadded core (left ++ core ++ right) := by
  refine ⟨⟨?_, ?_⟩, left, right, rfl, hleft, hright⟩
  · exact fun c hc => h.isBlank_eq_false c (List.mem_of_mem_head? hc)
  · exact fun c hc => h.isBlank_eq_false c (List.mem_of_getLast? hc)

end Spelling

/-- Reading an operator undoes its spellings. The order in which the operators
    are tried does not matter, as no text spells two of them. An operator is
    read exactly if a text spells it once the white space around it is dropped,
    by its symbol or by its name in any case; so every spelling is read,
    whatever white space is put around it, and where no operator is spelled none
    is read. -/
theorem parse?_undoes_spelling (text : String) :
    (∀ table : List Operator, table.Perm all →
      table.find? (·.spelledBy (Text.trim text)) = parse? text) ∧
    (∀ op : Operator, parse? text = some op ↔ ∃ core, Text.IsPadded core text ∧ op.Spelling core) ∧
    (parse? text = none ↔ ∀ (op : Operator) (core : String), Text.IsPadded core text → ¬ op.Spelling core) ∧
    (∀ (op op' : Operator) (core : String), op.Spelling core → op'.Spelling core → op = op') ∧
    ∀ (op : Operator) (left core right : String), op.Spelling core →
      (∀ c ∈ left.toList, Text.isBlank c = true) → (∀ c ∈ right.toList, Text.isBlank c = true) →
      parse? (left ++ core ++ right) = some op := by
  have hread : ∀ (text : String) (op : Operator),
      parse? text = some op ↔ ∃ core, Text.IsPadded core text ∧ op.Spelling core := by
    intro text op
    simp only [parse?_eq_some_iff, Text.isPadded_iff, exists_eq_left]
  refine ⟨fun table htable => Option.ext fun op => ?_, hread text, ?_, ?_, ?_⟩
  · rw [parse?, find?_eq_some_iff_of_unique fun _ _ => spelledBy_unique,
      find?_eq_some_iff_of_unique fun _ _ => spelledBy_unique, htable.mem_iff]
  · rw [Option.eq_none_iff_forall_ne_some]
    constructor
    · exact fun hnone op core hpadded hspelled => hnone op ((hread text op).mpr ⟨core, hpadded, hspelled⟩)
    · intro hnone op hparse
      obtain ⟨core, hpadded, hspelled⟩ := (hread text op).mp hparse
      exact hnone op core hpadded hspelled
  · intro op op' core h h'
    exact spelledBy_unique (spelledBy_iff.mpr h) (spelledBy_iff.mpr h')
  · intro op left core right hspelled hleft hright
    exact (hread _ op).mpr ⟨core, hspelled.isPadded hleft hright, hspelled⟩

/-- The long s is a case of the last letter of a name, and the table may as well
    be tried from its end. -/
theorem parse?_undoes_spelling_longS :
    plus.Spelling "PLU\u017f" ∧ parse? "\u2003PLU\u017f\n" = some plus ∧
      all.reverse.find? (·.spelledBy (Text.trim "\u2003PLU\u017f\n")) = some plus := by
  have hspelled : plus.Spelling "PLU\u017f" :=
    .inr ((Text.equalFold_iff plus.isAscii_name).mp (by decide))
  have hpadded : parse? ("\u2003" ++ "PLU\u017f" ++ "\n") = some plus :=
    (parse?_undoes_spelling "").2.2.2.2 plus _ _ _ hspelled (List.all_eq_true.mp (by decide))
      (List.all_eq_true.mp (by decide))
  exact ⟨hspelled, hpadded,
    ((parse?_undoes_spelling _).1 all.reverse (List.reverse_perm all)).trans hpadded⟩

end Operator

end WhilePlus
