namespace WhilePlus.Text

/-- White space: the property `White_Space` of Unicode. -/
def isBlank (c : Char) : Bool :=
  let n := c.toNat
  (9 ≤ n && n ≤ 13) || n == 0x20 || n == 0x85 || n == 0xA0 || n == 0x1680 ||
    (0x2000 ≤ n && n ≤ 0x200A) || n == 0x2028 || n == 0x2029 || n == 0x202F || n == 0x205F ||
    n == 0x3000

/-- Drops white space from both ends of a list of characters. -/
def trimChars (cs : List Char) : List Char :=
  ((cs.dropWhile isBlank).reverse.dropWhile isBlank).reverse

/-- Drops white space from both ends of a text. -/
def trim (s : String) : String :=
  String.ofList (trimChars s.toList)

/-- The ASCII letter that a character equals when case is ignored, or the
    character itself. -/
def foldChar (c : Char) : Char :=
  if c.toNat == 0x17F then 's'
  else if c.toNat == 0x212A then 'k'
  else c.toLower

/-- Equality up to letter case, for a text against a word of ASCII letters. -/
def equalFold (s word : String) : Bool :=
  s.toList.map foldChar == word.toList.map foldChar

/-- The lower case of a character as far as it is an ASCII letter, or the
    character itself. -/
def lowerChar (c : Char) : Char :=
  if c.toNat == 0x130 then 'i'
  else if c.toNat == 0x212A then 'k'
  else c.toLower

/-- A text in lower case, for comparison with words of ASCII letters. -/
def lower (s : String) : String :=
  String.ofList (s.toList.map lowerChar)

/-- The number of the character that carries the byte 128. A text may hold bytes
    that spell no character: each of them is kept as one of 128 private
    characters, its carrier. A character that looks like a carrier is kept as
    the carriers of the four bytes that spell it, so that every list of bytes is
    the list of bytes of a text. -/
def firstCarrier : Nat := 0x10FF00

/-- Whether a character carries a byte. -/
def isCarrier (c : Char) : Bool :=
  firstCarrier ≤ c.toNat && c.toNat < firstCarrier + 128

/-- The character that carries a byte, which must be at least 128. -/
def carrier (b : UInt8) : Char :=
  Char.ofNat (firstCarrier + (b.toNat - 128))

/-- The bytes of a character of a text. -/
def charBytes (c : Char) : List UInt8 :=
  if isCarrier c then [(c.toNat - firstCarrier + 128).toUInt8] else String.utf8EncodeChar c

/-- The bytes of a text. -/
def toBytes (s : String) : List UInt8 :=
  s.toList.flatMap charBytes

/-- How a character stands in a text. -/
def spellChar (c : Char) : List Char :=
  if isCarrier c then (String.utf8EncodeChar c).map carrier else [c]

/-- The text of some characters. -/
def ofChars (cs : List Char) : String :=
  String.ofList (cs.flatMap spellChar)

/-- What stands for a byte that belongs to no character. -/
def replacement : Char := Char.ofNat 0xFFFD

/-- The payload of a continuation byte. -/
def continuation? (b : UInt8) : Option Nat :=
  if 0x80 ≤ b && b ≤ 0xBF then some (b.toNat - 0x80) else none

/-- The character that starts with the given byte, and the number of bytes it
    takes from the ones that follow. Overlong forms, surrogates and numbers
    beyond the last character are refused. -/
def headChar? (b : UInt8) (rest : List UInt8) : Option (Char × Nat) :=
  if b < 0x80 then some (Char.ofNat b.toNat, 0)
  else if 0xC2 ≤ b && b ≤ 0xDF then
    match rest with
    | b₁ :: _ => do
      let x₁ ← continuation? b₁
      some (Char.ofNat ((b.toNat - 0xC0) * 64 + x₁), 1)
    | [] => none
  else if 0xE0 ≤ b && b ≤ 0xEF then
    match rest with
    | b₁ :: b₂ :: _ => do
      let x₁ ← continuation? b₁
      let x₂ ← continuation? b₂
      let n := ((b.toNat - 0xE0) * 64 + x₁) * 64 + x₂
      if n < 0x800 || (0xD800 ≤ n && n ≤ 0xDFFF) then none else some (Char.ofNat n, 2)
    | _ => none
  else if 0xF0 ≤ b && b ≤ 0xF4 then
    match rest with
    | b₁ :: b₂ :: b₃ :: _ => do
      let x₁ ← continuation? b₁
      let x₂ ← continuation? b₂
      let x₃ ← continuation? b₃
      let n := (((b.toNat - 0xF0) * 64 + x₁) * 64 + x₂) * 64 + x₃
      if n < 0x10000 || 0x10FFFF < n then none else some (Char.ofNat n, 3)
    | _ => none
  else none

/-- A part of a text: a character, or a byte that belongs to none. -/
inductive Part where
  | char (c : Char)
  | byte (b : UInt8)
  deriving DecidableEq, Repr

/-- The parts of some bytes. -/
def decode : List UInt8 → List Part
  | [] => []
  | b :: rest =>
    match headChar? b rest with
    | some (c, taken) => .char c :: decode (rest.drop taken)
    | none => .byte b :: decode rest
termination_by bytes => bytes.length
decreasing_by all_goals simp only [List.length_drop, List.length_cons]; omega

/-- How a part stands in a text. -/
def Part.spell : Part → List Char
  | char c => spellChar c
  | byte b => [carrier b]

/-- The character of a part; a byte on its own has the replacement character. -/
def Part.shown : Part → Char
  | char c => c
  | byte _ => replacement

/-- The text of some bytes. -/
def ofBytes (bytes : List UInt8) : String :=
  String.ofList ((decode bytes).flatMap Part.spell)

/-- The characters of some bytes, with a replacement character for every byte
    that belongs to none. -/
def decodeLossy (bytes : List UInt8) : List Char :=
  (decode bytes).map Part.shown

/-- The parts of a text. Without carriers these are its characters. -/
def parts (s : String) : List Part :=
  if s.toList.any isCarrier then decode (toBytes s) else s.toList.map .char

/-- The characters of a text, with a replacement character for every byte that
    belongs to none. -/
def shownChars (s : String) : List Char :=
  (parts s).map Part.shown

/-- Whether all bytes of a text belong to characters. -/
def isWellFormed (s : String) : Bool :=
  (parts s).all fun
    | .char _ => true
    | .byte _ => false

/-- A text comes before another one if its bytes do; texts with the same bytes
    have the order of their characters. -/
def Precedes (a b : String) : Prop :=
  toBytes a < toBytes b ∨ (toBytes a = toBytes b ∧ a < b)

instance (a b : String) : Decidable (Precedes a b) :=
  inferInstanceAs (Decidable (_ ∨ _))

/-- No text comes before itself. -/
theorem Precedes.irrefl (a : String) : ¬ Precedes a a := by
  rintro (h | ⟨-, h⟩)
  · exact List.lt_irrefl _ h
  · exact String.lt_irrefl _ h

/-- What comes before a text comes before all that it precedes. -/
theorem Precedes.trans {a b c : String} (h₁ : Precedes a b) (h₂ : Precedes b c) :
    Precedes a c := by
  rcases h₁ with h₁ | ⟨e₁, h₁⟩ <;> rcases h₂ with h₂ | ⟨e₂, h₂⟩
  · exact .inl (List.lt_trans h₁ h₂)
  · exact .inl (e₂ ▸ h₁)
  · exact .inl (e₁ ▸ h₂)
  · exact .inr ⟨e₁.trans e₂, String.lt_trans h₁ h₂⟩

/-- Of two different texts one comes before the other, even if they have the
    same bytes. -/
theorem precedes_or_precedes_of_ne {a b : String} (h : a ≠ b) : Precedes a b ∨ Precedes b a := by
  rcases Std.lt_trichotomy (toBytes a) (toBytes b) with hlt | heq | hgt
  · exact .inl (.inl hlt)
  · rcases Std.lt_trichotomy a b with hlt | heq' | hgt
    · exact .inl (.inr ⟨heq, hlt⟩)
    · exact absurd heq' h
    · exact .inr (.inr ⟨heq.symm, hgt⟩)
  · exact .inr (.inl hgt)

/-- Whether some bytes occur, one after the other, in a list of bytes. -/
def occursIn (needle : List UInt8) : List UInt8 → Bool
  | [] => needle.isEmpty
  | b :: rest => needle.isPrefixOf (b :: rest) || occursIn needle rest

private theorem occursIn_iff {needle bytes : List UInt8} :
    occursIn needle bytes = true ↔ needle <:+: bytes := by
  induction bytes with
  | nil => simp [occursIn]
  | cons b rest ih => simp [occursIn, ih, List.infix_cons_iff]

/-- Whether a text holds another one. -/
def contains (text needle : String) : Bool :=
  occursIn (toBytes needle) (toBytes text)

/-- A text holds another exactly if its bytes hold the bytes of that one, one
    after the other. -/
theorem contains_iff {text needle : String} :
    contains text needle = true ↔ toBytes needle <:+: toBytes text :=
  occursIn_iff

end WhilePlus.Text
