namespace WhilePlus.Yaml

/-- What ends a text. -/
def terminator : Char := Char.ofNat 0

/-- A mark at the start of a text that tells its encoding. -/
def byteOrderMark : Char := Char.ofNat 0xFEFF

/-- Whether a character may occur in a text. -/
def isAllowed (c : Char) : Bool :=
  let n := c.toNat
  n == 9 || n == 10 || n == 13 || (0x20 ≤ n && n ≤ 0x7E) || n == 0x85 ||
    (0xA0 ≤ n && n ≤ 0xD7FF) || (0xE000 ≤ n && n ≤ 0xFFFD) || 0x10000 ≤ n

/-- Whether a character breaks a line. -/
def isBreak (c : Char) : Bool :=
  let n := c.toNat
  n == 10 || n == 13 || n == 0x85 || n == 0x2028 || n == 0x2029

/-- A blank or a tab. -/
def isBlank (c : Char) : Bool :=
  c == ' ' || c == '\t'

/-- The end of a line or of the text. -/
def isBreakOrEnd (c : Char) : Bool :=
  isBreak c || c == terminator

/-- White space or the end of the text. -/
def isSpaceOrEnd (c : Char) : Bool :=
  isBlank c || isBreakOrEnd c

/-- A letter, a digit, an underscore or a hyphen of ASCII. -/
def isWordChar (c : Char) : Bool :=
  ('a' ≤ c && c ≤ 'z') || ('A' ≤ c && c ≤ 'Z') || ('0' ≤ c && c ≤ '9') || c == '_' || c == '-'

/-- The break that stands for a break character. -/
def normalBreak (c : Char) : Char :=
  if c.toNat == 0x2028 || c.toNat == 0x2029 then c else '\n'

/-- White space that was read and may still turn out to lie inside a scalar. -/
structure Gap where
  /-- Blanks before the first break, the last one first. -/
  blanks : List Char := []
  /-- The first break. -/
  lead : List Char := []
  /-- The breaks after the first, the last one first. -/
  more : List Char := []
  /-- Whether a line has ended. -/
  broken : Bool := false
  deriving DecidableEq, Repr

namespace Gap

/-- The gap with one more blank; after a break blanks do not count. -/
def addBlank (gap : Gap) (c : Char) : Gap :=
  if gap.broken then gap else { gap with blanks := c :: gap.blanks }

/-- The gap with one more break. -/
def addBreak (gap : Gap) (c : Char) : Gap :=
  if gap.broken then { gap with more := c :: gap.more }
  else { blanks := [], lead := [c], more := [], broken := true }

/-- What the gap stands for between two parts of a scalar, the last character
    first. -/
def fold (gap : Gap) : List Char :=
  if gap.broken then
    if gap.lead == ['\n'] then
      if gap.more.isEmpty then [' '] else gap.more
    else gap.more ++ gap.lead
  else gap.blanks

end Gap

end WhilePlus.Yaml
