import WhilePlus.Text.Character
import WhilePlus.Yaml.Charset

namespace WhilePlus.Yaml

/-- How characters are spelled in bytes. -/
inductive Encoding where
  | utf8
  | utf16 (bigEndian : Bool)
  deriving DecidableEq, Repr

/-- What some bytes start with. -/
inductive Spelled where
  /-- A character, with the number of its bytes after the first. -/
  | char (c : Char) (more : Nat)
  /-- Something that is no character, which that number of bytes after the first
      shows. -/
  | wrong (more : Nat)
  /-- Too few bytes. -/
  | short
  deriving DecidableEq, Repr

namespace Encoding

/-- A character with its length, if it may occur. -/
def allow (c : Char) (more : Nat) : Spelled :=
  if isAllowed c then .char c more else .wrong more

/-- The number of bytes after the first in UTF-8. -/
def moreBytes? (b : UInt8) : Option Nat :=
  if b < 0x80 then some 0
  else if 0xC0 ≤ b && b < 0xE0 then some 1
  else if 0xE0 ≤ b && b < 0xF0 then some 2
  else if 0xF0 ≤ b && b < 0xF8 then some 3
  else none

/-- What a byte and those after it start with. -/
def spelled : Encoding → UInt8 → List UInt8 → Spelled
  | utf8, b, rest =>
    match moreBytes? b with
    | none => .wrong 0
    | some more =>
      if (rest.take more).length < more then .short
      else
        match Text.headChar? b rest with
        | some (c, _) => allow c more
        | none => .wrong more
  | utf16 bigEndian, a, rest =>
    let unit (a b : UInt8) : Nat :=
      if bigEndian then a.toNat * 256 + b.toNat else b.toNat * 256 + a.toNat
    match rest with
    | [] => .short
    | b :: rest =>
      let high := unit a b
      if 0xDC00 ≤ high && high < 0xE000 then .wrong 1
      else if 0xD800 ≤ high && high < 0xDC00 then
        match rest with
        | c :: d :: _ =>
          let low := unit c d
          if 0xDC00 ≤ low && low < 0xE000 then
            allow (Char.ofNat (0x10000 + (high - 0xD800) * 0x400 + (low - 0xDC00))) 3
          else .wrong 3
        | _ => .short
      else allow (Char.ofNat high) 1

/-- The encoding that the first bytes of a text tell, and how many bytes do
    that. -/
def detect : List UInt8 → Encoding × Nat
  | 0xFF :: 0xFE :: _ => (utf16 false, 2)
  | 0xFE :: 0xFF :: _ => (utf16 true, 2)
  | 0xEF :: 0xBB :: 0xBF :: _ => (utf8, 3)
  | _ => (utf8, 0)

end Encoding

/-- The number of bytes in a portion. -/
def portionSize : Nat := 512

/-- The characters of a text, and how many of them each portion holds. A
    character belongs to the portion that completes it. The list ends with
    `none` if the text has something else in it than characters, which the
    portion with that number shows. -/
structure Delivery where
  chars : List Char
  portions : List (Option Nat)
  deriving Repr

/-- Divides bytes into portions, where the current one has room for some more
    bytes and a number of characters already. What was found before is given
    with the last first. -/
def deliver (encoding : Encoding) (room count : Nat) (chars : List Char)
    (portions : List (Option Nat)) (bytes : List UInt8) : Delivery :=
  match bytes with
  | [] => ⟨chars.reverse, (some count :: portions).reverse⟩
  | b :: rest =>
    match encoding.spelled b rest with
    | .char c more =>
      if more < room then
        deliver encoding (room - more - 1) (count + 1) (c :: chars) portions (rest.drop more)
      else
        deliver encoding (portionSize - more - 1) 1 (c :: chars) (some count :: portions)
          (rest.drop more)
    | .wrong more =>
      ⟨chars.reverse,
        (none :: if more < room then portions else some count :: portions).reverse⟩
    | .short => ⟨chars.reverse, (none :: some count :: portions).reverse⟩
termination_by bytes.length
decreasing_by all_goals simp only [List.length_drop, List.length_cons]; omega

/-- Where the reading of a text has come to. A portion that cannot be decoded
    does no harm as long as it is not asked for. Positions count characters. -/
structure Source where
  /-- The characters that are left. -/
  rest : List Char
  /-- The number of all characters. -/
  size : Nat
  line : Nat := 1
  column : Nat := 0
  index : Nat := 0
  /-- How many characters are at hand; the end of the text counts as many as
      were asked for. -/
  ready : Nat := 0
  /-- The portions that were not asked for yet. -/
  portions : List (Option Nat)
  /-- Whether what was at hand after the last portion started with a byte order
      mark. -/
  marked : Bool := false

namespace Source

/-- The source of some bytes. With fewer than three bytes the end is noticed at
    once. -/
def ofBytes (bytes : List UInt8) : Source :=
  let (encoding, used) := Encoding.detect bytes
  let found := deliver encoding (portionSize - used) 0 [] [] (bytes.drop used)
  let portions :=
    if bytes.length < 3 then
      if found.portions.contains none then [none] else [some (found.chars.length + 1)]
    else found.portions
  { rest := found.chars, size := found.chars.length, portions }

/-- Takes portions until a number of characters is at hand, or the end of the
    text, which counts as one more. -/
def load (wanted ready : Nat) : List (Option Nat) → Option (Nat × List (Option Nat))
  | [] => some (ready + 1, [])
  | none :: _ => none
  | some count :: rest =>
    if wanted ≤ ready + count then some (ready + count, rest) else load wanted (ready + count) rest

/-- The source with a number of characters at hand; `none` if a portion for them
    has something else in it. -/
def need (s : Source) (wanted : Nat) : Option Source :=
  if wanted ≤ s.ready then some s
  else
    (load wanted s.ready s.portions).map fun (ready, portions) =>
      { s with ready, portions, marked := s.rest.head? == some byteOrderMark }

/-- The character at a distance; past the end it is the terminator. -/
def peek (s : Source) (distance : Nat) : Char :=
  (s.rest[distance]?).getD terminator

/-- The source after one character of the same line. -/
def skip (s : Source) : Source :=
  { s with
    rest := s.rest.drop 1, index := s.index + 1, column := s.column + 1, ready := s.ready - 1 }

/-- The number of characters that the line break at the front consists of. -/
def breakLength (s : Source) : Nat :=
  match s.rest with
  | '\r' :: '\n' :: _ => 2
  | c :: _ => if isBreak c then 1 else 0
  | [] => 0

/-- The source after the line break at the front, if there is one. -/
def skipLine (s : Source) : Source :=
  let length := s.breakLength
  if length == 0 then s
  else
    { s with
      rest := s.rest.drop length, line := s.line + 1, column := 0
      index := s.index + length, ready := s.ready - length }

/-- More than the number of characters that are left. -/
def bound (s : Source) : Nat :=
  s.size - s.index + 2

/-- Whether three equal marks and white space stand at the front. -/
def isTriple (s : Source) (mark : Char) : Bool :=
  s.peek 0 == mark && s.peek 1 == mark && s.peek 2 == mark && isSpaceOrEnd (s.peek 3)

/-- Whether a line starts here with the mark that starts or ends a document. -/
def isDocumentMark (s : Source) : Bool :=
  s.column == 0 && (s.isTriple '-' || s.isTriple '.')

end Source

end WhilePlus.Yaml
