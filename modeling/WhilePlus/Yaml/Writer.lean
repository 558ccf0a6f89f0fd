import WhilePlus.Text.Base64
import WhilePlus.Text.Quoted
import WhilePlus.Yaml.Resolve
import WhilePlus.Yaml.Charset

namespace WhilePlus.Yaml

/-- Whether two neighbours of a list satisfy two conditions. -/
def hasNeighbours (p q : Char → Bool) : List Char → Bool
  | a :: b :: rest => (p a && q b) || hasNeighbours p q (b :: rest)
  | _ => false

/-- Whether a character is written as it is between double quotes. -/
def isWritable (c : Char) : Bool :=
  let n := c.toNat
  n == 10 || (0x20 ≤ n && n ≤ 0x7E) || (0xA0 ≤ n && n ≤ 0xFFFD && n != 0xFEFF)

/-- Whether a number in base sixty could be meant: digits with groups of two
    after colons. -/
def isSexagesimal (text : String) : Bool :=
  let (_, cs) := Number.splitSign text.toList
  let isPart (c : Char) : Bool := Number.isDigit c || c == '_'
  let rec groups : Bool → List Char → Bool
    | _, ':' :: a :: b :: rest =>
      if Number.isDigit b then '0' ≤ a && a ≤ '5' && groups true rest
      else Number.isDigit a && groups true (b :: rest)
    | _, [':', a] => Number.isDigit a
    | found, '.' :: rest => found && rest.all isPart
    | found, [] => found
    | _, _ => false
  match cs with
  | c :: rest => Number.isDigit c && groups false (rest.dropWhile isPart)
  | [] => false

/-- Whether a plain scalar would be read back as text. -/
def readsAsText (text : String) : Bool :=
  plainTag text == strTag && !isSexagesimal text && !oldTrueWords.contains text &&
    !oldFalseWords.contains text

/-- Whether a text holds a character that has a meaning where it stands. -/
def hasIndicator (cs : List Char) : Bool :=
  let endsOrBlank : Option Char → Bool
    | some c => isBlank c
    | none => true
  let rec colons : List Char → Bool
    | [] => false
    | ':' :: rest => endsOrBlank rest.head? || colons rest
    | _ :: rest => colons rest
  let first :=
    match cs with
    | c :: rest =>
      "#,[]\x7b\x7d&*!|>'\"%@`".toList.contains c ||
        ((c == '?' || c == '-') && endsOrBlank rest.head?)
    | [] => false
  first || colons cs || hasNeighbours isSpaceOrEnd (· == '#') cs ||
    "---".toList.isPrefixOf cs || "...".toList.isPrefixOf cs

/-- What a text allows. -/
structure Forms where
  plain : Bool
  single : Bool
  block : Bool
  deriving DecidableEq, Repr

/-- The forms that a text can be written in. -/
def forms (cs : List Char) : Forms :=
  let isSpace (c : Char) : Bool := c == ' '
  let edge (p : Char → Bool) : Bool :=
    (cs.head?.map p).getD false || (cs.getLast?.map p).getD false
  let special := cs.any fun c => c != '\t' && !isWritable c
  let spaceBreak := hasNeighbours isSpace isBreak cs
  let single :=
    !(hasNeighbours isBreak isSpace cs || spaceBreak || cs.contains '\t' || special)
  { plain := single && !edge isSpace && !cs.any isBreak && !hasIndicator cs
    single
    block := !((cs.getLast?.map isSpace).getD false || spaceBreak || special) }

/-- The escape of a character between double quotes. -/
def escapeText (c : Char) : List Char :=
  let upper (width n : Nat) : List Char := (Text.hex width n).map Char.toUpper
  match c.toNat with
  | 0x00 => ['\\', '0']
  | 0x07 => ['\\', 'a']
  | 0x08 => ['\\', 'b']
  | 0x09 => ['\\', 't']
  | 0x0A => ['\\', 'n']
  | 0x0B => ['\\', 'v']
  | 0x0C => ['\\', 'f']
  | 0x0D => ['\\', 'r']
  | 0x1B => ['\\', 'e']
  | 0x22 => ['\\', '"']
  | 0x5C => ['\\', '\\']
  | 0x85 => ['\\', 'N']
  | 0xA0 => ['\\', '_']
  | 0x2028 => ['\\', 'L']
  | 0x2029 => ['\\', 'P']
  | n =>
    if n ≤ 0xFF then '\\' :: 'x' :: upper 2 n
    else if n ≤ 0xFFFF then '\\' :: 'u' :: upper 4 n
    else '\\' :: 'U' :: upper 8 n

/-- A text between double quotes. If it starts with a byte order mark, every
    character is escaped. -/
def writeDouble (cs : List Char) : List Char :=
  let marked := cs.head? == some byteOrderMark
  '"' :: cs.flatMap (fun c =>
    if marked || !isWritable c || isBreak c || c == '"' || c == '\\' then escapeText c
    else [c]) ++ ['"']

/-- A text between single quotes; a line that starts inside it is indented. -/
def writeSingle (indent : Nat) (cs : List Char) : List Char :=
  let quote := Char.ofNat 39
  let rec quoted : Bool → List Char → List Char
    | _, [] => [quote]
    | fresh, c :: rest =>
      if isBreak c then c :: quoted true rest
      else
        (if fresh then List.replicate indent ' ' else []) ++
          (if c == quote then [quote, quote] else [c]) ++ quoted false rest
  quote :: quoted false cs

/-- The marks after the bar of a text that is written as lines: how deep it is
    indented if it starts with white space, and what happens to the breaks at
    its end. -/
def blockMarks (cs : List Char) : List Char :=
  let starts := (cs.head?.map fun c => c == ' ' || isBreak c).getD false
  let chomp :=
    match cs.reverse with
    | [] => ['-']
    | last :: before =>
      if !isBreak last then ['-']
      else if (before.head?.map isBreak).getD true then ['+']
      else []
  (if starts then ['2'] else []) ++ chomp

/-- A text as indented lines. -/
def writeLines (indent : Nat) (cs : List Char) : List Char :=
  let rec lines : Bool → List Char → List Char
    | _, [] => []
    | fresh, c :: rest =>
      if isBreak c then c :: lines true rest
      else (if fresh then List.replicate indent ' ' else []) ++ c :: lines false rest
  let header := '|' :: blockMarks cs
  match cs with
  | c :: _ => if isBreak c then header ++ lines true cs else header ++ '\n' :: lines true cs
  | [] => header

/-- Writes characters; what is inside them is indented by the given number of
    blanks. -/
def writeChars (indent : Nat) (cs : List Char) : List Char :=
  let allowed := forms cs
  if cs.contains '\n' then
    if allowed.block then writeLines indent cs else writeDouble cs
  else if !readsAsText (Text.ofChars cs) then writeDouble cs
  else if allowed.plain then cs
  else if allowed.single then writeSingle indent cs
  else writeDouble cs

/-- The length of the lines that digits in base 64 are divided into. -/
def binaryWidth : Nat := 70

/-- Divides digits into lines, where the current one has room for some more;
    every line ends. -/
def divideDigits : Nat → List Char → List Char
  | _, [] => ['\n']
  | 0, c :: rest => '\n' :: c :: divideDigits (binaryWidth - 1) rest
  | room + 1, c :: rest => c :: divideDigits room rest

/-- Writes bytes in base 64; a long list of digits is divided into lines. -/
def writeBinary (indent : Nat) (bytes : List UInt8) : List Char :=
  let digits := Base64.encode bytes
  "!!binary ".toList ++
    if digits.length < binaryWidth then digits
    else writeLines indent (divideDigits binaryWidth digits)

/-- Writes a text; what is inside it is indented by the given number of blanks.
    It is written plain if it reads back as the same text, as indented lines if
    it has several, and between quotes otherwise. Bytes that spell no characters
    are written in base 64. -/
def writeScalar (indent : Nat) (text : String) : String :=
  String.ofList <|
    if Text.isWellFormed text then writeChars indent (Text.shownChars text)
    else writeBinary indent (Text.toBytes text)

/-- A line with a name and a text. -/
def writeField (margin : Nat) (lead name text : String) : String :=
  let value := writeScalar (margin + 2) text
  let line := lead ++ name ++ ": " ++ value
  if (value.toList.getLast?.map isBreak).getD false then line else line ++ "\n"

end WhilePlus.Yaml
