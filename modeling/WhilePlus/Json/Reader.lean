import WhilePlus.Document.Basic
import WhilePlus.Number.Decimal
import WhilePlus.Text.Character

namespace WhilePlus.Json

/-- How deep lists and records may be nested. -/
def maxDepth : Nat := 10000

/-- White space between tokens. -/
def isSpace (c : Char) : Bool :=
  c == ' ' || c == '\t' || c == '\n' || c == '\r'

/-- Drops white space from the front. -/
def skipSpace (cs : List Char) : List Char :=
  cs.dropWhile isSpace

/-- A character of a string, or one that is given by its number. -/
inductive Piece where
  | plain (c : Char)
  | code (n : Nat)
  deriving DecidableEq, Repr

/-- What a backslash with one more character stands for. -/
def simpleEscape? : Char → Option Char
  | '"' => some '"'
  | '\\' => some '\\'
  | '/' => some '/'
  | 'b' => some (Char.ofNat 8)
  | 'f' => some (Char.ofNat 12)
  | 'n' => some '\n'
  | 'r' => some '\r'
  | 't' => some '\t'
  | _ => none

/-- The number that four hexadecimal digits spell. -/
def hexValue? (digits : List Char) : Option Nat :=
  match Number.readDigits 16 0 digits with
  | .ok n => some n
  | .error _ => none

/-- Reads the pieces of a string up to its closing quote. -/
def pieces : List Char → Option (List Piece × List Char)
  | '"' :: rest => some ([], rest)
  | '\\' :: 'u' :: a :: b :: c :: d :: rest => do
    let n ← hexValue? [a, b, c, d]
    let (more, rest) ← pieces rest
    some (.code n :: more, rest)
  | '\\' :: c :: rest => do
    let e ← simpleEscape? c
    let (more, rest) ← pieces rest
    some (.plain e :: more, rest)
  | c :: rest =>
    if c.toNat < 0x20 || c == '\\' then none
    else do
      let (more, rest) ← pieces rest
      some (.plain c :: more, rest)
  | [] => none

/-- The character of a surrogate pair. -/
def pairChar? (high low : Nat) : Option Char :=
  if 0xD800 ≤ high && high < 0xDC00 && 0xDC00 ≤ low && low < 0xE000 then
    some (Char.ofNat (0x10000 + (high - 0xD800) * 0x400 + (low - 0xDC00)))
  else none

/-- The character of a number on its own: half of a pair is no character, and is
    replaced. -/
def codeChar (n : Nat) : Char :=
  if 0xD800 ≤ n && n < 0xE000 then Text.replacement else Char.ofNat n

/-- The characters of a string: two numbers that form a surrogate pair are one
    character. -/
def joinPieces : List Piece → List Char
  | [] => []
  | .plain c :: rest => c :: joinPieces rest
  | .code high :: .code low :: rest =>
    match pairChar? high low with
    | some c => c :: joinPieces rest
    | none => codeChar high :: joinPieces (.code low :: rest)
  | .code n :: rest => codeChar n :: joinPieces rest

/-- Reads a string after its opening quote. -/
def string (cs : List Char) : Option (String × List Char) := do
  let (parts, rest) ← pieces cs
  some (Text.ofChars (joinPieces parts), rest)

/-- Reads one or more digits. -/
def digits (cs : List Char) : Option (List Char × List Char) :=
  let (ds, rest) := Number.spanDigits cs
  if ds.isEmpty then none else some (ds, rest)

/-- Reads the part of a number before the point: a single zero, or digits
    without one in front. -/
def wholePart : List Char → Option (List Char × List Char)
  | '0' :: rest => some (['0'], rest)
  | cs => digits cs

/-- Reads a point and digits, if there is a point. -/
def fractionPart : List Char → Option (List Char × List Char)
  | '.' :: rest => (digits rest).map fun (ds, rest) => ('.' :: ds, rest)
  | cs => some ([], cs)

/-- Reads a power of ten, if there is one. -/
def exponentPart : List Char → Option (List Char × List Char)
  | c :: rest =>
    if c == 'e' || c == 'E' then
      match rest with
      | '+' :: rest => (digits rest).map fun (ds, rest) => (c :: '+' :: ds, rest)
      | '-' :: rest => (digits rest).map fun (ds, rest) => (c :: '-' :: ds, rest)
      | rest => (digits rest).map fun (ds, rest) => (c :: ds, rest)
    else some ([], c :: rest)
  | [] => some ([], [])

/-- Reads a number without its sign. -/
def unsignedNumber (cs : List Char) : Option (List Char × List Char) := do
  let (whole, cs) ← wholePart cs
  let (fraction, cs) ← fractionPart cs
  let (exponent, cs) ← exponentPart cs
  some (whole ++ fraction ++ exponent, cs)

/-- Reads the text of a number. -/
def numberText : List Char → Option (String × List Char)
  | '-' :: cs => (unsignedNumber cs).map fun (ds, rest) => (String.ofList ('-' :: ds), rest)
  | cs => (unsignedNumber cs).map fun (ds, rest) => (String.ofList ds, rest)

/-- What the text of a number stands for; `none` if that is nothing. This is
    asked where the number is read, so that a number that stands for nothing is
    an error even where a later field of the same name replaces it. -/
abbrev Numeral := String → Option Document

/-- A number as it is written. -/
def literalNumeral : Numeral :=
  fun text => some (.number text)

/-- Reads a number. -/
def number (numeral : Numeral) (cs : List Char) : Option (Document × List Char) := do
  let (text, rest) ← numberText cs
  let d ← numeral text
  some (d, rest)

/-- Reads items that are divided by commas, up to a closing character; `bound`
    is more than their number. -/
def items {α : Type} (item : List Char → Option (α × List Char)) (close : Char) :
    Nat → List Char → Option (List α × List Char)
  | 0, _ => none
  | bound + 1, cs => do
    let (first, rest) ← item cs
    match skipSpace rest with
    | ',' :: rest => do
      let (more, rest) ← items item close bound rest
      some (first :: more, rest)
    | c :: rest => if c == close then some ([first], rest) else none
    | [] => none

/-- Reads what stands between an opening and a closing character. -/
def group {α : Type} (item : List Char → Option (α × List Char)) (close : Char) (bound : Nat)
    (cs : List Char) : Option (List α × List Char) :=
  match skipSpace cs with
  | c :: rest => if c == close then some ([], rest) else items item close bound cs
  | [] => none

/-- Reads a name, a colon and a value. -/
def field (value : List Char → Option (Document × List Char)) (cs : List Char) :
    Option ((String × Document) × List Char) :=
  match skipSpace cs with
  | '"' :: rest => do
    let (name, rest) ← string rest
    match skipSpace rest with
    | ':' :: rest => do
      let (member, rest) ← value rest
      some ((name, member), rest)
    | _ => none
  | _ => none

/-- The record of some fields; of two with one name the later wins. -/
def recordOf (fields : List (String × Document)) : Document :=
  .record (fields.foldl (fun known f => Document.setField known f.1 f.2) [])

/-- Reads a value that is no list and no record. -/
def scalar (numeral : Numeral) : List Char → Option (Document × List Char)
  | '"' :: rest => (string rest).map fun (s, rest) => (.text s, rest)
  | 't' :: 'r' :: 'u' :: 'e' :: rest => some (.bool true, rest)
  | 'f' :: 'a' :: 'l' :: 's' :: 'e' :: rest => some (.bool false, rest)
  | 'n' :: 'u' :: 'l' :: 'l' :: rest => some (.null, rest)
  | cs => number numeral cs

/-- Reads one value in which lists and records are nested at most `depth` deep
    and have fewer items than `bound`. -/
def value (numeral : Numeral) (bound : Nat) : Nat → List Char → Option (Document × List Char)
  | 0, cs => scalar numeral (skipSpace cs)
  | depth + 1, cs =>
    match skipSpace cs with
    | '[' :: rest =>
      (group (value numeral bound depth) ']' bound rest).map fun (xs, rest) => (.list xs, rest)
    | '\x7b' :: rest =>
      (group (field (value numeral bound depth)) '\x7d' bound rest).map
        fun (fs, rest) => (recordOf fs, rest)
    | cs => scalar numeral cs

/-- Reads the value at the front of a text, with numbers as they are written,
    and ignores what follows it. -/
def readFirst? (cs : List Char) : Option Document :=
  (value literalNumeral cs.length maxDepth cs).map Prod.fst

end WhilePlus.Json
