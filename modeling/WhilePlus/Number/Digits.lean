import WhilePlus.Text.Quoted

namespace WhilePlus.Number

/-- Why a text is no number. -/
inductive Fault where
  | malformed
  | outOfRange
  deriving DecidableEq, Repr

/-- What is said of a text that was read as a decimal integer and is none. -/
def Fault.message (text : String) (fault : Fault) : String :=
  "strconv.ParseInt: parsing " ++ Text.quote text ++
    match fault with
    | .malformed => ": invalid syntax"
    | .outOfRange => ": value out of range"

/-- The number of values of 64 bits. -/
def wordLimit : Nat := 18446744073709551616

/-- How many negative numbers have 64 bits; the greatest number of 64 bits is
    one less. -/
def signedLimit : Nat := 9223372036854775808

/-- The value of a digit or letter, ten for `a`. -/
def digitValue? (c : Char) : Option Nat :=
  if '0' ≤ c && c ≤ '9' then some (c.toNat - '0'.toNat)
  else if 'a' ≤ c && c ≤ 'z' then some (c.toNat - 'a'.toNat + 10)
  else if 'A' ≤ c && c ≤ 'Z' then some (c.toNat - 'A'.toNat + 10)
  else none

/-- Reads digits after a part that is already read as `n`. The first fault from
    the left ends this: a character that is no digit of the base, or a number
    that leaves 64 bits, whatever follows it. -/
def readDigits (base n : Nat) : List Char → Except Fault Nat
  | [] => .ok n
  | c :: rest =>
    match digitValue? c with
    | none => .error .malformed
    | some d =>
      if base ≤ d then .error .malformed
      else if wordLimit ≤ n * base + d then .error .outOfRange
      else readDigits base (n * base + d) rest

/-- Reads at least one digit. -/
def readNat (base : Nat) (cs : List Char) : Except Fault Nat :=
  if cs.isEmpty then .error .malformed else readDigits base 0 cs

/-- Splits off a sign; the first part says whether it is a minus. -/
def splitSign : List Char → Bool × List Char
  | '-' :: rest => (true, rest)
  | '+' :: rest => (false, rest)
  | cs => (false, cs)

/-- A magnitude with its sign, if it fits 64 bits. -/
def signed (negative : Bool) (magnitude : Nat) : Except Fault Int64 :=
  if negative then
    if magnitude ≤ signedLimit then .ok (Int64.ofInt (-magnitude)) else .error .outOfRange
  else if magnitude < signedLimit then .ok (Int64.ofInt magnitude)
  else .error .outOfRange

/-- Reads a signed integer of 64 bits in the given base. -/
def readInt (base : Nat) (cs : List Char) : Except Fault Int64 := do
  let (negative, digits) := splitSign cs
  signed negative (← readNat base digits)

/-- Reads a signed decimal integer of 64 bits. -/
def parseInt (text : String) : Except Fault Int64 :=
  readInt 10 text.toList

/-- Splits off what tells the base: `0x`, `0o`, `0b` in either case, or a
    leading zero for octal. -/
def splitBase : List Char → Nat × List Char
  | '0' :: c :: d :: rest =>
    if c == 'x' || c == 'X' then (16, d :: rest)
    else if c == 'o' || c == 'O' then (8, d :: rest)
    else if c == 'b' || c == 'B' then (2, d :: rest)
    else (8, c :: d :: rest)
  | '0' :: rest => (8, rest)
  | cs => (10, cs)

/-- Reads a natural number of 64 bits whose first characters tell its base. -/
def readPrefixedNat (cs : List Char) : Except Fault Nat :=
  if cs.isEmpty then .error .malformed
  else
    let (base, digits) := splitBase cs
    readDigits base 0 digits

/-- Reads a signed integer of 64 bits whose first characters tell its base. -/
def readPrefixedInt (cs : List Char) : Except Fault Int64 := do
  let (negative, digits) := splitSign cs
  signed negative (← readPrefixedNat digits)

end WhilePlus.Number
