import WhilePlus.Number.Binary64
import WhilePlus.Number.Digits

namespace WhilePlus.Number

/-- Whether a character is a decimal digit. -/
def isDigit (c : Char) : Bool :=
  '0' ≤ c && c ≤ '9'

/-- The leading digits of a text and what follows them. -/
def spanDigits (cs : List Char) : List Char × List Char :=
  (cs.takeWhile isDigit, cs.dropWhile isDigit)

/-- The value of a list of decimal digits. -/
def digitsValue (digits : List Char) : Nat :=
  digits.foldl (fun n c => n * 10 + (c.toNat - '0'.toNat)) 0

/-- Reads an optional power of ten that must end the text. -/
def readExponent : List Char → Option Int
  | [] => some 0
  | c :: rest =>
    if c == 'e' || c == 'E' then
      let (negative, rest) := splitSign rest
      let (digits, rest) := spanDigits rest
      if digits.isEmpty || !rest.isEmpty then none
      else some (if negative then -(digitsValue digits : Int) else digitsValue digits)
    else none

/-- Reads a decimal number with an optional point and power of ten; there is a
    digit before or after the point. -/
def readFloat (cs : List Char) : Except Fault Binary64 :=
  let (negative, cs) := splitSign cs
  let (whole, cs) := spanDigits cs
  let (fraction, cs) :=
    match cs with
    | '.' :: rest => spanDigits rest
    | _ => ([], cs)
  if whole.isEmpty && fraction.isEmpty then .error .malformed
  else
    match readExponent cs with
    | none => .error .malformed
    | some exponent =>
      match Binary64.ofDecimal? negative (digitsValue (whole ++ fraction))
          (exponent - fraction.length) with
      | some x => .ok x
      | none => .error .outOfRange

end WhilePlus.Number
