import WhilePlus.Document.Timestamp
import WhilePlus.Number.Decimal

namespace WhilePlus.Yaml

/-- Reads one or two digits. -/
def shortNumber : List Char → Option (Nat × List Char)
  | a :: b :: rest =>
    if !Number.isDigit a then none
    else if Number.isDigit b then some (Number.digitsValue [a, b], rest)
    else some (Number.digitsValue [a], b :: rest)
  | [a] => if Number.isDigit a then some (Number.digitsValue [a], []) else none
  | [] => none

/-- Reads a given character. -/
def expectChar (c : Char) : List Char → Option (List Char)
  | d :: rest => if d == c then some rest else none
  | [] => none

/-- Whether a year has a 29th of February. -/
def isLeapYear (year : Nat) : Bool :=
  year % 4 == 0 && (year % 100 != 0 || year % 400 == 0)

/-- The number of days of a month. -/
def daysIn (month year : Nat) : Nat :=
  if month == 2 then (if isLeapYear year then 29 else 28)
  else if month == 4 || month == 6 || month == 9 || month == 11 then 30
  else 31

/-- Reads a year of four digits, a month and a day. -/
def readDate (cs : List Char) : Option (Timestamp × List Char) := do
  let (year, rest) := Number.spanDigits cs
  if year.length != 4 then none
  else
    let rest ← expectChar '-' rest
    let (month, rest) ← shortNumber rest
    let rest ← expectChar '-' rest
    let (day, rest) ← shortNumber rest
    let year := Number.digitsValue year
    if month == 0 || 12 < month || day == 0 || daysIn month year < day then none
    else some (⟨year, month, day, 0, 0, 0, 0, 0⟩, rest)

/-- Reads a part of a second after a point or a comma, if there is one; digits
    after the ninth do not count. -/
def readFraction : List Char → Nat × List Char
  | c :: d :: rest =>
    if (c == '.' || c == ',') && Number.isDigit d then
      let (digits, after) := Number.spanDigits (d :: rest)
      let kept := digits.take 9
      (Number.digitsValue kept * Nat.pow 10 (9 - kept.length), after)
    else (0, c :: d :: rest)
  | cs => (0, cs)

/-- Reads hours, minutes and seconds. -/
def readTimeOfDay (t : Timestamp) (cs : List Char) : Option (Timestamp × List Char) := do
  let (hour, rest) ← shortNumber cs
  let rest ← expectChar ':' rest
  let (minute, rest) ← shortNumber rest
  let rest ← expectChar ':' rest
  let (second, rest) ← shortNumber rest
  let (nanosecond, rest) := readFraction rest
  if 23 < hour || 59 < minute || 59 < second then none
  else some ({ t with hour, minute, second, nanosecond }, rest)

/-- Reads a zone that ends the text: the letter Z, or a sign with hours and
    minutes. -/
def readZone : List Char → Option Int
  | ['Z'] => some 0
  | [sign, a, b, ':', c, d] =>
    if [a, b, c, d].all Number.isDigit then
      let hours := Number.digitsValue [a, b]
      let minutes := Number.digitsValue [c, d]
      if 24 < hours || 60 < minutes then none
      else if sign == '+' then some (hours * 60 + minutes)
      else if sign == '-' then some (-(hours * 60 + minutes))
      else none
    else none
  | _ => none

/-- Reads a point in time: a date alone, a date and a time of day after blanks,
    or a date and a time with a zone after the letter T. -/
def readTime? (text : String) : Option Timestamp := do
  let (date, rest) ← readDate text.toList
  match rest with
  | [] => some date
  | c :: rest =>
    if c == 'T' || c == 't' then do
      let (t, rest) ← readTimeOfDay date rest
      let zone ← readZone rest
      some { t with zone }
    else if c == ' ' then do
      let (t, rest) ← readTimeOfDay date (rest.dropWhile (· == ' '))
      if rest.isEmpty then some t else none
    else none

end WhilePlus.Yaml
