import WhilePlus.Text.Quoted

namespace WhilePlus

/-- A calendar date with a time of day. Without a zone the time is universal
    time. -/
structure Timestamp where
  year : Nat
  month : Nat
  day : Nat
  hour : Nat
  minute : Nat
  second : Nat
  nanosecond : Nat
  /-- Minutes east of universal time. -/
  zone : Int
  deriving DecidableEq, Repr

namespace Timestamp

/-- A number with zeros in front, up to a width. -/
def padded (width n : Nat) : String :=
  let digits := Nat.toDigits 10 n
  String.ofList (List.replicate (width - digits.length) '0' ++ digits)

/-- The part of a second after the point, without zeros at its end. -/
def fraction (nanosecond : Nat) : String :=
  if nanosecond = 0 then ""
  else
    let digits := (padded 9 nanosecond).toList
    "." ++ String.ofList (digits.reverse.dropWhile (· == '0')).reverse

/-- Hours and minutes of a zone, with its sign. -/
def zoneDigits (zone : Int) : String :=
  (if zone < 0 then "-" else "+") ++ padded 2 (zone.natAbs / 60) ++ padded 2 (zone.natAbs % 60)

/-- Date, time, zone and the name of the zone, which is its distance again
    except for universal time. -/
def display (t : Timestamp) : String :=
  padded 4 t.year ++ "-" ++ padded 2 t.month ++ "-" ++ padded 2 t.day ++ " " ++
    padded 2 t.hour ++ ":" ++ padded 2 t.minute ++ ":" ++ padded 2 t.second ++
    fraction t.nanosecond ++ " " ++ zoneDigits t.zone ++ " " ++
    (if t.zone = 0 then "UTC" else zoneDigits t.zone)

end Timestamp

/-- Year, month and day of the day with a number, counted from the first of
    January 1970. Years start in March here, so that the day that leap years add
    is their last. -/
def calendarDate (number : Nat) : Nat × Nat × Nat :=
  let shifted := number + 719468
  let era := shifted / 146097
  let day := shifted % 146097
  let year := (day - day / 1460 + day / 36524 - day / 146096) / 365
  let dayOfYear := day - (365 * year + year / 4 - year / 100)
  let month := (5 * dayOfYear + 2) / 153
  let dayOfMonth := dayOfYear - (153 * month + 2) / 5 + 1
  if month < 10 then (400 * era + year, month + 3, dayOfMonth)
  else (400 * era + year + 1, month - 9, dayOfMonth)

/-- The time after some seconds since the start of 1970. -/
def Timestamp.ofSeconds (seconds nanosecond : Nat) : Timestamp :=
  let (year, month, day) := calendarDate (seconds / 86400)
  let rest := seconds % 86400
  ⟨year, month, day, rest / 3600, rest / 60 % 60, rest % 60, nanosecond, 0⟩

/-- Date and time of day, divided by the letter T. -/
def Timestamp.dateTime (t : Timestamp) : String :=
  padded 4 t.year ++ "-" ++ padded 2 t.month ++ "-" ++ padded 2 t.day ++ "T" ++
    padded 2 t.hour ++ ":" ++ padded 2 t.minute ++ ":" ++ padded 2 t.second

/-- A time as it stands in a lockfile. -/
def Timestamp.lockText (t : Timestamp) : String :=
  t.dateTime ++ "Z"

/-- A time as it stands in a log record, with thousandths of a second. -/
def Timestamp.logText (t : Timestamp) : String :=
  t.dateTime ++ "." ++ padded 3 (t.nanosecond / 1000000) ++ "Z"

/-- An identifier made from a random number below 2 ^ 128: groups of hexadecimal
    digits, of which one marks it as random and one as of the common variant. -/
def randomIdentifier (n : Nat) : String :=
  let group (width shift : Nat) : String :=
    String.ofList (Text.hex width (n / Nat.pow 2 shift % Nat.pow 16 width))
  let variant := String.ofList (Text.hex 4 (n / Nat.pow 2 48 % 16384 + 32768))
  group 8 96 ++ "-" ++ group 4 80 ++ "-4" ++ group 3 64 ++ "-" ++ variant ++ "-" ++ group 12 0

end WhilePlus
