namespace WhilePlus

/-- A floating-point number of 64 bits. A finite one is `mantissa * 2 ^
    exponent` up to its sign, with a mantissa below `2 ^ 53` and an exponent
    that is at least -1074. -/
inductive Binary64 where
  | nan
  | infinite (negative : Bool)
  | finite (negative : Bool) (mantissa : Nat) (exponent : Int)
  deriving DecidableEq, Repr

namespace Binary64

/-- The least exponent of a finite number. -/
def minExponent : Int := -1074

/-- The greatest exponent of a finite number whose mantissa has 53 bits. -/
def maxExponent : Int := 971

/-- The least mantissa of 53 bits. -/
def fullMantissa : Nat := 4503599627370496

/-- Zero with a sign. -/
def zero (negative : Bool) : Binary64 := .finite negative 0 minExponent

/-- `num / den` as a quotient of whole numbers after multiplication with `2 ^
    (-exponent)`. -/
def scaleTwo (num den : Nat) (exponent : Int) : Nat × Nat :=
  if 0 ≤ exponent then (num, den * Nat.pow 2 exponent.toNat)
  else (num * Nat.pow 2 (-exponent).toNat, den)

/-- `digits * 10 ^ scale` as a quotient of whole numbers. -/
def scaleTen (digits : Nat) (scale : Int) : Nat × Nat :=
  if 0 ≤ scale then (digits * Nat.pow 10 scale.toNat, 1) else (digits, Nat.pow 10 (-scale).toNat)

/-- The whole number nearest to `num / den`; of two, the even one. -/
def roundHalfEven (num den : Nat) : Nat :=
  let quotient := num / den
  let rest := 2 * (num % den)
  if rest < den then quotient
  else if den < rest then quotient + 1
  else if quotient % 2 = 0 then quotient else quotient + 1

/-- The number nearest to `num / den`, for positive `num` and `den`; `none` if
    it is too large. -/
def ofRatio? (negative : Bool) (num den : Nat) : Option Binary64 :=
  let guess : Int := (num.log2 : Int) - den.log2 - 52
  -- The guess is the exponent that leaves 53 bits, or one more than that.
  let exponent :=
    let (n, d) := scaleTwo num den guess
    if n < d * fullMantissa then guess - 1 else guess
  let exponent := max exponent minExponent
  let (n, d) := scaleTwo num den exponent
  let mantissa := roundHalfEven n d
  let (mantissa, exponent) :=
    if mantissa = 2 * fullMantissa then (fullMantissa, exponent + 1) else (mantissa, exponent)
  if maxExponent < exponent then none else some (.finite negative mantissa exponent)

/-- The number nearest to `digits * 10 ^ scale`; `none` if it is too large. -/
def ofDecimal? (negative : Bool) (digits : Nat) (scale : Int) : Option Binary64 :=
  if digits = 0 then some (zero negative)
  else
    let magnitude : Int := (Nat.toDigits 10 digits).length + scale
    if 310 < magnitude then none
    else if magnitude < -326 then some (zero negative)
    else
      let (num, den) := scaleTen digits scale
      ofRatio? negative num den

/-- The whole number that a finite number equals, if there is one. -/
def toInt? : Binary64 → Option Int
  | finite negative mantissa exponent =>
    let (num, den) := scaleTwo mantissa 1 (-exponent)
    if num % den = 0 then some (if negative then -(num / den : Nat) else (num / den : Nat))
    else none
  | _ => none

/-- The whole part of a finite number. -/
def truncate? : Binary64 → Option Int
  | finite negative mantissa exponent =>
    let (num, den) := scaleTwo mantissa 1 (-exponent)
    some (if negative then -(num / den : Nat) else (num / den : Nat))
  | _ => none

/-- Whether the decimal `digits * 10 ^ scale` lies between two bounds given as
    whole numbers over one denominator. -/
def within (low high den : Nat) (closed : Bool) (digits : Nat) (scale : Int) : Bool :=
  let (n, d) := scaleTen digits scale
  if closed then low * d ≤ n * den && n * den ≤ high * d
  else low * d < n * den && n * den < high * d

/-- Twice the distance of `digits * 10 ^ scale` from `num / den`, over the
    product of the two denominators. -/
def distance (num den digits : Nat) (scale : Int) : Nat :=
  let (n, d) := scaleTen digits scale
  (n * den - num * d) + (num * d - n * den)

/-- The number of digits before the decimal point of `num / den`; zero or less
    for a fraction that starts with zeros. -/
def pointPosition (num den : Nat) : Int :=
  let guess : Int := (num.log2 : Int) - den.log2
  let low := guess * 30103 / 100000 - 1
  let reaches (k : Int) : Bool :=
    let (n, d) := scaleTen 1 k
    den * n ≤ num * d
  if reaches (low + 2) then low + 3
  else if reaches (low + 1) then low + 2
  else if reaches low then low + 1
  else low

/-- A decimal with at most the given number of digits that lies in the interval,
    the nearer of the two neighbours of the number if both do. -/
def shortestWith (num den low high : Nat) (closed : Bool) (point : Int) (count : Nat) :
    Option (Nat × Int) :=
  let scale := point - count
  let floor :=
    let (n, d) := scaleTen 1 scale
    num * d / (den * n)
  let below := within low high den closed floor scale
  let above := within low high den closed (floor + 1) scale
  if below && above then
    let nearer := distance num den (floor + 1) scale < distance num den floor scale
    some (if nearer then floor + 1 else floor, scale)
  else if below then some (floor, scale)
  else if above then some (floor + 1, scale)
  else none

/-- The fewest digits that read back as a positive finite number: `digits * 10 ^
    scale`. -/
def shortest (mantissa : Nat) (exponent : Int) : Nat × Int :=
  let num := 4 * mantissa
  let lowGap := if mantissa = fullMantissa && minExponent < exponent then 1 else 2
  let (den, factor) :=
    if 2 ≤ exponent then (1, Nat.pow 2 (exponent - 2).toNat)
    else (Nat.pow 2 (2 - exponent).toNat, 1)
  let value := num * factor
  let low := (num - lowGap) * factor
  let high := (num + 2) * factor
  let closed := mantissa % 2 = 0
  let point := pointPosition value den
  match (List.range' 1 17).findSome? (shortestWith value den low high closed point) with
  | some decimal => decimal
  | none => (mantissa, 0)

/-- Drops zeros at the end of a list of digits. -/
def dropTrailingZeros (digits : List Char) : List Char :=
  (digits.reverse.dropWhile (· == '0')).reverse

/-- Digits whose decimal point stands after the first `point` of them, written
    out or with a power of ten. -/
def layout (digits : List Char) (point : Int) : List Char :=
  let exponent := point - 1
  if exponent < -4 || 6 ≤ exponent then
    let fraction := digits.drop 1
    let power := Nat.toDigits 10 exponent.natAbs
    digits.take 1 ++ (if fraction.isEmpty then [] else '.' :: fraction) ++
      ['e', if exponent < 0 then '-' else '+'] ++ (if power.length < 2 then '0' :: power else power)
  else if point ≤ 0 then
    '0' :: '.' :: (List.replicate (-point).toNat '0' ++ digits)
  else
    let whole := digits.take point.toNat
    let fraction := digits.drop point.toNat
    whole ++ List.replicate (point.toNat - whole.length) '0' ++
      (if fraction.isEmpty then [] else '.' :: fraction)

/-- The number as messages show it: the fewest digits that read back, with a
    power of ten below `10 ^ (-4)` and from `10 ^ 6` on. -/
def display : Binary64 → String
  | nan => "NaN"
  | infinite negative => if negative then "-Inf" else "+Inf"
  | finite negative mantissa exponent =>
    let sign := if negative then ['-'] else []
    if mantissa = 0 then String.ofList (sign ++ ['0'])
    else
      let (digits, scale) := shortest mantissa exponent
      let all := Nat.toDigits 10 digits
      String.ofList (sign ++ layout (dropTrailingZeros all) (all.length + scale))

end Binary64

end WhilePlus
