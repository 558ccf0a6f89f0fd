import WhilePlus.Document.Basic
import WhilePlus.Yaml.Time

namespace WhilePlus.Yaml

/-- The names of tags, in their short form. -/
def nullTag : String := "!!null"
/-- The tag of truth values. -/
def boolTag : String := "!!bool"
/-- The tag of texts. -/
def strTag : String := "!!str"
/-- The tag of whole numbers. -/
def intTag : String := "!!int"
/-- The tag of floating-point numbers. -/
def floatTag : String := "!!float"
/-- The tag of points in time. -/
def timestampTag : String := "!!timestamp"
/-- The tag of lists. -/
def seqTag : String := "!!seq"
/-- The tag of mappings. -/
def mapTag : String := "!!map"
/-- The tag of bytes. -/
def binaryTag : String := "!!binary"
/-- The tag of the key that merges mappings. -/
def mergeTag : String := "!!merge"

/-- The short form of a tag: the name space of the standard tags is written with
    two marks. -/
def shortTag (tag : String) : String :=
  let long := "tag:yaml.org,2002:".toList
  let cs := tag.toList
  if long.isPrefixOf cs then "!!" ++ String.ofList (cs.drop long.length) else tag

/-- The words for truth values, null and numbers that are not finite. -/
def wordValue? : String → Option (String × Document)
  | "true" | "True" | "TRUE" => some (boolTag, .bool true)
  | "false" | "False" | "FALSE" => some (boolTag, .bool false)
  | "" | "~" | "null" | "Null" | "NULL" => some (nullTag, .null)
  | ".nan" | ".NaN" | ".NAN" => some (floatTag, .float .nan)
  | ".inf" | ".Inf" | ".INF" => some (floatTag, .float (.infinite false))
  | "+.inf" | "+.Inf" | "+.INF" => some (floatTag, .float (.infinite false))
  | "-.inf" | "-.Inf" | "-.INF" => some (floatTag, .float (.infinite true))
  | _ => none

/-- The words that older readers take for true. -/
def oldTrueWords : List String :=
  ["y", "Y", "yes", "Yes", "YES", "on", "On", "ON"]

/-- The words that older readers take for false. -/
def oldFalseWords : List String :=
  ["n", "N", "no", "No", "NO", "off", "Off", "OFF"]

/-- The whole number that a reader found, as a document. -/
def wholeNumber? (signed : Except Number.Fault Int64) (unsigned : Except Number.Fault Nat) :
    Option (String × Document) :=
  match signed, unsigned with
  | .ok n, _ => some (intTag, .int n)
  | .error _, .ok n => some (intTag, .uint64 n.toUInt64)
  | .error _, .error _ => none

/-- Reads the digits of a whole number in the given base, which may have a sign
    of their own. -/
def digitsAfterMark? (base : Nat) (rest : List Char) : Option (String × Document) :=
  wholeNumber? (Number.readInt base rest) (Number.readNat base rest)

/-- The floating-point number that a text stands for. -/
def floatNumber? (cs : List Char) : Option (String × Document) :=
  match Number.readFloat cs with
  | .ok x => some (floatTag, .float x)
  | .error _ => none

/-- The number that a text without underscores stands for. -/
def numberValue? (cs : List Char) : Option (String × Document) :=
  (wholeNumber? (Number.readPrefixedInt cs) (Number.readPrefixedNat cs)).or <|
    (floatNumber? cs).or <|
    match cs with
    | '0' :: 'b' :: rest => digitsAfterMark? 2 rest
    | '-' :: '0' :: 'b' :: rest => wholeNumber? (Number.readInt 2 ('-' :: rest)) (.error .malformed)
    | '0' :: 'o' :: rest => digitsAfterMark? 8 rest
    | '-' :: '0' :: 'o' :: rest => wholeNumber? (Number.readInt 8 ('-' :: rest)) (.error .malformed)
    | _ => none

/-- Whether every underscore of a text stands between two digits. -/
def underscoresOk : Option Char → List Char → Bool
  | _, [] => true
  | before, '_' :: rest =>
    (before.map Number.isDigit).getD false && (rest.head?.map Number.isDigit).getD false &&
      underscoresOk (some '_') rest
  | _, c :: rest => underscoresOk (some c) rest

/-- The number that a text stands for whose first character is a point. -/
def pointNumber? (cs : List Char) : Option (String × Document) :=
  if underscoresOk none cs then floatNumber? (cs.filter (· != '_')) else none

/-- What a scalar may stand for besides text; `dated` allows points in time. The
    first character tells what it may be: a number, a point in time, or a word. -/
def specialValue? (dated : Bool) (text : String) : Option (String × Document) :=
  let cs := text.toList
  match cs.head? with
  | none => wordValue? text
  | some c =>
    if c == '.' then (wordValue? text).or (pointNumber? cs)
    else if c == '+' || c == '-' || Number.isDigit c then
      (wordValue? text).or <|
        (if dated then (readTime? text).map fun t => (timestampTag, .time t) else none).or <|
        numberValue? (cs.filter (· != '_'))
    else if "yYnNtTfFoO~".toList.contains c then wordValue? text
    else none

/-- The tag of a plain scalar that has none of its own. -/
def plainTag (text : String) : String :=
  ((specialValue? true text).map Prod.fst).getD strTag

/-- Whether scalars with this tag are looked into. -/
def isResolvable (tag : String) : Bool :=
  [strTag, boolTag, intTag, floatTag, nullTag, timestampTag].contains tag

/-- What a scalar with a tag stands for; `none` if it does not fit the tag. A
    whole number fits the tag of floating-point numbers. -/
def resolve? (tag text : String) : Option Document :=
  if !isResolvable tag || tag == strTag then some (.text text)
  else
    let (found, value) := (specialValue? (tag == timestampTag) text).getD (strTag, .text text)
    if found == tag then some value
    else if tag == floatTag && found == intTag then
      match value with
      | .int n =>
        (Binary64.ofDecimal? (n < 0) n.toInt.natAbs 0).map .float
      | _ => none
    else none

end WhilePlus.Yaml
