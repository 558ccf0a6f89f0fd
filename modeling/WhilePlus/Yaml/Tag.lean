import WhilePlus.Number.Decimal
import WhilePlus.Number.Digits
import WhilePlus.Yaml.Scan

namespace WhilePlus.Yaml

open Scan

/-- Whether a character may stand in a tag. -/
def isTagChar (c : Char) : Bool :=
  isWordChar c || ";/?:@&=+$,.!~*'()[]%".toList.contains c

/-- Reads the escape of a byte. -/
def escapedByte : Scan UInt8 := do
  need 3
  if (← peek 0) != '%' then failure
  else
    match Number.readDigits 16 0 [← peek 1, ← peek 2] with
    | .ok n => do
      skipMany 3
      pure n.toUInt8
    | .error _ => failure

/-- Reads the escapes of bytes that continue a character. -/
def escapedTail : Nat → Scan (List UInt8)
  | 0 => pure []
  | more + 1 => do
    let b ← escapedByte
    if (Text.continuation? b).isNone then failure
    else pure (b :: (← escapedTail more))

/-- Reads the escapes of the bytes of one character. Their number is right;
    whether they spell a character is not asked. -/
def escapedBytes : Scan (List UInt8) := do
  let b ← escapedByte
  match Encoding.moreBytes? b with
  | some more => do pure (b :: (← escapedTail more))
  | none => failure

/-- Reads the bytes of the characters of a tag. -/
def tagBytes : Nat → Scan (List UInt8)
  | 0 => pure []
  | bound + 1 => do
    need 1
    let c ← peek 0
    if c == '%' then
      let bytes ← escapedBytes
      pure (bytes ++ (← tagBytes bound))
    else if isTagChar c then
      skip
      pure (String.utf8EncodeChar c ++ (← tagBytes bound))
    else pure []

/-- Reads the characters of a tag, which may be none. -/
def tagChars : Scan String := do
  pure (Text.ofBytes (← tagBytes (← get).bound))

/-- Reads the characters of a tag; there must be some. -/
def someTagChars : Scan String := do
  let text ← tagChars
  if text.isEmpty then failure else pure text

/-- Reads a tag handle: a mark of exclamation, a word, and a second mark if
    there is one. -/
def tagHandle : Scan (List Char) := do
  need 1
  if (← peek 0) != '!' then failure
  else
    skip
    let word ← takeWhile isWordChar
    if (← peek 0) == '!' then
      skip
      pure ('!' :: word ++ ['!'])
    else pure ('!' :: word)

/-- Whether a tag handle has both of its marks. -/
def isFullHandle (handle : List Char) : Bool :=
  1 < handle.length && handle.getLast? == some '!'

/-- Reads a tag between angle brackets. -/
def bracketedTag : Scan TokenKind := do
  skipMany 2
  let text ← someTagChars
  if (← peek 0) != '>' then failure
  else
    skip
    pure (.tag "" text)

/-- Reads a tag that may start with a handle. -/
def handledTag : Scan TokenKind := do
  let handle ← tagHandle
  if isFullHandle handle then pure (.tag (String.ofList handle) (← someTagChars))
  else
    let text := String.ofList (handle.drop 1) ++ (← tagChars)
    pure (if text.isEmpty then .tag "" "!" else .tag "!" text)

/-- Reads a tag, starting with its mark of exclamation. -/
def readTag : Scan TokenKind := do
  need 2
  let kind ← if (← peek 1) == '<' then bracketedTag else handledTag
  need 1
  if isSpaceOrEnd (← peek 0) then pure kind else failure

/-- Reads the name of an anchor or an alias, starting with its indicator. -/
def readName : Scan String := do
  skip
  let name ← takeWhile isWordChar
  let c ← peek 0
  if name.isEmpty then failure
  else if isSpaceOrEnd c || "?:,]\x7d%@`".toList.contains c then pure (String.ofList name)
  else failure

/-- Reads a number of at most two digits. -/
def versionNumber : Scan Nat := do
  let digits ← takeWhile Number.isDigit
  if digits.isEmpty || 2 < digits.length then failure else pure (Number.digitsValue digits)

/-- Reads the version that a directive tells. -/
def versionDirective : Scan TokenKind := do
  skipWhile isBlank
  let major ← versionNumber
  if (← peek 0) != '.' then failure
  else
    skip
    pure (.version major (← versionNumber))

/-- Reads the tag handle that a directive defines, and what it stands for. -/
def tagDirective : Scan TokenKind := do
  skipWhile isBlank
  let handle ← tagHandle
  need 1
  if (1 < handle.length && !isFullHandle handle) || !isBlank (← peek 0) then failure
  else
    skipWhile isBlank
    let text ← someTagChars
    need 1
    if isSpaceOrEnd (← peek 0) then pure (.tagHandle (String.ofList handle) text) else failure

/-- Reads a directive, starting with its percent sign, and the rest of its line. -/
def readDirective : Scan TokenKind := do
  skip
  let name ← takeWhile isWordChar
  if !isSpaceOrEnd (← peek 0) then failure
  else
    let kind ←
      if name == "YAML".toList then versionDirective
      else if name == "TAG".toList then tagDirective
      else failure
    lineEnd
    pure kind

end WhilePlus.Yaml
