import WhilePlus.Number.Digits
import WhilePlus.Yaml.Charset
import WhilePlus.Yaml.Scan

namespace WhilePlus.Yaml

open Scan

/-- The character that a backslash and one more character stand for. -/
def escape? (c : Char) : Option Char :=
  match c with
  | '0' => some (Char.ofNat 0)
  | 'a' => some (Char.ofNat 7)
  | 'b' => some (Char.ofNat 8)
  | 't' => some '\t'
  | '\t' => some '\t'
  | 'n' => some '\n'
  | 'v' => some (Char.ofNat 11)
  | 'f' => some (Char.ofNat 12)
  | 'r' => some '\r'
  | 'e' => some (Char.ofNat 27)
  | ' ' => some ' '
  | '"' => some '"'
  | '\'' => some '\''
  | '\\' => some '\\'
  | 'N' => some (Char.ofNat 0x85)
  | '_' => some (Char.ofNat 0xA0)
  | 'L' => some (Char.ofNat 0x2028)
  | 'P' => some (Char.ofNat 0x2029)
  | _ => none

/-- The number of hexadecimal digits that an escape takes. -/
def escapeWidth? (c : Char) : Option Nat :=
  match c with
  | 'x' => some 2
  | 'u' => some 4
  | 'U' => some 8
  | _ => none

/-- The character whose number some hexadecimal digits spell. -/
def hexChar? (digits : List Char) : Option Char :=
  match Number.readDigits 16 0 digits with
  | .ok n => if (0xD800 ≤ n && n ≤ 0xDFFF) || 0x10FFFF < n then none else some (Char.ofNat n)
  | .error _ => none

/-- Reads an escape. -/
def readEscape : Scan Char := do
  let c ← peek 1
  match escapeWidth? c with
  | some width => do
    skipMany 2
    need width
    let s ← get
    match hexChar? ((List.range width).map s.peek) with
    | some c => do
      skipMany width
      pure c
    | none => failure
  | none =>
    match escape? c with
    | some c => do
      skipMany 2
      pure c
    | none => failure

/-- Reads the characters of a quoted scalar up to white space or its end; the
    last comes first. The result tells whether an escaped line break ends them. -/
def quotedWord (single : Bool) : Nat → List Char → Scan (List Char × Bool)
  | 0, _ => failure
  | bound + 1, done => do
    let c ← peek 0
    let next ← peek 1
    if isSpaceOrEnd c then pure (done, false)
    else if single && c == '\'' then
      if next == '\'' then
        skipMany 2
        need 2
        quotedWord single bound ('\'' :: done)
      else pure (done, false)
    else if !single && c == '"' then pure (done, false)
    else if !single && c == '\\' then
      if isBreak next then
        need 3
        skip
        skipLine
        pure (done, true)
      else
        let c ← readEscape
        need 2
        quotedWord single bound (c :: done)
    else
      skip
      need 2
      quotedWord single bound (c :: done)

/-- Reads white space inside a quoted scalar. -/
def quotedGap : Nat → Gap → Scan Gap
  | 0, gap => pure gap
  | bound + 1, gap => do
    let c ← peek 0
    if isBlank c then
      skip
      need 1
      quotedGap bound (gap.addBlank c)
    else if isBreak c then
      let lines ← readLine
      need 1
      quotedGap bound (lines.foldl Gap.addBreak gap)
    else pure gap

/-- Reads the rest of a quoted scalar after a part, which is given with its last
    character first. -/
def quotedRest (single : Bool) : Nat → List Char → Scan (List Char)
  | 0, _ => failure
  | bound + 1, done => do
    need 4
    let s ← get
    if s.isDocumentMark || s.peek 0 == terminator then failure
    else
      let (done, escaped) ← quotedWord single s.bound done
      need 1
      if (← peek 0) == (if single then '\'' else '"') then
        skip
        pure done
      else
        let gap ← quotedGap (← get).bound { broken := escaped }
        quotedRest single bound (gap.fold ++ done)

/-- Reads a quoted scalar. -/
def quotedScalar (single : Bool) : Scan String := do
  skip
  let done ← quotedRest single (← get).bound []
  pure (Text.ofChars done.reverse)

end WhilePlus.Yaml
