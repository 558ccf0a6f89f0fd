import WhilePlus.Number.Decimal
import WhilePlus.Yaml.Scan

namespace WhilePlus.Yaml

open Scan

/-- What happens to the line breaks at the end of a block scalar. -/
inductive Chomping where
  | clip
  | strip
  | keep
  deriving DecidableEq, Repr

/-- What the header of a block scalar says. -/
structure BlockHeader where
  chomping : Chomping
  /-- The indentation of the lines beyond that of the parent. -/
  indent : Option Nat
  deriving DecidableEq, Repr

/-- The chomping that a character asks for. -/
def chomping? (c : Char) : Option Chomping :=
  if c == '+' then some .keep else if c == '-' then some .strip else none

/-- Reads the mark for the breaks at the end, if there is one. -/
def readChomping : Scan (Option Chomping) := do
  need 1
  let found := chomping? (← peek 0)
  if found.isSome then skip
  pure found

/-- Reads the digit for the indentation, if there is one; it must not be zero. -/
def readDigit : Scan (Option Nat) := do
  need 1
  let c ← peek 0
  if c == '0' then failure
  else if Number.isDigit c then
    skip
    pure (some (c.toNat - '0'.toNat))
  else pure none

/-- Reads the header of a block scalar after its first character, up to the
    first line. -/
def blockHeader : Scan BlockHeader := do
  let header ←
    match ← readChomping with
    | some chomping => do pure (⟨chomping, ← readDigit⟩ : BlockHeader)
    | none =>
      match ← readDigit with
      | some digit => do pure ⟨(← readChomping).getD .clip, some digit⟩
      | none => pure ⟨.clip, none⟩
  lineEnd
  pure header

/-- Reads indentation and empty lines, up to the next line with content. The
    indentation is zero as long as it is not known. The result is the greatest
    column that was reached, and the breaks. -/
def blockBreaks (indent : Nat) : Nat → Nat → List Char → Scan (Nat × List Char)
  | 0, reached, breaks => pure (reached, breaks)
  | bound + 1, reached, breaks => do
    need 1
    let s ← get
    let before := indent == 0 || s.column < indent
    if before && s.peek 0 == ' ' then
      skip
      blockBreaks indent bound reached breaks
    else
      let reached := max reached s.column
      if before && s.peek 0 == '\t' then failure
      else if isBreak (s.peek 0) then
        let lines ← readLine
        blockBreaks indent bound reached (breaks ++ lines)
      else pure (reached, breaks)

/-- The end of the last line that was read, and the empty lines after it. -/
structure BlockTail where
  lead : List Char := []
  more : List Char := []
  /-- Whether the line started with white space, so that its breaks are not
      folded. -/
  indented : Bool := false
  deriving DecidableEq, Repr

/-- What stands between two lines of a block scalar; `indented` tells of the
    second line. -/
def BlockTail.join (tail : BlockTail) (literal indented : Bool) : List Char :=
  if !literal && !tail.indented && !indented && tail.lead == ['\n'] then
    if tail.more.isEmpty then [' '] else tail.more
  else tail.lead ++ tail.more

/-- Reads the lines of a block scalar with known indentation; the last character
    comes first. -/
def blockLines (literal : Bool) (indent : Nat) :
    Nat → List Char → BlockTail → Scan (List Char × BlockTail)
  | 0, done, tail => pure (done, tail)
  | bound + 1, done, tail => do
    need 1
    let s ← get
    if s.column == indent && s.peek 0 != terminator then
      let indented := isBlank (s.peek 0)
      let line ← takeWhile (!isBreakOrEnd ·)
      let done := line.reverse ++ ((tail.join literal indented).reverse ++ done)
      let lead ← readLine
      let (_, more) ← blockBreaks indent (← get).bound 0 []
      blockLines literal indent bound done ⟨lead, more, indented⟩
    else pure (done, tail)

/-- Reads a block scalar; `parent` is the indentation around it. -/
def blockScalar (literal : Bool) (parent : Int) : Scan String := do
  skip
  let header ← blockHeader
  let given := match header.indent with
    | some n => (if 0 ≤ parent then parent.toNat + n else n)
    | none => 0
  let (reached, breaks) ← blockBreaks given (← get).bound 0 []
  let indent := if given == 0 then max reached (max (parent + 1).toNat 1) else given
  let (done, tail) ← blockLines literal indent (← get).bound [] { more := breaks }
  pure <| Text.ofChars <| match header.chomping with
    | .strip => done.reverse
    | .clip => done.reverse ++ tail.lead
    | .keep => done.reverse ++ tail.lead ++ tail.more

end WhilePlus.Yaml
