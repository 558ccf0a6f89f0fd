import WhilePlus.Yaml.Source

namespace WhilePlus.Yaml

/-- A step of reading characters. Before a character is looked at, it is asked
    for; a step fails where the text is malformed. -/
abbrev Scan := StateT Source Option

namespace Scan

/-- Asks for a number of characters. -/
def need (wanted : Nat) : Scan Unit := fun s =>
  (s.need wanted).map fun s => ((), s)

/-- The character at a distance. -/
def peek (distance : Nat) : Scan Char := do
  pure ((← get).peek distance)

/-- Passes over one character of a line. -/
def skip : Scan Unit :=
  modify Source.skip

/-- Passes over a number of characters of a line. -/
def skipMany : Nat → Scan Unit
  | 0 => pure ()
  | count + 1 => do
    skip
    skipMany count

/-- Passes over a line break. -/
def skipLine : Scan Unit := do
  need 2
  modify Source.skipLine

/-- Reads a line break; the result is empty where there is none. -/
def readLine : Scan (List Char) := do
  need 2
  let s ← get
  set s.skipLine
  pure (if s.breakLength == 0 then [] else [normalBreak (s.peek 0)])

/-- Reads characters with a property, at most as many as the bound; those that
    were read before are given with the last one first, and so is the result. -/
def takeWithin (p : Char → Bool) : Nat → List Char → Scan (List Char)
  | 0, taken => pure taken
  | bound + 1, taken => do
    need 1
    let c ← peek 0
    if p c && c != terminator then
      skip
      takeWithin p bound (c :: taken)
    else pure taken

/-- Reads characters with a property. -/
def takeWhile (p : Char → Bool) : Scan (List Char) := do
  let taken ← takeWithin p (← get).bound []
  pure taken.reverse

/-- Passes over characters with a property. -/
def skipWhile (p : Char → Bool) : Scan Unit := do
  let _ ← takeWithin p (← get).bound []

/-- Passes over a comment or what else is left of a line. -/
def skipRest : Scan Unit :=
  skipWhile (!isBreakOrEnd ·)

/-- Reads what is left of a line, which must be white space and a comment. -/
def lineEnd : Scan Unit := do
  skipWhile isBlank
  if (← peek 0) == '#' then skipRest
  let c ← peek 0
  if isBreak c then skipLine
  else if c != terminator then failure

end Scan

/-- The sort of a token, with what it carries. -/
inductive TokenKind where
  | streamEnd
  | version (major minor : Nat)
  | tagHandle (handle start : String)
  | documentStart
  | documentEnd
  | blockSequenceStart
  | blockMappingStart
  | blockEnd
  | flowSequenceStart
  | flowSequenceEnd
  | flowMappingStart
  | flowMappingEnd
  | blockEntry
  | flowEntry
  | key
  | value
  | reference (name : String)
  | anchor (name : String)
  | tag (handle rest : String)
  | scalar (plain : Bool) (text : String)
  deriving DecidableEq, Repr

/-- A token and the line that it starts on. -/
structure Token where
  kind : TokenKind
  line : Nat
  deriving DecidableEq, Repr

end WhilePlus.Yaml
