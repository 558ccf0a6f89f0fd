import WhilePlus.Yaml.Charset
import WhilePlus.Yaml.Scan

namespace WhilePlus.Yaml

open Scan

/-- Whether a plain scalar ends before two characters. -/
def endsPlain (inFlow : Bool) (c next : Char) : Bool :=
  isSpaceOrEnd c || (c == ':' && isSpaceOrEnd next) ||
    (inFlow && (c == ',' || c == '?' || c == '[' || c == ']' || c == '\x7b' || c == '\x7d'))

/-- Reads the characters of a plain scalar up to white space or its end; the
    last comes first. -/
def plainWord (inFlow : Bool) : Nat → List Char → Scan (List Char)
  | 0, done => pure done
  | bound + 1, done => do
    let c ← peek 0
    if endsPlain inFlow c (← peek 1) then pure done
    else
      skip
      need 2
      plainWord inFlow bound (c :: done)

/-- Reads white space inside a plain scalar. A tab must not stand for
    indentation. -/
def plainGap (indent : Int) : Nat → Gap → Scan Gap
  | 0, gap => pure gap
  | bound + 1, gap => do
    let s ← get
    let c := s.peek 0
    if isBlank c then
      if gap.broken && s.column < indent && c == '\t' then failure
      else
        skip
        need 1
        plainGap indent bound (gap.addBlank c)
    else if isBreak c then
      let lines ← readLine
      need 1
      plainGap indent bound (lines.foldl Gap.addBreak gap)
    else pure gap

/-- Reads the rest of a plain scalar after a part, which is given with its last
    character first, and after white space. The result tells whether a line has
    ended after the last character. -/
def plainRest (inFlow : Bool) (indent : Int) : Nat → List Char → Gap → Scan (List Char × Bool)
  | 0, done, gap => pure (done, gap.broken)
  | bound + 1, done, gap => do
    need 4
    let s ← get
    if s.isDocumentMark || s.peek 0 == '#' then pure (done, gap.broken)
    else
      let word ← plainWord inFlow s.bound []
      let (done, gap) := if word.isEmpty then (done, gap) else (word ++ (gap.fold ++ done), {})
      let c ← peek 0
      if isBlank c || isBreak c then
        let gap ← plainGap indent (← get).bound gap
        if !inFlow && (← get).column < indent then pure (done, gap.broken)
        else plainRest inFlow indent bound done gap
      else pure (done, gap.broken)

/-- Reads a plain scalar that is indented by more than `indent`; the result
    tells whether a line has ended after its last character. -/
def plainScalar (inFlow : Bool) (indent : Int) : Scan (String × Bool) := do
  let (done, broken) ← plainRest inFlow (indent + 1) (← get).bound [] {}
  pure (Text.ofChars done.reverse, broken)

end WhilePlus.Yaml
