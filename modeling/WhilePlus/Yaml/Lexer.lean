import WhilePlus.Yaml.Block
import WhilePlus.Yaml.Plain
import WhilePlus.Yaml.Quoted
import WhilePlus.Yaml.Tag

namespace WhilePlus.Yaml

/-- Something that a colon may turn into a key. A key needs no indicator of its
    own: the colon that follows it on the same line puts the tokens of a key
    before it. -/
structure Candidate where
  /-- Whether a colon must follow, because nothing else fits the indentation. -/
  required : Bool
  /-- The number of tokens before it. -/
  position : Nat
  line : Nat
  column : Nat
  index : Nat
  /-- Whether its token is held back until it is known whether it is a key. -/
  watched : Bool := true
  deriving DecidableEq, Repr

/-- A level of brackets. -/
structure Level where
  /-- The possible key of the level. -/
  candidate : Option Candidate := none
  /-- The position of the last possible key, or of the bracket if there was
      none. -/
  position : Nat := 0
  deriving DecidableEq, Repr

/-- The level around one that is closed. If no key could start in that one, the
    token of its bracket is not held back any longer. -/
def Level.restore (around closed : Level) : Level :=
  { around with
    candidate := around.candidate.map fun k =>
      { k with watched := k.watched && k.position != closed.position } }

/-- The state between two tokens. A token is given out as soon as two more have
    been read and it is known whether it is a key. -/
structure Lexer where
  source : Source
  tokens : Array Token := #[]
  /-- The number of tokens that were given out. -/
  given : Nat := 0
  indent : Int := -1
  /-- The indentations around the current one. -/
  outer : List Int := []
  /-- Whether a key may start here. -/
  keyAllowed : Bool := true
  level : Level := {}
  /-- The levels around the current one. -/
  enclosing : List Level := []
  /-- Whether the end of the text was read. -/
  ended : Bool := false

/-- How deep brackets and blocks may be nested. -/
def maxNesting : Nat := 10000

/-- How many characters a key may have. -/
def maxKeyLength : Nat := 1024

/-- How many characters are looked through for a comment. -/
def commentReach : Nat := 512

/-- Whether a candidate can still become a key at the given place. -/
def Candidate.isFresh (k : Candidate) (source : Source) : Bool :=
  k.line == source.line && source.index ≤ k.index + maxKeyLength

/-- Whether the lexer is inside brackets. -/
def Lexer.inFlow (lx : Lexer) : Bool :=
  !lx.enclosing.isEmpty

/-- A step of reading tokens. -/
abbrev Lexing := StateT Lexer Option

namespace Scan

/-- Whether a break takes more than one byte. -/
def isWideBreak (c : Char) : Bool :=
  isBreak c && c != '\n' && c != '\r'

/-- Passes over white space and line breaks. -/
def skipSpace : Nat → Scan Unit
  | 0 => pure ()
  | bound + 1 => do
    need 1
    let c ← peek 0
    if isBreak c then
      skipLine
      skipSpace bound
    else if isBlank c then
      skip
      skipSpace bound
    else pure ()

/-- Whether a comment comes after the given number of characters and white
    space; no further line is looked at after a wide break. -/
def commentFollows : Nat → Nat → Scan Bool
  | 0, _ => pure false
  | tries + 1, distance => do
    need (distance + 1)
    let c ← peek distance
    if 0 < distance && isWideBreak (← peek (distance - 1)) then pure false
    else if isBlank c || isBreak c then commentFollows tries (distance + 1)
    else pure (c == '#')

/-- Passes over a comment, and also over the comments that follow it after white
    space only. -/
def skipComments : Nat → Scan Unit
  | 0 => pure ()
  | bound + 1 => do
    skipRest
    if ← commentFollows (commentReach - 1) 1 then
      skipSpace (← get).bound
      skipComments bound

/-- Whether a comment comes on the same line after blanks. -/
def lineCommentFollows : Nat → Nat → Scan Bool
  | 0, _ => pure false
  | tries + 1, distance => do
    need (distance + 1)
    let c ← peek distance
    if isBlank c then lineCommentFollows tries (distance + 1) else pure (c == '#')

/-- Passes over a comment on the line of the last token. -/
def skipLineComment : Scan Unit := do
  if ← lineCommentFollows commentReach 0 then skipRest

end Scan

namespace Lexing

/-- Reads characters. -/
def scan {α : Type} (reader : Scan α) : Lexing α := fun lx =>
  (reader lx.source).map fun (result, source) => (result, { lx with source })

/-- Adds a token at the end. -/
def push (kind : TokenKind) (line : Nat) : Lexing Unit :=
  modify fun lx => { lx with tokens := lx.tokens.push ⟨kind, line⟩ }

/-- Adds a token at a place, or at the end if the token at that place was given
    out. -/
def insert (position : Nat) (token : Token) : Lexing Unit :=
  modify fun lx =>
    { lx with
      tokens :=
        if lx.given ≤ position then lx.tokens.insertIdxIfInBounds position token
        else lx.tokens.push token }

/-- Adds a token at the end whose kind is read. -/
def take (reader : Scan TokenKind) : Lexing Unit := do
  let line := (← get).source.line
  let kind ← scan reader
  push kind line

/-- Adds a token at the end that consists of a number of characters. -/
def takeMark (kind : TokenKind) (count : Nat) : Lexing Unit :=
  take do
    Scan.skipMany count
    pure kind

/-- Tells whether a key may start. -/
def allowKey (allowed : Bool) : Lexing Unit :=
  modify fun lx => { lx with keyAllowed := allowed }

/-- Gives up the possible key of the current level; it must not be a required
    one. -/
def dropCandidate : Lexing Unit := do
  let lx ← get
  match lx.level.candidate with
  | some k => if k.required then failure else set { lx with level.candidate := none }
  | none => pure ()

/-- Remembers that a key may start here. -/
def saveCandidate : Lexing Unit := do
  if (← get).keyAllowed then
    dropCandidate
    modify fun lx =>
      let s := lx.source
      let k : Candidate := {
        required := !lx.inFlow && lx.indent == s.column
        position := lx.tokens.size
        line := s.line, column := s.column, index := s.index }
      { lx with level := ⟨some k, k.position⟩ }

/-- Opens a block if the column is deeper than the current indentation; its
    token goes to the given place, or to the end. -/
def openBlock (column : Nat) (place : Option Nat) (token : Token) : Lexing Unit := do
  let lx ← get
  if lx.inFlow || (column : Int) ≤ lx.indent then pure ()
  else if maxNesting ≤ lx.outer.length then failure
  else
    set { lx with indent := column, outer := lx.indent :: lx.outer }
    insert (place.getD lx.tokens.size) token

/-- Opens a block at the current place, where a key must be allowed. -/
def openBlockHere (kind : TokenKind) : Lexing Unit := do
  let lx ← get
  if lx.inFlow then pure ()
  else if lx.keyAllowed then openBlock lx.source.column none ⟨kind, lx.source.line⟩
  else failure

/-- Closes the blocks that are deeper than a column. -/
def closeBlocks (column : Int) : (outer : List Int) → Lexer → Lexer
  | [], lx => { lx with outer := [] }
  | before :: outer, lx =>
    if column < lx.indent then
      closeBlocks column outer { lx with
        indent := before, outer := outer, tokens := lx.tokens.push ⟨.blockEnd, lx.source.line⟩ }
    else { lx with outer := before :: outer }

/-- Closes the blocks that are deeper than a column, outside of brackets. -/
def unindent (column : Int) : Lexing Unit :=
  modify fun lx => if lx.inFlow then lx else closeBlocks column lx.outer lx

/-- Passes over white space and comments before a token. Outside of brackets a
    tab does not count where a key may start, and a key may start on every new
    line. -/
def skipToToken : Nat → Lexing Unit
  | 0 => pure ()
  | bound + 1 => do
    scan (Scan.need 1)
    let lx ← get
    if lx.source.column == 0 && lx.source.marked then scan Scan.skip
    scan (Scan.skipWhile fun c => c == ' ' || (c == '\t' && (lx.inFlow || !lx.keyAllowed)))
    if (← scan (Scan.peek 0)) == '#' then scan (Scan.skipComments lx.source.bound)
    if isBreak (← scan (Scan.peek 0)) then
      scan Scan.skipLine
      allowKey (lx.keyAllowed || !lx.inFlow)
      skipToToken bound

/-- Reads an opening bracket. -/
def openFlow (kind : TokenKind) : Lexing Unit := do
  saveCandidate
  let lx ← get
  if maxNesting ≤ lx.enclosing.length then failure
  else
    set { lx with
      enclosing := lx.level :: lx.enclosing
      level := { position := lx.tokens.size }
      keyAllowed := true }
    takeMark kind 1

/-- Reads a closing bracket. -/
def closeFlow (kind : TokenKind) : Lexing Unit := do
  dropCandidate
  modify fun lx =>
    match lx.enclosing with
    | around :: enclosing => { lx with level := around.restore lx.level, enclosing }
    | [] => lx
  allowKey false
  takeMark kind 1

/-- Reads a comma. -/
def flowEntry : Lexing Unit := do
  dropCandidate
  allowKey true
  takeMark .flowEntry 1

/-- Reads the hyphen of a list item. -/
def blockEntry : Lexing Unit := do
  openBlockHere .blockSequenceStart
  dropCandidate
  allowKey true
  takeMark .blockEntry 1

/-- Reads the question mark of a key. -/
def explicitKey : Lexing Unit := do
  openBlockHere .blockMappingStart
  dropCandidate
  allowKey !(← get).inFlow
  takeMark .key 1

/-- Reads a colon after a key that has an indicator of its own, or none. -/
def explicitValue : Lexing Unit := do
  openBlockHere .blockMappingStart
  allowKey !(← get).inFlow
  takeMark .value 1

/-- Reads a colon; what may be a key on the same line becomes one. -/
def value : Lexing Unit := do
  let lx ← get
  match lx.level.candidate with
  | none => explicitValue
  | some k =>
    if k.isFresh lx.source then
      insert k.position ⟨.key, k.line⟩
      openBlock k.column (some k.position) ⟨.blockMappingStart, k.line⟩
      modify fun lx => { lx with level.candidate := none }
      allowKey false
      takeMark .value 1
    else
      dropCandidate
      explicitValue

/-- Reads something that may be a key. -/
def keyLike (reader : Scan TokenKind) : Lexing Unit := do
  saveCandidate
  allowKey false
  take reader

/-- Reads a plain scalar, and a comment on its last line. -/
def plain : Lexing Unit := do
  saveCandidate
  let lx ← get
  let (text, broken) ← scan (plainScalar lx.inFlow lx.indent)
  push (.scalar true text) lx.source.line
  allowKey broken
  if !broken then scan Scan.skipLineComment

/-- Reads a scalar of indented lines. -/
def block (literal : Bool) : Lexing Unit := do
  dropCandidate
  allowKey true
  let indent := (← get).indent
  take do pure (.scalar false (← blockScalar literal indent))

/-- Reads something that stands outside of all blocks. -/
def outside (reader : Scan TokenKind) : Lexing Unit := do
  unindent (-1)
  dropCandidate
  allowKey false
  take reader

/-- Reads the end of the text, which is the start of a line. -/
def streamEnd : Lexing Unit := do
  modify fun lx =>
    if lx.source.column == 0 then lx
    else { lx with source.column := 0, source.line := lx.source.line + 1 }
  outside (pure .streamEnd)
  modify fun lx => { lx with ended := true }

/-- Whether a plain scalar starts with the given characters. -/
def startsPlain (inFlow : Bool) (c next : Char) : Bool :=
  if c == '-' then !isBlank next
  else if c == '?' || c == ':' then !inFlow && !isSpaceOrEnd next
  else !isSpaceOrEnd c && !",[]\x7b\x7d#&*!|>'\"%@`".toList.contains c

/-- Reads a token that a comment may follow on the same line; `none` if there is
    no such token. -/
def commented? (inFlow : Bool) (c next : Char) : Option (Lexing Unit) :=
  if c == '[' then some (openFlow .flowSequenceStart)
  else if c == '\x7b' then some (openFlow .flowMappingStart)
  else if c == ']' then some (closeFlow .flowSequenceEnd)
  else if c == '\x7d' then some (closeFlow .flowMappingEnd)
  else if c == ',' then some flowEntry
  else if c == '?' && (inFlow || isSpaceOrEnd next) then some explicitKey
  else if c == ':' && (inFlow || isSpaceOrEnd next) then some value
  else if c == '*' then some (keyLike do pure (.reference (← readName)))
  else if c == '&' then some (keyLike do pure (.anchor (← readName)))
  else if c == '!' then some (keyLike readTag)
  else if c == Char.ofNat 39 then some (keyLike do pure (.scalar false (← quotedScalar true)))
  else if c == '"' then some (keyLike do pure (.scalar false (← quotedScalar false)))
  else none

/-- Reads the next token, together with those that the indentation puts before
    it. -/
def next : Lexing Unit := do
  skipToToken (← get).source.bound
  unindent (← get).source.column
  scan (Scan.need 4)
  let lx ← get
  let c := lx.source.peek 0
  let following := lx.source.peek 1
  let atStart := lx.source.column == 0
  if c == terminator then streamEnd
  else if atStart && c == '%' then outside readDirective
  else if atStart && lx.source.isTriple '-' then
    outside do
      Scan.skipMany 3
      pure .documentStart
  else if atStart && lx.source.isTriple '.' then
    outside do
      Scan.skipMany 3
      pure .documentEnd
  else if c == '-' && isSpaceOrEnd following then blockEntry
  else if c == '|' && !lx.inFlow then block true
  else if c == '>' && !lx.inFlow then block false
  else
    match commented? lx.inFlow c following with
    | some reader => do
      reader
      scan Scan.skipLineComment
    | none => if startsPlain lx.inFlow c following then plain else failure

end Lexing

namespace Lexer

/-- The candidate for which the next token to be given out is held back, if
    there is one. -/
def awaited (lx : Lexer) : Option Candidate :=
  (lx.level :: lx.enclosing).findSome? fun level =>
    level.candidate.filter fun k => k.watched && k.position == lx.given

/-- Whether the next token can be given out; `none` if it should have become a
    key and has not. -/
def isReady (lx : Lexer) : Option Bool :=
  if lx.ended || lx.given + 2 < lx.tokens.size then
    match lx.awaited with
    | some k =>
      if k.isFresh lx.source then some false
      else if k.required then none
      else some true
    | none => some true
  else some false

/-- The tokens that are given out up to the end of the text or the first error;
    `bound` is more than the number of steps. -/
def readAll : Nat → Lexer → List Token
  | 0, lx => lx.tokens.toList.take lx.given
  | bound + 1, lx =>
    if lx.ended && lx.given == lx.tokens.size then lx.tokens.toList
    else
      match lx.isReady with
      | none => lx.tokens.toList.take lx.given
      | some true => readAll bound { lx with given := lx.given + 1 }
      | some false =>
        match Lexing.next lx with
        | none => lx.tokens.toList.take lx.given
        | some ((), lx) => readAll bound lx

end Lexer

/-- The tokens of a text; if there is an error in it, those that are given out
    before it is met. -/
def tokenize (source : Source) : List Token :=
  Lexer.readAll (8 * (source.size + 2)) { source }

end WhilePlus.Yaml
