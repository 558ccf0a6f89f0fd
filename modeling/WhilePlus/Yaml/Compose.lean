import WhilePlus.Yaml.Lexer
import WhilePlus.Yaml.Node

namespace WhilePlus.Yaml

/-- What is left of the tokens, and the names that are known. -/
structure Cursor where
  tokens : List Token
  /-- The numbers of the nodes that have anchors. -/
  anchors : List (String × Nat) := []
  /-- The nodes that have anchors; one that is still being read is an empty
      scalar. -/
  anchored : Array Node := #[]
  /-- The number of aliases so far. -/
  aliases : Nat := 0
  /-- What the handles of tags stand for. -/
  handles : List (String × String)

/-- A scalar that is not written. -/
def emptyScalar (line : Nat) : Node :=
  .ofScalar line "" true ""

namespace Cursor

/-- The next token. -/
def peek? (p : Cursor) : Option Token :=
  p.tokens.head?

/-- The cursor after the next token. -/
def skip (p : Cursor) : Cursor :=
  { p with tokens := p.tokens.drop 1 }

/-- Gives a node a name, if it has one. This is done as soon as the node starts,
    so that an alias may stand inside the node that it refers to. -/
def define (p : Cursor) (name : String) (node : Node) : Cursor :=
  if name == "" then p
  else { p with
    anchors := (name, p.anchored.size) :: p.anchors, anchored := p.anchored.push node }

/-- Completes the node with the given number, if its name is not empty. -/
def complete (p : Cursor) (name : String) (number : Nat) (node : Node) : Cursor :=
  if name == "" then p else { p with anchored := p.anchored.setIfInBounds number node }

/-- Reads an alias with the given name. -/
def readAlias? (p : Cursor) (line : Nat) (name : String) : Option (Node × Cursor) :=
  (p.anchors.lookup name).map fun number =>
    (.reference line name p.aliases number, { p.skip with aliases := p.aliases + 1 })

/-- The tag that a handle and a rest spell. -/
def tag? (p : Cursor) (handle rest : String) : Option String :=
  if handle == "" then some rest
  else
    match p.handles.lookup handle with
    | some start => if start ++ rest == "" then none else some (start ++ rest)
    | none => none

end Cursor

/-- The anchor and the tag before a node. -/
structure Properties where
  anchor : String := ""
  tag : String := ""
  line : Nat

/-- Reads an anchor and a tag in either order. -/
def readProperties (p : Cursor) : Option (Properties × Cursor) := do
  let first ← p.peek?
  match first.kind with
  | .anchor name =>
    let p := p.skip
    let second ← p.peek?
    match second.kind with
    | .tag handle rest => do
      let tag ← p.tag? handle rest
      some (⟨name, tag, first.line⟩, p.skip)
    | _ => some (⟨name, "", first.line⟩, p)
  | .tag handle rest => do
    let tag ← p.tag? handle rest
    let p := p.skip
    let second ← p.peek?
    match second.kind with
    | .anchor name => some (⟨name, tag, first.line⟩, p.skip)
    | _ => some (⟨"", tag, first.line⟩, p)
  | _ => some (⟨"", "", first.line⟩, p)

/-- A position in the structure of a document, which says what is read next. -/
inductive Goal where
  | node (inBlock entryAllowed : Bool)
  | blockSequence
  | indentlessSequence
  | blockMapping
  | blockValue
  | flowSequence (first : Bool)
  | flowPairKey
  | flowPairValue
  | flowMapping (first : Bool)
  | flowValue

/-- What was read: a node, the items of a list or the pairs of a mapping. -/
inductive Found where
  | node (n : Node)
  | items (ns : List Node)
  | pairs (ps : List (Node × Node))

namespace Found

/-- The node that was read. -/
def toNode? : Found → Option Node
  | node n => some n
  | _ => none

/-- The items that were read. -/
def toItems? : Found → Option (List Node)
  | items ns => some ns
  | _ => none

/-- The pairs that were read. -/
def toPairs? : Found → Option (List (Node × Node))
  | pairs ps => some ps
  | _ => none

end Found

/-- A way to read what a goal asks for. -/
abbrev Composer := Goal → Cursor → Option (Found × Cursor)

namespace Composer

/-- Reads a goal that asks for a node. -/
def node? (read : Composer) (goal : Goal) (p : Cursor) : Option (Node × Cursor) := do
  let (found, p) ← read goal p
  let node ← found.toNode?
  some (node, p)

/-- Reads a goal that asks for items. -/
def items? (read : Composer) (goal : Goal) (p : Cursor) : Option (List Node × Cursor) := do
  let (found, p) ← read goal p
  let items ← found.toItems?
  some (items, p)

/-- Reads a goal that asks for pairs. -/
def pairs? (read : Composer) (goal : Goal) (p : Cursor) : Option (List (Node × Node) × Cursor) := do
  let (found, p) ← read goal p
  let pairs ← found.toPairs?
  some (pairs, p)

/-- Reads a node, unless the next token is one of those that follow it: then the
    node is not written, and an empty scalar on the given line stands for it. -/
def nodeUnless (read : Composer) (follows : TokenKind → Bool) (line : Nat) (goal : Goal) (p : Cursor) :
    Option (Node × Cursor) := do
  let next ← p.peek?
  if follows next.kind then some (emptyScalar line, p) else read.node? goal p

end Composer

/-- Reads the items of a list whose anchor and tag were read, and names the list
    as soon as it starts. -/
def composeSequence (read : Composer) (props : Properties) (goal : Goal) (p : Cursor) :
    Option (Found × Cursor) := do
  let (items, p') ← read.items? goal (p.define props.anchor (emptyScalar props.line))
  let node := Node.sequence props.line (Node.collectionTag props.tag seqTag) items
  some (.node node, p'.complete props.anchor p.anchored.size node)

/-- Reads the pairs of a mapping whose anchor and tag were read, and names the
    mapping as soon as it starts. -/
def composeMapping (read : Composer) (props : Properties) (goal : Goal) (p : Cursor) :
    Option (Found × Cursor) := do
  let (pairs, p') ← read.pairs? goal (p.define props.anchor (emptyScalar props.line))
  let node := Node.mapping props.line (Node.collectionTag props.tag mapTag) pairs
  some (.node node, p'.complete props.anchor p.anchored.size node)

/-- Reads a node whose anchor and tag were read. A list without indentation of
    its own stands only where an entry is allowed, and one with indentation only
    in a block. Nothing but an anchor or a tag is a scalar too. -/
def composeContent (read : Composer) (inBlock entryAllowed : Bool) (props : Properties) (p : Cursor) :
    Option (Found × Cursor) := do
  let token ← p.peek?
  match token.kind with
  | .scalar plain text =>
    let node := Node.ofScalar props.line props.tag plain text
    some (.node node, p.skip.define props.anchor node)
  | .flowSequenceStart => composeSequence read props (.flowSequence true) p.skip
  | .flowMappingStart => composeMapping read props (.flowMapping true) p.skip
  | kind =>
    if entryAllowed && kind == .blockEntry then composeSequence read props .indentlessSequence p
    else if inBlock && kind == .blockSequenceStart then composeSequence read props .blockSequence p.skip
    else if inBlock && kind == .blockMappingStart then composeMapping read props .blockMapping p.skip
    else if props.anchor != "" || props.tag != "" then
      let node := Node.ofScalar props.line props.tag true ""
      some (.node node, p.define props.anchor node)
    else none

/-- Reads an alias, or a node with its anchor and tag. -/
def composeNode (read : Composer) (inBlock entryAllowed : Bool) (p : Cursor) :
    Option (Found × Cursor) := do
  let token ← p.peek?
  match token.kind with
  | .reference name => do
    let (node, p) ← p.readAlias? token.line name
    some (.node node, p)
  | _ => do
    let (props, p) ← readProperties p
    composeContent read inBlock entryAllowed props p

/-- Reads the items of a list that has an indentation of its own. -/
def composeBlockSequence (read : Composer) (p : Cursor) : Option (Found × Cursor) := do
  let token ← p.peek?
  match token.kind with
  | .blockEntry => do
    let follows (kind : TokenKind) : Bool := kind == .blockEntry || kind == .blockEnd
    let (item, p) ← read.nodeUnless follows token.line (.node true false) p.skip
    let (items, p) ← read.items? .blockSequence p
    some (.items (item :: items), p)
  | .blockEnd => some (.items [], p.skip)
  | _ => none

/-- Reads the items of a list that stands at the indentation of the mapping
    around it. Nothing marks its end. -/
def composeIndentless (read : Composer) (p : Cursor) : Option (Found × Cursor) := do
  let token ← p.peek?
  match token.kind with
  | .blockEntry => do
    let follows (kind : TokenKind) : Bool :=
      kind == .blockEntry || kind == .key || kind == .value || kind == .blockEnd
    let (item, p) ← read.nodeUnless follows token.line (.node true false) p.skip
    let (items, p) ← read.items? .indentlessSequence p
    some (.items (item :: items), p)
  | _ => some (.items [], p)

/-- The tokens that follow a key or a value of a block which is not written. -/
def followsInBlock (kind : TokenKind) : Bool :=
  kind == .key || kind == .value || kind == .blockEnd

/-- Reads the pairs of a mapping in a block. -/
def composeBlockMapping (read : Composer) (p : Cursor) : Option (Found × Cursor) := do
  let token ← p.peek?
  match token.kind with
  | .key => do
    let (key, p) ← read.nodeUnless followsInBlock token.line (.node true true) p.skip
    let (value, p) ← read.node? .blockValue p
    let (pairs, p) ← read.pairs? .blockMapping p
    some (.pairs ((key, value) :: pairs), p)
  | .blockEnd => some (.pairs [], p.skip)
  | _ => none

/-- Reads the value of a key in a block. -/
def composeBlockValue (read : Composer) (p : Cursor) : Option (Found × Cursor) := do
  let token ← p.peek?
  match token.kind with
  | .value => do
    let next ← p.skip.peek?
    if followsInBlock next.kind then some (.node (emptyScalar token.line), p.skip)
    else read (.node true true) p.skip
  | _ => some (.node (emptyScalar token.line), p)

/-- The cursor after the comma that goes before an item or a pair between
    brackets, if it is not the first. -/
def skipComma? (first : Bool) (token : Token) (p : Cursor) : Option Cursor :=
  if first then some p else if token.kind == .flowEntry then some p.skip else none

/-- Reads the items of a list between brackets. A pair among them is a mapping
    of its own. -/
def composeFlowSequence (read : Composer) (first : Bool) (p : Cursor) : Option (Found × Cursor) := do
  let token ← p.peek?
  if token.kind == .flowSequenceEnd then some (.items [], p.skip)
  else
    let p ← skipComma? first token p
    let token ← p.peek?
    match token.kind with
    | .flowSequenceEnd => some (.items [], p.skip)
    | .key => do
      let (key, p) ← read.node? .flowPairKey p.skip
      let (value, p) ← read.node? .flowPairValue p
      let (items, p) ← read.items? (.flowSequence false) p
      some (.items (.mapping token.line mapTag [(key, value)] :: items), p)
    | _ => do
      let (item, p) ← read.node? (.node false false) p
      let (items, p) ← read.items? (.flowSequence false) p
      some (.items (item :: items), p)

/-- Reads the key of a pair in a list between brackets. -/
def composeFlowPairKey (read : Composer) (p : Cursor) : Option (Found × Cursor) := do
  let token ← p.peek?
  if token.kind == .value || token.kind == .flowEntry || token.kind == .flowSequenceEnd then
    some (.node (emptyScalar token.line), p.skip)
  else read (.node false false) p

/-- Reads the value of a key between brackets, which end with the given token. -/
def composeFlowValue (read : Composer) (close : TokenKind) (p : Cursor) : Option (Found × Cursor) := do
  let token ← p.peek?
  if token.kind == .value then
    let next ← p.skip.peek?
    if next.kind == .flowEntry || next.kind == close then some (.node (emptyScalar next.line), p.skip)
    else read (.node false false) p.skip
  else some (.node (emptyScalar token.line), p)

/-- Reads the pairs of a mapping between braces. What is no pair is a key
    without a value. -/
def composeFlowMapping (read : Composer) (first : Bool) (p : Cursor) : Option (Found × Cursor) := do
  let token ← p.peek?
  if token.kind == .flowMappingEnd then some (.pairs [], p.skip)
  else
    let p ← skipComma? first token p
    let token ← p.peek?
    match token.kind with
    | .flowMappingEnd => some (.pairs [], p.skip)
    | .key => do
      let next ← p.skip.peek?
      let follows (kind : TokenKind) : Bool :=
        kind == .value || kind == .flowEntry || kind == .flowMappingEnd
      let (key, p) ← read.nodeUnless follows next.line (.node false false) p.skip
      let (value, p) ← read.node? .flowValue p
      let (pairs, p) ← read.pairs? (.flowMapping false) p
      some (.pairs ((key, value) :: pairs), p)
    | _ => do
      let (key, p) ← read.node? (.node false false) p
      let next ← p.peek?
      let (pairs, p) ← read.pairs? (.flowMapping false) p
      some (.pairs ((key, emptyScalar next.line) :: pairs), p)

/-- Reads what a goal asks for, with a way to read the goals below it. -/
def composeGoal (read : Composer) : Composer
  | .node inBlock entryAllowed, p => composeNode read inBlock entryAllowed p
  | .blockSequence, p => composeBlockSequence read p
  | .indentlessSequence, p => composeIndentless read p
  | .blockMapping, p => composeBlockMapping read p
  | .blockValue, p => composeBlockValue read p
  | .flowSequence first, p => composeFlowSequence read first p
  | .flowPairKey, p => composeFlowPairKey read p
  | .flowPairValue, p => composeFlowValue read .flowSequenceEnd p
  | .flowMapping first, p => composeFlowMapping read first p
  | .flowValue, p => composeFlowValue read .flowMappingEnd p

/-- Reads what a goal asks for; `bound` limits the depth and the number of
    parts. -/
def compose : Nat → Composer
  | 0 => fun _ _ => none
  | bound + 1 => composeGoal (compose bound)

/-- The handles of tags that every document knows. -/
def standardHandles : List (String × String) :=
  [("!", "!"), ("!!", "tag:yaml.org,2002:")]

/-- Reads the directives before a document: the handles that they define, and
    whether there was one for the version, of which only one is allowed. -/
def readDirectives (versioned : Bool) (handles : List (String × String)) :
    List Token → Option (List (String × String) × List Token)
  | [] => none
  | token :: rest =>
    match token.kind with
    | .version major minor =>
      if versioned || major != 1 || minor != 1 then none else readDirectives true handles rest
    | .tagHandle handle start =>
      if (handles.lookup handle).isSome then none
      else readDirectives versioned (handles ++ [(handle, start)]) rest
    | _ => some (handles, token :: rest)

/-- Whether a token starts something other than the content of a document. -/
def isOutside : TokenKind → Bool
  | .version _ _ | .tagHandle _ _ | .documentStart | .documentEnd | .streamEnd => true
  | _ => false

/-- What a text holds: no document, or the first one. -/
abbrev Content := Option Sheet

/-- Reads the first document of some tokens; `none` if it is malformed. -/
def readTokens? (tokens : List Token) : Option Content := do
  let token ← tokens.head?
  let bound := 4 * tokens.length + 8
  let finish (found : Found) (p : Cursor) : Option Content := do
    let root ← found.toNode?
    let _ ← p.peek?
    some (some ⟨root, p.anchored, (tokens.length + 1) * (p.aliases + 1)⟩)
  match token.kind with
  | .streamEnd => some none
  | .version _ _ | .tagHandle _ _ | .documentStart => do
    let (handles, rest) ← readDirectives false [] tokens
    let start ← rest.head?
    if start.kind != .documentStart then none
    else
      let p : Cursor := { tokens := rest.drop 1, handles := handles ++ standardHandles }
      let next ← p.peek?
      if isOutside next.kind then some (some { root := emptyScalar next.line, bound := 1 })
      else do
        let (found, p) ← compose bound (.node true false) p
        finish found p
  | _ => do
    let (found, p) ← compose bound (.node true false) { tokens, handles := standardHandles }
    finish found p

/-- Reads the first document of a text; `none` if it is malformed. A text
    without bytes counts as one empty line. -/
def read? (bytes : List UInt8) : Option Content :=
  readTokens? (tokenize (Source.ofBytes (if bytes.isEmpty then [10] else bytes)))

end WhilePlus.Yaml
