import WhilePlus.Error
import WhilePlus.Text.Base64
import WhilePlus.Yaml.Compose

namespace WhilePlus.Yaml

/-- What is kept track of while nodes are read. -/
structure Tally where
  /-- The number of nodes that were read. -/
  visited : Nat := 0
  /-- The number of those that were reached through an alias. -/
  aliased : Nat := 0
  /-- The aliases whose nodes are being read, the last one first. -/
  following : List Nat := []
  /-- What did not fit. -/
  problems : List String := []

/-- A step of reading a document. What does not fit is noted, so that all of it
    can be reported at once; some faults end the reading. -/
abbrev Reading := ReaderT Sheet (StateT Tally (Except Error))

/-- What is said of a text that is no YAML. -/
def malformed : Error :=
  .ofText "yaml: malformed document"

/-- What is said of a document that cannot be read. -/
def unreadable {α : Type} (text : String) : Reading α :=
  throw (.ofText ("yaml: " ++ text))

/-- Notes that something does not fit. -/
def report (problem : String) : Reading Unit :=
  modify fun t => { t with problems := t.problems ++ [problem] }

/-- Whether aliases make up too much of a document. The share that is allowed
    falls from 99 to 10 percent as the document grows. -/
def Tally.isExcessive (t : Tally) : Bool :=
  let low := 400000
  let high := 4000000
  -- The share times the length of the range, in hundredths.
  let allowed : Nat :=
    if t.visited ≤ low then 99 * (high - low)
    else if high ≤ t.visited then 10 * (high - low)
    else 99 * (high - low) - 89 * (t.visited - low)
  100 < t.aliased && 1000 < t.visited && t.visited * allowed < t.aliased * 100 * (high - low)

/-- Counts a node. -/
def visit : Reading Unit := do
  let t ← get
  let t := { t with
    visited := t.visited + 1
    aliased := if t.following.isEmpty then t.aliased else t.aliased + 1 }
  set t
  if t.isExcessive then unreadable "document contains excessive aliasing" else pure ()

/-- Counts a node and reads it; in place of an alias, the node that it refers to
    is read. -/
def reach {α : Type} (n : Node) (body : Node → Reading α) : Reading α := do
  visit
  match n with
  | .reference _ name serial _ => do
    if (← get).following.contains serial then
      unreadable ("anchor '" ++ name ++ "' value contains itself")
    else
      modify fun t => { t with following := serial :: t.following }
      visit
      let a ← body ((← read).target n)
      modify fun t => { t with following := t.following.drop 1 }
      pure a
  | _ => body n

/-- The value of a scalar that does not fit, as messages show it: long ones are
    cut off. -/
def shownValue (text : String) : String :=
  let bytes := Text.toBytes text
  if 10 < bytes.length then Text.ofBytes (bytes.take 7) ++ "..." else text

/-- Notes that a node does not fit the type that is wanted. The text of a scalar
    that is tagged as a list or a mapping is shown as it is. -/
def reportMismatch (n : Node) (typeName : String) : Reading Unit :=
  let value :=
    if n.tag == seqTag || n.tag == mapTag then n.text else " `" ++ shownValue n.text ++ "`"
  report ("line " ++ toString n.line ++ ": cannot unmarshal " ++ n.tag ++ value ++ " into " ++
    typeName)

/-- What is said of a key that occurs twice. -/
def repeatedKey (first second : Node) : String :=
  "line " ++ toString second.line ++ ": mapping key " ++ Text.quote second.text ++
    " already defined at line " ++ toString first.line

/-- The repeated keys of a mapping, each with every later one that is the same. -/
def repeatedKeys : List (Node × Node) → List String
  | [] => []
  | (key, _) :: rest =>
    (rest.filter fun other => key.sameKey other.1).map (fun other => repeatedKey key other.1) ++
      repeatedKeys rest

/-- Checks that no key of a mapping occurs twice. -/
def checkKeys (pairs : List (Node × Node)) : Reading Bool := do
  let problems := repeatedKeys pairs
  modify fun t => { t with problems := t.problems ++ problems }
  pure problems.isEmpty

/-- Notes that a node that is no scalar does not fit; repeated keys are noted in
    place of that. -/
def refuse (n : Node) (typeName : String) : Reading Unit := do
  match n with
  | .mapping _ _ pairs => if ← checkKeys pairs then reportMismatch n typeName
  | _ => reportMismatch n typeName

/-- The text whose bytes a scalar spells in base 64, which may be spread over
    lines. -/
def binaryText? (text : String) : Option String :=
  (Base64.decode? (text.toList.filter fun c => c != '\n' && c != '\r')).map Text.ofBytes

/-- What a scalar stands for. -/
def scalarValue (tag text : String) : Reading Document :=
  if tag == binaryTag then
    match binaryText? text with
    | some s => pure (.text s)
    | none => unreadable "!!binary value contains invalid base64 data"
  else
    match resolve? tag text with
    | some d => pure d
    | none => unreadable ("cannot decode " ++ Text.quote text ++ " as a " ++ tag)

/-- What is said of a merge key whose value is no mapping. -/
def notMergeable {α : Type} : Reading α :=
  unreadable "map merge requires map or sequence of maps as the value"

/-- The nodes that a merge key adds, which must be mappings: one, or a list of
    them. -/
def mergedNodes (n : Node) : List Node :=
  match n with
  | .sequence _ _ items => items
  | _ => [n]

/-- Whether a node can be merged into a mapping. -/
def canMerge (n : Node) : Reading Bool := do
  pure ((← read).target n).isMapping

/-- The result of reading, with everything that did not fit as one error. -/
def Reading.run {α : Type} (reading : Reading α) (sheet : Sheet) : Except Error α :=
  match StateT.run (ReaderT.run reading sheet) {} with
  | .error e => .error e
  | .ok (a, t) => if t.problems.isEmpty then .ok a else .error ⟨"", .mismatch t.problems⟩

/-- Reads a whole document, which counts as a node itself. -/
def Sheet.read {α : Type} (sheet : Sheet) (body : Node → Reading α) : Except Error α :=
  (do
    visit
    body sheet.root : Reading α).run sheet

end WhilePlus.Yaml
