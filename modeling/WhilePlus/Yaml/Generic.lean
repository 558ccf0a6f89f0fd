import WhilePlus.Yaml.Scalar

namespace WhilePlus.Yaml

/-- What is said of a key with parts where keys are looked up. -/
def notComparable {α : Type} (key : Document) : Reading α :=
  throw (.ofCrash ("runtime error: hash of unhashable type " ++ key.typeName))

/-- Entries that are being collected, and the keys that must not be set again. -/
structure Collected where
  entries : List (Document × Document) := []
  /-- Inside a merge: the keys that are taken. -/
  taken : Option (List Document) := none

namespace Collected

/-- Whether a key may be set. -/
def isFree (c : Collected) (key : Document) : Bool :=
  match c.taken with
  | some keys => !keys.any key.sameKey
  | none => true

/-- Marks a key as taken. -/
def take (c : Collected) (key : Document) : Collected :=
  { c with taken := c.taken.map (key :: ·) }

/-- Sets an entry, in place of an older one with the same key. -/
def put (c : Collected) (key value : Document) : Collected :=
  { c with entries := Document.setEntry c.entries key value }

/-- The document of a mapping: a record if its keys are texts. -/
def toDocument (c : Collected) (textKeys : Bool) : Document :=
  if textKeys then
    .record (c.entries.filterMap fun (key, value) => key.text?.map (·, value))
  else .table c.entries

end Collected

/-- Whether all keys of a mapping are texts. -/
def hasTextKeys (pairs : List (Node × Node)) : Reading Bool := do
  let sheet ← read
  pure (pairs.all fun (key, _) => sheet.tag key == strTag || sheet.tag key == mergeTag)

/-- Reads the items of a list; those that are unset are left out. -/
def readItems {α : Type} (item : Node → Reading (Option α)) : List Node → Reading (List α)
  | [] => pure []
  | n :: rest => do
    let a ← item n
    let more ← readItems item rest
    pure (match a with
      | some a => a :: more
      | none => more)

/-- The keys of a mapping, which are taken when others are merged into it. -/
def takenKeys (readKey : Node → Reading (Option Document)) :
    List (Node × Node) → Reading (List Document)
  | [] => pure []
  | (key, _) :: rest => do
    match ← readKey key with
    | some d => if d.isComposite then notComparable d else (d :: ·) <$> takenKeys readKey rest
    | none => takenKeys readKey rest

/-- The value of the last merge key of a mapping. -/
def mergeValue? (pairs : List (Node × Node)) : Option Node :=
  (pairs.reverse.find? fun pair => pair.1.isMerge).map Prod.snd

/-- Reads the pairs of a mapping, without what is merged into it. -/
def readPairs (readNode : Node → Reading (Option Document)) (textKeys : Bool) (c : Collected) :
    List (Node × Node) → Reading Collected
  | [] => pure c
  | (key, value) :: rest => do
    if key.isMerge then readPairs readNode textKeys c rest
    else
      match ← if textKeys then (·.map .text) <$> readText key else readNode key with
      | none => readPairs readNode textKeys c rest
      | some k =>
        if c.taken.isSome && k.isComposite then notComparable k
        else if !c.isFree k then readPairs readNode textKeys c rest
        else if k.isComposite then unreadable "invalid map key"
        else
          match ← readNode value with
          | some d => readPairs readNode textKeys ((c.take k).put k d) rest
          | none => readPairs readNode textKeys (c.take k) rest

mutual

/-- Reads a node as a document; `none` for a mapping with repeated keys. The
    bound is more than the number of nodes on the way down. -/
def readWithin : Nat → Node → Reading (Option Document)
  | 0, _ => unreadable "document is nested too deeply"
  | bound + 1, n =>
    reach n fun
      | .scalar _ tag text => some <$> scalarValue tag text
      | .sequence _ _ items => (some ∘ .list) <$> readItems (readWithin bound) items
      | .mapping _ _ pairs => do
        if ← checkKeys pairs then
          let textKeys ← hasTextKeys pairs
          let c ← readMerged bound textKeys {} pairs
          pure (some (c.toDocument textKeys))
        else pure none
      | .reference _ _ _ _ => pure none

/-- Reads the pairs of a mapping, and after them what is merged into it. -/
def readMerged : Nat → Bool → Collected → List (Node × Node) → Reading Collected
  | 0, _, _, _ => unreadable "document is nested too deeply"
  | bound + 1, textKeys, c, pairs => do
    let c ← readPairs (readWithin bound) textKeys c pairs
    match mergeValue? pairs with
    | none => pure c
    | some value => do
      let taken ←
        match c.taken with
        | some taken => pure taken
        | none => takenKeys (readWithin bound) pairs
      let merged ← (mergedNodes value).foldlM
        (fun (c : Collected) n => do
          if ← canMerge n then
            reach n fun
              | .mapping _ _ pairs => do
                if ← checkKeys pairs then readMerged bound textKeys c pairs else pure c
              | _ => pure c
          else notMergeable)
        { c with taken := some taken }
      pure { merged with taken := c.taken.bind fun _ => merged.taken }

end

/-- Reads a node as a document. -/
def readDocument (n : Node) : Reading (Option Document) := do
  readWithin (2 * (← read).bound) n

/-- Reads the first document of a text; no document at all is null. -/
def readGeneric (bytes : List UInt8) : Except Error Document :=
  match read? bytes with
  | none => .error malformed
  | some none => .ok .null
  | some (some sheet) => sheet.read fun root => do
    let d ← readDocument root
    pure (d.getD .null)

end WhilePlus.Yaml
