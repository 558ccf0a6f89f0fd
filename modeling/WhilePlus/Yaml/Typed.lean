import WhilePlus.Yaml.Generic

namespace WhilePlus.Yaml

/-- An entry of a mapping that is being read. -/
structure Entry where
  key : Node
  name : String
  value : Node
  /-- Whether the mapping has had an entry with this name before. -/
  again : Bool
  /-- Whether the mapping is merged into another one. -/
  merged : Bool

/-- How the entries of a mapping are read into a state. -/
structure MappingReader (σ : Type) where
  typeName : String
  step : σ → Entry → Reading σ

/-- A state, and inside a merge the keys that are taken. -/
abbrev Filled (σ : Type) := σ × Option (List Document)

/-- Reads the entries of a mapping, without what is merged into it. Inside a
    merge the names that are taken are left out. -/
def readEntries {σ : Type} (r : MappingReader σ) (seen : List String) (filled : Filled σ) :
    List (Node × Node) → Reading (Filled σ)
  | [] => pure filled
  | (key, value) :: rest => do
    if key.isMerge then readEntries r seen filled rest
    else
      match ← readText key with
      | none => readEntries r seen filled rest
      | some name =>
        let (s, taken) := filled
        if (taken.map (·.any (Document.sameKey (.text name)))).getD false then
          readEntries r seen filled rest
        else
          let s ← r.step s ⟨key, name, value, seen.contains name, taken.isSome⟩
          readEntries r (name :: seen) (s, taken.map (.text name :: ·)) rest

/-- Reads the entries of a mapping, and after them what is merged into it; the
    bound is more than the number of mappings inside one another. -/
def readMapped {σ : Type} (r : MappingReader σ) :
    Nat → Filled σ → List (Node × Node) → Reading (Filled σ)
  | 0, _, _ => unreadable "document is nested too deeply"
  | bound + 1, filled, pairs => do
    let (s, taken) ← readEntries r [] filled pairs
    match mergeValue? pairs with
    | none => pure (s, taken)
    | some value => do
      let known ←
        match taken with
        | some known => pure known
        | none => takenKeys readDocument pairs
      let (s, known) ← (mergedNodes value).foldlM
        (fun (filled : Filled σ) n => do
          if ← canMerge n then
            reach n fun
              | .mapping _ _ pairs => do
                if ← checkKeys pairs then readMapped r bound filled pairs else pure filled
              | _ => pure filled
          else notMergeable)
        (s, some known)
      pure (s, taken.bind fun _ => known)

/-- Reads a mapping into a state; `none` for null and for what is no mapping. -/
def readMapping {σ : Type} (r : MappingReader σ) (s : σ) (n : Node) : Reading (Option σ) :=
  reach n fun n => do
    match n with
    | .scalar _ tag text => do
      let d ← scalarValue tag text
      if !d.isNull then reportMismatch n r.typeName
      pure none
    | .mapping _ _ pairs => do
      if ← checkKeys pairs then
        let (s, _) ← readMapped r (← read).bound (s, none) pairs
        pure (some s)
      else pure none
    | _ => do
      refuse n r.typeName
      pure none

/-- A field of a record: its name, and how its value is read into the record. -/
structure Field (σ : Type) where
  name : String
  read : σ → Node → Reading σ

/-- A field whose value is stored unless it is unset. -/
def Field.of {σ α : Type} (name : String) (read : Node → Reading (Option α)) (store : σ → α → σ) :
    Field σ :=
  ⟨name, fun s n => do
    match ← read n with
    | some a => pure (store s a)
    | none => pure s⟩

/-- Reads a record with the given fields; a strict one must have no other. -/
def readRecord {σ : Type} (typeName : String) (strict : Bool) (fields : List (Field σ)) (s : σ) :
    Node → Reading (Option σ) :=
  readMapping
    { typeName
      step := fun s entry =>
        let field := "line " ++ toString entry.key.line ++ ": field " ++ entry.name
        match fields.find? (·.name == entry.name) with
        | some known =>
          if entry.again then do
            report (field ++ " already set in type " ++ typeName)
            pure s
          else known.read s entry.value
        | none => do
          if strict then report (field ++ " not found in type " ++ typeName)
          pure s }
    s

/-- Puts a pair into a list of pairs, in place of an older one with the same
    name. -/
def putPair {α : Type} (pairs : List (String × α)) (name : String) (a : α) : List (String × α) :=
  match pairs with
  | [] => [(name, a)]
  | (other, b) :: rest =>
    if other == name then (name, a) :: rest else (other, b) :: putPair rest name a

/-- Reads a mapping from names to texts; null stands for the empty text. -/
def readTextMap : Node → Reading (Option (List (String × String))) :=
  readMapping
    { typeName := "map[string]string"
      step := fun pairs entry => do
        match ← readText entry.value with
        | some text => pure (putPair pairs entry.name text)
        | none =>
          if (← read).tag entry.value == nullTag &&
              (!entry.merged || (pairs.lookup entry.name).isNone) then
            pure (putPair pairs entry.name "")
          else pure pairs }
    []

/-- Reads a mapping from names to documents. -/
def readDocumentMap : Node → Reading (Option (List (String × Document))) :=
  readMapping
    { typeName := "map[string]interface \x7b\x7d"
      step := fun pairs entry => do
        match ← readDocument entry.value with
        | some d => pure (putPair pairs entry.name d)
        | none => pure pairs }
    []

/-- Reads a list. -/
def readList {α : Type} (typeName : String) (item : Node → Reading (Option α)) (n : Node) :
    Reading (Option (List α)) :=
  reach n fun n => do
    match n with
    | .scalar _ tag text => do
      let d ← scalarValue tag text
      if !d.isNull then reportMismatch n typeName
      pure none
    | .sequence _ _ items => some <$> readItems item items
    | _ => do
      refuse n typeName
      pure none

end WhilePlus.Yaml
