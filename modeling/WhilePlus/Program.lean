import WhilePlus.Document.Decode
import WhilePlus.Error
import WhilePlus.Json.Reader
import WhilePlus.Store
import WhilePlus.Yaml.Generic

namespace WhilePlus

/-- The encoding of a program document. -/
inductive Format where
  | json
  | yaml
  | unknown (name : String)
  deriving DecidableEq, Repr

/-- The encoding with the given name. -/
def Format.ofName : String → Format
  | "json" => .json
  | "yaml" => .yaml
  | name => .unknown name

/-- A statement and the store that it starts from. -/
structure Program where
  store : Store
  body : Stmt
  deriving DecidableEq

/-- Reads a generic document, which must not be empty. -/
def readDocument (bytes : List UInt8) (format : Format) : Except Error Document := do
  let d ←
    match format with
    | .json =>
      match Json.readFirst? (Text.decodeLossy bytes) with
      | some d => .ok d
      | none => .error (.ofText "parse json: malformed document")
    | .yaml => within "parse yaml: " (Yaml.readGeneric bytes)
    | .unknown name => .error (.ofText ("unsupported document format " ++ Text.quote name))
  if d.isNull then .error (.ofText "document is empty") else .ok d

/-- Reads a tagged value. -/
def Value.ofDocument (d : Document) : Except Error Value :=
  match d.decodeLiteral with
  | .ok v => .ok v
  | .error fault => .error (.ofLiteral fault)

/-- Reads the values of some bindings, and reports the first that is none. -/
def decodeBindings : List (String × Document) → Except Error (List (String × Cell))
  | [] => .ok []
  | (name, d) :: rest => do
    let v ← within ("store." ++ name ++ ": ") (Value.ofDocument d)
    let more ← decodeBindings rest
    .ok ((name, some v) :: more)

/-- The fields of a record in the order of their names. -/
def sortFields {α : Type} (fields : List (String × α)) : List (String × α) :=
  fields.foldl (fun sorted f => insertBinding f.1 f.2 sorted) []

/-- Reads a store from a record of tagged values; null is the empty store. -/
def Store.ofDocument : Document → Except Error Store
  | .null => .ok .empty
  | .record fields => do
    let bindings ← decodeBindings (sortFields fields)
    .ok (.ofList bindings)
  | d => .error (.ofText ("store: expected a mapping, got " ++ d.typeName))

/-- Reads a statement. -/
def Stmt.ofDocument (d : Document) : Except Error Stmt :=
  match d.decodeStmt with
  | .ok s => .ok s
  | .error e => .error ⟨"", .decode e⟩

namespace Program

/-- Reads a program from the fields of a record. -/
def ofFields (fields : List (String × Document)) : Except Error Program :=
  match fields.lookup "program" with
  | none => do
    let body ← Stmt.ofDocument (.record fields)
    .ok ⟨.empty, body⟩
  | some d =>
    match (sortFields fields).find? fun f => f.1 != "program" && f.1 != "store" with
    | some f => .error (.ofText ("unknown top-level field " ++ Text.quote f.1))
    | none => do
      let store ← Store.ofDocument (Document.member fields "store")
      let body ← Stmt.ofDocument d
      .ok ⟨store, body⟩

/-- Reads a program from a generic document. -/
def ofDocument : Document → Except Error Program
  | .record fields => ofFields fields
  | d => .error (.ofText ("expected a mapping at the document root, got " ++ d.typeName))

/-- Reads a program document. -/
def parse (bytes : List UInt8) (format : Format) : Except Error Program := do
  let d ← readDocument bytes format
  ofDocument d

/-- Reads a program document from a stream. -/
def read (bytes : List UInt8) (format : Format) : Except Error Program :=
  within "program: " (parse bytes format)

end Program

end WhilePlus
