import WhilePlus.Document.Timestamp
import WhilePlus.Number.Binary64

namespace WhilePlus

/-- A generic document: what a data file holds before it is read as a program.
    Readers differ in how they represent numbers and mappings, and messages name
    the representation, so documents keep it. -/
inductive Document where
  | null
  | bool (b : Bool)
  | text (s : String)
  | int (n : Int64)
  | int32 (n : Int32)
  | int64 (n : Int64)
  | uint64 (n : UInt64)
  | float (x : Binary64)
  /-- A number kept as it was written. -/
  | number (literal : String)
  | time (t : Timestamp)
  | list (items : List Document)
  /-- A mapping whose keys are texts. -/
  | record (fields : List (String × Document))
  /-- A mapping with keys of any sort. -/
  | table (entries : List (Document × Document))
  deriving Inhabited

namespace Document

/-- The name of a document's representation, as messages show it. -/
def typeName : Document → String
  | null => "<nil>"
  | bool _ => "bool"
  | text _ => "string"
  | int _ => "int"
  | int32 _ => "int32"
  | int64 _ => "int64"
  | uint64 _ => "uint64"
  | float _ => "float64"
  | number _ => "json.Number"
  | time _ => "time.Time"
  | list _ => "[]interface \x7b\x7d"
  | record _ => "map[string]interface \x7b\x7d"
  | table _ => "map[interface \x7b\x7d]interface \x7b\x7d"

mutual

/-- A document as messages show it when it stands as a key. -/
def display : Document → String
  | null => "<nil>"
  | bool b => toString b
  | text s => s
  | int n => toString n.toInt
  | int32 n => toString n.toInt
  | int64 n => toString n.toInt
  | uint64 n => toString n.toNat
  | float x => x.display
  | number literal => literal
  | time t => t.display
  | list items => "[" ++ " ".intercalate (displayItems items) ++ "]"
  | record fields => "map[" ++ " ".intercalate (displayFields fields) ++ "]"
  | table entries => "map[" ++ " ".intercalate (displayEntries entries) ++ "]"

/-- The display forms of the items of a list. -/
def displayItems : List Document → List String
  | [] => []
  | item :: rest => item.display :: displayItems rest

/-- The display forms of the fields of a record. -/
def displayFields : List (String × Document) → List String
  | [] => []
  | (name, value) :: rest => (name ++ ":" ++ value.display) :: displayFields rest

/-- The display forms of the entries of a table. -/
def displayEntries : List (Document × Document) → List String
  | [] => []
  | (key, value) :: rest => (key.display ++ ":" ++ value.display) :: displayEntries rest

end

/-- Whether a document is null. -/
def isNull : Document → Bool
  | null => true
  | _ => false

/-- The text that a document is, if it is one. -/
def text? : Document → Option String
  | text s => some s
  | _ => none

/-- Whether a document has parts, so that it cannot be a key. -/
def isComposite : Document → Bool
  | list _ => true
  | record _ => true
  | table _ => true
  | _ => false

/-- Whether two documents are the same key. -/
def sameKey : Document → Document → Bool
  | null, null => true
  | bool a, bool b => a == b
  | text a, text b => a == b
  | int a, int b => a == b
  | int32 a, int32 b => a == b
  | int64 a, int64 b => a == b
  | uint64 a, uint64 b => a == b
  | float .nan, float .nan => false
  | float (.finite _ 0 _), float (.finite _ 0 _) => true
  | float a, float b => a == b
  | number a, number b => a == b
  | time a, time b => a == b
  | _, _ => false

/-- Puts an entry into a table, in place of an older one with the same key. -/
def setEntry (entries : List (Document × Document)) (key value : Document) :
    List (Document × Document) :=
  match entries with
  | [] => [(key, value)]
  | (other, old) :: rest =>
    if other.sameKey key then (key, value) :: rest else (other, old) :: setEntry rest key value

/-- Puts a field into a record, in place of an older one with that name. -/
def setField (fields : List (String × Document)) (name : String) (value : Document) :
    List (String × Document) :=
  match fields with
  | [] => [(name, value)]
  | (other, old) :: rest =>
    if other == name then (name, value) :: rest else (other, old) :: setField rest name value

/-- The field of a record under a name; a missing field is null. -/
def member (fields : List (String × Document)) (name : String) : Document :=
  (fields.lookup name).getD .null

end Document

end WhilePlus
