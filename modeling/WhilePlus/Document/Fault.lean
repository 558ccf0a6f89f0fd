import WhilePlus.Document.Basic
import WhilePlus.Language.Operator
import WhilePlus.Number.Digits

namespace WhilePlus

/-- One step into a document. -/
inductive Step where
  | field (name : String)
  | index (i : Nat)
  deriving DecidableEq, Repr

/-- The steps to a place in a document, the first one from the root first. -/
abbrev Place := List Step

/-- Appends one step to the text of a place. -/
def Step.extend (text : String) : Step → String
  | .field name => if text.isEmpty then name else text ++ "." ++ name
  | .index i => text ++ "[" ++ toString i ++ "]"

/-- The text of a place: names divided by points, numbers of items in brackets. -/
def Place.display (place : Place) : String :=
  place.foldl Step.extend ""

/-- What is wrong at one place of a document. -/
inductive Fault where
  | missingNode
  | notMapping (typeName : String)
  | keyNotText (key : String)
  | missingType
  | unknownStatement (type : String)
  | unknownExpression (type : String)
  | emptyText
  | notText (typeName : String)
  | notList (typeName : String)
  | notBool (typeName : String)
  | notInteger (shown : String)
  | integerTooLarge (n : UInt64)
  | badNumber (literal : String) (fault : Number.Fault)
  | unknownOperator (text : String)
  | tagCount (count : Nat)
  | unknownKind (kind : String)
  deriving DecidableEq, Repr

namespace Fault

/-- What is said of a fault. -/
def message : Fault → String
  | missingNode => "missing node"
  | notMapping typeName => "expected node object, got " ++ typeName
  | keyNotText key => "non-string key " ++ key
  | missingType => "node is missing its type"
  | unknownStatement type => "unsupported statement type " ++ Text.quote type
  | unknownExpression type => "unsupported expression type " ++ Text.quote type
  | emptyText => "expected non-empty string"
  | notText typeName => "expected string, got " ++ typeName
  | notList typeName => "expected list, got " ++ typeName
  | notBool typeName => "expected bool, got " ++ typeName
  | notInteger shown => "expected integer, got " ++ shown
  | integerTooLarge n => "integer " ++ toString n.toNat ++ " out of range"
  | badNumber literal fault => fault.message literal
  | unknownOperator text => Operator.unknownMessage text
  | tagCount count => "expected exactly one tag, got " ++ toString count ++ " keys"
  | unknownKind kind => "unknown value kind " ++ Text.quote kind

/-- Whether the fault is that a document is no mapping with texts as keys. -/
def isStructural : Fault → Bool
  | missingNode | notMapping _ | keyNotText _ => true
  | _ => false

end Fault

/-- A fault at a place, which is given by the steps that lead to it from the
    root. -/
structure DecodeError where
  place : Place
  fault : Fault
  deriving DecidableEq, Repr

namespace DecodeError

/-- What is said of a fault at a place. -/
def message (e : DecodeError) : String :=
  let path := e.place.display
  if path.isEmpty then e.fault.message else path ++ ": " ++ e.fault.message

/-- The error as it is seen from one step further out. -/
def under (step : Step) (e : DecodeError) : DecodeError :=
  { e with place := step :: e.place }

end DecodeError

/-- A fault at the place that is being read. -/
def Fault.here {α : Type} (fault : Fault) : Except DecodeError α :=
  .error ⟨[], fault⟩

end WhilePlus
