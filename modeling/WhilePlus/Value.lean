namespace WhilePlus

/-- A value: an integer of 64 bits or a truth value. -/
inductive Value where
  | int (n : Int64)
  | bool (b : Bool)
  deriving DecidableEq, Repr

/-- What a name is bound to. A cell may be empty: a store that is handed in from
    outside can bind a name to no value at all. -/
abbrev Cell := Option Value

namespace Value

/-- Raised by reading a name that has no binding. -/
def undefinedVariable : Value := .int 0

/-- Raised by a division whose divisor is zero. -/
def divisionByZero : Value := .int 1

/-- Raised by an operand or a condition of the wrong kind. -/
def typeMismatch : Value := .int 2

/-- The form in which values appear in program output: the tag, then the
    payload, with brackets around a negative number. -/
def display : Value → String
  | .int n =>
    let digits := toString n.toInt
    if n < 0 then "IntVal (" ++ digits ++ ")" else "IntVal " ++ digits
  | .bool true => "BoolVal True"
  | .bool false => "BoolVal False"

/-- The number of a value's kind: integers come first. -/
def kind : Value → Int
  | .int _ => 0
  | .bool _ => 1

/-- Whether two values have the same tag and the same payload. -/
def equal : Value → Value → Bool
  | .int a, .int b => a == b
  | .bool a, .bool b => a == b
  | _, _ => false

private theorem equal_iff {a b : Value} : a.equal b = true ↔ a = b := by
  cases a <;> cases b <;> simp [equal]

end Value

/-- The name of a kind, given by its number. -/
def kindName (number : Int) : String :=
  if number = 0 then "int"
  else if number = 1 then "bool"
  else "unknown_kind_" ++ toString number

/-- The display form of a cell. -/
def Cell.display : Cell → String
  | some v => v.display
  | none => "<nil>"

/-- Whether two cells hold the same. A cell without a value is only like another
    one without. -/
def Cell.equal : Cell → Cell → Bool
  | some a, some b => a.equal b
  | none, none => true
  | _, _ => false

/-- Two cells hold the same exactly if they are the same cell. -/
theorem Cell.equal_iff {a b : Cell} : a.equal b = true ↔ a = b := by
  cases a <;> cases b <;> simp [Cell.equal, Value.equal_iff]

end WhilePlus
