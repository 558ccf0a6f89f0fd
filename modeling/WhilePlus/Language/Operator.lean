import WhilePlus.Text.Character
import WhilePlus.Text.Quoted

namespace WhilePlus

/-- A binary operator of the language. -/
inductive Operator where
  | plus
  | minus
  | times
  | divide
  | gt
  | ge
  | lt
  | le
  deriving DecidableEq, Repr

namespace Operator

/-- All operators. -/
def all : List Operator := [plus, minus, times, divide, gt, ge, lt, le]

/-- The name of an operator, as trees spell it. -/
def name : Operator → String
  | plus => "Plus"
  | minus => "Minus"
  | times => "Times"
  | divide => "Divide"
  | gt => "Gt"
  | ge => "Ge"
  | lt => "Lt"
  | le => "Le"

/-- The symbol that is written between the operands. -/
def symbol : Operator → String
  | plus => "+"
  | minus => "-"
  | times => "*"
  | divide => "/"
  | gt => ">"
  | ge => ">="
  | lt => "<"
  | le => "<="

/-- Whether the operator yields an integer. -/
def isArithmetic : Operator → Bool
  | plus | minus | times | divide => true
  | gt | ge | lt | le => false

/-- Whether the operator yields a truth value. -/
def isComparison (op : Operator) : Bool :=
  !op.isArithmetic

/-- Whether a text without white space around it spells the operator: by its
    symbol, or by its name with letter case ignored. -/
def spelledBy (op : Operator) (text : String) : Bool :=
  text == op.symbol || Text.equalFold text op.name

/-- Reads an operator from its name or its symbol, white space around it aside. -/
def parse? (text : String) : Option Operator :=
  all.find? (·.spelledBy (Text.trim text))

/-- The operator with exactly the given name. -/
def ofName? (name : String) : Option Operator :=
  all.find? (·.name == name)

/-- What is said of a text that spells no operator. -/
def unknownMessage (text : String) : String :=
  "unknown operator " ++ Text.quote text

end Operator

/-- An operator as a tree names it. A tree that was not read from a document may
    name one that does not exist. -/
inductive OperatorRef where
  | known (op : Operator)
  | unknown (name : String)
  deriving DecidableEq, Repr

namespace OperatorRef

/-- Reads the name of an operator as it stands, without any check. -/
def ofName (name : String) : OperatorRef :=
  match Operator.ofName? name with
  | some op => known op
  | none => unknown name

/-- The name that the tree gives. -/
def name : OperatorRef → String
  | known op => op.name
  | unknown text => text

/-- The symbol of an operator; an unknown one is its own symbol. -/
def symbol : OperatorRef → String
  | known op => op.symbol
  | unknown text => text

/-- Whether the operator yields an integer. -/
def isArithmetic : OperatorRef → Bool
  | known op => op.isArithmetic
  | unknown _ => false

/-- Whether the operator yields a truth value. -/
def isComparison : OperatorRef → Bool
  | known op => op.isComparison
  | unknown _ => false

end OperatorRef

end WhilePlus
