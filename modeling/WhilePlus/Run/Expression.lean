import WhilePlus.Language.Tree
import WhilePlus.Store
import WhilePlus.Text.Quoted
import WhilePlus.Value

namespace WhilePlus

/-- Why the host ended a run. -/
inductive Failure where
  | stepLimit (limit : Nat)
  | canceled (span : Span)
  | missingExpression
  | unknownOperator (name : String)
  /-- Stands for a run that never ends. -/
  | unfinished
  deriving DecidableEq, Repr

/-- What is said of a failure. -/
def Failure.message : Failure → String
  | stepLimit limit => "step limit exceeded (limit " ++ toString limit ++ ")"
  | canceled span => "while loop at " ++ span.display ++ ": context canceled"
  | missingExpression => "missing expression"
  | unknownOperator name => "unsupported operator " ++ Text.quote name
  | unfinished => "evaluation did not finish"

/-- What ends the evaluation of a statement or an expression before its end. A
    raised value belongs to the language and can be caught; a failure belongs to
    the host and passes every handler. -/
inductive Signal where
  | raised (value : Cell)
  | failed (failure : Failure)
  deriving DecidableEq, Repr

/-- What is said of a raised value that nothing caught. -/
def uncaughtMessage (value : Cell) : String :=
  "uncaught exception: " ++ value.display

/-- The raised value of a signal, unless it is a failure of the host. -/
def Signal.raised? : Signal → Option Cell
  | .raised value => some value
  | .failed _ => none

/-- How a statement ended. -/
abbrev Outcome := Except Signal Unit

/-- Raises a fault of the language. -/
def raise {α : Type} (v : Value) : Except Signal α :=
  .error (.raised (some v))

/-- The result of an operator on two integers; arithmetic wraps around at 64
    bits, and a quotient is cut off toward zero. -/
def Operator.apply (op : Operator) (a b : Int64) : Except Signal Value :=
  match op with
  | .plus => .ok (.int (a + b))
  | .minus => .ok (.int (a - b))
  | .times => .ok (.int (a * b))
  | .divide => if b = 0 then raise .divisionByZero else .ok (.int (a / b))
  | .gt => .ok (.bool (b < a))
  | .ge => .ok (.bool (b ≤ a))
  | .lt => .ok (.bool (a < b))
  | .le => .ok (.bool (a ≤ b))

/-- The result of an operator on two cells. Only integers are operands, and this
    is checked before the operator is looked at. -/
def OperatorRef.apply (op : OperatorRef) (left right : Cell) : Except Signal Value :=
  match left, right with
  | some (.int a), some (.int b) =>
    match op with
    | .known op => op.apply a b
    | .unknown name => .error (.failed (.unknownOperator name))
  | _, _ => raise .typeMismatch

/-- What an expression evaluates to in a store. -/
def Expr.eval (store : Store) : Expr → Except Signal Cell
  | .missing => .error (.failed .missingExpression)
  | .var _ name =>
    match store.get? name with
    | some cell => .ok cell
    | none => raise .undefinedVariable
  | .int _ n => .ok (some (.int n))
  | .bool _ b => .ok (some (.bool b))
  | .binary _ op left right => do
    let a ← left.eval store
    let b ← right.eval store
    let v ← op.apply a b
    .ok (some v)

/-- The truth value of a condition. -/
def Expr.test (store : Store) (condition : Expr) : Except Signal Bool := do
  match ← condition.eval store with
  | some (.bool b) => .ok b
  | _ => raise .typeMismatch

end WhilePlus
