import WhilePlus.Language.Operator

namespace WhilePlus

/-- A line and a column. -/
structure Position where
  line : Int
  column : Int
  deriving DecidableEq, Repr

/-- The part of a source text that a node came from. If all its numbers are
    zero, no place is recorded. -/
structure Span where
  start : Position
  stop : Position
  deriving DecidableEq, Repr

/-- No line and no column. -/
def Position.zero : Position := ⟨0, 0⟩

namespace Span

/-- No recorded place. -/
def zero : Span := ⟨.zero, .zero⟩

instance : Inhabited Span := ⟨zero⟩

/-- Whether no place is recorded. -/
def isZero (s : Span) : Bool :=
  s == zero

/-- Where the span starts, as messages show it. -/
def display (s : Span) : String :=
  if s.isZero then "?" else toString s.start.line ++ ":" ++ toString s.start.column

end Span

/-- An expression, or its absence. -/
inductive Expr where
  | missing
  | var (span : Span) (name : String)
  | int (span : Span) (n : Int64)
  | bool (span : Span) (b : Bool)
  | binary (span : Span) (op : OperatorRef) (left right : Expr)
  deriving DecidableEq, Repr, Inhabited

/-- A statement, or its absence. -/
inductive Stmt where
  | missing
  | skip (span : Span)
  | assign (span : Span) (name : String) (value : Expr)
  | branch (span : Span) (condition : Expr) (yes no : Stmt)
  | loop (span : Span) (condition : Expr) (body : Stmt)
  | seq (span : Span) (first second : Stmt)
  | print (span : Span) (lead : String) (expression : Expr)
  | throw (span : Span) (expression : Expr)
  | attempt (span : Span) (body : Stmt) (binding : String) (handler : Stmt)
  deriving DecidableEq, Repr, Inhabited

namespace Expr

/-- The span of an expression. -/
def span : Expr → Span
  | missing => .zero
  | var s _ | int s _ | bool s _ | binary s _ _ _ => s

/-- The expression with another span. -/
def withSpan (s : Span) : Expr → Expr
  | missing => missing
  | var _ name => var s name
  | int _ n => int s n
  | bool _ b => bool s b
  | binary _ op left right => binary s op left right

/-- The expression without any span. -/
def stripSpans : Expr → Expr
  | missing => missing
  | var _ name => var .zero name
  | int _ n => int .zero n
  | bool _ b => bool .zero b
  | binary _ op left right => binary .zero op left.stripSpans right.stripSpans

end Expr

namespace Stmt

/-- The span of a statement. -/
def span : Stmt → Span
  | missing => .zero
  | skip s | assign s _ _ | branch s _ _ _ | loop s _ _ | seq s _ _ | print s _ _ | throw s _
  | attempt s _ _ _ => s

/-- The statement with another span. -/
def withSpan (s : Span) : Stmt → Stmt
  | missing => missing
  | skip _ => skip s
  | assign _ name value => assign s name value
  | branch _ condition yes no => branch s condition yes no
  | loop _ condition body => loop s condition body
  | seq _ first second => seq s first second
  | print _ lead expression => print s lead expression
  | throw _ expression => throw s expression
  | attempt _ body binding handler => attempt s body binding handler

/-- The statements one after the other, nested to the right. No statement at all
    is `skip`, and a single one stands for itself. -/
def ofList : List Stmt → Stmt
  | [] => skip .zero
  | [s] => s
  | s :: rest => seq .zero s (ofList rest)

/-- The statement without any span. -/
def stripSpans : Stmt → Stmt
  | missing => missing
  | skip _ => skip .zero
  | assign _ name value => assign .zero name value.stripSpans
  | branch _ condition yes no => branch .zero condition.stripSpans yes.stripSpans no.stripSpans
  | loop _ condition body => loop .zero condition.stripSpans body.stripSpans
  | seq _ first second => seq .zero first.stripSpans second.stripSpans
  | print _ lead expression => print .zero lead expression.stripSpans
  | throw _ expression => throw .zero expression.stripSpans
  | attempt _ body binding handler => attempt .zero body.stripSpans binding handler.stripSpans

end Stmt

/-- A node of either sort. -/
inductive Node where
  | expr (e : Expr)
  | stmt (s : Stmt)
  deriving DecidableEq, Repr

end WhilePlus
