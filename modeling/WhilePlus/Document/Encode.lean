import WhilePlus.Document.Basic
import WhilePlus.Language.Tree
import WhilePlus.Value

namespace WhilePlus

/-- A number of 64 bits in decimals. -/
def Document.ofInt64 (n : Int64) : Document :=
  .number (toString n.toInt)

/-- The document of an expression; a missing one is null. -/
def Expr.toDocument : Expr → Document
  | .missing => .null
  | .var _ name => .record [("type", .text "Var"), ("name", .text name)]
  | .int _ n => .record [("type", .text "IntLiteral"), ("value", .ofInt64 n)]
  | .bool _ b => .record [("type", .text "BoolLiteral"), ("value", .bool b)]
  | .binary _ op left right =>
    .record [("type", .text "Op"), ("operator", .text op.name), ("left", left.toDocument),
      ("right", right.toDocument)]

/-- The document of a statement; a missing one is null. -/
def Stmt.toDocument : Stmt → Document
  | .missing => .null
  | .skip _ => .record [("type", .text "Skip")]
  | .assign _ name value =>
    .record [("type", .text "Assign"), ("name", .text name), ("value", value.toDocument)]
  | .branch _ condition yes no =>
    .record [("type", .text "If"), ("condition", condition.toDocument), ("then", yes.toDocument),
      ("else", no.toDocument)]
  | .loop _ condition body =>
    .record [("type", .text "While"), ("condition", condition.toDocument),
      ("body", body.toDocument)]
  | .seq _ first second =>
    .record [("type", .text "Sequence"), ("first", first.toDocument),
      ("second", second.toDocument)]
  | .print _ lead expression =>
    .record [("type", .text "Print"), ("prefix", .text lead),
      ("expression", expression.toDocument)]
  | .throw _ expression => .record [("type", .text "Throw"), ("expression", expression.toDocument)]
  | .attempt _ body binding handler =>
    .record [("type", .text "Try"), ("body", body.toDocument), ("binding", .text binding),
      ("handler", handler.toDocument)]

/-- The document of a node. -/
def Node.toDocument : Node → Document
  | .expr e => e.toDocument
  | .stmt s => s.toDocument

/-- The tagged form of a value. -/
def Value.toDocument : Value → Document
  | .int n => .record [("int", .int64 n)]
  | .bool b => .record [("bool", .bool b)]

end WhilePlus
