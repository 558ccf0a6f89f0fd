import WhilePlus.Document.Fault
import WhilePlus.Language.Tree
import WhilePlus.Text.Character
import WhilePlus.Value

namespace WhilePlus

namespace Document

/-- The fields of a table; the first key that is no text is a fault. The list
    stands for the order in which the table is gone through, which is not fixed:
    of several keys that are no text, each may be the one that the fault names. -/
def textEntries : List (Document × Document) → Except Fault (List (String × Document))
  | [] => .ok []
  | (.text name, value) :: rest => do
    let rest ← textEntries rest
    .ok ((name, value) :: rest)
  | (key, _) :: _ => .error (.keyNotText key.display)

/-- The fields of a mapping. -/
def fields : Document → Except Fault (List (String × Document))
  | .record fs => .ok fs
  | .table entries => textEntries entries
  | .null => .error .missingNode
  | d => .error (.notMapping d.typeName)

private theorem sizeOf_textEntries {entries : List (Document × Document)}
    {fs : List (String × Document)} (h : textEntries entries = .ok fs) :
    sizeOf fs ≤ sizeOf entries := by
  induction entries generalizing fs with
  | nil =>
    simp only [textEntries, Except.ok.injEq] at h
    subst h
    exact Nat.le_refl _
  | cons entry rest ih =>
    obtain ⟨key, value⟩ := entry
    cases key with
    | text name =>
      simp only [textEntries] at h
      cases hrest : textEntries rest with
      | error e => simp [hrest, bind, Except.bind] at h
      | ok more =>
        simp only [hrest, bind, Except.bind, Except.ok.injEq] at h
        subst h
        have := ih hrest
        simp only [List.cons.sizeOf_spec, Prod.mk.sizeOf_spec, Document.text.sizeOf_spec]
        omega
    | _ => simp [textEntries] at h

/-- The fields of a mapping are smaller than the mapping, which is why reading a
    node ends. -/
theorem sizeOf_fields_lt {d : Document} {fs : List (String × Document)} (h : d.fields = .ok fs) :
    sizeOf fs < sizeOf d := by
  cases d with
  | record fs' =>
    simp only [fields, Except.ok.injEq] at h
    subst h
    simp only [Document.record.sizeOf_spec]
    omega
  | table entries =>
    have := sizeOf_textEntries (show textEntries entries = .ok fs from h)
    simp only [Document.table.sizeOf_spec]
    omega
  | _ => simp [fields] at h

/-- What a field holds is smaller than the list of the fields. -/
theorem sizeOf_lookup_lt {fs : List (String × Document)} {name : String} {d : Document}
    (h : fs.lookup name = some d) : sizeOf d < sizeOf fs := by
  induction fs with
  | nil => simp at h
  | cons field rest ih =>
    obtain ⟨other, value⟩ := field
    simp only [List.cons.sizeOf_spec, Prod.mk.sizeOf_spec]
    simp only [List.lookup_cons] at h
    split at h
    · simp only [Option.some.injEq] at h
      subst h
      omega
    · have := ih h
      omega

/-- A field of a node is smaller than the node. -/
theorem sizeOf_member_lt {d : Document} {fs : List (String × Document)} (h : d.fields = .ok fs)
    (name : String) : sizeOf (member fs name) < sizeOf d := by
  have hfields := sizeOf_fields_lt h
  unfold member
  cases hlookup : fs.lookup name with
  | none =>
    have : 0 < sizeOf fs := by cases fs <;> simp +arith
    simp only [Option.getD_none, Document.null.sizeOf_spec]
    omega
  | some value =>
    have := sizeOf_lookup_lt hlookup
    simp only [Option.getD_some]
    omega

/-- The integer that a document is, in whatever way it is represented. -/
def toInteger : Document → Except Fault Int64
  | .int n => .ok n
  | .int64 n => .ok n
  | .int32 n => .ok n.toInt64
  | .uint64 n =>
    if n.toNat < Number.signedLimit then .ok (Int64.ofInt n.toNat)
    else .error (.integerTooLarge n)
  | .float x =>
    match x.toInt? with
    | some n =>
      if -(Number.signedLimit : Int) ≤ n && n < Number.signedLimit then .ok (Int64.ofInt n)
      else .error (.notInteger x.display)
    | none => .error (.notInteger x.display)
  | .number literal =>
    match Number.parseInt literal with
    | .ok n => .ok n
    | .error fault => .error (.badNumber literal fault)
  | d => .error (.notInteger d.typeName)

/-- The truth value that a document is. -/
def toBool : Document → Except Fault Bool
  | .bool b => .ok b
  | d => .error (.notBool d.typeName)

/-- A value of the kind that a tag names, in any letter case. -/
def literalOfKind (kind : String) (payload : Document) : Except Fault Value :=
  if ["int", "intval", "integer"].contains (Text.lower kind) then .int <$> payload.toInteger
  else if ["bool", "boolval", "boolean"].contains (Text.lower kind) then .bool <$> payload.toBool
  else .error (.unknownKind kind)

/-- Reads a tagged value: a mapping from one tag to the payload, or one with
    `kind` and `value`. -/
def decodeLiteral (d : Document) : Except Fault Value := do
  let fs ← d.fields
  match member fs "kind" with
  | .text kind => literalOfKind kind (member fs "value")
  | _ =>
    match fs with
    | [(kind, payload)] => literalOfKind kind payload
    | _ => .error (.tagCount fs.length)

/-- The expression that a value is written as. -/
def literalExpr : Value → Expr
  | .int n => .int .zero n
  | .bool b => .bool .zero b

/-- The text of a field, which must not be empty. -/
def requiredText (fs : List (String × Document)) (name : String) : Except DecodeError String :=
  match member fs name with
  | .text s => if s.isEmpty then .error ⟨[.field name], .emptyText⟩ else .ok s
  | _ => .error ⟨[.field name], .emptyText⟩

/-- The text of a field that may be missing. -/
def optionalText (fs : List (String × Document)) (name : String) : Except DecodeError String :=
  match member fs name with
  | .null => .ok ""
  | .text s => .ok s
  | d => .error ⟨[.field name], .notText d.typeName⟩

/-- The type that a node names; empty if it names none. -/
def nodeType (fs : List (String × Document)) : String :=
  (member fs "type").text?.getD ""

/-- A fault at a field. -/
def atField {α : Type} (name : String) : Except Fault α → Except DecodeError α
  | .ok a => .ok a
  | .error fault => .error ⟨[.field name], fault⟩

/-- Reads a line and a column; a missing position is zero. -/
def decodePosition (d : Document) : Except DecodeError Position :=
  match d with
  | .null => .ok .zero
  | d =>
    match d.fields with
    | .error fault => fault.here
    | .ok fs => do
      let line ← atField "line" (member fs "line").toInteger
      let column ← atField "column" (member fs "column").toInteger
      .ok ⟨line.toInt, column.toInt⟩

/-- Reads the span of a node, if it has one. -/
def decodeSpan (fs : List (String × Document)) : Except DecodeError (Option Span) :=
  match member fs "span" with
  | .null => .ok none
  | d =>
    match d.fields with
    | .error fault => .error ⟨[.field "span"], fault⟩
    | .ok parts => do
      let start ← (decodePosition (member parts "start")).mapError
        fun e => (e.under (.field "start")).under (.field "span")
      let stop ← (decodePosition (member parts "end")).mapError
        fun e => (e.under (.field "end")).under (.field "span")
      .ok (some ⟨start, stop⟩)

/-- A node with the span that its fields record, if any. -/
def located {α : Type} (withSpan : Span → α → α) (fs : List (String × Document))
    (node : Except DecodeError α) : Except DecodeError α := do
  let a ← node
  let span ← decodeSpan fs
  .ok (span.elim a (withSpan · a))

/-- Reads an expression. -/
def decodeExpr (d : Document) : Except DecodeError Expr :=
  match _h : d.fields with
  | .error fault => fault.here
  | .ok fs =>
    located Expr.withSpan fs <|
      match nodeType fs with
      | "Var" => do
        let name ← requiredText fs "name"
        .ok (Expr.var .zero name)
      | "Val" => do
        let v ← atField "value" (member fs "value").decodeLiteral
        .ok (literalExpr v)
      | "IntLiteral" => do
        let n ← atField "value" (member fs "value").toInteger
        .ok (Expr.int .zero n)
      | "BoolLiteral" => do
        let b ← atField "value" (member fs "value").toBool
        .ok (Expr.bool .zero b)
      | "Op" => do
        let text ← requiredText fs "operator"
        match Operator.parse? text with
        | none => .error ⟨[.field "operator"], .unknownOperator text⟩
        | some op => do
          let left ← (decodeExpr (member fs "left")).mapError (·.under (.field "left"))
          let right ← (decodeExpr (member fs "right")).mapError (·.under (.field "right"))
          .ok (Expr.binary .zero (.known op) left right)
      | "" => Fault.missingType.here
      | other => (Fault.unknownExpression other).here
termination_by sizeOf d
decreasing_by all_goals exact sizeOf_member_lt _h _

mutual

/-- Reads a statement. -/
def decodeStmt (d : Document) : Except DecodeError Stmt :=
  match _h : d.fields with
  | .error fault => fault.here
  | .ok fs =>
    located Stmt.withSpan fs <|
      match nodeType fs with
      | "Assign" => do
        let name ← requiredText fs "name"
        let value ← (decodeExpr (member fs "value")).mapError (·.under (.field "value"))
        .ok (Stmt.assign .zero name value)
      | "If" => do
        let condition ←
          (decodeExpr (member fs "condition")).mapError (·.under (.field "condition"))
        let yes ← (decodeStmt (member fs "then")).mapError (·.under (.field "then"))
        let no ←
          (if (member fs "else").isNull then .ok (Stmt.skip .zero)
          else (decodeStmt (member fs "else")).mapError (·.under (.field "else")))
        .ok (Stmt.branch .zero condition yes no)
      | "While" => do
        let condition ←
          (decodeExpr (member fs "condition")).mapError (·.under (.field "condition"))
        let body ← (decodeStmt (member fs "body")).mapError (·.under (.field "body"))
        .ok (Stmt.loop .zero condition body)
      | "Sequence" | "Seq" =>
        if (fs.lookup "statements").isSome then
          match _hlist : member fs "statements" with
          | .list items => do
            let stmts ← (decodeStmts 0 items).mapError (·.under (.field "statements"))
            .ok (Stmt.ofList stmts)
          | other => .error ⟨[.field "statements"], .notList other.typeName⟩
        else do
          let first ← (decodeStmt (member fs "first")).mapError (·.under (.field "first"))
          let second ← (decodeStmt (member fs "second")).mapError (·.under (.field "second"))
          .ok (Stmt.seq .zero first second)
      | "Print" => do
        let lead ← optionalText fs "prefix"
        let expression ←
          (decodeExpr (member fs "expression")).mapError (·.under (.field "expression"))
        .ok (Stmt.print .zero lead expression)
      | "Throw" => do
        let expression ←
          (decodeExpr (member fs "expression")).mapError (·.under (.field "expression"))
        .ok (Stmt.throw .zero expression)
      | "Try" => do
        let body ← (decodeStmt (member fs "body")).mapError (·.under (.field "body"))
        let binding ← requiredText fs "binding"
        let handler ←
          (if (member fs "handler").isNull then .ok (Stmt.skip .zero)
          else (decodeStmt (member fs "handler")).mapError (·.under (.field "handler")))
        .ok (Stmt.attempt .zero body binding handler)
      | "Skip" => .ok (Stmt.skip .zero)
      | "" => Fault.missingType.here
      | other => (Fault.unknownStatement other).here
termination_by sizeOf d
decreasing_by
  all_goals first
    | exact sizeOf_member_lt _h _
    | (have hlt := sizeOf_member_lt _h "statements"
       rw [_hlist, Document.list.sizeOf_spec] at hlt
       omega)

/-- Reads the statements of a list, whose first has the given number. -/
def decodeStmts (index : Nat) : List Document → Except DecodeError (List Stmt)
  | [] => .ok []
  | d :: rest => do
    let s ← (decodeStmt d).mapError (·.under (.index index))
    let more ← decodeStmts (index + 1) rest
    .ok (s :: more)
termination_by items => sizeOf items
decreasing_by all_goals simp only [List.cons.sizeOf_spec]; omega

end

/-- Whether a node of this type is an expression. -/
def isExprType (type : String) : Bool :=
  ["Var", "Val", "IntLiteral", "BoolLiteral", "Op"].contains type

/-- Reads a node of either sort, as its type says. -/
def decodeNode (d : Document) : Except DecodeError Node :=
  match d.fields with
  | .error fault => fault.here
  | .ok fs => if isExprType (nodeType fs) then .expr <$> d.decodeExpr else .stmt <$> d.decodeStmt

end Document

end WhilePlus
