import Mathlib.Data.List.Forall2
import WhilePlus.Proofs.Document.Shape
import WhilePlus.Proofs.Number.Numeral

namespace WhilePlus.Document

section Rules

/-- A mapping whose keys are texts, and its fields. -/
inductive HasFields : Document → List (String × Document) → Prop where
  | record (fs : List (String × Document)) : HasFields (.record fs) fs
  | table (fs : List (String × Document)) :
      HasFields (.table (fs.map fun field => (.text field.1, field.2))) fs

/-- A field is absent or null. -/
def IsUnset (fs : List (String × Document)) (name : String) : Prop :=
  fs.lookup name = none ∨ fs.lookup name = some .null

/-- A field holds a text that is not empty. -/
structure HasText (fs : List (String × Document)) (name text : String) : Prop where
  found : fs.lookup name = some (.text text)
  nonempty : text ≠ ""

/-- A document is an integer of 64 bits, in any representation. -/
inductive IsInteger : Document → Int64 → Prop where
  | int (n : Int64) : IsInteger (.int n) n
  | int64 (n : Int64) : IsInteger (.int64 n) n
  | int32 {m : Int32} {n : Int64} (hvalue : n.toInt = m.toInt) : IsInteger (.int32 m) n
  | uint64 {m : UInt64} {n : Int64} (hvalue : n.toInt = m.toNat) : IsInteger (.uint64 m) n
  | float {x : Binary64} {n : Int64} (hvalue : x.toInt? = some n.toInt) : IsInteger (.float x) n
  | number {literal : String} {n : Int64} (hvalue : Number.IsNumeral literal.toList n.toInt) :
      IsInteger (.number literal) n

/-- A payload has the kind that its tag names, whatever the letter case of the
    tag. -/
inductive HasKind (tag : String) : Document → Value → Prop where
  | int {payload : Document} {n : Int64} (htag : Text.lower tag ∈ ["int", "intval", "integer"])
      (hpayload : IsInteger payload n) : HasKind tag payload (.int n)
  | bool {b : Bool} (htag : Text.lower tag ∈ ["bool", "boolval", "boolean"]) :
      HasKind tag (.bool b) (.bool b)

/-- A tagged literal: a mapping from its tag to its payload, or one with `kind`
    and `value`. -/
inductive IsLiteral : Document → Value → Prop where
  | tagged {d payload : Document} {tag : String} {v : Value} (hfields : HasFields d [(tag, payload)])
      (hkind : HasKind tag payload v) : IsLiteral d v
  | kinded {d payload : Document} {fs : List (String × Document)} {tag : String} {v : Value}
      (hfields : HasFields d fs) (htag : fs.lookup "kind" = some (.text tag))
      (hpayload : fs.lookup "value" = some payload) (hkind : HasKind tag payload v) : IsLiteral d v

/-- A field is a position, which is zero if it is left out. -/
inductive HasPosition (fs : List (String × Document)) (name : String) : Position → Prop where
  | unset (hunset : IsUnset fs name) : HasPosition fs name .zero
  | given {d first second : Document} {parts : List (String × Document)} {line column : Int64}
      (hfield : fs.lookup name = some d) (hparts : HasFields d parts)
      (hfirst : parts.lookup "line" = some first) (hline : IsInteger first line)
      (hsecond : parts.lookup "column" = some second) (hcolumn : IsInteger second column) :
      HasPosition fs name ⟨line.toInt, column.toInt⟩

/-- A node records a span, or none. -/
inductive HasSpan (fs : List (String × Document)) : Option Span → Prop where
  | unset (hunset : IsUnset fs "span") : HasSpan fs none
  | given {d : Document} {parts : List (String × Document)} {start stop : Position}
      (hfield : fs.lookup "span" = some d) (hparts : HasFields d parts)
      (hstart : HasPosition parts "start" start) (hstop : HasPosition parts "end" stop) :
      HasSpan fs (some ⟨start, stop⟩)

/-- A field is a text, which is empty if it is left out. -/
inductive HasLead (fs : List (String × Document)) (name : String) : String → Prop where
  | unset (hunset : IsUnset fs name) : HasLead fs name ""
  | given {text : String} (hfield : fs.lookup name = some (.text text)) : HasLead fs name text

end Rules

section Parts

variable {d : Document} {fs : List (String × Document)} {name text tag : String} {n : Int64}
  {v : Value}

/-- The entries of a table are fields exactly if all of their keys are texts. -/
theorem textEntries_eq_ok_iff {entries : List (Document × Document)} :
    textEntries entries = .ok fs ↔ entries = fs.map fun field => (.text field.1, field.2) := by
  induction entries generalizing fs with
  | nil => cases fs <;> simp [textEntries]
  | cons entry rest ih =>
    obtain ⟨key, value⟩ := entry
    cases key with
    | text name =>
      simp only [textEntries, bind_eq_ok_iff, ih, Except.ok.injEq]
      constructor
      · rintro ⟨more, rfl, rfl⟩
        rfl
      · intro h
        cases fs with
        | nil => cases h
        | cons field more =>
          obtain ⟨⟨rfl⟩, rfl⟩ := Prod.mk.inj (List.cons.inj h).1
          exact ⟨more, (List.cons.inj h).2, rfl⟩
    | _ => cases fs <;> simp [textEntries]

/-- The fields of a document are what the rule for fields says, for records and
    tables alike. -/
theorem fields_eq_ok_iff : d.fields = .ok fs ↔ HasFields d fs := by
  constructor
  · intro h
    cases d with
    | record fields =>
      cases h
      exact .record fs
    | table entries =>
      rw [textEntries_eq_ok_iff.mp h]
      exact .table fs
    | _ => cases h
  · intro h
    cases h with
    | record => rfl
    | table => exact textEntries_eq_ok_iff.mpr rfl

/-- A field that is found is the member under its name. -/
theorem member_of_lookup (h : fs.lookup name = some d) : member fs name = d := by
  rw [member, h]
  rfl

/-- A field is unset exactly if its member is null. It may be missing, or be
    there as null. -/
theorem isUnset_iff : IsUnset fs name ↔ member fs name = .null := by
  unfold IsUnset member
  cases fs.lookup name <;> simp

/-- What is accepted of a field is no null, so the field is there. A field that
    is missing is read as null, which the premise excludes. -/
theorem exists_lookup_of_member {P : Document → Prop} (hnull : ¬ P .null)
    (h : P (member fs name)) : ∃ d, fs.lookup name = some d ∧ P d := by
  cases hlookup : fs.lookup name with
  | none =>
    rw [member, hlookup] at h
    exact absurd h hnull
  | some d =>
    rw [member_of_lookup hlookup] at h
    exact ⟨d, rfl, h⟩

/-- A member that is not null stands in the list of fields. -/
theorem lookup_of_member (hne : d ≠ .null) (h : member fs name = d) : fs.lookup name = some d := by
  obtain ⟨_, hlookup, rfl⟩ := exists_lookup_of_member (P := (· = d)) (Ne.symm hne) h
  exact hlookup

/-- The type of a node is a text that is not empty exactly if the field for it
    holds that text. -/
theorem nodeType_eq_iff (hne : text ≠ "") :
    nodeType fs = text ↔ fs.lookup "type" = some (.text text) := by
  constructor
  · intro h
    refine lookup_of_member nofun ?_
    unfold nodeType at h
    generalize member fs "type" = d at h
    cases d with
    | text s => exact congrArg _ h
    | _ => exact absurd h.symm hne
  · intro h
    rw [nodeType, member_of_lookup h]
    rfl

/-- A required text is read exactly where the rule for texts finds one, so it is
    never empty. -/
theorem requiredText_eq_ok_iff : requiredText fs name = .ok text ↔ HasText fs name text := by
  constructor
  · intro h
    unfold requiredText at h
    split at h
    · next s hmember =>
      split at h
      · cases h
      · next hempty =>
        cases h
        exact ⟨lookup_of_member nofun hmember, fun h => hempty (String.isEmpty_iff.mpr h)⟩
    · cases h
  · intro h
    simp [requiredText, member_of_lookup h.found, h.nonempty]

/-- A text that may be missing is read exactly as the rule for leads says: null
    stands for the empty text. -/
theorem optionalText_eq_ok_iff : optionalText fs name = .ok text ↔ HasLead fs name text := by
  constructor
  · intro h
    unfold optionalText at h
    split at h
    · next hmember =>
      cases h
      exact .unset (isUnset_iff.mpr hmember)
    · next hmember =>
      cases h
      exact .given (lookup_of_member nofun hmember)
    · cases h
  · intro h
    cases h with
    | unset hunset => rw [optionalText, isUnset_iff.mp hunset]
    | given hfield => rw [optionalText, member_of_lookup hfield]

/-- An integer is read exactly from the documents that the rule for integers
    allows, however they represent it. -/
theorem toInteger_eq_ok_iff : d.toInteger = .ok n ↔ IsInteger d n := by
  constructor
  · intro h
    unfold toInteger at h
    split at h
    · cases h
      exact .int n
    · cases h
      exact .int64 n
    · cases h
      exact .int32 (Int32.toInt_toInt64 _)
    · split at h
      · next m hlt =>
        exact .uint64 ((Number.ofInt_eq_iff (by omega) (by omega)).mp (Except.ok.inj h))
      · cases h
    · split at h
      · next m hm =>
        split at h
        · next hrange =>
          simp only [Bool.and_eq_true, decide_eq_true_eq] at hrange
          have hn := (Number.ofInt_eq_iff hrange.1 hrange.2).mp (Except.ok.inj h)
          exact .float (hn ▸ hm)
        · cases h
      · cases h
    · split at h
      · next hparse =>
        cases h
        exact .number (Number.parseInt_eq_ok_iff.mp hparse)
      · cases h
    · cases h
  · intro h
    have hlower := n.le_toInt
    have hupper := n.toInt_lt
    cases h with
    | int | int64 => rfl
    | int32 hvalue =>
      refine congrArg _ (Int64.toInt_inj.mp ?_)
      rw [Int32.toInt_toInt64, hvalue]
    | uint64 hvalue =>
      rw [toInteger, if_pos (by rw [Number.signedLimit]; omega), ← hvalue, Int64.ofInt_toInt]
    | float hvalue =>
      simp only [toInteger, hvalue, Bool.and_eq_true, decide_eq_true_eq]
      rw [if_pos (by unfold Number.signedLimit; omega), Int64.ofInt_toInt]
    | number hvalue => rw [toInteger, Number.parseInt_eq_ok_iff.mpr hvalue]

/-- A truth value is read from nothing but a truth value. -/
theorem toBool_eq_ok_iff {b : Bool} : d.toBool = .ok b ↔ d = .bool b := by
  cases d <;> simp [toBool]

private theorem literalOfKind_eq_ok_iff : literalOfKind tag d = .ok v ↔ HasKind tag d v := by
  unfold literalOfKind
  simp only [List.contains_iff_mem]
  constructor
  · intro h
    split at h
    · next htag =>
      obtain ⟨n, hn, rfl⟩ := map_eq_ok_iff.mp h
      exact .int htag (toInteger_eq_ok_iff.mp hn)
    · split at h
      · next htag =>
        obtain ⟨b, hb, rfl⟩ := map_eq_ok_iff.mp h
        rw [toBool_eq_ok_iff.mp hb]
        exact .bool htag
      · cases h
  · intro h
    cases h with
    | int htag hpayload =>
      rw [if_pos htag, toInteger_eq_ok_iff.mpr hpayload]
      rfl
    | bool htag =>
      have hint : Text.lower tag ∉ ["int", "intval", "integer"] := by
        simp only [List.mem_cons, List.not_mem_nil, or_false] at htag
        rcases htag with htag | htag | htag <;> rw [htag] <;> decide
      rw [if_neg hint, if_pos htag]
      rfl

private theorem HasKind.ne_null (h : HasKind tag d v) : d ≠ .null := by
  rintro rfl
  cases h with
  | int _ hpayload => cases hpayload

/-- A literal is read exactly from the documents that the rule for literals
    allows. -/
theorem decodeLiteral_eq_ok_iff : d.decodeLiteral = .ok v ↔ IsLiteral d v := by
  simp only [decodeLiteral, bind_eq_ok_iff, fields_eq_ok_iff]
  constructor
  · rintro ⟨fs, hfields, h⟩
    split at h
    · next tag htag =>
      have hkind := literalOfKind_eq_ok_iff.mp h
      exact .kinded hfields (lookup_of_member nofun htag) (lookup_of_member hkind.ne_null rfl) hkind
    · split at h
      · exact .tagged hfields (literalOfKind_eq_ok_iff.mp h)
      · cases h
  · intro h
    cases h with
    | kinded hfields htag hpayload hkind =>
      refine ⟨_, hfields, ?_⟩
      rw [member_of_lookup htag, member_of_lookup hpayload]
      exact literalOfKind_eq_ok_iff.mpr hkind
    | @tagged payload tag _ hfields hkind =>
      refine ⟨_, hfields, ?_⟩
      split
      · next other hother =>
        -- The only field would be the payload and a text at once, but no payload is a text.
        have hlookup : [(tag, payload)].lookup "kind" = some (.text other) :=
          lookup_of_member nofun hother
        obtain rfl : payload = .text other := by
          simp only [List.lookup_cons] at hlookup
          split at hlookup
          · exact Option.some.inj hlookup
          · cases hlookup
        cases hkind with
        | int _ hpayload => cases hpayload
      · exact literalOfKind_eq_ok_iff.mpr hkind

/-- What a position is read from, if it is not left out. -/
theorem decodePosition_eq_ok_iff {p : Position} :
    (member fs name).decodePosition = .ok p ↔ HasPosition fs name p := by
  unfold decodePosition
  constructor
  · intro h
    split at h
    · next hmember =>
      cases h
      exact .unset (isUnset_iff.mpr hmember)
    · next hne =>
      split at h
      · cases h
      · next parts hparts =>
        obtain ⟨line, hline, h⟩ := bind_eq_ok_iff.mp h
        obtain ⟨column, hcolumn, h⟩ := bind_eq_ok_iff.mp h
        cases h
        have hline := toInteger_eq_ok_iff.mp (atField_eq_ok_iff.mp hline)
        have hcolumn := toInteger_eq_ok_iff.mp (atField_eq_ok_iff.mp hcolumn)
        obtain ⟨first, hfirst, hline⟩ := exists_lookup_of_member (P := (IsInteger · line)) nofun hline
        obtain ⟨second, hsecond, hcolumn⟩ := exists_lookup_of_member (P := (IsInteger · column)) nofun
          hcolumn
        exact .given (lookup_of_member hne rfl) (fields_eq_ok_iff.mp hparts) hfirst hline hsecond
          hcolumn
  · intro h
    cases h with
    | unset hunset => rw [isUnset_iff.mp hunset]
    | given hfield hparts hfirst hline hsecond hcolumn =>
      rw [member_of_lookup hfield]
      split
      · cases hparts
      · rw [fields_eq_ok_iff.mpr hparts]
        simp only [member_of_lookup hfirst, member_of_lookup hsecond,
          toInteger_eq_ok_iff.mpr hline, toInteger_eq_ok_iff.mpr hcolumn, atField, ok_bind]

/-- The span of a node is read exactly as the rule for spans says. A node
    without one has none, and one with a broken span is refused. -/
theorem decodeSpan_eq_ok_iff {span : Option Span} : decodeSpan fs = .ok span ↔ HasSpan fs span := by
  unfold decodeSpan
  constructor
  · intro h
    split at h
    · next hmember =>
      cases h
      exact .unset (isUnset_iff.mpr hmember)
    · next hne =>
      split at h
      · cases h
      · next parts hparts =>
        obtain ⟨start, hstart, h⟩ := bind_eq_ok_iff.mp h
        obtain ⟨stop, hstop, h⟩ := bind_eq_ok_iff.mp h
        cases h
        exact .given (lookup_of_member hne rfl) (fields_eq_ok_iff.mp hparts)
          (decodePosition_eq_ok_iff.mp (mapError_eq_ok_iff.mp hstart))
          (decodePosition_eq_ok_iff.mp (mapError_eq_ok_iff.mp hstop))
  · intro h
    cases h with
    | unset hunset => rw [isUnset_iff.mp hunset]
    | given hfield hparts hstart hstop =>
      rw [member_of_lookup hfield]
      split
      · cases hparts
      · rw [fields_eq_ok_iff.mpr hparts]
        simp only [decodePosition_eq_ok_iff.mpr hstart, decodePosition_eq_ok_iff.mpr hstop,
          mapError_ok, ok_bind]

end Parts

section Trees

/-- A node of a type, its fields and the span that it records. -/
structure IsNode (type : String) (d : Document) (fs : List (String × Document))
    (span : Option Span) : Prop where
  fields : HasFields d fs
  type : fs.lookup "type" = some (.text type)
  span : HasSpan fs span

/-- A document denotes an expression. -/
inductive DenotesExpr : Document → Expr → Prop where
  | var {d : Document} {fs : List (String × Document)} {span : Option Span} {name : String}
      (hnode : IsNode "Var" d fs span) (hname : HasText fs "name" name) :
      DenotesExpr d (.var (span.getD .zero) name)
  | intValue {d payload : Document} {fs : List (String × Document)} {span : Option Span} {n : Int64}
      (hnode : IsNode "Val" d fs span) (hfield : fs.lookup "value" = some payload)
      (hvalue : IsLiteral payload (.int n)) : DenotesExpr d (.int (span.getD .zero) n)
  | boolValue {d payload : Document} {fs : List (String × Document)} {span : Option Span} {b : Bool}
      (hnode : IsNode "Val" d fs span) (hfield : fs.lookup "value" = some payload)
      (hvalue : IsLiteral payload (.bool b)) : DenotesExpr d (.bool (span.getD .zero) b)
  | int {d payload : Document} {fs : List (String × Document)} {span : Option Span} {n : Int64}
      (hnode : IsNode "IntLiteral" d fs span) (hfield : fs.lookup "value" = some payload)
      (hvalue : IsInteger payload n) : DenotesExpr d (.int (span.getD .zero) n)
  | bool {d : Document} {fs : List (String × Document)} {span : Option Span} {b : Bool}
      (hnode : IsNode "BoolLiteral" d fs span) (hfield : fs.lookup "value" = some (.bool b)) :
      DenotesExpr d (.bool (span.getD .zero) b)
  | binary {d first second : Document} {fs : List (String × Document)} {span : Option Span}
      {text : String} {op : Operator} {left right : Expr} (hnode : IsNode "Op" d fs span)
      (htext : HasText fs "operator" text) (hop : Operator.parse? text = some op)
      (hfirst : fs.lookup "left" = some first) (hleft : DenotesExpr first left)
      (hsecond : fs.lookup "right" = some second) (hright : DenotesExpr second right) :
      DenotesExpr d (.binary (span.getD .zero) (.known op) left right)

/-- A document denotes a statement. A sequence has two names; a list of
    statements stands for them one after the other, so that the span of the
    list, if it has one, is that of the outermost of them. -/
inductive DenotesStmt : Document → Stmt → Prop where
  | assign {d payload : Document} {fs : List (String × Document)} {span : Option Span}
      {name : String} {value : Expr} (hnode : IsNode "Assign" d fs span)
      (hname : HasText fs "name" name) (hfield : fs.lookup "value" = some payload)
      (hvalue : DenotesExpr payload value) :
      DenotesStmt d (.assign (span.getD .zero) name value)
  | branch {d test first second : Document} {fs : List (String × Document)} {span : Option Span}
      {condition : Expr} {yes no : Stmt} (hnode : IsNode "If" d fs span)
      (htest : fs.lookup "condition" = some test) (hcondition : DenotesExpr test condition)
      (hfirst : fs.lookup "then" = some first) (hyes : DenotesStmt first yes)
      (hsecond : fs.lookup "else" = some second) (hno : DenotesStmt second no) :
      DenotesStmt d (.branch (span.getD .zero) condition yes no)
  | when {d test first : Document} {fs : List (String × Document)} {span : Option Span}
      {condition : Expr} {yes : Stmt} (hnode : IsNode "If" d fs span)
      (htest : fs.lookup "condition" = some test) (hcondition : DenotesExpr test condition)
      (hfirst : fs.lookup "then" = some first) (hyes : DenotesStmt first yes)
      (helse : IsUnset fs "else") :
      DenotesStmt d (.branch (span.getD .zero) condition yes (.skip .zero))
  | loop {d test inner : Document} {fs : List (String × Document)} {span : Option Span}
      {condition : Expr} {body : Stmt} (hnode : IsNode "While" d fs span)
      (htest : fs.lookup "condition" = some test) (hcondition : DenotesExpr test condition)
      (hinner : fs.lookup "body" = some inner) (hbody : DenotesStmt inner body) :
      DenotesStmt d (.loop (span.getD .zero) condition body)
  | list {d : Document} {type : String} {fs : List (String × Document)} {span : Option Span}
      {items : List Document} {stmts : List Stmt} (htype : type ∈ ["Sequence", "Seq"])
      (hnode : IsNode type d fs span) (hfield : fs.lookup "statements" = some (.list items))
      (hitems : List.Forall₂ DenotesStmt items stmts) :
      DenotesStmt d (span.elim (.ofList stmts) fun s => (Stmt.ofList stmts).withSpan s)
  | seq {d before after : Document} {type : String} {fs : List (String × Document)}
      {span : Option Span} {first second : Stmt} (htype : type ∈ ["Sequence", "Seq"])
      (hnode : IsNode type d fs span) (hfield : fs.lookup "statements" = none)
      (hbefore : fs.lookup "first" = some before) (hfirst : DenotesStmt before first)
      (hafter : fs.lookup "second" = some after) (hsecond : DenotesStmt after second) :
      DenotesStmt d (.seq (span.getD .zero) first second)
  | print {d shown : Document} {fs : List (String × Document)} {span : Option Span}
      {lead : String} {expression : Expr} (hnode : IsNode "Print" d fs span)
      (hlead : HasLead fs "prefix" lead) (hfield : fs.lookup "expression" = some shown)
      (hexpression : DenotesExpr shown expression) :
      DenotesStmt d (.print (span.getD .zero) lead expression)
  | throw {d thrown : Document} {fs : List (String × Document)} {span : Option Span}
      {expression : Expr} (hnode : IsNode "Throw" d fs span)
      (hfield : fs.lookup "expression" = some thrown) (hexpression : DenotesExpr thrown expression) :
      DenotesStmt d (.throw (span.getD .zero) expression)
  | attempt {d inner rescue : Document} {fs : List (String × Document)} {span : Option Span}
      {body handler : Stmt} {binding : String} (hnode : IsNode "Try" d fs span)
      (hinner : fs.lookup "body" = some inner) (hbody : DenotesStmt inner body)
      (hbinding : HasText fs "binding" binding) (hrescue : fs.lookup "handler" = some rescue)
      (hhandler : DenotesStmt rescue handler) :
      DenotesStmt d (.attempt (span.getD .zero) body binding handler)
  | ignore {d inner : Document} {fs : List (String × Document)} {span : Option Span} {body : Stmt}
      {binding : String} (hnode : IsNode "Try" d fs span) (hinner : fs.lookup "body" = some inner)
      (hbody : DenotesStmt inner body) (hbinding : HasText fs "binding" binding)
      (hhandler : IsUnset fs "handler") :
      DenotesStmt d (.attempt (span.getD .zero) body binding (.skip .zero))
  | skip {d : Document} {fs : List (String × Document)} {span : Option Span}
      (hnode : IsNode "Skip" d fs span) : DenotesStmt d (.skip (span.getD .zero))

end Trees

end WhilePlus.Document
