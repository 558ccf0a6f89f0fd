import WhilePlus.Yaml.Reading

namespace WhilePlus.Yaml

/-- Reads a scalar: `accept` gets its tag, its text and what it stands for. -/
def readScalar {α : Type} (typeName : String) (accept : String → String → Document → Option α)
    (n : Node) : Reading (Option α) :=
  reach n fun n => do
    match n with
    | .scalar _ tag text => do
      let d ← scalarValue tag text
      if d.isNull then pure none
      else
        match accept tag text d with
        | some a => pure (some a)
        | none => do
          reportMismatch n typeName
          pure none
    | _ => do
      refuse n typeName
      pure none

/-- Reads a text; any scalar but null is read as it is written. Null leaves what
    is read unset. -/
def readText : Node → Reading (Option String) :=
  readScalar "string" fun tag text d => if tag == binaryTag then d.text? else some text

/-- Reads a whole number; a fraction is cut off. -/
def readInteger : Node → Reading (Option Int) :=
  let limit : Int := Number.signedLimit
  readScalar "int" fun _ _ d =>
    match d with
    | .int n => some n.toInt
    | .uint64 n => if n.toNat < Number.signedLimit then some n.toNat else none
    | .float x =>
      -- Beyond 64 bits the least number stands for every other one.
      match x.truncate? with
      | some n =>
        if limit < n then none else if -limit ≤ n && n < limit then some n else some (-limit)
      | none =>
        match x with
        | .infinite true => some (-limit)
        | _ => none
    | _ => none

/-- Reads a truth value; the words of older readers are understood here. -/
def readBool : Node → Reading (Option Bool) :=
  readScalar "bool" fun _ _ d =>
    match d with
    | .bool b => some b
    | .text s =>
      if oldTrueWords.contains s then some true
      else if oldFalseWords.contains s then some false
      else none
    | _ => none

/-- Reads what may be left out, where a node tagged as null fits only if it is a
    scalar. -/
def readOptional {α : Type} (typeName : String) (body : Node → Reading (Option α)) (n : Node) :
    Reading (Option α) := do
  if (← read).tag n == nullTag then
    readScalar ("*" ++ typeName) (fun _ _ _ => none) n
  else body n

end WhilePlus.Yaml
