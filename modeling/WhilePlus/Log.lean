import WhilePlus.Text.Character
import WhilePlus.Text.Quoted

namespace WhilePlus

/-- How important a record is. -/
inductive Level where
  | debug
  | info
  | warn
  | error
  deriving DecidableEq, Repr

namespace Level

/-- The name of a level in records. -/
def name : Level → String
  | debug => "DEBUG"
  | info => "INFO"
  | warn => "WARN"
  | error => "ERROR"

/-- The rank of a level; a more important one has a greater rank. -/
def rank : Level → Nat
  | debug => 0
  | info => 1
  | warn => 2
  | error => 3

end Level

/-- A log record: a message with attributes, which becomes one line of keys with
    values. -/
structure Record where
  level : Level
  message : String
  attributes : List (String × String)
  deriving DecidableEq, Repr

namespace Record

/-- Whether a character cannot stand in a value without quotes. -/
def needsQuotes (c : Char) : Bool :=
  if c.toNat < 0x80 then c.toNat ≤ 0x20 || c == '=' || c == '"'
  else c.toNat == 0xFFFD || Text.isBlank c || !Text.isPrintable c

/-- A value as it stands in a line, quoted if it is empty or holds a character
    that needs it. -/
def showValue (s : String) : String :=
  if s.isEmpty || s.toList.any needsQuotes then Text.quote s else s

/-- One key with its value. -/
def showAttribute (key value : String) : String :=
  showValue key ++ "=" ++ showValue value

/-- The line of a record, without its end. -/
def render (time : String) (r : Record) : String :=
  "time=" ++ time ++ " level=" ++ r.level.name ++ " msg=" ++ showValue r.message ++
    String.join (r.attributes.map fun (key, value) => " " ++ showAttribute key value)

/-- Whether a logger that keeps records from a level on keeps this one. -/
def passes (threshold : Level) (r : Record) : Bool :=
  threshold.rank ≤ r.level.rank

end Record

end WhilePlus
