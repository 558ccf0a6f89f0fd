import WhilePlus.Document.Basic
import WhilePlus.Text.Quoted

namespace WhilePlus.Json

/-- Whether a character is written as an escape with its number. -/
def isEscaped (c : Char) : Bool :=
  c.toNat < 0x20 || c == '<' || c == '>' || c == '&' || c.toNat == 0x2028 || c.toNat == 0x2029

/-- How one character of a string is written. Characters that could end a script
    or a line of one are written as escapes. -/
def escapeChar (c : Char) : List Char :=
  if c == '"' then ['\\', '"']
  else if c == '\\' then ['\\', '\\']
  else if c == '\n' then ['\\', 'n']
  else if c == '\r' then ['\\', 'r']
  else if c == '\t' then ['\\', 't']
  else if c.toNat == 8 then ['\\', 'b']
  else if c.toNat == 12 then ['\\', 'f']
  else if isEscaped c then '\\' :: 'u' :: Text.hex 4 c.toNat
  else [c]

/-- A string between quotes. -/
def writeString (s : String) : String :=
  Text.ofChars ('"' :: (Text.shownChars s).flatMap escapeChar ++ ['"'])

mutual

/-- The compact text of a document. -/
def write : Document → String
  | .null => "null"
  | .bool b => toString b
  | .text s => writeString s
  | .int n => toString n.toInt
  | .int32 n => toString n.toInt
  | .int64 n => toString n.toInt
  | .uint64 n => toString n.toNat
  | .float x => x.display
  | .number literal => literal
  | .time t => writeString t.display
  | .list xs => "[" ++ ",".intercalate (writeItems xs) ++ "]"
  | .record fs => "\x7b" ++ ",".intercalate (writeFields fs) ++ "\x7d"
  | .table es => "\x7b" ++ ",".intercalate (writeEntries es) ++ "\x7d"

/-- The texts of the items of a list. -/
def writeItems : List Document → List String
  | [] => []
  | x :: rest => write x :: writeItems rest

/-- The texts of the fields of a record. -/
def writeFields : List (String × Document) → List String
  | [] => []
  | (name, x) :: rest => (writeString name ++ ":" ++ write x) :: writeFields rest

/-- The texts of the entries of a table, with the display form of each key. -/
def writeEntries : List (Document × Document) → List String
  | [] => []
  | (key, x) :: rest => (writeString key.display ++ ":" ++ write x) :: writeEntries rest

end

end WhilePlus.Json
