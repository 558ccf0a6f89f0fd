import WhilePlus.Number.Digits
import WhilePlus.Suite.Basic

namespace WhilePlus.Suite

/-- The value of a hexadecimal digit. -/
def hexDigit? (c : Char) : Option Nat :=
  match Number.digitValue? c with
  | some n => if n < 16 then some n else none
  | none => none

/-- The bytes that pairs of hexadecimal digits spell, up to the first that is
    none. -/
def hexPairs : List Char → List Nat
  | a :: b :: rest =>
    match hexDigit? a, hexDigit? b with
    | some x, some y => (16 * x + y) :: hexPairs rest
    | _, _ => []
  | _ => []

/-- The commit that a text spells: twenty bytes, filled up with zeros. -/
def commitOf (text : String) : String :=
  let bytes := (hexPairs text.toList).take 20
  String.ofList ((bytes ++ List.replicate (20 - bytes.length) 0).flatMap (Text.hex 2))

/-- What a reference holds: a commit, or the name of another reference. -/
inductive Reference where
  | commit (hash : String)
  | link (name : String)
  deriving DecidableEq, Repr

/-- The reference that a text spells. -/
def Reference.ofText (text : String) : Reference :=
  let mark := "ref: ".toList
  let cs := text.toList
  if mark.isPrefixOf cs then .link (String.ofList (cs.drop mark.length))
  else .commit (commitOf text)

/-- The text of a file in a repository. A path that leads out of the repository
    has none. -/
def repositoryText? (repository : FileTree) (path : String) : Option String :=
  let names := (Path.cleanParts false [] (Path.parts path)).reverse
  if names.head? == some ".." then none
  else
    match repository.get? names with
    | some (.file content) => some (Text.ofBytes content)
    | _ => none

/-- The parts of a text between two equal characters. -/
def splitAt (mark : Char) : List Char → List (List Char)
  | [] => [[]]
  | c :: rest =>
    if c == mark then [] :: splitAt mark rest
    else
      match splitAt mark rest with
      | part :: parts => (c :: part) :: parts
      | [] => [[c]]

/-- A line without the carriage return at its end. -/
def dropReturn (line : List Char) : List Char :=
  if line.getLast? == some '\r' then line.dropLast else line

/-- The commit of a packed reference: each line holds a commit, a blank and a
    name. Empty lines and lines that start with a mark do not count; any other
    line ends the search. -/
def packedCommit? (name : String) : List (List Char) → Option String
  | [] => none
  | line :: rest =>
    let line := dropReturn line
    if line.isEmpty || line.head? == some '#' || line.head? == some '^' then packedCommit? name rest
    else
      match splitAt ' ' line with
      | [hash, other] =>
        if other == name.toList then some (String.ofList hash) else packedCommit? name rest
      | _ => none

/-- What a reference of a repository holds. -/
def reference? (repository : FileTree) (name : String) : Option Reference :=
  match repositoryText? repository name with
  | some text => some (.ofText (Text.trim text))
  | none =>
    match repositoryText? repository "packed-refs" with
    | some text => (packedCommit? name (splitAt '\n' text.toList)).map .ofText
    | none => none

/-- Follows references; there may be no more of them than the bound. -/
def resolve? (repository : FileTree) : Nat → String → Option String
  | 0, _ => none
  | bound + 1, name =>
    match reference? repository name with
    | some (.commit hash) => some hash
    | some (.link next) => resolve? repository bound next
    | none => none

/-- How many references may be followed. -/
def maxReferences : Nat := 1024

/-- The directory that a file names in place of a repository. -/
def linkedRepository? (path : String) (content : List UInt8) : Option String :=
  let mark := "gitdir: ".toList
  let cs := (Text.ofBytes content).toList
  if mark.isPrefixOf cs then
    let target := Text.trim (String.ofList ((cs.drop mark.length).takeWhile (· != '\n')))
    some (if Path.isAbsolute target then target else Path.join [path, target])
  else none

/-- The repository of the checkout in a directory: in a directory of its own, in
    one that a file names, or in the same one. -/
def repository? (d : Disk) (path : String) : Option FileTree :=
  match d.find path with
  | .ok t@(.directory entries) =>
    match entries.lookup hiddenName with
    | some (.file content) =>
      match linkedRepository? path content with
      | some target => (d.find target).toOption
      | none => none
    | some repository => some repository
    | none => some t
  | _ => none

/-- The path with the home directory in place of a tilde at its start; `none` if
    there is no home directory, or that of another user is meant. -/
def expandHome? (d : Disk) (path : String) : Option String :=
  match path.toList with
  | '~' :: '/' :: rest =>
    if d.home.isEmpty then none else some (d.home ++ "/" ++ String.ofList rest)
  | '~' :: rest => if rest.contains '/' then none else some path
  | _ => some path

/-- The commit of the checkout in a directory. It stands in the file `HEAD` of
    the repository, directly or as a reference to another file or to a line
    among the packed references. -/
def head? (d : Disk) (path : String) : Option String := do
  let path ← expandHome? d path
  let repository ← repository? d path
  resolve? repository maxReferences "HEAD"

end WhilePlus.Suite
