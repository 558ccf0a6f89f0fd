import WhilePlus.Text.Character

namespace WhilePlus.Path

/-- The parts of a list of characters between slashes. -/
def splitChars : List Char → List (List Char)
  | [] => [[]]
  | '/' :: rest => [] :: splitChars rest
  | c :: rest =>
    match splitChars rest with
    | part :: parts => (c :: part) :: parts
    | [] => [[c]]

/-- The parts of a path between slashes. -/
def parts (path : String) : List String :=
  (splitChars path.toList).map String.ofList

/-- Whether a path starts at the root. -/
def isAbsolute (path : String) : Bool :=
  path.toList.head? == some '/'

/-- Follows the parts of a path, given the names so far with the last one first. -/
def cleanParts (rooted : Bool) : List String → List String → List String
  | names, [] => names
  | names, part :: rest =>
    if part == "" || part == "." then cleanParts rooted names rest
    else if part == ".." then
      match names with
      | [] => cleanParts rooted (if rooted then [] else [".."]) rest
      | last :: before =>
        if last == ".." then cleanParts rooted (".." :: names) rest
        else cleanParts rooted before rest
    else cleanParts rooted (part :: names) rest

/-- The path made of some names. -/
def ofNames (rooted : Bool) (names : List String) : String :=
  if rooted then "/" ++ "/".intercalate names
  else if names.isEmpty then "."
  else "/".intercalate names

/-- The shortest path with the same meaning, found without looking at any file.
    It has no empty part, no `.`, and no `..` except at the start of a path that
    does not begin at the root. -/
def clean (path : String) : String :=
  ofNames (isAbsolute path) (cleanParts (isAbsolute path) [] (parts path)).reverse

/-- The clean path through several paths, one after the other; empty ones at the
    start do not count. -/
def join (paths : List String) : String :=
  match paths.dropWhile (·.isEmpty) with
  | [] => ""
  | rest => clean ("/".intercalate rest)

/-- The path of what contains a path's last part. -/
def parent (path : String) : String :=
  clean (String.ofList (path.toList.reverse.dropWhile (· != '/')).reverse)

/-- The last part of a path. -/
def base (path : String) : String :=
  if path.isEmpty then "."
  else
    let trimmed := path.toList.reverse.dropWhile (· == '/')
    if trimmed.isEmpty then "/" else String.ofList (trimmed.takeWhile (· != '/')).reverse

/-- What the last part of a path ends with, from its last point on. -/
def extension (path : String) : String :=
  let last := path.toList.reverse.takeWhile (· != '/')
  match last.dropWhile (· != '.') with
  | [] => ""
  | _ => String.ofList ('.' :: (last.takeWhile (· != '.')).reverse)

/-- The clean path from the root, for a path that starts in a directory. -/
def absolute (directory path : String) : String :=
  if isAbsolute path then clean path else join [directory, path]

/-- The names on the way from the root to a path. -/
def names (path : String) : List String :=
  (cleanParts true [] (parts path)).reverse

end WhilePlus.Path
