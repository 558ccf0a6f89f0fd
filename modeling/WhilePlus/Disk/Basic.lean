import WhilePlus.Error
import WhilePlus.Path
import WhilePlus.Store

namespace WhilePlus

/-- A file, or a directory with its entries in the order of their names. -/
inductive FileTree where
  | file (content : List UInt8)
  | directory (entries : List (String × FileTree))

namespace FileTree

instance : Inhabited FileTree := ⟨.directory []⟩

/-- Whether this is a directory. -/
def isDirectory : FileTree → Bool
  | file _ => false
  | directory _ => true

/-- The entries of a directory; a file has none. -/
def entries : FileTree → List (String × FileTree)
  | file _ => []
  | directory es => es

/-- What stands under some names. -/
def get? (t : FileTree) : List String → Option FileTree
  | [] => some t
  | name :: rest =>
    match t.entries.lookup name with
    | some child => child.get? rest
    | none => none

/-- The tree with something new under some names; missing directories are made. -/
def put (t : FileTree) (new : FileTree) : List String → FileTree
  | [] => new
  | name :: rest =>
    let child := (t.entries.lookup name).getD (.directory [])
    .directory (insertBinding name (child.put new rest) t.entries)

/-- The tree without what stands under some names. -/
def erase (t : FileTree) : List String → FileTree
  | [] => t
  | [name] =>
    match t with
    | file _ => t
    | directory es => .directory (es.filter (·.1 != name))
  | name :: rest =>
    match t.entries.lookup name with
    | some child => .directory (insertBinding name (child.erase rest) t.entries)
    | none => t

end FileTree

/-- Why an operation on a path fails. -/
inductive Trouble where
  | notFound
  | notDirectory
  | isDirectory
  | nameTooLong
  | invalid
  deriving DecidableEq, Repr

/-- What is said of a trouble. -/
def Trouble.message : Trouble → String
  | notFound => "no such file or directory"
  | notDirectory => "not a directory"
  | isDirectory => "is a directory"
  | nameTooLong => "file name too long"
  | invalid => "invalid argument"

/-- The error of an operation on a path. -/
def diskError (operation path : String) (trouble : Trouble) : Error :=
  let text := operation ++ " " ++ path ++ ": " ++ trouble.message
  match trouble with
  | .notFound => ⟨"", .notFound text⟩
  | _ => ⟨"", .other text⟩

/-- All files, and the directory that relative paths start in. -/
structure Disk where
  root : FileTree
  directory : String
  /-- The home directory; empty if there is none. -/
  home : String := ""

namespace Disk

/-- The greatest number of bytes of a name. -/
def maxName : Nat := 255

/-- The number of bytes that a path must stay below. -/
def pathLimit : Nat := 4096

/-- Follows the parts of a path, given the directories so far with the last one
    first. Every part but the last must be a directory. -/
def walk (stack : List FileTree) : List String → Except Trouble (List FileTree)
  | [] => .ok stack
  | part :: rest =>
    match stack with
    | .directory entries :: outer =>
      if part == "" || part == "." then walk stack rest
      else if part == ".." then walk (if outer.isEmpty then stack else outer) rest
      else if maxName < (Text.toBytes part).length then .error .nameTooLong
      else
        match entries.lookup part with
        | some t => walk (t :: stack) rest
        | none => .error .notFound
    | _ => .error .notDirectory

/-- What a path leads to. One that ends with a slash must lead to a directory. -/
def find (d : Disk) (path : String) : Except Trouble FileTree := do
  if path.isEmpty then .error .notFound
  else if path.toList.contains (Char.ofNat 0) then .error .invalid
  else if pathLimit ≤ (Text.toBytes path).length then .error .nameTooLong
  else
    let start ←
      if Path.isAbsolute path then .ok [d.root] else walk [d.root] (Path.parts d.directory)
    let stack ← walk start (Path.parts path)
    .ok (stack.headD d.root)

/-- Whether something exists at a path. -/
def contains (d : Disk) (path : String) : Bool :=
  match d.find path with
  | .ok _ => true
  | .error _ => false

/-- Whether a path leads to something that is no directory. -/
def isFile (d : Disk) (path : String) : Bool :=
  match d.find path with
  | .ok t => !t.isDirectory
  | .error _ => false

/-- Whether a path leads to a directory. -/
def isDirectory (d : Disk) (path : String) : Bool :=
  match d.find path with
  | .ok t => t.isDirectory
  | .error _ => false

/-- The clean path from the root. -/
def absolute (d : Disk) (path : String) : String :=
  Path.absolute d.directory path

/-- The content of a file. -/
def read (d : Disk) (path : String) : Except Error (List UInt8) :=
  match d.find path with
  | .ok (.file content) => .ok content
  | .ok (.directory _) => .error (diskError "read" path .isDirectory)
  | .error trouble => .error (diskError "open" path trouble)

/-- The disk with a file at a path; the directory that it goes to must exist. -/
def write (d : Disk) (path : String) (content : List UInt8) : Except Error Disk :=
  let written : Disk := { d with root := d.root.put (.file content) (Path.names (d.absolute path)) }
  match d.find path with
  | .ok (.file _) => .ok written
  | .ok (.directory _) => .error (diskError "open" path .isDirectory)
  | .error .notFound =>
    match d.find (Path.parent path) with
    | .ok (.directory _) => .ok written
    | .ok (.file _) => .error (diskError "open" path .notDirectory)
    | .error trouble => .error (diskError "open" path trouble)
  | .error trouble => .error (diskError "open" path trouble)

/-- Makes the directories along a path, of which some names are done. Those that
    were made stay when a later one cannot be made. Nothing can be made in a
    working directory that is gone. -/
def makeBelow (rooted : Bool) (d : Disk) (done : List String) :
    List String → Disk × Except Error Unit
  | [] => (d, .ok ())
  | name :: rest =>
    let path := Path.ofNames rooted (done ++ [name])
    match d.find path with
    | .ok (.directory _) => makeBelow rooted d (done ++ [name]) rest
    | .ok (.file _) => (d, .error (diskError "mkdir" path .notDirectory))
    | .error .notFound =>
      if d.isDirectory (Path.ofNames rooted done) then
        makeBelow rooted { d with root := d.root.put (.directory []) (Path.names (d.absolute path)) }
          (done ++ [name]) rest
      else (d, .error (diskError "mkdir" path .notFound))
    | .error trouble => (d, .error (diskError "mkdir" path trouble))

/-- The disk with a directory at a path, and with those above it. -/
def makeDirectories (d : Disk) (path : String) : Disk × Except Error Unit :=
  let rooted := Path.isAbsolute path
  makeBelow rooted d [] (Path.cleanParts rooted [] (Path.parts path)).reverse

/-- The disk without what a path leads to; nothing may be there. -/
def removeAll (d : Disk) (path : String) : Except Error Disk :=
  match d.find path with
  | .ok _ => .ok { d with root := d.root.erase (Path.names (d.absolute path)) }
  | .error .notFound => .ok d
  | .error trouble =>
    match d.find (Path.parent path) with
    | .ok _ => .error (diskError "unlinkat" path trouble)
    | .error .notFound => .ok d
    | .error trouble => .error (diskError "open" (Path.parent path) trouble)

end Disk

end WhilePlus
