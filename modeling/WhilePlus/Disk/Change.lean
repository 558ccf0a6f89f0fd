import WhilePlus.Disk.Basic

namespace WhilePlus

/-- One thing to do to the files; names lead to the place from the root. -/
inductive Change where
  | makeDirectory (names : List String)
  | writeFile (names : List String) (content : List UInt8)
  | remove (names : List String)
  deriving DecidableEq, Repr

/-- The path that a change is made at. -/
def Change.path : Change → String
  | makeDirectory names => Path.ofNames true names
  | writeFile names _ => Path.ofNames true names
  | remove names => Path.ofNames true names

namespace FileTree

/-- The removal of what stands in the way of a tree of another kind. -/
def clearance (names : List String) (directory : Bool) : Option FileTree → List Change
  | some t => if t.isDirectory == directory then [] else [.remove names]
  | none => []

/-- The removals of the entries of a directory that another one does not have. -/
def removals (names : List String) (before after : List (String × FileTree)) : List Change :=
  (before.filter fun e => (after.lookup e.1).isNone).map fun e => .remove (names ++ [e.1])

mutual

/-- What turns the tree at some names, if there is one, into another. -/
def changes (names : List String) (before : Option FileTree) : FileTree → List Change
  | .file content =>
    match before with
    | some (.file old) => if old == content then [] else [.writeFile names content]
    | _ => clearance names false before ++ [.writeFile names content]
  | .directory entries =>
    match before with
    | some (.directory old) => removals names old entries ++ entryChanges names old entries
    | _ => clearance names true before ++ .makeDirectory names :: entryChanges names [] entries

/-- What turns the entries of a directory into others, removals apart. -/
def entryChanges (names : List String) (before : List (String × FileTree)) :
    List (String × FileTree) → List Change
  | [] => []
  | (name, t) :: rest =>
    changes (names ++ [name]) (before.lookup name) t ++ entryChanges names before rest

end

end FileTree

end WhilePlus
