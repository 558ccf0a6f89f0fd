import WhilePlus.Disk.Basic

namespace WhilePlus

/-- The name of directories that are not walked through. -/
def hiddenName : String := ".git"

namespace FileTree

mutual

/-- The directories of a tree, itself first, with the names that lead to them.
    What is in a directory follows it in the order of the names; hidden
    directories are left out with everything in them. -/
def directories (names : List String) : FileTree → List (List String)
  | .file _ => []
  | .directory entries => names :: entryDirectories names entries

/-- The directories among some entries and below them. -/
def entryDirectories (names : List String) : List (String × FileTree) → List (List String)
  | [] => []
  | (name, t) :: rest =>
    (if t.isDirectory && name == hiddenName then [] else directories (names ++ [name]) t) ++
      entryDirectories names rest

end

mutual

/-- The files of a tree with the names that lead to them. -/
def files (names : List String) : FileTree → List (List String × List UInt8)
  | .file content => [(names, content)]
  | .directory entries => entryFiles names entries

/-- The files among some entries and below them. -/
def entryFiles (names : List String) : List (String × FileTree) → List (List String × List UInt8)
  | [] => []
  | (name, t) :: rest =>
    (if t.isDirectory && name == hiddenName then [] else files (names ++ [name]) t) ++
      entryFiles names rest

end

end FileTree

/-- The path that some names lead to from a place. -/
def relativePath (names : List String) : String :=
  Path.ofNames false names

end WhilePlus
