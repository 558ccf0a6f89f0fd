import WhilePlus.Disk.Walk
import WhilePlus.Manifest.Basic
import WhilePlus.Suite.Sha256
import WhilePlus.Text.Character

namespace WhilePlus.Suite

/-- Whether a character may stand in the name of a cache directory. -/
def isSegmentChar (c : Char) : Bool :=
  ('a' ≤ c && c ≤ 'z') || ('A' ≤ c && c ≤ 'Z') || ('0' ≤ c && c ≤ '9') || c == '.' || c == '-' ||
    c == '_'

/-- The name of the cache directory for a suite or a version. -/
def segment (text : String) : String :=
  let trimmed := Text.trim text
  if trimmed.isEmpty then "head"
  else
    String.ofList ((Text.shownChars trimmed).map fun c => if isSegmentChar c then c else '_')

/-- The version that a description and a commit stand for. -/
def pinnedVersion (descriptor commit : String) : String :=
  if commit.isEmpty then descriptor
  else if descriptor.isEmpty || descriptor == commit then commit
  else descriptor ++ "@" ++ commit

/-- A revision of a repository, and how a version describes it. -/
structure Revision where
  name : String
  descriptor : String
  deriving DecidableEq, Repr

/-- The revision that a suite asks for. -/
def revision? (spec : SuiteSpec) : Option Revision :=
  if spec.rev != "" then some ⟨spec.rev, spec.rev⟩
  else if spec.tag != "" then some ⟨"refs/tags/" ++ spec.tag, spec.tag⟩
  else if spec.branch != "" then some ⟨"refs/heads/" ++ spec.branch, spec.branch⟩
  else none

/-- What is said of a suite that asks for no revision. -/
def missingRevision : Error :=
  .ofText "git suites require rev, tag, or branch"

/-- The bytes that the checksum of some files is computed from: the path and the
    content of each. -/
def checksumBytes (files : List (List String × List UInt8)) : List UInt8 :=
  files.flatMap fun f => Text.toBytes (relativePath f.1) ++ f.2

/-- The files under a path, with the names that lead to them. -/
def filesAt (path : String) (t : FileTree) : List (List String × List UInt8) :=
  if t.isDirectory && Path.base path == hiddenName then [] else t.files []

/-- The checksum of what is under a path. -/
def checksum (d : Disk) (path : String) : Except Error String :=
  match d.find path with
  | .error trouble => .error (diskError "lstat" path trouble)
  | .ok t => .ok (Sha256.hexDigest (checksumBytes (filesAt path t)))

end WhilePlus.Suite
