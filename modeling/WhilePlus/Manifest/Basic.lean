import WhilePlus.Path
import WhilePlus.Store
import WhilePlus.Text.Character
import WhilePlus.Text.Quoted

namespace WhilePlus

/-- Where a fixture suite lives: in a local directory, or in a repository at a
    revision, a tag or a branch; `dir` is a directory inside the repository. -/
structure SuiteSpec where
  path : String := ""
  git : String := ""
  rev : String := ""
  tag : String := ""
  branch : String := ""
  dir : String := ""
  deriving DecidableEq, Repr

namespace SuiteSpec

/-- Whether a suite comes from a repository. -/
def isGit (spec : SuiteSpec) : Bool :=
  spec.git != ""

/-- The number of revisions, tags and branches that are given. -/
def pinCount (spec : SuiteSpec) : Nat :=
  ([spec.rev, spec.tag, spec.branch].filter (· != "")).length

/-- What is wrong with a suite. -/
def issues (spec : SuiteSpec) : List String :=
  (if spec.path != "" && spec.git != "" then ["path suites cannot also specify git"]
    else if spec.path == "" && spec.git == "" then ["must specify path or git"]
    else []) ++
  (if spec.git != "" && spec.pinCount == 0 then ["git suites require rev, tag, or branch"]
    else []) ++
  (if 1 < spec.pinCount then ["rev, tag, and branch are mutually exclusive"] else []) ++
  (if spec.git == "" && 0 < spec.pinCount then ["rev, tag, and branch apply only to git suites"]
    else []) ++
  (if Text.contains spec.dir ".." then
    ["dir " ++ Text.quote spec.dir ++ " must stay inside the checkout"]
    else [])

end SuiteSpec

/-- What is wrong with a suite that may be missing. -/
def suiteIssues : Option SuiteSpec → List String
  | some spec => spec.issues
  | none => ["must specify path or git"]

/-- A project manifest. Programs and suites are in the order of their names. -/
structure Manifest where
  path : String
  name : String
  programs : List (String × String)
  suites : List (String × Option SuiteSpec)
  maxSteps : Int
  deriving DecidableEq, Repr

namespace Manifest

/-- The name of the file that holds a manifest. -/
def fileName : String := "whileplus.yml"

/-- The name of the file beside it that pins suites. -/
def lockName : String := "whileplus.lock"

/-- The directory of a manifest. -/
def root (m : Manifest) : String :=
  Path.parent m.path

/-- The path that a path in the manifest means. -/
def resolve (m : Manifest) (path : String) : String :=
  if Path.isAbsolute path then path else Path.join [m.root, path]

/-- Where the suites of a manifest are pinned. -/
def lockPath (m : Manifest) : String :=
  Path.join [m.root, lockName]

/-- The names of the suites. -/
def suiteNames (m : Manifest) : List String :=
  m.suites.map Prod.fst

/-- What is wrong with the programs, in the order of the texts. -/
def programIssues (m : Manifest) : List String :=
  ((m.programs.filter (·.2 == "")).map
    fun p => "programs." ++ p.1 ++ ": path must be provided").mergeSort
      fun a b => !decide (Text.Precedes b a)

/-- What is wrong with the suites, in the order of their names. -/
def allSuiteIssues (m : Manifest) : List String :=
  m.suites.flatMap fun s => (suiteIssues s.2).map fun issue => "suites." ++ s.1 ++ ": " ++ issue

/-- Everything that is wrong with a manifest. -/
def issues (m : Manifest) : List String :=
  (if m.name == "" then ["name must be provided"] else []) ++
  m.programIssues ++
  m.allSuiteIssues ++
  (if m.maxSteps < 0 then ["limits.max_steps must not be negative"] else [])

end Manifest

end WhilePlus
