import WhilePlus.Text.Character

namespace WhilePlus

/-- A pinned suite. -/
structure LockedSuite where
  name : String
  version : String
  source : String
  checksum : String
  deriving DecidableEq, Repr

/-- A lockfile; entries may be missing. -/
structure Lockfile where
  path : String
  project : String
  /-- When the lockfile was written. -/
  generated : String
  /-- What wrote the lockfile. -/
  tool : String
  suites : List (Option LockedSuite)
  deriving DecidableEq, Repr

/-- The entry with white space dropped around its parts. -/
def LockedSuite.trimmed (s : LockedSuite) : LockedSuite :=
  ⟨Text.trim s.name, Text.trim s.version, Text.trim s.source, Text.trim s.checksum⟩

/-- The line of an entry in a signature. -/
def LockedSuite.signature (s : LockedSuite) : String :=
  s.name ++ "|" ++ s.version ++ "|" ++ s.source ++ "|" ++ s.checksum ++ "\n"

/-- Whether an entry has the given name. -/
def isNamed (name : String) : Option LockedSuite → Bool
  | some s => s.name == name
  | none => false

/-- Puts an entry in place of the first one with its name, or at the end. -/
def putSuite (s : LockedSuite) : List (Option LockedSuite) → List (Option LockedSuite)
  | [] => [some s]
  | other :: rest =>
    if isNamed s.name other then some s :: rest else other :: putSuite s rest

/-- The entries that are there, trimmed and in the order of their names; equal
    names keep their order. -/
def normalizeSuites (suites : List (Option LockedSuite)) : List LockedSuite :=
  ((suites.filterMap id).map LockedSuite.trimmed).mergeSort
    fun a b => !decide (Text.Precedes b.name a.name)

namespace Lockfile

/-- A lockfile without entries. -/
def new (project tool now : String) : Lockfile :=
  ⟨"", Text.trim project, now, Text.trim tool, []⟩

/-- The entry of a suite. -/
def find? (lock : Lockfile) (name : String) : Option LockedSuite :=
  (lock.suites.find? (isNamed name)).bind id

/-- The lockfile with an entry added, in place of an older one with its name. -/
def put (lock : Lockfile) (s : LockedSuite) : Lockfile :=
  { lock with suites := putSuite s lock.suites }

/-- The lockfile with trimmed texts and its entries in order. -/
def normalize (lock : Lockfile) : Lockfile :=
  { lock with
    project := Text.trim lock.project
    tool := Text.trim lock.tool
    suites := (normalizeSuites lock.suites).map some }

/-- A text that tells the entries of two lockfiles apart; `none` if an entry is
    missing. -/
def signature? (lock : Lockfile) : Option String :=
  (lock.suites.mapM id).map fun suites => String.join (suites.map LockedSuite.signature)

end Lockfile

end WhilePlus
