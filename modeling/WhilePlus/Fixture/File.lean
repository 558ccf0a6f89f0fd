import WhilePlus.Disk.Walk
import WhilePlus.Fixture.Basic
import WhilePlus.Manifest.File

namespace WhilePlus

/-- The encoding of a file, by how its name ends. -/
def Format.ofPath (path : String) : Format :=
  if Text.lower (Path.extension path) == ".json" then .json else .yaml

/-- Reads a program from a file; the result has its path. -/
def Program.load (d : Disk) (path : String) : Except Error (String × Program) :=
  if path.isEmpty then .error (.ofText "program: empty path")
  else do
    let path := d.absolute path
    let bytes ← within ("program: read " ++ path ++ ": ") (d.read path)
    let program ← within ("program: " ++ path ++ ": ") (Program.parse bytes (.ofPath path))
    .ok (path, program)

/-- What a fixture's manifest says that its outcome must be. -/
structure ExpectRecord where
  exception : Document := .null
  store : Option (List (String × Document)) := none
  log : Option (List String) := none
  error : String := ""

/-- A fixture's manifest as it is written. -/
structure FixtureRecord where
  description : String := ""
  entry : String := ""
  skip : Bool := false
  maxSteps : Int := 0
  expect : ExpectRecord := {}

namespace FixtureRecord

open Yaml

/-- Reads what a fixture expects. -/
def readExpect : Yaml.Node → Reading (Option ExpectRecord) :=
  readRecord "<struct>" true
    [.of "exception" Yaml.readDocument fun e exception => { e with exception },
      .of "store" readDocumentMap fun e store => { e with store := some store },
      .of "log" (readOptional "[]string" (readList "[]string" readText))
        fun e log => { e with log := some log },
      .of "error" readText fun e text => { e with error := text }]
    ({} : ExpectRecord)

/-- Reads a fixture's manifest; it must have no other fields. -/
def ofSheet (sheet : Sheet) : Except Error FixtureRecord :=
  (·.getD {}) <$> sheet.read (Yaml.readRecord "driver.fixtureManifest" true
    [.of "description" readText fun f text => { f with description := text },
      .of "entry" readText fun f text => { f with entry := text },
      .of "skip" readBool fun f skip => { f with skip },
      .of "max_steps" readInteger fun f maxSteps => { f with maxSteps },
      .of "expect" readExpect fun f expect => { f with expect }]
    {})

end FixtureRecord

/-- The expectation that a record means. The lines matter exactly if the record
    has a list of them. -/
def ExpectRecord.toExpectation (e : ExpectRecord) : Except Error Expectation := do
  let exception ←
    if e.exception.isNull then .ok none
    else within "expect.exception: " (some <$> Value.ofDocument e.exception)
  let store ←
    match e.store with
    | some fields => within "expect." (some <$> Store.ofDocument (.record fields))
    | none => .ok none
  .ok { exception, store, log := e.log, checkLog := e.log.isSome, error := Text.trim e.error }

namespace Fixture

/-- The name of the file that makes a directory a fixture. -/
def manifestName : String := "manifest.yml"

/-- The program files that are tried if the manifest names none. -/
def defaultEntries : List String := ["program.yml", "program.yaml", "program.json"]

/-- The path of a fixture's program. -/
def entryPath (d : Disk) (directory entry : String) : Except Error String :=
  let entry := Text.trim entry
  if !entry.isEmpty then .ok (Path.join [directory, entry])
  else
    match defaultEntries.find? fun name => d.contains (Path.join [directory, name]) with
    | some name => .ok (Path.join [directory, name])
    | none =>
      .error (.ofText ("fixture: " ++ directory ++ " has no program file (tried " ++
        ", ".intercalate defaultEntries ++ ")"))

/-- Reads the manifest of a fixture. -/
def readRecord (d : Disk) (path : String) : Except Error FixtureRecord :=
  match d.find path with
  | .error trouble =>
    within ("fixture: open " ++ path ++ ": ") (.error (diskError "open" path trouble))
  | .ok tree =>
    within ("fixture: parse " ++ path ++ ": ") do
      match ← tree.readYaml with
      | none => .error (.ofText "EOF")
      | some sheet => FixtureRecord.ofSheet sheet

/-- Reads the fixture in a directory. -/
def load (d : Disk) (directory : String) : Except Error Fixture := do
  let directory := d.absolute directory
  let path := Path.join [directory, manifestName]
  let record ← readRecord d path
  let expect ← within ("fixture: " ++ path ++ ": ") record.expect.toExpectation
  let entry ← entryPath d directory record.entry
  let (programPath, program) ← within "fixture: " (Program.load d entry)
  .ok
    { name := Path.base directory
      directory
      description := Text.trim record.description
      skip := record.skip
      maxSteps := record.maxSteps
      programPath, program, expect }

/-- Reads the fixture in a directory below a root, if it is one; its name is the
    way to it. -/
def loadBelow (d : Disk) (root : String) (names : List String) : Except Error (Option Fixture) :=
  let directory := if names.isEmpty then root else Path.join (root :: names)
  let path := Path.join [directory, manifestName]
  match d.find path with
  | .error .notFound => .ok none
  | .error trouble => .error (diskError "stat" path trouble)
  | .ok _ => do
    let fx ← load d directory
    .ok (some (if names.isEmpty then fx else { fx with name := relativePath names }))

/-- Reads the fixtures in some directories below a root; the first error ends
    this. -/
def loadAll (d : Disk) (root : String) : List (List String) → Except Error (List Fixture)
  | [] => .ok []
  | names :: rest => do
    let fx ← loadBelow d root names
    let more ← loadAll d root rest
    .ok (fx.toList ++ more)

/-- Reads all fixtures in a directory and below it. -/
def collect (d : Disk) (root : String) : Except Error (List Fixture) :=
  match d.find root with
  | .error trouble => .error (diskError "lstat" root trouble)
  | .ok t =>
    if t.isDirectory && Path.base root == hiddenName then .ok []
    else loadAll d root (t.directories [])

end Fixture

end WhilePlus
