import WhilePlus.CommandLine.Options
import WhilePlus.Fixture.File
import WhilePlus.Lockfile.File
import WhilePlus.Suite.Fetch

namespace WhilePlus

/-- What a command finds when it starts: the files, the texts that are read from
    outside, and a way to clone repositories. A command is a function of these. -/
structure Surroundings where
  disk : Disk
  /-- What can be read from standard input. -/
  input : List UInt8 := []
  /-- The directory for fetched suites that was asked for; empty if none was. -/
  cacheHome : String := ""
  /-- The time that a new lockfile gets. -/
  now : String
  /-- The time that log records get. -/
  logTime : String
  /-- The identifiers of the runs, by their number. -/
  runId : Nat → String
  cloner : Suite.Cloner

/-- How a command ends. -/
inductive ExitCode where
  | success
  | failure
  /-- A value escaped the program that was run. -/
  | uncaught
  /-- A file brought the program down; the text says how. -/
  | crashed (text : String)
  deriving DecidableEq, Repr

/-- The number of an exit code. -/
def ExitCode.toNat : ExitCode → Nat
  | success => 0
  | failure => 1
  | uncaught => 3
  | crashed _ => 2

/-- A piece of text that a command writes. -/
inductive Piece where
  /-- Text for standard output. -/
  | output (text : String)
  /-- Text for standard error. -/
  | error (text : String)
  deriving DecidableEq, Repr

namespace Piece

/-- A line on standard output. -/
def outputLine (text : String) : Piece :=
  .output (text ++ "\n")

/-- A line on standard error. -/
def errorLine (text : String) : Piece :=
  .error (text ++ "\n")

/-- The part of a piece that goes to standard output. -/
def outputText : Piece → String
  | output text => text
  | error _ => ""

/-- The part of a piece that goes to standard error. -/
def errorText : Piece → String
  | output _ => ""
  | error text => text

end Piece

/-- What a command did. -/
structure Response where
  code : ExitCode
  /-- What was written, in order. -/
  pieces : List Piece
  disk : Disk

namespace Response

/-- Everything that was written to standard output. -/
def output (r : Response) : String :=
  String.join (r.pieces.map Piece.outputText)

/-- Everything that was written to standard error. -/
def errors (r : Response) : String :=
  String.join (r.pieces.map Piece.errorText)

end Response

/-- The version of this tool, as it stands in lockfiles. -/
def toolVersion : String := "whilep 0.1.0-dev"

/-- The line that reports why a command failed. -/
def complaint (command : String) (text : String) : Piece :=
  .errorLine (command ++ ": " ++ text)

/-- The answer of a command that cannot go on, after what it has written so far. -/
def Response.abort (command : String) (pieces : List Piece) (disk : Disk) (e : Error) : Response :=
  match e.cause with
  | .crash text => ⟨.crashed text, pieces, disk⟩
  | _ => ⟨.failure, pieces ++ [complaint command e.message], disk⟩

/-- What a record writes under some options. -/
def recordPieces (env : Surroundings) (options : Options) (r : Record) : List Piece :=
  if r.passes options.level then [.errorLine (r.render env.logTime)] else []

/-- What an entry of a run's journal writes under some options. -/
def entryPieces (env : Surroundings) (options : Options) : Entry → List Piece
  | .event e => if options.trace then [.errorLine e.toLine.render] else []
  | .record r => recordPieces env options r

/-- What the journal of a run writes under some options. -/
def journalPieces (env : Surroundings) (options : Options) (r : Result) : List Piece :=
  r.journal.flatMap (entryPieces env options)

/-- How a run is set up. -/
def runSettings (env : Surroundings) (options : Options) (manifest : Option Manifest)
    (number : Nat) : Settings where
  runId := env.runId number
  limit := stepLimit (options.limit (manifest.map (·.maxSteps)))

/-- The manifest that the first of some paths belongs to; paths that lead
    nowhere do not count. -/
def nearestManifest (d : Disk) : List String → Except Error (Option Manifest)
  | [] => .ok none
  | path :: rest =>
    if d.contains path then
      match Manifest.find d path with
      | some found => (Manifest.load d found).map some
      | none => nearestManifest d rest
    else nearestManifest d rest

/-- The manifest of the project that a path is in, or else of the one that the
    command was started in. -/
def manifestFor (d : Disk) (start : String) : Except Error (Option Manifest) :=
  nearestManifest d
    (if start.isEmpty || start == "-" then [d.directory] else [start, d.directory])

/-- The lockfile of a project; a new one if there is no file. -/
def lockfileFor (env : Surroundings) (m : Manifest) : Except Error Lockfile :=
  match Lockfile.load env.disk m.lockPath with
  | .ok lock => .ok lock
  | .error ⟨_, .notFound _⟩ =>
    .ok { Lockfile.new m.name toolVersion env.now with path := m.lockPath }
  | .error e => .error e

/-- The lines of the explanation. -/
def usageLines : List String :=
  ["Usage:",
    "  whilep [options] run <program.yml|program.json|name|->",
    "  whilep [options] <program.yml|program.json>",
    "  whilep [options] test [dir|suite ...]",
    "  whilep suites fetch [suite ...]",
    "  whilep --version",
    "",
    "Options:",
    "  --log-level=debug|info|warn|error  log records written to stderr (default warn)",
    "  --trace                             print assignments, prints, raises and catches",
    "  --max-steps=N                       abort runs after N statements (0 = unlimited)",
    "",
    "Fetched suites are cached under $WHILEPLUS_HOME (default ~/.whileplus)."]

/-- The explanation as it is written. -/
def usagePieces : List Piece :=
  usageLines.map .errorLine

end WhilePlus
