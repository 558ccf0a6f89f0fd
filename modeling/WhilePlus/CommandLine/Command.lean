import WhilePlus.CommandLine.Fetch
import WhilePlus.CommandLine.Run
import WhilePlus.CommandLine.Session

namespace WhilePlus

/-- Carries out a command with its arguments. What is no command is a program to
    run. -/
def command (env : Surroundings) (options : Options) : List String → Response
  | [] => ⟨.failure, usagePieces, env.disk⟩
  | name :: arguments =>
    match name with
    | "--help" | "-h" | "help" => ⟨.success, usagePieces, env.disk⟩
    | "--version" | "-V" | "version" => ⟨.success, [.outputLine toolVersion], env.disk⟩
    | "run" => runCommand env options arguments
    | "test" => testCommand env options arguments
    | "suites" => suitesCommand env options arguments
    | _ => runCommand env options (name :: arguments)

/-- Carries out a command line. -/
def commandLine (env : Surroundings) (arguments : List String) : Response :=
  match Options.parse arguments with
  | .error e => ⟨.failure, [.errorLine e.message], env.disk⟩
  | .ok (options, rest) => command env options rest

/-- A path that a command may look at. -/
structure Sight where
  path : String
  /-- Whether everything below it matters as well. -/
  deep : Bool := false
  deriving DecidableEq, Repr

/-- The places where the manifest of a path can be, from the root on. -/
def manifestPlaces (d : Disk) (path : String) : List Sight :=
  let names := Path.names (d.absolute path)
  (List.range (names.length + 1)).map fun n =>
    { path := Path.ofNames true (names.take n ++ [Manifest.fileName]) }

/-- What a command looks at before it knows the manifest. -/
def firstSights (d : Disk) (arguments : List String) : List Sight :=
  (d.directory :: arguments).flatMap fun path => { path } :: manifestPlaces d path

/-- What a command looks at because a manifest speaks of it. -/
def manifestSights (m : Manifest) : List Sight :=
  { path := m.lockPath } ::
    (m.programs.map fun p => { path := m.resolve p.2 }) ++
    ((m.suites.filterMap (·.2)).filter (!·.isGit)).map
      fun spec => { path := m.resolve spec.path, deep := true }

/-- The manifests that a command may use. -/
def manifestsInSight (d : Disk) (arguments : List String) : List Manifest :=
  ("" :: arguments).filterMap fun start =>
    match manifestFor d start with
    | .ok found => found
    | .error _ => none

/-- What a command looks at once it knows the manifest. -/
def laterSights (env : Surroundings) (arguments : List String) : List Sight :=
  let cache :=
    match Suite.cacheDirectory env.disk env.cacheHome with
    | .ok path => [{ path := Path.join [path, "suites"], deep := true }]
    | .error _ => []
  let targets := if arguments.contains "test" then arguments else []
  (manifestsInSight env.disk arguments).flatMap manifestSights ++
    targets.map (fun path => { path, deep := true }) ++ cache

end WhilePlus
