import WhilePlus.CommandLine.Session

namespace WhilePlus

/-- The program that an argument names: standard input, a file, or a program of
    the manifest. -/
def programFor (env : Surroundings) (manifest : Option Manifest) (argument : String) :
    Except Error Program :=
  if argument == "-" then Program.read env.input .yaml
  else if env.disk.isFile argument then (Program.load env.disk argument).map Prod.snd
  else
    match manifest.bind fun m => (m.programs.lookup argument).map m.resolve with
    | some path => (Program.load env.disk path).map Prod.snd
    | none => .error (.ofText ("program " ++ Text.quote argument ++ " not found"))

/-- The record of a run that has ended. -/
def finishedRecord (r : Result) : Record :=
  ⟨.debug, "run finished", [("run_id", r.runId), ("steps", toString r.steps)]⟩

/-- How the command ends after a run. -/
def Result.exitCode (r : Result) : ExitCode :=
  if r.failure.isSome then .failure
  else if r.exception.isSome then .uncaught
  else .success

/-- What is said at last of a run that did not complete. -/
def Result.verdict (r : Result) : List Piece :=
  match r.failureMessage?, r.exception with
  | some text, _ => [complaint "whilep run" text]
  | none, some value => [.errorLine ("uncaught exception: " ++ value.display)]
  | none, none => []

/-- Everything that the command writes about a run. -/
def runPieces (env : Surroundings) (options : Options) (r : Result) : List Piece :=
  journalPieces env options r ++
    [.output (renderLog r.lines), .errorLine ("store: " ++ r.store.display)] ++
    recordPieces env options (finishedRecord r) ++ r.verdict

/-- The run of a program that the command makes. -/
def commandRun (env : Surroundings) (options : Options) (manifest : Option Manifest) (p : Program) :
    Result :=
  run (runSettings env options manifest 0) p.store p.body

/-- The command `run`. -/
def runCommand (env : Surroundings) (options : Options) : List String → Response
  | [argument] =>
    let loaded : Except Error (Option Manifest × Program) := do
      let manifest ← manifestFor env.disk argument
      let program ← programFor env manifest argument
      .ok (manifest, program)
    match loaded with
    | .error e => .abort "whilep run" [] env.disk e
    | .ok (manifest, program) =>
      let r := commandRun env options manifest program
      ⟨r.exitCode, runPieces env options r, env.disk⟩
  | _ =>
    ⟨.failure, .errorLine "whilep run expects exactly one program" :: usagePieces, env.disk⟩

end WhilePlus
