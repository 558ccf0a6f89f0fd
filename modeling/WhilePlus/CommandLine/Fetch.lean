import WhilePlus.CommandLine.Session
import WhilePlus.CommandLine.Test

namespace WhilePlus

/-- A fetch in progress. -/
structure Fetching where
  disk : Disk
  lock : Lockfile
  /-- The number of suites that were fetched. -/
  count : Nat := 0
  pieces : List Piece := []

namespace Fetching

/-- Fetches one suite. A local one is only reported. -/
def fetchSuite (env : Surroundings) (options : Options) (m : Manifest) (cache : String)
    (f : Fetching) (name : String) : Fetching × Except Error Unit :=
  match (m.suites.lookup name).bind id with
  | none =>
    (f, .error (.ofText ("suite " ++ Text.quote name ++ " is not declared in " ++ m.path)))
  | some spec =>
    if !spec.isGit then
      ({ f with pieces := f.pieces ++
          [.outputLine ("local " ++ name ++ " -> " ++ m.resolve spec.path)] }, .ok ())
    else
      let (st, fetched) := Suite.fetch env.cloner (some cache) { disk := f.disk } name (some spec)
      let pieces := f.pieces ++ st.records.flatMap (recordPieces env options)
      match fetched with
      | .error e => ({ f with disk := st.disk, pieces }, .error e)
      | .ok (locked, _) =>
        ({ disk := st.disk
           lock := f.lock.put locked
           count := f.count + 1
           pieces := pieces ++ [.outputLine ("fetched " ++ name ++ " " ++ locked.version)] },
          .ok ())

/-- Fetches some suites; the first error ends this. -/
def fetchSuites (env : Surroundings) (options : Options) (m : Manifest) (cache : String)
    (f : Fetching) : List String → Fetching × Except Error Unit
  | [] => (f, .ok ())
  | name :: rest =>
    match f.fetchSuite env options m cache name with
    | (f, .error e) => (f, .error e)
    | (f, .ok ()) => fetchSuites env options m cache f rest

/-- The files after a fetch: the lockfile is written anew if anything was
    fetched. -/
def save (env : Surroundings) (m : Manifest) (f : Fetching) : Except Error Disk :=
  if f.count = 0 then .ok f.disk
  else ({ f.lock with generated := "" }.save f.disk env.now m.lockPath).2

/-- The answer of a fetch that cannot go on. -/
def abort (f : Fetching) (e : Error) : Response :=
  .abort "whilep suites fetch" f.pieces f.disk e

end Fetching

/-- What a fetch needs before its first suite. -/
structure FetchPlan where
  manifest : Manifest
  names : List String
  cache : String
  lock : Lockfile

/-- Finds what a fetch needs: without names, all suites of the project are
    meant. -/
def FetchPlan.make (env : Surroundings) (names : List String) : Except Error FetchPlan := do
  match ← manifestFor env.disk "" with
  | none => .error (.ofText (Manifest.fileName ++ " not found"))
  | some m => do
    let (cache, lock) ← suiteStorage env m
    .ok ⟨m, if names.isEmpty then m.suiteNames else names, cache,
      { lock with project := m.name, tool := toolVersion }⟩

/-- The command `suites fetch`. -/
def fetchCommand (env : Surroundings) (options : Options) (names : List String) : Response :=
  match FetchPlan.make env names with
  | .error e => .abort "whilep suites fetch" [] env.disk e
  | .ok plan =>
    let start : Fetching := { disk := env.disk, lock := plan.lock }
    match start.fetchSuites env options plan.manifest plan.cache plan.names with
    | (f, .error e) => f.abort e
    | (f, .ok ()) =>
      match f.save env plan.manifest with
      | .error e => f.abort e
      | .ok disk => ⟨.success, f.pieces, disk⟩

/-- The command `suites`. -/
def suitesCommand (env : Surroundings) (options : Options) : List String → Response
  | "fetch" :: names => fetchCommand env options names
  | _ =>
    ⟨.failure, .errorLine "whilep suites expects the 'fetch' subcommand" :: usagePieces, env.disk⟩

end WhilePlus
