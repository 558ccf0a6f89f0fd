import WhilePlus.CommandLine.Session

namespace WhilePlus

/-- How many fixtures had which outcome. -/
structure Summary where
  passed : Nat := 0
  failed : Nat := 0
  skipped : Nat := 0
  deriving DecidableEq, Repr

namespace Summary

/-- The summary with one more report. -/
def add (s : Summary) (r : Report) : Summary :=
  if r.skipped then { s with skipped := s.skipped + 1 }
  else if r.passed then { s with passed := s.passed + 1 }
  else { s with failed := s.failed + 1 }

/-- The line of a summary. -/
def display (s : Summary) : String :=
  toString s.passed ++ " passed, " ++ toString s.failed ++ " failed, " ++ toString s.skipped ++
    " skipped"

end Summary

/-- The lines of a report. -/
def Report.lines (r : Report) (target : String) : List String :=
  let name := target ++ "/" ++ r.name
  if r.skipped then ["skip " ++ name]
  else if r.passed then ["ok   " ++ name]
  else ("FAIL " ++ name) :: r.failures.map ("     " ++ ·)

/-- A test in progress. -/
structure Testing where
  suites : Suite.State
  summary : Summary := {}
  /-- The number of fixtures so far. -/
  fixtures : Nat := 0
  pieces : List Piece := []

namespace Testing

/-- The test with more text written. -/
def write (t : Testing) (pieces : List Piece) : Testing :=
  { t with pieces := t.pieces ++ pieces }

/-- Runs a fixture of a target and reports it. -/
def runFixture (env : Surroundings) (options : Options) (manifest : Option Manifest)
    (target : String) (t : Testing) (fx : Fixture) : Testing :=
  let r := fx.run (runSettings env options manifest t.fixtures)
  let journal := (r.result.map (journalPieces env options)).getD []
  { t with
    summary := t.summary.add r
    fixtures := t.fixtures + 1
    pieces := t.pieces ++ journal ++ (r.lines target).map .outputLine }

/-- The directory of a target: of a suite that the manifest declares, or the
    target itself. -/
def locate (env : Surroundings) (options : Options) (manifest : Option Manifest) (cache : String)
    (t : Testing) (target : String) : Testing × Except Error String :=
  match manifest.filter fun m => (m.suites.lookup target).isSome with
  | some m =>
    let (suites, found) := Suite.locate env.cloner (some cache) t.suites m target
    let t := t.write (suites.records.flatMap (recordPieces env options))
    ({ t with suites := { suites with records := [] } }, found)
  | none =>
    match t.suites.disk.find target with
    | .error _ =>
      (t, .error (.ofText (Text.quote target ++ " is neither a directory nor a declared suite")))
    | .ok (.file _) => (t, .error (.ofText (target ++ " is not a directory")))
    | .ok (.directory _) => (t, .ok (t.suites.disk.absolute target))

/-- Runs the fixtures of a target. -/
def runTarget (env : Surroundings) (options : Options) (manifest : Option Manifest)
    (cache : String) (t : Testing) (target : String) : Testing × Except Error Unit :=
  match t.locate env options manifest cache target with
  | (t, .error e) => (t, .error e)
  | (t, .ok directory) =>
    match Fixture.collect t.suites.disk directory with
    | .error e => (t, .error e)
    | .ok [] => (t.write [.outputLine ("whilep test: no fixtures found in " ++ directory)], .ok ())
    | .ok fixtures => (fixtures.foldl (runFixture env options manifest target) t, .ok ())

/-- Runs the fixtures of some targets; the first error ends this. -/
def runTargets (env : Surroundings) (options : Options) (manifest : Option Manifest)
    (cache : String) (t : Testing) : List String → Testing × Except Error Unit
  | [] => (t, .ok ())
  | target :: rest =>
    match t.runTarget env options manifest cache target with
    | (t, .error e) => (t, .error e)
    | (t, .ok ()) => runTargets env options manifest cache t rest

/-- The files after a test: the lockfile is written if it has other entries than
    at first. -/
def save (env : Surroundings) (manifest : Option Manifest) (before : Option Lockfile)
    (t : Testing) : Except Error Disk :=
  match manifest, before, t.suites.lock with
  | some m, some old, some lock =>
    if lock.signature? == old.signature? then .ok t.suites.disk
    else (lock.save t.suites.disk env.now m.lockPath).2
  | _, _, _ => .ok t.suites.disk

/-- The answer of a test that cannot go on. -/
def abort (t : Testing) (e : Error) : Response :=
  .abort "whilep test" t.pieces t.suites.disk e

/-- The answer of a test that has ended. -/
def finish (t : Testing) (disk : Disk) : Response :=
  ⟨if t.summary.failed = 0 then .success else .failure,
    t.pieces ++ [.outputLine t.summary.display], disk⟩

end Testing

/-- What a test is of, given the arguments: all suites of the project if there
    are none. -/
def testTargets (manifest : Option Manifest) : List String → Except Error (List String)
  | [] =>
    match (manifest.map (·.suiteNames)).getD [] with
    | [] =>
      .error (.ofText "no fixture directories given and no suites declared in whileplus.yml")
    | names => .ok names
  | targets => .ok targets

/-- The cache and the lockfile of a project. -/
def suiteStorage (env : Surroundings) (m : Manifest) : Except Error (String × Lockfile) := do
  let cache ← Suite.cacheDirectory env.disk env.cacheHome
  let lock ← lockfileFor env m
  .ok (cache, lock)

/-- What a test needs before its first target. -/
structure TestPlan where
  manifest : Option Manifest
  targets : List String
  cache : String
  lock : Option Lockfile

/-- Finds what a test needs. -/
def TestPlan.make (env : Surroundings) (arguments : List String) : Except Error TestPlan := do
  let manifest ← manifestFor env.disk ""
  let targets ← testTargets manifest arguments
  match manifest with
  | none => .ok ⟨none, targets, "", none⟩
  | some m => do
    let (cache, lock) ← suiteStorage env m
    .ok ⟨some m, targets, cache, some lock⟩

/-- The command `test`. -/
def testCommand (env : Surroundings) (options : Options) (arguments : List String) : Response :=
  let start : Testing := { suites := { disk := env.disk } }
  match TestPlan.make env arguments with
  | .error e => start.abort e
  | .ok plan =>
    let start := { start with suites := { start.suites with lock := plan.lock } }
    match start.runTargets env options plan.manifest plan.cache plan.targets with
    | (t, .error e) => t.abort e
    | (t, .ok ()) =>
      match t.save env plan.manifest plan.lock with
      | .error e => t.abort e
      | .ok disk => t.finish disk

end WhilePlus
