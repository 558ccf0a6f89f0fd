import WhilePlus.Run.Expression
import WhilePlus.Run.Journal

namespace WhilePlus

/-- How a run is set up. -/
structure Settings where
  runId : String
  /-- The number of statements that may be executed; `none` for any number. -/
  limit : Option Nat := none
  /-- The number of the event at which the run is canceled. -/
  cancelAt : Option Nat := none
  /-- The number of the test of a loop before which the run is canceled. Only
      these tests look, so every moment that falls on no event is one of these.
      -/
  cancelBefore : Option Nat := none
  deriving DecidableEq, Repr

/-- The step limit that a number stands for: only a positive one limits
    anything. -/
def stepLimit (n : Int) : Option Nat :=
  if 0 < n then some n.toNat else none

/-- What a run has done so far. -/
structure State where
  store : Store
  lines : Array String := #[]
  journal : Array Entry := #[]
  /-- The number of events in the journal. -/
  emitted : Nat := 0
  /-- The number of statements that were begun. -/
  steps : Nat := 0
  /-- The number of tests of loops that were begun. -/
  tests : Nat := 0

namespace State

/-- Adds an event to the journal. -/
def emit (st : State) (e : Event) : State :=
  { st with journal := st.journal.push (.event e), emitted := st.emitted + 1 }

/-- Adds a record to the journal. -/
def log (st : State) (r : Record) : State :=
  { st with journal := st.journal.push (.record r) }

/-- Binds a name. -/
def write (st : State) (name : String) (value : Cell) : State :=
  { st with store := st.store.set name value }

/-- Adds a line to the output. -/
def append (st : State) (line : String) : State :=
  { st with lines := st.lines.push line }

/-- Counts one more statement. -/
def step (st : State) : State :=
  { st with steps := st.steps + 1 }

/-- Counts one more test of a loop. -/
def test (st : State) : State :=
  { st with tests := st.tests + 1 }

/-- Executes an assignment of a value. -/
def assign (st : State) (span : Span) (name : String) (value : Cell) : State :=
  (st.write name value).emit (.assigned span name value)

/-- Prints a value after a lead. -/
def print (st : State) (span : Span) (lead : String) (value : Cell) : State :=
  let line := lead ++ value.display
  (st.append line).emit (.printed span value line)

/-- Binds a caught value. -/
def catchValue (st : State) (runId : String) (span : Span) (name : String) (value : Cell) : State :=
  ((st.log (caughtRecord runId name value)).write name value).emit (.caught span name value)

end State

/-- Whether the state has more steps than the settings allow, and the limit. -/
def Settings.exceeded? (cfg : Settings) (st : State) : Option Nat :=
  match cfg.limit with
  | some limit => if limit < st.steps then some limit else none
  | none => none

/-- Whether a number that may be given has been passed. -/
def hasPassed (bound : Option Nat) (count : Nat) : Bool :=
  match bound with
  | some k => k < count
  | none => false

/-- Whether the run has been canceled by the time of the last test that was
    begun. -/
def Settings.isCanceled (cfg : Settings) (st : State) : Bool :=
  hasPassed cfg.cancelAt st.emitted || hasPassed cfg.cancelBefore st.tests

/-- What is to be executed: a statement, or a loop from its next test on. -/
inductive Task where
  | stmt (s : Stmt)
  | loop (span : Span) (condition : Expr) (body : Stmt)

/-- Counts a task that is begun. -/
def Task.count : Task → State → State
  | .stmt _, st => st.step
  | .loop .., st => st.test

/-- Why the host does not let a task go on that has just been counted. -/
def Settings.refusal? (cfg : Settings) (st : State) : Task → Option Failure
  | .stmt _ => (cfg.exceeded? st).map .stepLimit
  | .loop span _ _ => if cfg.isCanceled st then some (.canceled span) else none

/-- How a task goes on once the host lets it. -/
inductive Stage where
  | ended (outcome : Outcome)
  /-- Another task takes its place. -/
  | replaced (next : Task)
  /-- Another task has to end first. -/
  | waiting (first : Task)

/-- The effect of a statement that needs the value of an expression; without a
    value there is none. -/
def State.withValue (st : State) (e : Expr) (effect : State → Cell → Outcome × State) :
    Stage × State :=
  match e.eval st.store with
  | .ok v =>
    let (outcome, st) := effect st v
    (.ended outcome, st)
  | .error signal => (.ended (.error signal), st)

/-- What a condition leads to; one that is no truth value ends the task. -/
def State.withTest (st : State) (condition : Expr) (yes no : Stage) : Stage × State :=
  match condition.test st.store with
  | .ok true => (yes, st)
  | .ok false => (no, st)
  | .error signal => (.ended (.error signal), st)

/-- Begins a task. What stands in tail position takes the place of its
    statement. -/
def Task.start : Task → State → Stage × State
  | .stmt .missing, st => (.ended (.ok ()), st)
  | .stmt (.skip _), st => (.ended (.ok ()), st)
  | .stmt (.assign span name value), st =>
    st.withValue value fun st v => (.ok (), st.assign span name v)
  | .stmt (.print span lead expression), st =>
    st.withValue expression fun st v => (.ok (), st.print span lead v)
  | .stmt (.throw span expression), st =>
    st.withValue expression fun st v => (.error (.raised v), st.emit (.raised span v))
  | .stmt (.branch _ condition yes no), st =>
    st.withTest condition (.replaced (.stmt yes)) (.replaced (.stmt no))
  | .stmt (.loop span condition body), st => (.replaced (.loop span condition body), st)
  | .stmt (.seq _ first _), st => (.waiting (.stmt first), st)
  | .stmt (.attempt _ body _ _), st => (.waiting (.stmt body), st)
  | .loop _ condition body, st => st.withTest condition (.waiting (.stmt body)) (.ended (.ok ()))

/-- Goes on with a task after the one it has waited for: the task that takes its
    place, if any. Only a raised value can be caught, and it is bound before the
    handler begins. -/
def Task.resume (runId : String) : Task → Outcome → State → Option Task × State
  | .stmt (.seq _ _ second), .ok (), st => (some (.stmt second), st)
  | .stmt (.attempt span _ binding handler), .error (.raised v), st =>
    (some (.stmt handler), st.catchValue runId span binding v)
  | .loop span condition body, .ok (), st => (some (.loop span condition body), st)
  | _, _, st => (none, st)

/-- What a task comes to, where `recur` has the results of the tasks that it
    begins. -/
@[inline] def execWith (cfg : Settings) (recur : Task × State → Option (Outcome × State))
    (task : Task) (st : State) : Option (Outcome × State) :=
  let st := task.count st
  match cfg.refusal? st task with
  | some failure => some (.error (.failed failure), st)
  | none =>
    match task.start st with
    | (.ended outcome, st) => some (outcome, st)
    | (.replaced next, st) => recur (next, st)
    | (.waiting first, st) => do
      let (outcome, st) ← recur (first, st)
      match task.resume cfg.runId outcome st with
      | (some next, st) => recur (next, st)
      | (none, st) => some (outcome, st)

private theorem execWith_mono {recur recur' : Task × State → Option (Outcome × State)}
    (hrecur : ∀ begun result, recur begun = some result → recur' begun = some result)
    {cfg : Settings} {task : Task} {st : State} {result : Outcome × State}
    (h : execWith cfg recur task st = some result) : execWith cfg recur' task st = some result := by
  unfold execWith at h ⊢
  dsimp only at h ⊢
  split
  · next hrefused => rwa [hrefused] at h
  · next hlet =>
    rw [hlet] at h
    split
    · next hstart => rwa [hstart] at h
    · next hstart =>
      rw [hstart] at h
      exact hrecur _ _ h
    · next hstart =>
      rw [hstart] at h
      obtain ⟨first, hfirst, h⟩ := Option.bind_eq_some_iff.mp h
      refine Option.bind_eq_some_iff.mpr ⟨first, hrecur _ _ hfirst, ?_⟩
      split at h
      · exact hrecur _ _ h
      · exact h

section

variable (cfg : Settings)

/-- Executes a task; a task that never ends has no result. -/
def exec (task : Task) (st : State) : Option (Outcome × State) :=
  execWith cfg exec.uncurry task st
partial_fixpoint monotonicity by
  intro recur recur' hle task st
  have hrecur (begun : Task × State) (result : Outcome × State)
      (h : recur.uncurry begun = some result) : recur'.uncurry begun = some result := by
    obtain ⟨task, st⟩ := begun
    have hle := hle task st
    revert h hle
    simp only [Function.uncurry_apply_pair]
    generalize recur task st = before
    generalize recur' task st = after
    rintro h ⟨⟩
    · cases h
    · exact h
  dsimp only
  cases h : execWith cfg recur.uncurry task st with
  | none => exact .bot
  | some result =>
    rw [execWith_mono hrecur h]
    exact .refl

end

/-- The outcome of a run. -/
structure Result where
  runId : String
  /-- The bindings at the end of the run, also when it ended early. -/
  store : Store
  /-- The raised value that nothing caught. -/
  exception : Cell
  lines : List String
  steps : Nat
  journal : List Entry
  failure : Option Failure

namespace Result

/-- The events of a run, in order. -/
def events (r : Result) : List Event :=
  r.journal.filterMap Entry.event?

/-- The log records of a run, in order. -/
def records (r : Result) : List Record :=
  r.journal.filterMap Entry.record?

/-- What is said of the failure of a run. -/
def failureMessage? (r : Result) : Option String :=
  r.failure.map fun f => "run " ++ r.runId ++ ": " ++ f.message

end Result

/-- Ends a run: an uncaught value is recorded, and the last event is emitted. -/
def finish (cfg : Settings) (span : Span) (outcome : Outcome) (st : State) : Result :=
  let (exception, failure, st) :=
    match outcome with
    | .ok () => (none, none, st)
    | .error (.raised v) => (v, none, st.log (uncaughtRecord cfg.runId v))
    | .error (.failed f) => (none, some f, st)
  let st := st.emit (.ended span exception)
  ⟨cfg.runId, st.store, exception, st.lines.toList, st.steps, st.journal.toList, failure⟩

/-- Runs a statement from a store; a run that never ends has no result. -/
def run? (cfg : Settings) (store : Store) (s : Stmt) : Option Result :=
  let st := State.emit { store } (.started s.span)
  (exec cfg (.stmt s) st).map fun (outcome, st) => finish cfg s.span outcome st

/-- The result that those who wait for a run go on with. Nobody sees what stands
    for the result of a run that never ends. -/
def run (cfg : Settings) (store : Store) (s : Stmt) : Result :=
  (run? cfg store s).getD (finish cfg s.span (.error (.failed .unfinished)) { store })

end WhilePlus
