import WhilePlus.Program
import WhilePlus.Run.Execute
import WhilePlus.Text.Character

namespace WhilePlus

/-- What the run of a fixture is compared with. -/
structure Expectation where
  /-- The value that must escape; `none` if the run must complete. -/
  exception : Option Value := none
  /-- The final store, if it matters. -/
  store : Option Store := none
  /-- The printed lines; `none` if no list was set, which is not the same as the
      empty list. -/
  log : Option (List String) := none
  /-- Whether the printed lines matter. Nothing keeps them from being asked for
      when no list was set. -/
  checkLog : Bool := false
  /-- What the failure of the run must say; empty if there must be none. -/
  error : String := ""
  deriving DecidableEq

/-- A program with the outcome that it must have. -/
structure Fixture where
  name : String
  directory : String
  description : String
  skip : Bool
  maxSteps : Int
  programPath : String
  program : Program
  expect : Expectation
  deriving DecidableEq

namespace Expectation

/-- What is wrong with the failure of a run. -/
def errorIssues (want : Expectation) (failure : Option String) : List String :=
  if want.error.isEmpty then
    match failure with
    | some text => ["error: unexpected " ++ text]
    | none => []
  else
    match failure with
    | some text =>
      if Text.contains text want.error then []
      else ["error: expected " ++ Text.quote want.error ++ ", got " ++ Text.quote text]
    | none => ["error: expected " ++ Text.quote want.error ++ ", run completed"]

/-- What is wrong with the value that escaped a run. -/
def exceptionIssues (want : Expectation) (exception : Cell) : List String :=
  match want.exception, exception with
  | none, none => []
  | none, some got => ["exception: expected none, got " ++ got.display]
  | some value, none => ["exception: expected " ++ value.display ++ ", got none"]
  | some value, some got =>
    if value = got then []
    else ["exception: expected " ++ value.display ++ ", got " ++ got.display]

/-- What is wrong with the final store of a run. -/
def storeIssues (want : Expectation) (store : Store) : List String :=
  match want.store with
  | some s =>
    if s = store then [] else ["store: expected " ++ s.display ++ ", got " ++ store.display]
  | none => []

/-- What is wrong with the lines of a run. No lines, not even none at all, are
    those of a list that was never set, although messages show it as the empty
    list. -/
def logIssues (want : Expectation) (lines : List String) : List String :=
  if want.checkLog then
    if want.log = some lines then []
    else ["log: expected " ++ Text.quoteList (want.log.getD []) ++ ", got " ++ Text.quoteList lines]
  else []

/-- Everything in which a run differs from what is expected. -/
def compare (want : Expectation) (r : Result) : List String :=
  want.errorIssues r.failureMessage? ++ want.exceptionIssues r.exception ++
    want.storeIssues r.store ++ want.logIssues r.lines

end Expectation

/-- The outcome of a fixture: it was skipped, or it ran and differs in some
    ways. -/
structure Report where
  name : String
  result : Option Result
  failures : List String

namespace Report

/-- Whether the fixture was not run. -/
def skipped (r : Report) : Bool :=
  r.result.isNone

/-- Whether the fixture is as expected. -/
def passed (r : Report) : Bool :=
  r.skipped || r.failures.isEmpty

end Report

/-- Runs a fixture; its own step limit goes before the one of the settings. -/
def Fixture.run (fx : Fixture) (cfg : Settings) : Report :=
  if fx.skip then ⟨fx.name, none, []⟩
  else
    let cfg := if 0 < fx.maxSteps then { cfg with limit := stepLimit fx.maxSteps } else cfg
    let r := WhilePlus.run cfg fx.program.store fx.program.body
    ⟨fx.name, some r, fx.expect.compare r⟩

end WhilePlus
