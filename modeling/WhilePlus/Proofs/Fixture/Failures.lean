import WhilePlus.Fixture.File
import WhilePlus.Proofs.Except
import WhilePlus.Proofs.Fixture.Verdict

namespace WhilePlus

/-- A part of the outcome of a run that is compared with what is expected. -/
inductive Aspect where
  | error
  | exception
  | store
  | log
  deriving DecidableEq, Repr

namespace Aspect

/-- All parts, in the order in which they are compared. -/
def all : List Aspect := [error, exception, store, log]

/-- How a failure of the part begins. -/
def label : Aspect → String
  | error => "error: "
  | exception => "exception: "
  | store => "store: "
  | log => "log: "

/-- The part is as expected. Lines that are asked for must equal the expected
    list, the empty list included. A list that was not set is no empty list: it
    equals no lines, be they none at all. -/
def Holds (want : Expectation) (r : Result) : Aspect → Prop
  | error =>
    if want.error = "" then r.failure = none
    else ∃ text, r.failureMessage? = some text ∧ Text.toBytes want.error <:+: Text.toBytes text
  | exception => r.exception = want.exception
  | store => ∀ s, want.store = some s → ∀ name, r.store.get? name = s.get? name
  | log => want.checkLog = true → want.log = some r.lines

/-- What is found wrong with the part. -/
def issues (want : Expectation) (r : Result) : Aspect → List String
  | error => want.errorIssues r.failureMessage?
  | exception => want.exceptionIssues r.exception
  | store => want.storeIssues r.store
  | log => want.logIssues r.lines

variable {want : Expectation} {r : Result}

private theorem mem_all (a : Aspect) : a ∈ all := by
  cases a <;> simp [all]

private theorem issues_eq_nil_iff (a : Aspect) : a.issues want r = [] ↔ a.Holds want r := by
  cases a with
  | error => exact Expectation.errorIssues_eq_nil_iff
  | exception => exact Expectation.exceptionIssues_eq_nil_iff
  | store => exact Expectation.storeIssues_eq_nil_iff
  | log => exact Expectation.logIssues_eq_nil_iff

/-- The text begins like a failure of the part. -/
def Names (a : Aspect) (issue : String) : Prop :=
  ∃ text, issue = a.label ++ text

private theorem Names.append {a : Aspect} {issue : String} (h : a.Names issue) (rest : String) :
    a.Names (issue ++ rest) := by
  obtain ⟨text, rfl⟩ := h
  exact ⟨text ++ rest, String.append_assoc⟩

end Aspect

section Host

variable (cfg : Settings)

end Host

namespace Expectation

variable {want : Expectation} {r : Result}

end Expectation

end WhilePlus
