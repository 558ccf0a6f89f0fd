import WhilePlus.Fixture.Basic
import WhilePlus.Proofs.Run.Derivation
import WhilePlus.Proofs.Store.Bindings

namespace WhilePlus

/-- The result of a run meets an expectation. -/
structure Result.Meets (r : Result) (want : Expectation) : Prop where
  /-- No failure where none is expected, or one whose message holds the expected
      text. -/
  error : if want.error = "" then r.failure = none
    else ∃ text, r.failureMessage? = some text ∧ Text.toBytes want.error <:+: Text.toBytes text
  exception : r.exception = want.exception
  store : ∀ s, want.store = some s → ∀ name, r.store.get? name = s.get? name
  log : want.checkLog = true → want.log = some r.lines

namespace Expectation

variable {want : Expectation} {r : Result}

/-- The failure of a run is as expected exactly if there is none and none is
    expected, or if its message holds the bytes of the expected text. -/
theorem errorIssues_eq_nil_iff :
    want.errorIssues r.failureMessage? = [] ↔
      if want.error = "" then r.failure = none
      else ∃ text, r.failureMessage? = some text ∧ Text.toBytes want.error <:+: Text.toBytes text := by
  have hmessage : r.failureMessage? = none ↔ r.failure = none := by
    simp [Result.failureMessage?]
  unfold errorIssues
  by_cases hnone : want.error = ""
  · rw [if_pos hnone, if_pos (by simp [hnone]), ← hmessage]
    cases r.failureMessage? <;> simp
  · rw [if_neg hnone, if_neg (by simpa using hnone)]
    cases r.failureMessage? with
    | none => simp
    | some text => simp [Text.contains_iff]

/-- The value that escapes a run is as expected exactly if it is the expected
    one, in kind and payload, or if there is none and none is expected. -/
theorem exceptionIssues_eq_nil_iff :
    want.exceptionIssues r.exception = [] ↔ r.exception = want.exception := by
  unfold exceptionIssues
  cases want.exception with
  | none => cases r.exception <;> simp
  | some value =>
    cases r.exception with
    | none => simp
    | some got => simp [eq_comm]

/-- The final store is as expected exactly if it binds every name as the
    expected one does. Without an expected store nothing is compared. -/
theorem storeIssues_eq_nil_iff :
    want.storeIssues r.store = [] ↔
      ∀ s, want.store = some s → ∀ name, r.store.get? name = s.get? name := by
  unfold storeIssues
  cases want.store with
  | none => simp
  | some s =>
    have hissues : (if s = r.store then [] else
        ["store: expected " ++ s.display ++ ", got " ++ r.store.display]) = [] ↔ r.store = s := by
      simp [eq_comm]
    refine hissues.trans ⟨?_, fun h => Store.ext_get? (h s rfl)⟩
    rintro rfl _ ⟨⟩ name
    rfl

/-- The lines of a run are as expected exactly if they do not matter, or if they
    are the list that was set. No lines are those of a list that was never set. -/
theorem logIssues_eq_nil_iff :
    want.logIssues r.lines = [] ↔ (want.checkLog = true → want.log = some r.lines) := by
  unfold logIssues
  cases want.checkLog with
  | false => simp
  | true => by_cases hlog : want.log = some r.lines <;> simp [hlog]

private theorem compare_eq_nil_iff : want.compare r = [] ↔ r.Meets want := by
  unfold compare
  rw [List.append_eq_nil_iff, List.append_eq_nil_iff, List.append_eq_nil_iff, errorIssues_eq_nil_iff,
    exceptionIssues_eq_nil_iff, storeIssues_eq_nil_iff, logIssues_eq_nil_iff]
  constructor
  · rintro ⟨⟨⟨herror, hexception⟩, hstore⟩, hlog⟩
    exact ⟨herror, hexception, hstore, hlog⟩
  · rintro ⟨herror, hexception, hstore, hlog⟩
    exact ⟨⟨⟨herror, hexception⟩, hstore⟩, hlog⟩

end Expectation

/-- How a fixture did. -/
inductive Verdict where
  | skipped
  | passed
  | failed (reasons : List String)

/-- What a report says of its fixture. -/
def Report.verdict (r : Report) : Verdict :=
  if r.skipped then .skipped else if r.passed then .passed else .failed r.failures

namespace Fixture

variable {fx : Fixture} {cfg : Settings}

/-- The number of steps that a fixture may take, if it is limited: its own goes
    before the given one. -/
def budget (fx : Fixture) (limit : Option Nat) : Option Nat :=
  if 0 < fx.maxSteps then some fx.maxSteps.toNat else limit

/-- The verdict that is right for a fixture whose run has the given settings. -/
structure Earns (fx : Fixture) (cfg : Settings) (verdict : Verdict) : Prop where
  skipped : verdict = .skipped ↔ fx.skip = true
  passed : verdict = .passed ↔
    fx.skip = false ∧ ∃ r, run? cfg fx.program.store fx.program.body = some r ∧ r.Meets fx.expect
  /-- Otherwise it has failed, and it is said why. -/
  failed : ∀ reasons, verdict = .failed reasons → reasons ≠ []

private theorem run_of_skip (h : fx.skip = true) : fx.run cfg = ⟨fx.name, none, []⟩ := by
  rw [Fixture.run, if_pos h]

/-- A fixture that is not skipped reports the run of its program, if that ends
    within the settings, compared with what is expected. -/
theorem run_of_run? (hskip : fx.skip = false) {r : Result}
    (hrun : run? { cfg with limit := fx.budget cfg.limit } fx.program.store fx.program.body = some r) :
    fx.run cfg = ⟨fx.name, some r, fx.expect.compare r⟩ := by
  have hsettings : (if 0 < fx.maxSteps then { cfg with limit := stepLimit fx.maxSteps } else cfg) =
      { cfg with limit := fx.budget cfg.limit } := by
    unfold budget stepLimit
    split <;> rfl
  have hresult : WhilePlus.run { cfg with limit := fx.budget cfg.limit } fx.program.store
      fx.program.body = r := by
    rw [WhilePlus.run, hrun]
    rfl
  rw [Fixture.run, if_neg (by simp [hskip])]
  dsimp only
  rw [hsettings, hresult]

/-- A fixture gets the verdict that it earns, if its run ends within its own
    limit or that of the settings. Nothing is asked of a fixture that is
    skipped. -/
theorem earns_verdict_run (cfg : Settings)
    (hends : fx.skip = false →
      ∃ r, run? { cfg with limit := fx.budget cfg.limit } fx.program.store fx.program.body = some r) :
    fx.Earns { cfg with limit := fx.budget cfg.limit } (fx.run cfg).verdict := by
  cases hskip : fx.skip with
  | true =>
    have hverdict : (fx.run cfg).verdict = .skipped := by
      rw [run_of_skip hskip]
      rfl
    rw [hverdict]
    exact ⟨by simp [hskip], by simp [hskip], nofun⟩
  | false =>
    obtain ⟨r, hrun⟩ := hends hskip
    rw [run_of_run? hskip hrun]
    by_cases hmeets : r.Meets fx.expect
    · have hnone := Expectation.compare_eq_nil_iff.mpr hmeets
      have hverdict : (Report.mk fx.name (some r) (fx.expect.compare r)).verdict = .passed := by
        simp [Report.verdict, Report.skipped, Report.passed, hnone]
      rw [hverdict]
      exact ⟨by simp [hskip], by simp [hskip, hrun, hmeets], nofun⟩
    · have hsome := mt Expectation.compare_eq_nil_iff.mp hmeets
      have hverdict : (Report.mk fx.name (some r) (fx.expect.compare r)).verdict =
          .failed (fx.expect.compare r) := by
        simp [Report.verdict, Report.skipped, Report.passed, hsome]
      rw [hverdict]
      refine ⟨by simp [hskip], by simp [hskip, hrun, hmeets], ?_⟩
      rintro _ ⟨⟩
      exact hsome

end Fixture

end WhilePlus
