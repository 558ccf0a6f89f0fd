import WhilePlus.Proofs.Run.Refusal
import WhilePlus.Proofs.Run.Report
import WhilePlus.Proofs.Semantics.Expression

namespace WhilePlus

/-- A cancellation has ended the execution. -/
def Outcome.Canceled (outcome : Outcome) : Prop :=
  ∃ span, outcome = .error (.failed (.canceled span))

/-- A cancellation has ended the run. -/
def Result.Canceled (r : Result) : Prop :=
  ∃ span, r.failure = some (.canceled span)

/-- Some loop is about to test its condition after event number `k`. -/
def TestsAfter (cfg : Settings) (store : Store) (s : Stmt) (k : Nat) : Prop :=
  ∃ span condition body st,
    Reaches cfg (.stmt s, .initial store s) (.loop span condition body, st) ∧ k < st.emitted

/-- What a run has done is what it had done in a state. -/
structure Result.StopsIn (r : Result) (st : State) : Prop where
  store : r.store = st.store
  lines : r.lines = st.lines.toList
  steps : r.steps = st.steps
  events : r.events.dropLast = st.events

namespace Stmt

/-- The number of statements in a tree, of which a missing one is one too. -/
def positions : Stmt → Nat
  | missing | skip _ | assign _ _ _ | print _ _ _ | throw _ _ => 1
  | branch _ _ yes no => yes.positions + no.positions + 1
  | loop _ _ body => body.positions + 1
  | seq _ first second => first.positions + second.positions + 1
  | attempt _ body _ handler => body.positions + handler.positions + 1

/-- No part of a tree is a loop. -/
def LoopFree : Stmt → Prop
  | missing | skip _ | assign _ _ _ | print _ _ _ | throw _ _ => True
  | branch _ _ yes no => yes.LoopFree ∧ no.LoopFree
  | loop _ _ _ => False
  | seq _ first second => first.LoopFree ∧ second.LoopFree
  | attempt _ body _ handler => body.LoopFree ∧ handler.LoopFree

end Stmt

/-- The settings `cut` refuse what `cfg` refuses, for the same reason, and
    beyond that only tests of loops for a cancellation, which are all those
    after event number `k`. -/
structure Settings.CutAt (k : Nat) (cfg cut : Settings) : Prop where
  runId : cut.runId = cfg.runId
  kept : ∀ {st : State} {task : Task} {failure : Failure},
    cfg.refusal? st task = some failure → cut.refusal? st task = some failure
  added : ∀ {st : State} {task : Task} {failure : Failure}, cut.refusal? st task = some failure →
    cfg.refusal? st task = some failure ∨ ∃ span, failure = .canceled span
  late : ∀ {st : State} {task : Task} {span : Span}, cut.refusal? st task = some (.canceled span) →
    k < st.emitted ∧ ∃ condition body, task = .loop span condition body
  stops : ∀ {st : State} {span : Span} {condition : Expr} {body : Stmt}, k < st.emitted →
    cut.refusal? st (.loop span condition body) = some (.canceled span)

section Settings

variable {runId : String} {limit : Option Nat} {k : Nat}

/-- Canceling at an event cuts off the run under the same settings. -/
theorem cutAt_cancelAt : Settings.CutAt k { runId, limit } { runId, limit, cancelAt := some k } where
  runId := rfl
  kept := by
    intro st task failure h
    cases task with
    | stmt s => exact h
    | loop span condition body => cases h
  added := by
    intro st task failure h
    cases task with
    | stmt s => exact .inl h
    | loop span condition body =>
      obtain ⟨_, hfailure⟩ := Option.ite_none_right_eq_some.mp h
      cases hfailure
      exact .inr ⟨span, rfl⟩
  late := by
    intro st task span h
    obtain ⟨_, _, _, hfailure, _⟩ | ⟨_, condition, body, rfl, hfailure, hcanceled⟩ :=
      Settings.refusal?_eq_some_cases h
    · cases hfailure
    · cases hfailure
      exact ⟨by simpa [Settings.isCanceled, hasPassed] using hcanceled, condition, body, rfl⟩
  stops := by
    intro st span condition body hlate
    simp [Settings.refusal?, Settings.isCanceled, hasPassed, hlate]

private theorem Settings.CutAt.self {cfg cut : Settings} (h : Settings.CutAt k cfg cut) :
    Settings.CutAt k cut cut where
  runId := rfl
  kept := id
  added := .inl
  late := h.late
  stops := h.stops

end Settings

section Step

variable {runId : String} {task : Task} {st final : State} {outcome : Outcome}

/-- No task ends canceled by itself. -/
theorem Started.not_canceled (h : Started task st (.ended outcome) final) : ¬ outcome.Canceled := by
  have hexpr {signal : Signal} (hsignal : signal.OfExpr) : ¬ Outcome.Canceled (.error signal) := by
    rintro ⟨span, hspan⟩
    cases hspan
    cases hsignal
  cases h with
  | missing | skip | assigned | printed | thrown | finished => rintro ⟨_, ⟨⟩⟩
  | unassigned hsignal | unprinted hsignal | unthrown hsignal =>
    exact hexpr (Expr.eval_signal hsignal)
  | undecided hsignal | untested hsignal => exact hexpr (Expr.test_signal hsignal)

/-- No task goes on after a cancellation: it passes the rest of a sequence, the
    next test of a loop and every handler. -/
theorem Resumed.canceled {next : Option Task} (h : Resumed runId task outcome st next final)
    (hcanceled : outcome.Canceled) : next = none ∧ final = st := by
  obtain ⟨span, rfl⟩ := hcanceled
  cases h with
  | skipped | uncaught | aborted => exact ⟨rfl, rfl⟩

end Step

section Cut

variable {k : Nat} {cfg cut : Settings} {task : Task} {st final : State} {outcome : Outcome}

namespace Settings.CutAt

private theorem let_cfg (hcut : CutAt k cfg cut) (h : cut.refusal? st task = none) :
    cfg.refusal? st task = none := by
  cases hrefusal : cfg.refusal? st task with
  | none => rfl
  | some failure => simp [hcut.kept hrefusal] at h

/-- What only the cut settings refuse is canceled. The cut adds a moment of
    cancellation and leaves the limit alone. -/
theorem let_or_canceled (hcut : CutAt k cfg cut) (h : cfg.refusal? st task = none) :
    cut.refusal? st task = none ∨ ∃ span, cut.refusal? st task = some (.canceled span) := by
  cases hrefusal : cut.refusal? st task with
  | none => exact .inl rfl
  | some failure =>
    obtain hkept | ⟨span, rfl⟩ := hcut.added hrefusal
    · simp [h] at hkept
    · exact .inr ⟨span, rfl⟩

end Settings.CutAt

/-- An execution that the cancellation does not end is the same without it. The
    outcome is asked about only at the end, since a cancellation is never
    caught. -/
theorem Runs.uncut (hcut : Settings.CutAt k cfg cut) (h : Runs cut task st outcome final)
    (hfree : ¬ outcome.Canceled) : Runs cfg task st outcome final := by
  induction h with
  | refused hrefused =>
    obtain hkept | ⟨span, rfl⟩ := hcut.added hrefused
    · exact .refused hkept
    · exact absurd ⟨span, rfl⟩ hfree
  | ended hlet hstart => exact .ended (hcut.let_cfg hlet) hstart
  | replaced hlet hstart _ ih => exact .replaced (hcut.let_cfg hlet) hstart (ih hfree)
  | left hlet hstart _ hresume ih =>
    exact .left (hcut.let_cfg hlet) hstart (ih hfree) (hcut.runId ▸ hresume)
  | resumed hlet hstart _ hresume _ ihfirst ihnext =>
    have hfirst := ihfirst fun hcanceled => by
      simpa using (Task.resumed hstart hresume).canceled hcanceled
    exact .resumed (hcut.let_cfg hlet) hstart hfirst (hcut.runId ▸ hresume) (ihnext hfree)

/-- An execution that the cancellation ends has come to the test of a loop, late
    enough, and has done what was done by then. -/
theorem Runs.reaches_of_canceled (hcut : Settings.CutAt k cfg cut) (h : Runs cut task st outcome final)
    (hcanceled : outcome.Canceled) :
    ∃ span condition body last, Reaches cfg (task, st) (.loop span condition body, last) ∧
      k < last.emitted ∧ final = last.test := by
  induction h with
  | @refused task st failure hrefused =>
    obtain ⟨span, hfailure⟩ := hcanceled
    cases hfailure
    obtain ⟨hlate, condition, body, rfl⟩ := hcut.late hrefused
    exact ⟨span, condition, body, st, .refl, hlate, rfl⟩
  | ended _ hstart => exact absurd hcanceled (Task.started hstart).not_canceled
  | replaced hlet hstart _ ih =>
    obtain ⟨span, condition, body, last, hreaches, hlast⟩ := ih hcanceled
    exact ⟨span, condition, body, last, .head (.replaced (hcut.let_cfg hlet) hstart) hreaches, hlast⟩
  | left hlet hstart _ hresume ih =>
    obtain ⟨span, condition, body, last, hreaches, hlate, hlast⟩ := ih hcanceled
    refine ⟨span, condition, body, last, .head (.waiting (hcut.let_cfg hlet) hstart) hreaches, hlate, ?_⟩
    rw [(Task.resumed hstart hresume).state_eq, hlast]
  | resumed hlet hstart hfirst hresume _ _ ihnext =>
    obtain ⟨span, condition, body, last, hreaches, hlast⟩ := ihnext hcanceled
    have hfirst := hfirst.uncut hcut fun hcanceled => by
      simpa using (Task.resumed hstart hresume).canceled hcanceled
    refine ⟨span, condition, body, last, .head ?_ hreaches, hlast⟩
    exact .resumed (hcut.let_cfg hlet) hstart hfirst.exec_eq (hcut.runId ▸ hresume)

private theorem Runs.emitted_of_canceled (hcut : Settings.CutAt k cfg cut) (h : Runs cut task st outcome final)
    (hcanceled : outcome.Canceled) : k < final.emitted := by
  obtain ⟨_, _, _, last, _, hlate, rfl⟩ := h.reaches_of_canceled hcut hcanceled
  exact hlate

/-- A task ends where a cancellation has ended the one it waited for: no handler
    is entered and nothing is resumed. -/
theorem Runs.of_canceled_first {first : Task} {mid : State}
    (hlet : cfg.refusal? (task.count st) task = none)
    (hstart : task.start (task.count st) = (.waiting first, mid))
    (hfirst : Runs cfg first mid outcome final) (hcanceled : outcome.Canceled) :
    Runs cfg task st outcome final := by
  obtain ⟨⟨next, again⟩, hresume⟩ : ∃ answer, task.resume cfg.runId outcome final = answer := ⟨_, rfl⟩
  obtain ⟨rfl, rfl⟩ := (Task.resumed hstart hresume).canceled hcanceled
  exact .left hlet hstart hfirst hresume

/-- Where an execution ends, it also ends when it is cut off: by the
    cancellation, or as before. -/
theorem Runs.exists_cut (hcut : Settings.CutAt k cfg cut) (h : Runs cfg task st outcome final) :
    ∃ result last, Runs cut task st result last ∧
      (result.Canceled ∨ result = outcome ∧ last = final) := by
  -- A task that only the cut settings refuse is canceled at once.
  have hrefused {task : Task} {st : State} {P : Outcome → State → Prop} {span : Span}
      (h : cut.refusal? (task.count st) task = some (.canceled span)) :
      ∃ result last, Runs cut task st result last ∧ (result.Canceled ∨ P result last) :=
    ⟨_, _, .refused h, .inl ⟨span, rfl⟩⟩
  induction h with
  | refused hrefusal => exact ⟨_, _, .refused (hcut.kept hrefusal), .inr ⟨rfl, rfl⟩⟩
  | ended hlet hstart =>
    obtain hlet' | ⟨span, hspan⟩ := hcut.let_or_canceled hlet
    · exact ⟨_, _, .ended hlet' hstart, .inr ⟨rfl, rfl⟩⟩
    · exact hrefused hspan
  | replaced hlet hstart _ ih =>
    obtain hlet' | ⟨span, hspan⟩ := hcut.let_or_canceled hlet
    · obtain ⟨result, last, hnext, hresult⟩ := ih
      exact ⟨result, last, .replaced hlet' hstart hnext, hresult⟩
    · exact hrefused hspan
  | left hlet hstart _ hresume ih =>
    obtain hlet' | ⟨span, hspan⟩ := hcut.let_or_canceled hlet
    · obtain ⟨result, last, hfirst, hcanceled | ⟨rfl, rfl⟩⟩ := ih
      · exact ⟨result, last, .of_canceled_first hlet' hstart hfirst hcanceled, .inl hcanceled⟩
      · exact ⟨_, _, .left hlet' hstart hfirst (hcut.runId ▸ hresume), .inr ⟨rfl, rfl⟩⟩
    · exact hrefused hspan
  | resumed hlet hstart _ hresume _ ihfirst ihnext =>
    obtain hlet' | ⟨span, hspan⟩ := hcut.let_or_canceled hlet
    · obtain ⟨result, last, hfirst, hcanceled | ⟨rfl, rfl⟩⟩ := ihfirst
      · exact ⟨result, last, .of_canceled_first hlet' hstart hfirst hcanceled, .inl hcanceled⟩
      · obtain ⟨result, last, hnext, hresult⟩ := ihnext
        exact ⟨result, last, .resumed hlet' hstart hfirst (hcut.runId ▸ hresume) hnext, hresult⟩
    · exact hrefused hspan

end Cut

section Late

variable {k : Nat} {cfg cut : Settings} {task : Task} {st mid : State} {n m : Nat}

/-- A task ends, and takes no more steps than these. -/
def EndsWithin (cfg : Settings) (task : Task) (st : State) (n : Nat) : Prop :=
  ∃ outcome final, Runs cfg task st outcome final ∧ final.steps ≤ st.steps + n

private theorem EndsWithin.mono (h : EndsWithin cfg task st n) (hle : n ≤ m) : EndsWithin cfg task st m := by
  obtain ⟨outcome, final, hruns, hsteps⟩ := h
  exact ⟨outcome, final, hruns, by omega⟩

/-- What a task leads to ends within some steps, whatever comes of the task that
    it waits for. -/
def Stage.EndsWithin (cfg : Settings) (task : Task) (mid : State) (n : Nat) : Stage → Prop
  | .ended _ => True
  | .replaced next => WhilePlus.EndsWithin cfg next mid n
  | .waiting first =>
    ∃ a b, a + b ≤ n ∧ WhilePlus.EndsWithin cfg first mid a ∧
      ∀ result last next again, mid.Extends last →
        Resumed cfg.runId task result last (some next) again → WhilePlus.EndsWithin cfg next again b

/-- A statement takes one step more than what it leads to. The premise covers
    every way in which it can start. -/
theorem endsWithin_stmt {s : Stmt}
    (h : ∀ stage mid, Started (.stmt s) st.step stage mid → stage.EndsWithin cfg (.stmt s) mid n) :
    EndsWithin cfg (.stmt s) st (n + 1) := by
  have hstep : st.step.steps = st.steps + 1 := rfl
  cases hlet : cfg.refusal? (Task.count (.stmt s) st) (.stmt s) with
  | some failure => exact ⟨_, _, .refused hlet, by simp only [Task.count]; omega⟩
  | none =>
    obtain ⟨⟨stage, mid⟩, hstart⟩ : ∃ result, Task.start (.stmt s) (Task.count (.stmt s) st) = result :=
      ⟨_, rfl⟩
    have hstarted := Task.started hstart
    have hmid : mid.steps = st.steps + 1 := hstarted.steps_eq
    have hstage := h stage mid hstarted
    cases stage with
    | ended outcome => exact ⟨_, _, .ended hlet hstart, by omega⟩
    | replaced next =>
      obtain ⟨outcome, final, hnext, hsteps⟩ := hstage
      exact ⟨outcome, final, .replaced hlet hstart hnext, by omega⟩
    | waiting first =>
      obtain ⟨a, b, hsum, ⟨result, last, hfirst, hlast⟩, hresumes⟩ := hstage
      obtain ⟨⟨next, again⟩, hresume⟩ : ∃ answer, Task.resume cfg.runId (.stmt s) result last = answer :=
        ⟨_, rfl⟩
      have hresumed := Task.resumed hstart hresume
      have hagain := hresumed.steps_eq
      cases next with
      | none => exact ⟨_, _, .left hlet hstart hfirst hresume, by omega⟩
      | some next =>
        obtain ⟨outcome, final, hnext, hsteps⟩ :=
          hresumes result last next again hfirst.effects.extends hresumed
        exact ⟨outcome, final, .resumed hlet hstart hfirst hresume hnext, by omega⟩

/-- Without loops, or once the cancellation has arrived, execution passes every
    statement of a tree at most once: no test of a loop lets it begin a body
    again. -/
theorem endsWithin_positions (hcut : Settings.CutAt k cfg cut) (s : Stmt) (st : State)
    (h : s.LoopFree ∨ k < st.emitted) : EndsWithin cut (.stmt s) st s.positions := by
  induction s generalizing st with
  | missing | skip | assign | print | throw =>
    refine endsWithin_stmt fun stage mid hstarted => ?_
    cases hstarted <;> trivial
  | branch span condition yes no ihyes ihno =>
    refine endsWithin_stmt fun stage mid hstarted => ?_
    cases hstarted with
    | yes => exact (ihyes st.step (h.imp_left And.left)).mono (by omega)
    | no => exact (ihno st.step (h.imp_left And.right)).mono (by omega)
    | undecided => trivial
  | loop span condition body =>
    have hlate : k < st.emitted := h.resolve_left id
    refine EndsWithin.mono (n := 1) (endsWithin_stmt fun stage mid hstarted => ?_) (by simp [Stmt.positions])
    cases hstarted
    exact ⟨_, _, .refused (hcut.stops hlate), Nat.le_refl _⟩
  | seq span first second ihfirst ihsecond =>
    refine endsWithin_stmt fun stage mid hstarted => ?_
    cases hstarted
    refine ⟨_, _, Nat.le_refl _, ihfirst st.step (h.imp_left And.left), ?_⟩
    intro result last next again hextends hresumed
    cases hresumed
    exact ihsecond last (h.imp And.right fun hlate => Nat.lt_of_lt_of_le hlate hextends.emitted)
  | attempt span body binding handler ihbody ihhandler =>
    refine endsWithin_stmt fun stage mid hstarted => ?_
    cases hstarted
    refine ⟨_, _, Nat.le_refl _, ihbody st.step (h.imp_left And.left), ?_⟩
    intro result last next again hextends hresumed
    cases hresumed with
    | caught value =>
      refine ihhandler _ (h.imp And.right fun hlate => ?_)
      exact Nat.lt_succ_of_lt (Nat.lt_of_lt_of_le hlate hextends.emitted)

/-- Once the cancellation has arrived, every task ends, be it one that would
    never end by itself. -/
theorem exists_runs_late (hcut : Settings.CutAt k cfg cut) (task : Task) {st : State}
    (hlate : k < st.emitted) :
    ∃ outcome final, Runs cut task st outcome final ∧ k < final.emitted := by
  have hends : ∃ outcome final, Runs cut task st outcome final := by
    cases task with
    | stmt s =>
      obtain ⟨outcome, final, hruns, _⟩ := endsWithin_positions hcut s st (.inr hlate)
      exact ⟨outcome, final, hruns⟩
    | loop span condition body => exact ⟨_, _, .refused (hcut.stops hlate)⟩
  obtain ⟨outcome, final, hruns⟩ := hends
  exact ⟨outcome, final, hruns, Nat.lt_of_lt_of_le hlate hruns.effects.extends.emitted⟩

end Late

section Chain

variable {k : Nat} {cfg cut : Settings} {before after : Task × State} {outcome : Outcome}
  {final : State}

/-- If a task that is begun ends, late enough, so does the one that has begun
    it: what it still has to do after that is late too. -/
theorem Begins.exists_runs_cut (hcut : Settings.CutAt k cfg cut) (h : Begins cfg before after)
    (hafter : ∃ outcome final, Runs cut after.1 after.2 outcome final ∧ k < final.emitted) :
    ∃ outcome final, Runs cut before.1 before.2 outcome final ∧ k < final.emitted := by
  obtain ⟨result, last, hruns, hlate⟩ := hafter
  have hrefused {task : Task} {st : State} {span : Span}
      (h : cut.refusal? (task.count st) task = some (.canceled span)) :
      ∃ outcome final, Runs cut task st outcome final ∧ k < final.emitted :=
    ⟨_, _, .refused h, (hcut.late h).1⟩
  cases h with
  | replaced hlet hstart =>
    obtain hlet' | ⟨span, hspan⟩ := hcut.let_or_canceled hlet
    · exact ⟨result, last, .replaced hlet' hstart hruns, hlate⟩
    · exact hrefused hspan
  | @waiting task first st mid hlet hstart =>
    obtain hlet' | ⟨span, hspan⟩ := hcut.let_or_canceled hlet
    · obtain ⟨⟨next, again⟩, hresume⟩ : ∃ answer, task.resume cut.runId result last = answer := ⟨_, rfl⟩
      have hagain := (Task.resume_effects hstart hresume).extends.emitted
      have hlate := Nat.lt_of_lt_of_le hlate hagain
      cases next with
      | none => exact ⟨_, _, .left hlet' hstart hruns hresume, hlate⟩
      | some next =>
        obtain ⟨outcome, final, hnext, hfinal⟩ := exists_runs_late hcut next hlate
        exact ⟨outcome, final, .resumed hlet' hstart hruns hresume hnext, hfinal⟩
    · exact hrefused hspan
  | resumed hlet hstart hfirst hresume =>
    obtain hlet' | ⟨span, hspan⟩ := hcut.let_or_canceled hlet
    · obtain ⟨_, _, hfirst', hcanceled | ⟨rfl, rfl⟩⟩ := (exec_eq_some_iff.mp hfirst).exists_cut hcut
      · have hends := Runs.of_canceled_first hlet' hstart hfirst' hcanceled
        exact ⟨_, _, hends, hends.emitted_of_canceled hcut hcanceled⟩
      · exact ⟨result, last, .resumed hlet' hstart hfirst' (hcut.runId ▸ hresume) hruns, hlate⟩
    · exact hrefused hspan

private theorem Reaches.exists_runs_cut (hcut : Settings.CutAt k cfg cut) (h : Reaches cfg before after)
    (hafter : ∃ outcome final, Runs cut after.1 after.2 outcome final ∧ k < final.emitted) :
    ∃ outcome final, Runs cut before.1 before.2 outcome final ∧ k < final.emitted := by
  induction h using Relation.ReflTransGen.head_induction_on with
  | refl => exact hafter
  | head hbegins _ ih => exact hbegins.exists_runs_cut hcut ih

/-- A run that is cut off at an event that it comes to ends, even one that would
    go on for ever. -/
theorem Visits.exists_runs_cut (hcut : Settings.CutAt k cfg cut) {store : Store} {s : Stmt}
    {visited : State} (h : Visits cfg store s visited) (hlate : k < visited.emitted) :
    ∃ outcome final, Runs cut (.stmt s) (.initial store s) outcome final ∧ k < final.emitted := by
  obtain ⟨task, st, hreaches, hvisited⟩ := h
  refine hreaches.exists_runs_cut hcut ?_
  rcases hvisited with rfl | ⟨outcome, hexec⟩
  · exact exists_runs_late hcut task hlate
  · obtain ⟨result, last, hruns, hcanceled | ⟨rfl, rfl⟩⟩ := (exec_eq_some_iff.mp hexec).exists_cut hcut
    · exact ⟨result, last, hruns, hruns.emitted_of_canceled hcut hcanceled⟩
    · exact ⟨_, _, hruns, hlate⟩

/-- If what an execution begins is canceled, the execution ends with it, in the
    same state and for the same reason. -/
theorem Begins.runs_of_canceled (h : Begins cfg before after)
    (hruns : Runs cfg before.1 before.2 outcome final) :
    ∃ result last, Runs cfg after.1 after.2 result last ∧
      (result.Canceled → result = outcome ∧ last = final) := by
  cases h with
  | replaced hlet hstart => exact ⟨_, _, hruns.of_replaced hlet hstart, fun _ => ⟨rfl, rfl⟩⟩
  | waiting hlet hstart =>
    obtain ⟨result, last, hfirst, _⟩ := hruns.of_waiting hlet hstart
    refine ⟨result, last, hfirst, fun hcanceled => ?_⟩
    exact (Runs.of_canceled_first hlet hstart hfirst hcanceled).deterministic hruns
  | resumed hlet hstart hfirst hresume =>
    obtain ⟨result, last, hnext, _⟩ := (Begins.resumed hlet hstart hfirst hresume).runs hruns
    refine ⟨result, last, hnext, fun _ => ?_⟩
    exact (Runs.resumed hlet hstart (exec_eq_some_iff.mp hfirst) hresume hnext).deterministic hruns

private theorem Reaches.runs_of_canceled (h : Reaches cfg before after)
    (hruns : Runs cfg before.1 before.2 outcome final) :
    ∃ result last, Runs cfg after.1 after.2 result last ∧
      (result.Canceled → result = outcome ∧ last = final) := by
  induction h with
  | refl => exact ⟨outcome, final, hruns, fun _ => ⟨rfl, rfl⟩⟩
  | tail _ hbegins ih =>
    obtain ⟨_, _, hmid, hwhole⟩ := ih
    obtain ⟨result, last, hlast, hpart⟩ := hbegins.runs_of_canceled hmid
    refine ⟨result, last, hlast, fun hcanceled => ?_⟩
    obtain ⟨rfl, rfl⟩ := hpart hcanceled
    exact hwhole hcanceled

/-- An execution ends at the first test of a loop that it comes to after the
    cancellation, with what was done by then. -/
theorem Reaches.canceled (hcut : Settings.CutAt k cfg cut) {span : Span} {condition : Expr}
    {body : Stmt} {st : State} (h : Reaches cut before (.loop span condition body, st))
    (hlate : k < st.emitted) (hruns : Runs cut before.1 before.2 outcome final) :
    outcome = .error (.failed (.canceled span)) ∧ final = st.test := by
  obtain ⟨result, last, hloop, hwhole⟩ := h.runs_of_canceled hruns
  obtain ⟨rfl, rfl⟩ := (Runs.refused (hcut.stops hlate)).deterministic hloop
  obtain ⟨rfl, rfl⟩ := hwhole ⟨span, rfl⟩
  exact ⟨rfl, rfl⟩

/-- An execution that is not canceled begins the same tasks as without the
    cancellation. -/
theorem Begins.under_cut (hcut : Settings.CutAt k cfg cut) (h : Begins cfg before after)
    (hruns : Runs cut before.1 before.2 outcome final) (hfree : ¬ outcome.Canceled) :
    Begins cut before after := by
  have hlet {task : Task} {st : State} (hlet : cfg.refusal? (task.count st) task = none)
      (hruns : Runs cut task st outcome final) : cut.refusal? (task.count st) task = none := by
    refine (hcut.let_or_canceled hlet).resolve_right ?_
    rintro ⟨span, hspan⟩
    obtain ⟨rfl, _⟩ := (Runs.refused hspan).deterministic hruns
    exact hfree ⟨span, rfl⟩
  cases h with
  | replaced hlet₀ hstart => exact .replaced (hlet hlet₀ hruns) hstart
  | waiting hlet₀ hstart => exact .waiting (hlet hlet₀ hruns) hstart
  | resumed hlet₀ hstart hfirst hresume =>
    have hlet := hlet hlet₀ hruns
    obtain ⟨result, last, hfirst', hcanceled | ⟨rfl, rfl⟩⟩ :=
      (exec_eq_some_iff.mp hfirst).exists_cut hcut
    · obtain ⟨rfl, _⟩ := (Runs.of_canceled_first hlet hstart hfirst' hcanceled).deterministic hruns
      exact absurd hcanceled hfree
    · exact .resumed hlet hstart hfirst'.exec_eq (hcut.runId ▸ hresume)

private theorem Reaches.under_cut (hcut : Settings.CutAt k cfg cut) (h : Reaches cfg before after)
    (hruns : Runs cut before.1 before.2 outcome final) (hfree : ¬ outcome.Canceled) :
    Reaches cut before after := by
  induction h with
  | refl => exact .refl
  | tail _ hbegins ih =>
    obtain ⟨result, last, hmid, hwhole⟩ := ih.runs_of_canceled hruns
    refine ih.tail (hbegins.under_cut hcut hmid fun hcanceled => ?_)
    obtain ⟨rfl, _⟩ := hwhole hcanceled
    exact hfree hcanceled

end Chain

section Result

variable {k : Nat} {cfg cut : Settings} {span : Span} {store : Store} {s : Stmt} {outcome : Outcome}
  {final : State}

private theorem finish_canceled : (finish cfg span outcome final).Canceled ↔ outcome.Canceled := by
  simp only [Result.Canceled, Outcome.Canceled, finish_failure_eq_some_iff]

private theorem finish_events_dropLast :
    (finish cfg span outcome final).events.dropLast = final.events := by
  rw [finish_events, List.dropLast_concat]

private theorem Runs.emitted_eq (h : Runs cfg (.stmt s) (.initial store s) outcome final) :
    final.emitted = final.events.length :=
  h.effects.emitted_eq rfl

/-- A run that is cut off at an event that occurs ends, and not before that
    event. -/
theorem Occurs.exists_runs_cut (hcut : Settings.CutAt k cfg cut) (h : Occurs cfg store s k) :
    ∃ outcome final, Runs cut (.stmt s) (.initial store s) outcome final ∧
      k ≤ final.events.length := by
  obtain ⟨events, ⟨st, hvisits, hevents⟩ | ⟨r, hrun, hevents⟩, hk⟩ := h
  · have hlate : k < st.emitted := by
      rw [hvisits.emitted_eq]
      exact Nat.lt_of_lt_of_le hk hevents.length_le
    obtain ⟨outcome, final, hruns, hfinal⟩ := hvisits.exists_runs_cut hcut hlate
    exact ⟨outcome, final, hruns, by rw [← hruns.emitted_eq]; omega⟩
  · obtain ⟨outcome, final, hruns, rfl⟩ := run?_eq_some_iff.mp hrun
    have hlength := hevents.length_le
    rw [finish_events, List.length_append, List.length_singleton] at hlength
    obtain ⟨result, last, hruns', hcanceled | ⟨rfl, rfl⟩⟩ := hruns.exists_cut hcut
    · have hlate := hruns'.emitted_of_canceled hcut hcanceled
      exact ⟨result, last, hruns', by rw [← hruns'.emitted_eq]; omega⟩
    · exact ⟨_, _, hruns', by omega⟩

/-- What a run reports before it is cut off, the run without the cancellation
    reports as well. -/
theorem Runs.reports_uncut (hcut : Settings.CutAt k cfg cut)
    (h : Runs cut (.stmt s) (.initial store s) outcome final) : Reports cfg store s final.events := by
  by_cases hcanceled : outcome.Canceled
  · obtain ⟨span, condition, body, last, hreaches, _, rfl⟩ := h.reaches_of_canceled hcut hcanceled
    exact .inl ⟨last, ⟨_, _, hreaches, .inl rfl⟩, List.prefix_rfl⟩
  · exact .inl ⟨final, ⟨_, _, .refl, .inr ⟨outcome, (h.uncut hcut hcanceled).exec_eq⟩⟩, List.prefix_rfl⟩

private theorem Runs.canceled_iff (hcut : Settings.CutAt k cfg cut)
    (h : Runs cut (.stmt s) (.initial store s) outcome final) :
    outcome.Canceled ↔ TestsAfter cfg store s k := by
  constructor
  · intro hcanceled
    obtain ⟨span, condition, body, last, hreaches, hlate, _⟩ := h.reaches_of_canceled hcut hcanceled
    exact ⟨span, condition, body, last, hreaches, hlate⟩
  · rintro ⟨span, condition, body, st, hreaches, hlate⟩
    refine Classical.byContradiction fun hfree => ?_
    obtain ⟨rfl, _⟩ := (hreaches.under_cut hcut h hfree).canceled hcut hlate h
    exact hfree ⟨span, rfl⟩

/-- The event at which a run is cut off occurs in it exactly if it occurs
    without the cancellation. -/
theorem occurs_cut_iff (hcut : Settings.CutAt k cfg cut) : Occurs cut store s k ↔ Occurs cfg store s k := by
  constructor
  · intro h
    obtain ⟨outcome, final, hruns, hk⟩ := h.exists_runs_cut hcut.self
    by_cases hcanceled : outcome.Canceled
    · have hlate := hruns.emitted_of_canceled hcut hcanceled
      exact ⟨final.events, hruns.reports_uncut hcut, by rwa [← hruns.emitted_eq]⟩
    · have hrun := run?_eq_some_iff.mpr ⟨outcome, final, hruns.uncut hcut hcanceled, rfl⟩
      refine ⟨_, .inr ⟨_, hrun, List.prefix_rfl⟩, ?_⟩
      rw [finish_events, List.length_append, List.length_singleton]
      omega
  · intro h
    obtain ⟨outcome, final, hruns, hk⟩ := h.exists_runs_cut hcut
    have hrun := run?_eq_some_iff.mpr ⟨outcome, final, hruns, rfl⟩
    refine ⟨_, .inr ⟨_, hrun, List.prefix_rfl⟩, ?_⟩
    rw [finish_events, List.length_append, List.length_singleton]
    omega

private theorem finish_stopsIn_test (cfg : Settings) (span : Span) (outcome : Outcome) (st : State) :
    (finish cfg span outcome st.test).StopsIn st where
  store := finish_store
  lines := finish_lines
  steps := finish_steps
  events := finish_events_dropLast

end Result

/-- A cancellation ends a run at the next test of a loop and nowhere else. Let
    the run be canceled while event number `k` is reported, under any limit or
    none. If that event occurs, which does not depend on the cancellation, the
    run ends, and not before it; only if it is the last event has the
    cancellation come too late. However the run ends, its events but for the
    last are the first ones of the run without the cancellation, whether that
    ends or not. It is canceled exactly if some loop comes to a test after event
    `k`, and then it ends in front of that test with what was done by then;
    otherwise its result is that of the run without the cancellation. A handler
    is never entered because of a cancellation: where it ends a guarded body, it
    ends the whole in that state. Canceled from the start, or without any loop,
    a run takes at most one step for each statement of the tree. -/
theorem run?_cancel_truncates (runId : String) (limit : Option Nat) (store : Store) (s : Stmt)
    (k : Nat) :
    (Occurs { runId, limit, cancelAt := some k } store s k ↔ Occurs { runId, limit } store s k) ∧
      (Occurs { runId, limit } store s k →
        ∃ r, run? { runId, limit, cancelAt := some k } store s = some r ∧
          (k < r.events.dropLast.length ∨ k + 1 = r.events.length ∧ ¬ r.Canceled)) ∧
      (∀ r, run? { runId, limit, cancelAt := some k } store s = some r →
        Reports { runId, limit } store s r.events.dropLast ∧
        (∀ r', run? { runId, limit } store s = some r' → r.events.dropLast <+: r'.events) ∧
        (r.Canceled ↔ TestsAfter { runId, limit, cancelAt := some k } store s k) ∧
        (r.Canceled ↔ TestsAfter { runId, limit } store s k) ∧
        (∀ span condition body st,
          Reaches { runId, limit, cancelAt := some k } (.stmt s, .initial store s)
            (.loop span condition body, st) →
          k < st.emitted → r.failure = some (.canceled span) ∧ r.StopsIn st) ∧
        (¬ r.Canceled → run? { runId, limit } store s = some r)) ∧
      (∀ (span span' : Span) (body : Stmt) (binding : String) (handler : Stmt) (st final : State),
        Settings.exceeded? { runId, limit, cancelAt := some k } st.step = none →
        exec { runId, limit, cancelAt := some k } (.stmt body) st.step =
          some (.error (.failed (.canceled span')), final) →
        exec { runId, limit, cancelAt := some k } (.stmt (.attempt span body binding handler)) st =
          some (.error (.failed (.canceled span')), final)) ∧
      (k = 0 ∨ s.LoopFree → ∃ r, run? { runId, limit, cancelAt := some k } store s = some r ∧
        r.steps ≤ s.positions) := by
  have hcut : Settings.CutAt k { runId, limit } { runId, limit, cancelAt := some k } := cutAt_cancelAt
  refine ⟨occurs_cut_iff hcut, ?_, ?_, ?_, ?_⟩
  · intro hoccurs
    obtain ⟨outcome, final, hruns, hk⟩ := hoccurs.exists_runs_cut hcut
    refine ⟨_, run?_eq_some_iff.mpr ⟨outcome, final, hruns, rfl⟩, ?_⟩
    rw [finish_events_dropLast, finish_events, finish_canceled, List.length_append,
      List.length_singleton]
    rcases Nat.lt_or_eq_of_le hk with hlate | rfl
    · exact .inl hlate
    · refine .inr ⟨rfl, fun hcanceled => ?_⟩
      have hlate := hruns.emitted_of_canceled hcut hcanceled
      rw [hruns.emitted_eq] at hlate
      omega
  · intro r hrun
    obtain ⟨outcome, final, hruns, rfl⟩ := run?_eq_some_iff.mp hrun
    rw [finish_events_dropLast, finish_canceled]
    have hreports := hruns.reports_uncut hcut
    refine ⟨hreports, fun r' hrun' => (reports_iff_begins_events hrun').mp hreports,
      hruns.canceled_iff hcut.self, hruns.canceled_iff hcut, ?_, ?_⟩
    · intro span condition body st hreaches hlate
      obtain ⟨rfl, rfl⟩ := hreaches.canceled hcut hlate hruns
      exact ⟨rfl, finish_stopsIn_test ..⟩
    · intro hfree
      exact run?_eq_some_iff.mpr ⟨outcome, final, hruns.uncut hcut hfree, rfl⟩
  · intro span span' body binding handler st final hlet hbody
    refine exec_left ?_ rfl hbody rfl
    exact congrArg (Option.map Failure.stepLimit) hlet
  · intro h
    have hstart : s.LoopFree ∨ k < (State.initial store s).emitted := by
      rcases h with rfl | hfree
      · exact .inr Nat.one_pos
      · exact .inl hfree
    obtain ⟨outcome, final, hruns, hsteps⟩ := endsWithin_positions hcut s _ hstart
    refine ⟨_, run?_eq_some_iff.mpr ⟨outcome, final, hruns, rfl⟩, ?_⟩
    rw [finish_steps]
    simpa [State.initial, State.emit] using hsteps

end WhilePlus
