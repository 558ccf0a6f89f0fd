import WhilePlus.Proofs.Run.Refusal
import WhilePlus.Proofs.Run.Replay
import WhilePlus.Proofs.Semantics.Expression

namespace WhilePlus

/-- The limit has ended the execution. -/
def Outcome.Limited (outcome : Outcome) : Prop :=
  ∃ limit, outcome = .error (.failed (.stepLimit limit))

/-- The limit has ended the run. -/
def Result.Limited (r : Result) : Prop :=
  ∃ limit, r.failure = some (.stepLimit limit)

section Refusal

variable {runId : String} {limit : Option Nat} {task : Task} {st : State}

/-- Where nothing is canceled, only a limit refuses anything, and only to
    statements. -/
theorem refusal?_eq_some {failure : Failure}
    (h : Settings.refusal? { runId, limit } (task.count st) task = some failure) :
    ∃ L, limit = some L ∧ failure = .stepLimit L ∧ L < (task.count st).steps ∧
      (task.count st).steps = st.steps + 1 := by
  obtain ⟨s, L, rfl, hfailure, hlimit, hlt⟩ | ⟨_, _, _, _, _, hcanceled⟩ :=
    Settings.refusal?_eq_some_cases h
  · exact ⟨L, hlimit, hfailure, hlt, rfl⟩
  · cases hcanceled

private theorem refusal?_eq_none (h : ∀ L, limit = some L → (task.count st).steps ≤ L) :
    Settings.refusal? { runId, limit } (task.count st) task = none := by
  cases hrefusal : Settings.refusal? { runId, limit } (task.count st) task with
  | none => rfl
  | some failure =>
    obtain ⟨L, hlimit, _, hlt, _⟩ := refusal?_eq_some hrefusal
    have := h L hlimit
    omega

/-- What is let go on has not used up its steps. The count includes the step
    that a statement takes; the test of a loop takes none. -/
theorem steps_count_le {L : Nat} (hst : st.steps ≤ L)
    (h : Settings.refusal? { runId, limit := some L } (task.count st) task = none) :
    (task.count st).steps ≤ L := by
  cases task with
  | loop span condition body => exact hst
  | stmt s =>
    refine Nat.le_of_not_lt fun hlt => ?_
    simp [Settings.refusal?, Settings.exceeded?, hlt] at h

end Refusal

section Step

variable {runId : String} {task first : Task} {before mid st final : State} {stage : Stage}
  {outcome : Outcome} {next : Option Task}

private theorem Signal.OfExpr.not_limited {signal : Signal} (h : signal.OfExpr) :
    ¬ Outcome.Limited (.error signal) := by
  rintro ⟨limit, hlimit⟩
  cases hlimit
  cases h

/-- No task ends at the limit by itself. -/
theorem Started.not_limited (h : Started task st (.ended outcome) final) : ¬ outcome.Limited := by
  cases h with
  | missing | skip | assigned | printed | thrown | finished => rintro ⟨_, ⟨⟩⟩
  | unassigned hsignal | unprinted hsignal | unthrown hsignal =>
    exact (Expr.eval_signal hsignal).not_limited
  | undecided hsignal | untested hsignal => exact (Expr.test_signal hsignal).not_limited

/-- No task goes on after the limit: it passes the rest of a sequence, the next
    test of a loop and every handler. -/
theorem Resumed.not_limited {task' : Task} (h : Resumed runId task outcome st (some task') final) :
    ¬ outcome.Limited := by
  cases h with
  | second | caught | again => rintro ⟨_, ⟨⟩⟩

end Step

section Run

variable {runId : String} {limit limit' : Option Nat} {L : Nat} {task : Task} {st final : State}
  {outcome : Outcome}

/-- The limit ends an execution exactly when it takes one step too many. -/
theorem Runs.steps_limit (h : Runs { runId, limit := some L } task st outcome final)
    (hst : st.steps ≤ L) :
    outcome.Limited ∧ final.steps = L + 1 ∨ ¬ outcome.Limited ∧ final.steps ≤ L := by
  induction h with
  | refused hrefused =>
    obtain ⟨limit, hlimit, rfl, hlt, hsteps⟩ := refusal?_eq_some hrefused
    cases hlimit
    exact .inl ⟨⟨L, rfl⟩, by omega⟩
  | ended hlet hstart =>
    have hcount := steps_count_le hst hlet
    have hstarted := Task.started hstart
    exact .inr ⟨hstarted.not_limited, hstarted.steps_eq ▸ hcount⟩
  | replaced hlet hstart _ ih =>
    have hcount := steps_count_le hst hlet
    exact ih ((Task.started hstart).steps_eq ▸ hcount)
  | left hlet hstart _ hresume ih =>
    have hcount := steps_count_le hst hlet
    rw [(Task.resumed hstart hresume).state_eq]
    exact ih ((Task.started hstart).steps_eq ▸ hcount)
  | resumed hlet hstart _ hresume _ ihfirst ihnext =>
    have hcount := steps_count_le hst hlet
    have hresumed := Task.resumed hstart hresume
    obtain ⟨hlimited, _⟩ | ⟨_, hlast⟩ := ihfirst ((Task.started hstart).steps_eq ▸ hcount)
    · exact absurd hlimited hresumed.not_limited
    · exact ihnext (hresumed.steps_eq ▸ hlast)

/-- An execution that the limit does not end is the same under any limit that
    leaves it its steps. -/
theorem Runs.change_limit (h : Runs { runId, limit } task st outcome final)
    (hfree : ¬ outcome.Limited) (hroom : ∀ L', limit' = some L' → final.steps ≤ L') :
    Runs { runId, limit := limit' } task st outcome final := by
  have hlet : ∀ {task : Task} {st final : State} {outcome : Outcome},
      Runs { runId, limit } task st outcome final →
      (∀ L', limit' = some L' → final.steps ≤ L') →
      Settings.refusal? { runId, limit := limit' } (task.count st) task = none := by
    intro task st final outcome h hroom
    refine refusal?_eq_none fun L' hlimit => ?_
    exact Nat.le_trans h.effects_count.extends.steps (hroom L' hlimit)
  induction h with
  | refused hrefused =>
    obtain ⟨L, _, rfl, _, _⟩ := refusal?_eq_some hrefused
    exact absurd ⟨L, rfl⟩ hfree
  | ended hlet₀ hstart => exact .ended (hlet (.ended hlet₀ hstart) hroom) hstart
  | replaced hlet₀ hstart hnext ih =>
    exact .replaced (hlet (.replaced hlet₀ hstart hnext) hroom) hstart (ih hfree hroom)
  | left hlet₀ hstart hfirst hresume ih =>
    have hlet' := hlet (.left hlet₀ hstart hfirst hresume) hroom
    have hlast := (Task.resumed hstart hresume).state_eq
    subst hlast
    exact .left hlet' hstart (ih hfree hroom) hresume
  | resumed hlet₀ hstart hfirst hresume hnext ihfirst ihnext =>
    have hlet' := hlet (.resumed hlet₀ hstart hfirst hresume hnext) hroom
    have hresumed := Task.resumed hstart hresume
    refine .resumed hlet' hstart (ihfirst hresumed.not_limited ?_) hresume (ihnext hfree hroom)
    intro L' hlimit
    have hafter := hnext.effects.extends.steps
    have := hresumed.steps_eq
    have := hroom L' hlimit
    omega

/-- What the limit cuts off is the beginning of every execution with more steps.
    In a task that had waited, the one it waited for ended within the limit, so
    both executions resume from the same state. -/
theorem Runs.extends_limited (h : Runs { runId, limit := some L } task st outcome final)
    (hst : st.steps ≤ L) (hlimited : outcome.Limited) {outcome' : Outcome} {final' : State}
    (h' : Runs { runId, limit := limit' } task st outcome' final')
    (hmore : ∀ L', limit' = some L' → L ≤ L') : final.Extends final' := by
  have hlet : ∀ {task : Task} {st : State}, st.steps ≤ L →
      Settings.refusal? { runId, limit := some L } (task.count st) task = none →
      Settings.refusal? { runId, limit := limit' } (task.count st) task = none := by
    intro task st hst hlet
    have hcount := steps_count_le hst hlet
    exact refusal?_eq_none fun L' hlimit => Nat.le_trans hcount (hmore L' hlimit)
  induction h generalizing outcome' final' with
  | refused => exact h'.effects_count.extends
  | ended _ hstart => exact absurd hlimited (Task.started hstart).not_limited
  | replaced hlet₀ hstart _ ih =>
    have hmid := (Task.started hstart).steps_eq ▸ steps_count_le hst hlet₀
    exact ih hmid hlimited (h'.of_replaced (hlet hst hlet₀) hstart)
  | left hlet₀ hstart _ hresume ih =>
    have hmid := (Task.started hstart).steps_eq ▸ steps_count_le hst hlet₀
    obtain ⟨result, last', hfirst', hrest⟩ := h'.of_waiting (hlet hst hlet₀) hstart
    have hlast := ih hmid hlimited hfirst'
    rw [(Task.resumed hstart hresume).state_eq]
    refine hlast.trans ?_
    obtain ⟨_, hresume'⟩ | ⟨_, _, hresume', hnext'⟩ := hrest
    · exact (Task.resume_effects hstart hresume').extends
    · exact (Task.resume_effects hstart hresume').extends.trans hnext'.effects.extends
  | resumed hlet₀ hstart hfirst hresume _ _ ihnext =>
    have hmid := (Task.started hstart).steps_eq ▸ steps_count_le hst hlet₀
    have hresumed := Task.resumed hstart hresume
    obtain ⟨hcut, _⟩ | ⟨_, hlast⟩ := hfirst.steps_limit hmid
    · exact absurd hcut hresumed.not_limited
    have hroom : ∀ L', limit' = some L' → _ ≤ L' :=
      fun L' hlimit => Nat.le_trans hlast (hmore L' hlimit)
    obtain ⟨result, last', hfirst', hrest⟩ := h'.of_waiting (hlet hst hlet₀) hstart
    obtain ⟨rfl, rfl⟩ := (hfirst.change_limit hresumed.not_limited hroom).deterministic hfirst'
    obtain ⟨_, hresume'⟩ | ⟨_, _, hresume', hnext'⟩ := hrest
    · simp [hresume'] at hresume
    · simp only [hresume', Prod.mk.injEq, Option.some.injEq] at hresume
      obtain ⟨rfl, rfl⟩ := hresume
      exact ihnext (hresumed.steps_eq ▸ hlast) hlimited hnext'

/-- A bound on what a limited execution can still do: the steps it has left, and
    for each of them one test of a loop. -/
def Task.measure (L : Nat) (st : State) : Task → Nat
  | .stmt _ => 2 * (L + 1 - st.steps)
  | .loop .. => 2 * (L + 1 - st.steps) + 1

private theorem Started.measure_replaced {next : Task} {mid : State}
    (h : Started task (task.count st) (.replaced next) mid) (hmid : mid.steps ≤ L) :
    next.measure L mid < task.measure L st := by
  generalize hcount : task.count st = counted at h
  cases h <;> cases hcount <;> simp only [Task.measure, Task.count, State.step] at hmid ⊢ <;> omega

private theorem Started.measure_waiting {first : Task} {mid : State}
    (h : Started task (task.count st) (.waiting first) mid) (hmid : mid.steps ≤ L) :
    first.measure L mid < task.measure L st := by
  generalize hcount : task.count st = counted at h
  cases h <;> cases hcount <;>
    simp only [Task.measure, Task.count, State.step, State.test] at hmid ⊢ <;> omega

/-- What a task has waited for was a statement, which has taken a step, so there
    are more steps by then. -/
theorem Runs.steps_waiting {cfg : Settings} {first : Task} {before mid last : State}
    (h : Started task before (.waiting first) mid) (hfirst : Runs cfg first mid outcome last) :
    mid.steps < last.steps := by
  have hsteps := hfirst.effects_count.extends.steps
  cases h <;> exact hsteps

private theorem Resumed.measure_resumed {next : Task} {again : State} {last : State}
    (h : Resumed runId task outcome last (some next) again) (hlast : last.steps ≤ L)
    (hsteps : (task.count st).steps < last.steps) :
    next.measure L again < task.measure L st := by
  cases h with
  | second | caught | again =>
    simp only [Task.measure, Task.count, State.step, State.test, State.catchValue, State.emit,
      State.write, State.log] at hsteps ⊢
    omega

/-- A limited execution always ends. A statement takes a step, and a loop cannot
    test again before its body has taken one. -/
theorem exists_runs_limit (runId : String) (L : Nat) (task : Task) (st : State) (hst : st.steps ≤ L) :
    ∃ outcome final, Runs { runId, limit := some L } task st outcome final := by
  induction hmeasure : task.measure L st using Nat.strongRecOn generalizing task st with
  | ind _ ih =>
    subst hmeasure
    cases hlet : Settings.refusal? { runId, limit := some L } (task.count st) task with
    | some failure => exact ⟨_, _, .refused hlet⟩
    | none =>
      have hcount := steps_count_le hst hlet
      obtain ⟨⟨stage, mid⟩, hstart⟩ : ∃ result, task.start (task.count st) = result := ⟨_, rfl⟩
      have hstarted := Task.started hstart
      have hmid : mid.steps ≤ L := hstarted.steps_eq ▸ hcount
      cases stage with
      | ended outcome => exact ⟨_, _, .ended hlet hstart⟩
      | replaced next =>
        obtain ⟨outcome, final, hnext⟩ := ih _ (hstarted.measure_replaced hmid) next mid hmid rfl
        exact ⟨outcome, final, .replaced hlet hstart hnext⟩
      | waiting first =>
        obtain ⟨result, last, hfirst⟩ := ih _ (hstarted.measure_waiting hmid) first mid hmid rfl
        obtain ⟨⟨next, again⟩, hresume⟩ : ∃ answer, task.resume runId result last = answer := ⟨_, rfl⟩
        have hresumed := Task.resumed hstart hresume
        cases next with
        | none => exact ⟨_, _, .left hlet hstart hfirst hresume⟩
        | some next =>
          obtain ⟨hcut, _⟩ | ⟨_, hlast⟩ := hfirst.steps_limit hmid
          · exact absurd hcut hresumed.not_limited
          have hsteps := hfirst.steps_waiting hstarted
          have hless := hresumed.measure_resumed hlast (hstarted.steps_eq ▸ hsteps)
          obtain ⟨outcome, final, hnext⟩ := ih _ hless next again (hresumed.steps_eq ▸ hlast) rfl
          exact ⟨outcome, final, .resumed hlet hstart hfirst hresume hnext⟩

end Run

section Result

variable {cfg : Settings} {span : Span} {outcome : Outcome} {st : State}

private theorem finish_limited : (finish cfg span outcome st).Limited ↔ outcome.Limited := by
  simp only [Result.Limited, Outcome.Limited, finish_failure_eq_some_iff]

private theorem finish_exception_of_limited (h : outcome.Limited) :
    (finish cfg span outcome st).exception = none := by
  obtain ⟨limit, rfl⟩ := h
  rfl

/-- A longer execution gives a result that extends the shorter one, its last
    event aside. -/
theorem State.Extends.finish {final final' : State} (h : final.Extends final') {cfg' : Settings}
    {outcome' : Outcome} :
    (WhilePlus.finish cfg span outcome final).events.dropLast <+:
        (WhilePlus.finish cfg' span outcome' final').events ∧
      (WhilePlus.finish cfg span outcome final).lines <+:
        (WhilePlus.finish cfg' span outcome' final').lines := by
  constructor
  · rw [finish_events, finish_events, List.dropLast_concat]
    exact (h.journal.filterMap Entry.event?).trans (List.prefix_append _ _)
  · rw [finish_lines, finish_lines]
    exact h.lines

end Result

/-- The step limit only truncates. Under any limit, and never canceled, a run
    ends, with at most one step more than the limit, and the limit ends it
    exactly when it takes that step; no value escapes then. A run that it does
    not end is the same under every limit that leaves it its steps, and without
    one. A run that it does end is, but for its last event, the beginning of the
    runs with more steps. A handler is never entered because of the limit: where
    it ends a guarded body, it ends the whole in that state. -/
theorem run?_limit_truncates (runId : String) (store : Store) (s : Stmt) (L : Nat) :
    ∃ r, run? { runId, limit := some L } store s = some r ∧
      r.steps ≤ L + 1 ∧ (r.Limited ↔ r.steps = L + 1) ∧ (r.Limited → r.exception = none) ∧
      (¬ r.Limited →
        (∀ L', r.steps ≤ L' → run? { runId, limit := some L' } store s = some r) ∧
        run? { runId } store s = some r) ∧
      (r.Limited →
        (∀ L', L < L' → ∃ r', run? { runId, limit := some L' } store s = some r' ∧
          r.events.dropLast <+: r'.events ∧ r.lines <+: r'.lines) ∧
        ∀ r', run? { runId } store s = some r' →
          r.events.dropLast <+: r'.events ∧ r.lines <+: r'.lines) ∧
      ∀ (span : Span) (body : Stmt) (binding : String) (handler : Stmt) (st final : State) (n : Nat),
        Settings.exceeded? { runId, limit := some L } st.step = none →
        exec { runId, limit := some L } (.stmt body) st.step =
          some (.error (.failed (.stepLimit n)), final) →
        exec { runId, limit := some L } (.stmt (.attempt span body binding handler)) st =
          some (.error (.failed (.stepLimit n)), final) := by
  obtain ⟨outcome, final, hruns⟩ := exists_runs_limit runId L (.stmt s) (.initial store s) (Nat.zero_le L)
  have hsteps := hruns.steps_limit (Nat.zero_le L)
  refine ⟨_, run?_eq_some_iff.mpr ⟨outcome, final, hruns, rfl⟩, ?_⟩
  rw [finish_steps, finish_limited]
  refine ⟨?_, ?_, finish_exception_of_limited, ?_, ?_, ?_⟩
  · omega
  · constructor
    · intro hlimited
      exact (hsteps.resolve_right fun h => h.1 hlimited).2
    · intro hfinal
      refine (hsteps.resolve_right ?_).1
      omega
  · intro hfree
    constructor
    · intro L' hroom
      refine run?_eq_some_iff.mpr ⟨outcome, final, hruns.change_limit hfree ?_, rfl⟩
      rintro _ ⟨⟩
      exact hroom
    · refine run?_eq_some_iff.mpr ⟨outcome, final, hruns.change_limit hfree ?_, rfl⟩
      rintro _ ⟨⟩
  · intro hlimited
    constructor
    · intro L' hmore
      obtain ⟨outcome', final', hruns'⟩ :=
        exists_runs_limit runId L' (.stmt s) (.initial store s) (Nat.zero_le L')
      refine ⟨_, run?_eq_some_iff.mpr ⟨outcome', final', hruns', rfl⟩, State.Extends.finish ?_⟩
      exact hruns.extends_limited (Nat.zero_le L) hlimited hruns' (by rintro _ ⟨⟩; omega)
    · intro r' hrun'
      obtain ⟨outcome', final', hruns', rfl⟩ := run?_eq_some_iff.mp hrun'
      refine State.Extends.finish ?_
      exact hruns.extends_limited (Nat.zero_le L) hlimited hruns' (by rintro _ ⟨⟩)
  · intro span body binding handler st last n hlet hbody
    refine exec_left ?_ rfl hbody rfl
    exact congrArg (Option.map Failure.stepLimit) hlet

end WhilePlus
