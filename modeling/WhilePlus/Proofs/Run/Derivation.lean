import Mathlib.Logic.Relation
import WhilePlus.Run.Execute

namespace WhilePlus

/-- A finished execution of a task under some settings: the state it began in,
    its outcome and the state it ended in. -/
inductive Runs (cfg : Settings) : Task → State → Outcome → State → Prop where
  | refused {task : Task} {st : State} {failure : Failure}
      (hrefused : cfg.refusal? (task.count st) task = some failure) :
      Runs cfg task st (.error (.failed failure)) (task.count st)
  | ended {task : Task} {st final : State} {outcome : Outcome}
      (hlet : cfg.refusal? (task.count st) task = none)
      (hstart : task.start (task.count st) = (.ended outcome, final)) :
      Runs cfg task st outcome final
  | replaced {task next : Task} {st mid final : State} {outcome : Outcome}
      (hlet : cfg.refusal? (task.count st) task = none)
      (hstart : task.start (task.count st) = (.replaced next, mid))
      (hnext : Runs cfg next mid outcome final) :
      Runs cfg task st outcome final
  | left {task first : Task} {st mid last final : State} {outcome : Outcome}
      (hlet : cfg.refusal? (task.count st) task = none)
      (hstart : task.start (task.count st) = (.waiting first, mid))
      (hfirst : Runs cfg first mid outcome last)
      (hresume : task.resume cfg.runId outcome last = (none, final)) :
      Runs cfg task st outcome final
  | resumed {task first next : Task} {st mid last again final : State} {result outcome : Outcome}
      (hlet : cfg.refusal? (task.count st) task = none)
      (hstart : task.start (task.count st) = (.waiting first, mid))
      (hfirst : Runs cfg first mid result last)
      (hresume : task.resume cfg.runId result last = (some next, again))
      (hnext : Runs cfg next again outcome final) :
      Runs cfg task st outcome final

section Equations

variable {cfg : Settings} {task next first : Task} {st mid last again final : State}
  {outcome : Outcome} {failure : Failure}

private theorem exec_refused (hrefused : cfg.refusal? (task.count st) task = some failure) :
    exec cfg task st = some (.error (.failed failure), task.count st) := by
  rw [exec, execWith]
  simp only [hrefused]

private theorem exec_ended (hlet : cfg.refusal? (task.count st) task = none)
    (hstart : task.start (task.count st) = (.ended outcome, final)) :
    exec cfg task st = some (outcome, final) := by
  rw [exec, execWith]
  simp only [hlet, hstart]

/-- A task that the host lets go on, and that another takes the place of, comes
    to what that one does. -/
theorem exec_replaced (hlet : cfg.refusal? (task.count st) task = none)
    (hstart : task.start (task.count st) = (.replaced next, mid)) :
    exec cfg task st = exec cfg next mid := by
  rw [exec, execWith]
  simp only [hlet, hstart, Function.uncurry_apply_pair]

/-- A task that has waited for another and is done then ends as it is resumed.
    Both have to end. -/
theorem exec_left (hlet : cfg.refusal? (task.count st) task = none)
    (hstart : task.start (task.count st) = (.waiting first, mid))
    (hfirst : exec cfg first mid = some (outcome, last))
    (hresume : task.resume cfg.runId outcome last = (none, final)) :
    exec cfg task st = some (outcome, final) := by
  rw [exec, execWith]
  simp only [hlet, hstart, hfirst, bind, Option.bind, hresume, Function.uncurry_apply_pair]

/-- A task that has waited for another may go on as a third, and then comes to
    what that one does. -/
theorem exec_resumed (hlet : cfg.refusal? (task.count st) task = none)
    (hstart : task.start (task.count st) = (.waiting first, mid))
    (hfirst : exec cfg first mid = some (outcome, last))
    (hresume : task.resume cfg.runId outcome last = (some next, again)) :
    exec cfg task st = exec cfg next again := by
  rw [exec, execWith]
  simp only [hlet, hstart, hfirst, bind, Option.bind, hresume, Function.uncurry_apply_pair]

/-- What has a derivation is the result of execution. -/
theorem Runs.exec_eq (h : Runs cfg task st outcome final) :
    exec cfg task st = some (outcome, final) := by
  induction h with
  | refused hrefused => exact exec_refused hrefused
  | ended hlet hstart => exact exec_ended hlet hstart
  | replaced hlet hstart _ ih => rw [exec_replaced hlet hstart, ih]
  | left hlet hstart _ hresume ih => exact exec_left hlet hstart ih hresume
  | resumed hlet hstart _ hresume _ ihfirst ihnext =>
    rw [exec_resumed hlet hstart ihfirst hresume, ihnext]

end Equations

/-- Every result of `exec` has a derivation. The fixed point is approximated
    from below, so it is enough to derive what one unfolding returns from what
    the calls in it return. -/
theorem runs_of_exec (cfg : Settings) (task : Task) (st : State) (result : Outcome × State)
    (h : exec cfg task st = some result) : Runs cfg task st result.1 result.2 := by
  refine exec.partial_correctness cfg
    (fun task st result => Runs cfg task st result.1 result.2) ?_ task st result h
  intro recur ih task st result h
  unfold execWith at h
  dsimp only at h
  split at h
  · next hrefused =>
    cases h
    exact .refused hrefused
  · next hlet =>
    split at h
    · next hstart =>
      cases h
      exact .ended hlet hstart
    · next hstart => exact .replaced hlet hstart (ih _ _ _ h)
    · next first mid hstart =>
      obtain ⟨⟨outcome, last⟩, hfirst, h⟩ := Option.bind_eq_some_iff.mp h
      have hfirst := ih _ _ _ hfirst
      dsimp only at h hfirst
      split at h
      · next hresume => exact .resumed hlet hstart hfirst hresume (ih _ _ _ h)
      · next hresume =>
        cases h
        exact .left hlet hstart hfirst hresume

/-- Execution has a result exactly if there is a derivation of it. A task
    without a derivation never ends. -/
theorem exec_eq_some_iff {cfg : Settings} {task : Task} {st final : State} {outcome : Outcome} :
    exec cfg task st = some (outcome, final) ↔ Runs cfg task st outcome final :=
  ⟨runs_of_exec cfg task st (outcome, final), Runs.exec_eq⟩

section Inversion

variable {cfg : Settings} {task next first : Task} {st mid final : State} {outcome : Outcome}

/-- A task ends in one way only: the outcome and the final state are functions
    of the settings, the task and the state that it starts in. -/
theorem Runs.deterministic {outcome' : Outcome} {final' : State}
    (h : Runs cfg task st outcome final) (h' : Runs cfg task st outcome' final') :
    outcome = outcome' ∧ final = final' := by
  have heq := h.exec_eq.symm.trans h'.exec_eq
  simpa only [Option.some.injEq, Prod.mk.injEq] using heq

/-- If a task ends whose place another takes, then that one ends in the same
    way. -/
theorem Runs.of_replaced (h : Runs cfg task st outcome final)
    (hlet : cfg.refusal? (task.count st) task = none)
    (hstart : task.start (task.count st) = (.replaced next, mid)) :
    Runs cfg next mid outcome final := by
  rw [← exec_eq_some_iff, ← exec_replaced hlet hstart]
  exact h.exec_eq

/-- An execution of a task that waits contains one of the task it waits for, and
    ends with it or resumes from where it ended. -/
theorem Runs.of_waiting (h : Runs cfg task st outcome final)
    (hlet : cfg.refusal? (task.count st) task = none)
    (hstart : task.start (task.count st) = (.waiting first, mid)) :
    ∃ result last, Runs cfg first mid result last ∧
      (result = outcome ∧ task.resume cfg.runId result last = (none, final) ∨
        ∃ next again, task.resume cfg.runId result last = (some next, again) ∧
          Runs cfg next again outcome final) := by
  cases h with
  | refused hrefused => simp [hlet] at hrefused
  | ended _ hstart' => simp [hstart] at hstart'
  | replaced _ hstart' => simp [hstart] at hstart'
  | left _ hstart' hfirst hresume =>
    simp only [hstart, Prod.mk.injEq, Stage.waiting.injEq] at hstart'
    obtain ⟨rfl, rfl⟩ := hstart'
    exact ⟨_, _, hfirst, .inl ⟨rfl, hresume⟩⟩
  | resumed _ hstart' hfirst hresume hnext =>
    simp only [hstart, Prod.mk.injEq, Stage.waiting.injEq] at hstart'
    obtain ⟨rfl, rfl⟩ := hstart'
    exact ⟨_, _, hfirst, .inr ⟨_, _, hresume, hnext⟩⟩

end Inversion

/-- The state in which a run begins its statement. -/
def State.initial (store : Store) (s : Stmt) : State :=
  State.emit { store } (.started s.span)

/-- A run has a result exactly if its statement ends, and then it is what
    `finish` makes of the end. -/
theorem run?_eq_some_iff {cfg : Settings} {store : Store} {s : Stmt} {r : Result} :
    run? cfg store s = some r ↔
      ∃ outcome final, Runs cfg (.stmt s) (.initial store s) outcome final ∧
        finish cfg s.span outcome final = r := by
  unfold run?
  rw [Option.map_eq_some_iff]
  constructor
  · rintro ⟨⟨outcome, final⟩, hexec, hfinish⟩
    exact ⟨outcome, final, exec_eq_some_iff.mp hexec, hfinish⟩
  · rintro ⟨outcome, final, hruns, hfinish⟩
    exact ⟨(outcome, final), hruns.exec_eq, hfinish⟩

section Finish

variable {cfg : Settings} {span : Span} {outcome : Outcome} {st : State}

/-- The end of a run leaves the store alone. -/
@[simp] theorem finish_store : (finish cfg span outcome st).store = st.store := by
  rcases outcome with (_ | _) | _ <;> rfl

/-- The end of a run prints nothing. -/
@[simp] theorem finish_lines : (finish cfg span outcome st).lines = st.lines.toList := by
  rcases outcome with (_ | _) | _ <;> rfl

/-- The end of a run is no step. -/
@[simp] theorem finish_steps : (finish cfg span outcome st).steps = st.steps := by
  rcases outcome with (_ | _) | _ <;> rfl

/-- A run has a failure exactly if the host ended it. -/
@[simp] theorem finish_failure_eq_some_iff {failure : Failure} :
    (finish cfg span outcome st).failure = some failure ↔ outcome = .error (.failed failure) := by
  rcases outcome with (_ | _) | _ <;> simp [finish]

/-- A value escapes a run exactly if it was raised and nothing caught it. -/
@[simp] theorem finish_exception_eq_some_iff {v : Value} :
    (finish cfg span outcome st).exception = some v ↔ outcome = .error (.raised (some v)) := by
  rcases outcome with (_ | _) | _ <;> simp [finish]

end Finish

/-- One task, begun in a state, has another begun in a later state: as the one
    that takes its place, as the one that it waits for, or as the one that takes
    over after that has ended. -/
inductive Begins (cfg : Settings) : Task × State → Task × State → Prop where
  | replaced {task next : Task} {st mid : State}
      (hlet : cfg.refusal? (task.count st) task = none)
      (hstart : task.start (task.count st) = (.replaced next, mid)) :
      Begins cfg (task, st) (next, mid)
  | waiting {task first : Task} {st mid : State}
      (hlet : cfg.refusal? (task.count st) task = none)
      (hstart : task.start (task.count st) = (.waiting first, mid)) :
      Begins cfg (task, st) (first, mid)
  | resumed {task first next : Task} {st mid last again : State} {result : Outcome}
      (hlet : cfg.refusal? (task.count st) task = none)
      (hstart : task.start (task.count st) = (.waiting first, mid))
      (hfirst : exec cfg first mid = some (result, last))
      (hresume : task.resume cfg.runId result last = (some next, again)) :
      Begins cfg (task, st) (next, again)

/-- Any number of tasks, each begun by the one before. -/
abbrev Reaches (cfg : Settings) : Task × State → Task × State → Prop :=
  Relation.ReflTransGen (Begins cfg)

/-- A run passes through a state: some task that it reaches begins or ends
    there. -/
def Visits (cfg : Settings) (store : Store) (s : Stmt) (visited : State) : Prop :=
  ∃ task st, Reaches cfg (.stmt s, .initial store s) (task, st) ∧
    (visited = st ∨ ∃ outcome, exec cfg task st = some (outcome, visited))

end WhilePlus
