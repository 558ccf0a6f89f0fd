import WhilePlus.Proofs.Language.WellFormed
import WhilePlus.Proofs.Run.Derivation
import WhilePlus.Proofs.Run.Refusal
import WhilePlus.Proofs.Run.Stage
import WhilePlus.Proofs.Semantics.Expression

namespace WhilePlus

namespace Store

/-- Every bound name holds a value. -/
def Full (s : Store) : Prop :=
  ∀ b ∈ s.bindings, ∃ v : Value, b.2 = some v

/-- The store that binds nothing is full. -/
theorem full_empty : empty.Full := by
  intro b hb
  cases hb

/-- A full store stays full if a name is bound to a value. -/
theorem Full.set {s : Store} (h : s.Full) (name : String) (v : Value) :
    (s.set name (some v)).Full := by
  intro b hb
  rcases mem_insertBinding hb with rfl | hb
  · exact ⟨v, rfl⟩
  · exact h b hb

private theorem Full.get? {s : Store} (h : s.Full) {name : String} {cell : Cell}
    (hget : s.get? name = some cell) : ∃ v : Value, cell = some v := by
  obtain ⟨before, after, hbindings, _⟩ := List.lookup_eq_some_iff.mp hget
  exact h (name, cell) (by simp [hbindings])

end Store

/-- A signal that raises a value. -/
def Signal.RaisesValue (signal : Signal) : Prop :=
  ∃ v : Value, signal = .raised (some v)

/-- A whole expression in a full store gives a value or raises one. Were a child
    missing or a name bound to nothing, there could be neither. -/
theorem Evaluates.safe {store : Store} {e : Expr} {result : Except Signal Cell}
    (h : Evaluates store e result) (he : e.WellFormed) (hfull : store.Full) :
    (∃ v : Value, result = .ok (some v)) ∨ ∃ signal, result = .error signal ∧ signal.RaisesValue := by
  induction h with
  | missing => exact he.elim
  | bound hget =>
    obtain ⟨v, rfl⟩ := hfull.get? hget
    exact .inl ⟨v, rfl⟩
  | int span n => exact .inl ⟨.int n, rfl⟩
  | bool span b => exact .inl ⟨.bool b, rfl⟩
  | unbound | mismatch => exact .inr ⟨_, rfl, _, rfl⟩
  | left _ ih => exact ih he.2.1
  | right _ _ _ ih => exact ih he.2.2
  | operated _ _ hop =>
    cases hop with
    | plus | minus | times | divide | gt | ge | lt | le => exact .inl ⟨_, rfl⟩
    | divideByZero => exact .inr ⟨_, rfl, _, rfl⟩
    | unknown name =>
      obtain ⟨op, _, hknown⟩ := List.mem_map.mp he.1
      cases hknown

section Expression

variable {store : Store} {e : Expr} {signal : Signal}

private theorem Expr.WellFormed.eval_value (he : e.WellFormed) (hfull : store.Full) {cell : Cell}
    (h : e.eval store = .ok cell) : ∃ v : Value, cell = some v := by
  obtain ⟨v, hv⟩ | ⟨_, hsignal, _⟩ := (evaluates_iff.mpr h).safe he hfull
  · cases hv
    exact ⟨v, rfl⟩
  · cases hsignal

private theorem Expr.WellFormed.eval_raises (he : e.WellFormed) (hfull : store.Full)
    (h : e.eval store = .error signal) : signal.RaisesValue := by
  obtain ⟨_, hv⟩ | ⟨_, hsignal, hraises⟩ := (evaluates_iff.mpr h).safe he hfull
  · cases hv
  · cases hsignal
    exact hraises

private theorem Expr.WellFormed.test_raises (he : e.WellFormed) (hfull : store.Full)
    (h : e.test store = .error signal) : signal.RaisesValue := by
  cases tests_iff.mpr h with
  | mismatch => exact ⟨_, rfl⟩
  | signal hsignal => exact he.eval_raises hfull hsignal.eval_eq

end Expression

/-- A task whose trees are whole. -/
def Task.WellFormed : Task → Prop
  | .stmt s => s.WellFormed
  | .loop _ condition body => condition.WellFormed ∧ body.WellFormed

/-- How the execution of whole trees may end: as it should, with a raised value,
    or where the host has refused some task. -/
inductive Outcome.Expected (cfg : Settings) : Outcome → Prop where
  | done : Expected cfg (.ok ())
  | raised {signal : Signal} (hraises : signal.RaisesValue) : Expected cfg (.error signal)
  | refused {st : State} {task : Task} {failure : Failure}
      (hrefused : cfg.refusal? st task = some failure) : Expected cfg (.error (.failed failure))

/-- How the beginning of a task with whole trees may go on. -/
def Stage.Expected (cfg : Settings) : Stage → Prop
  | .ended outcome => outcome.Expected cfg
  | .replaced next => next.WellFormed
  | .waiting first => first.WellFormed

/-- Beginning a whole task on a full store leads to whole tasks, and leaves the
    store full. -/
theorem Task.start_safe (cfg : Settings) {task : Task} {st mid : State} {stage : Stage}
    (h : task.start (task.count st) = (stage, mid)) (htask : task.WellFormed)
    (hfull : st.store.Full) : stage.Expected cfg ∧ mid.store.Full := by
  rw [← Task.store_count task st] at hfull
  generalize task.count st = st at h hfull
  cases Task.started h with
  | missing => exact htask.elim
  | skip => exact ⟨.done, hfull⟩
  | assigned hvalue =>
    obtain ⟨v, rfl⟩ := htask.2.eval_value hfull hvalue
    exact ⟨.done, hfull.set _ v⟩
  | unassigned hsignal => exact ⟨.raised (htask.2.eval_raises hfull hsignal), hfull⟩
  | printed => exact ⟨.done, hfull⟩
  | unprinted hsignal | unthrown hsignal =>
    exact ⟨.raised (Expr.WellFormed.eval_raises htask hfull hsignal), hfull⟩
  | thrown hvalue =>
    obtain ⟨v, rfl⟩ := Expr.WellFormed.eval_value htask hfull hvalue
    exact ⟨.raised ⟨v, rfl⟩, hfull⟩
  | yes => exact ⟨htask.2.1, hfull⟩
  | no => exact ⟨htask.2.2, hfull⟩
  | undecided htest | untested htest => exact ⟨.raised (htask.1.test_raises hfull htest), hfull⟩
  | loop => exact ⟨htask, hfull⟩
  | first | attempted => exact ⟨htask.1, hfull⟩
  | entered => exact ⟨htask.2, hfull⟩
  | finished => exact ⟨.done, hfull⟩

/-- A host failure is never caught, so only values are ever bound by a handler.
    What goes on after a task that was waited for is well-formed again, on a
    full store. -/
theorem Task.resume_safe {cfg : Settings} {task first : Task} {before mid st final : State}
    {outcome : Outcome} {next : Option Task} (hstart : task.start before = (.waiting first, mid))
    (h : task.resume cfg.runId outcome st = (next, final)) (htask : task.WellFormed)
    (houtcome : outcome.Expected cfg) (hfull : st.store.Full) :
    (∀ task ∈ next, task.WellFormed) ∧ final.store.Full := by
  cases Task.resumed hstart h with
  | second => exact ⟨by rintro _ ⟨⟩; exact htask.2, hfull⟩
  | again => exact ⟨by rintro _ ⟨⟩; exact htask, hfull⟩
  | skipped | unraised | uncaught | aborted => exact ⟨by rintro _ ⟨⟩, hfull⟩
  | caught value =>
    refine ⟨by rintro _ ⟨⟩; exact htask.2.2, ?_⟩
    cases houtcome with
    | raised hraises =>
      obtain ⟨v, hv⟩ := hraises
      cases hv
      exact hfull.set _ v

/-- The execution of a whole task on a full store ends as expected, on a full
    store. -/
theorem Runs.safe {cfg : Settings} {task : Task} {st final : State} {outcome : Outcome}
    (h : Runs cfg task st outcome final) (htask : task.WellFormed) (hfull : st.store.Full) :
    outcome.Expected cfg ∧ final.store.Full := by
  induction h with
  | refused hrefused =>
    rw [Task.store_count]
    exact ⟨.refused hrefused, hfull⟩
  | ended _ hstart => exact Task.start_safe cfg hstart htask hfull
  | replaced _ hstart _ ih =>
    obtain ⟨hnext, hmid⟩ := Task.start_safe cfg hstart htask hfull
    exact ih hnext hmid
  | left _ hstart _ hresume ih =>
    obtain ⟨hfirst, hmid⟩ := Task.start_safe cfg hstart htask hfull
    obtain ⟨houtcome, hlast⟩ := ih hfirst hmid
    exact ⟨houtcome, (Task.resume_safe hstart hresume htask houtcome hlast).2⟩
  | resumed _ hstart _ hresume _ ihfirst ihnext =>
    obtain ⟨hfirst, hmid⟩ := Task.start_safe cfg hstart htask hfull
    obtain ⟨houtcome, hlast⟩ := ihfirst hfirst hmid
    obtain ⟨hnext, hagain⟩ := Task.resume_safe hstart hresume htask houtcome hlast
    exact ihnext (hnext _ rfl) hagain

/-- A whole task on a full store begins only such tasks. This is the step that
    carries the invariant through a run, ended or not. -/
theorem Begins.safe {cfg : Settings} {before after : Task × State} (h : Begins cfg before after)
    (hbefore : before.1.WellFormed ∧ before.2.store.Full) :
    after.1.WellFormed ∧ after.2.store.Full := by
  obtain ⟨htask, hfull⟩ := hbefore
  cases h with
  | replaced _ hstart => exact Task.start_safe cfg hstart htask hfull
  | waiting _ hstart => exact Task.start_safe cfg hstart htask hfull
  | resumed _ hstart hfirst hresume =>
    obtain ⟨htodo, hmid⟩ := Task.start_safe cfg hstart htask hfull
    obtain ⟨houtcome, hlast⟩ := (exec_eq_some_iff.mp hfirst).safe htodo hmid
    obtain ⟨hnext, hagain⟩ := Task.resume_safe hstart hresume htask houtcome hlast
    exact ⟨hnext _ rfl, hagain⟩

private theorem Reaches.safe {cfg : Settings} {before after : Task × State} (h : Reaches cfg before after)
    (hbefore : before.1.WellFormed ∧ before.2.store.Full) :
    after.1.WellFormed ∧ after.2.store.Full := by
  induction h with
  | refl => exact hbefore
  | tail _ hbegins ih => exact hbegins.safe ih

/-- A run of a whole statement from a full store passes through full stores
    only, also when it never ends. -/
theorem Visits.full {cfg : Settings} {store : Store} {s : Stmt} {visited : State}
    (h : Visits cfg store s visited) (hs : s.WellFormed) (hfull : store.Full) :
    visited.store.Full := by
  obtain ⟨task, st, hreaches, hvisited⟩ := h
  obtain ⟨htask, hst⟩ := hreaches.safe ⟨hs, hfull⟩
  rcases hvisited with rfl | ⟨outcome, hexec⟩
  · exact hst
  · exact ((exec_eq_some_iff.mp hexec).safe htask hst).2

section Result

variable {cfg : Settings} {store : Store} {s : Stmt} {r : Result}

/-- A run of a whole tree from a full store fails only for what the settings
    say. An unknown operator or a missing node would fail otherwise. -/
theorem run?_failure_ofSettings (h : run? cfg store s = some r) (hs : s.WellFormed)
    (hfull : store.Full) {failure : Failure} (hfailed : r.failure = some failure) :
    failure.OfSettings cfg := by
  obtain ⟨outcome, final, hruns, rfl⟩ := run?_eq_some_iff.mp h
  obtain rfl := finish_failure_eq_some_iff.mp hfailed
  cases (hruns.safe hs hfull).1 with
  | raised hraises =>
    obtain ⟨_, hv⟩ := hraises
    cases hv
  | refused hrefused => exact Settings.refusal?_ofSettings hrefused

/-- A run of a whole tree from a full store ends with a full store, however it
    ends. -/
theorem run?_store_full (h : run? cfg store s = some r) (hs : s.WellFormed) (hfull : store.Full) :
    r.store.Full := by
  obtain ⟨outcome, final, hruns, rfl⟩ := run?_eq_some_iff.mp h
  rw [finish_store]
  exact (hruns.safe hs hfull).2

/-- The exception of a run tells whether a raised value has escaped. It could
    not if an empty cell was raised, but no whole tree raises one. -/
theorem run?_exception_isSome_iff (h : run? cfg store s = some r) (hs : s.WellFormed)
    (hfull : store.Full) :
    r.exception.isSome ↔ ∃ value final,
      exec cfg (.stmt s) (.initial store s) = some (.error (.raised value), final) := by
  obtain ⟨outcome, final, hruns, rfl⟩ := run?_eq_some_iff.mp h
  rw [Option.isSome_iff_exists]
  simp only [finish_exception_eq_some_iff]
  constructor
  · rintro ⟨v, rfl⟩
    exact ⟨some v, final, hruns.exec_eq⟩
  · rintro ⟨value, final', hexec⟩
    obtain ⟨rfl, rfl⟩ := hruns.deterministic (exec_eq_some_iff.mp hexec)
    cases (hruns.safe hs hfull).1 with
    | raised hraises =>
      obtain ⟨v, hv⟩ := hraises
      exact ⟨v, congrArg _ hv⟩

end Result

end WhilePlus
