import WhilePlus.Proofs.Run.Derivation
import WhilePlus.Proofs.Run.Stage
import WhilePlus.Proofs.Semantics.Expression

namespace WhilePlus

/-- What a statement can change. -/
structure Memory where
  store : Store
  log : List String

namespace Memory

/-- Binds a name. -/
def write (m : Memory) (name : String) (value : Cell) : Memory :=
  { m with store := m.store.set name value }

/-- Adds a line to the log. -/
def append (m : Memory) (line : String) : Memory :=
  { m with log := m.log ++ [line] }

end Memory

/-- How a statement ends, and what it has changed by then. What was done before
    a raised value or a failure of the host stays done; a raised value is bound
    before its handler runs, and a failure passes everything. -/
inductive BigStep : Stmt → Memory → Outcome → Memory → Prop where
  | missing {m : Memory} : BigStep .missing m (.ok ()) m
  | skip {m : Memory} {span : Span} : BigStep (.skip span) m (.ok ()) m
  | assign {m : Memory} {span : Span} {name : String} {e : Expr} {value : Cell}
      (hvalue : Evaluates m.store e (.ok value)) :
      BigStep (.assign span name e) m (.ok ()) (m.write name value)
  | assignSignal {m : Memory} {span : Span} {name : String} {e : Expr} {signal : Signal}
      (hsignal : Evaluates m.store e (.error signal)) :
      BigStep (.assign span name e) m (.error signal) m
  | print {m : Memory} {span : Span} {lead : String} {e : Expr} {value : Cell}
      (hvalue : Evaluates m.store e (.ok value)) :
      BigStep (.print span lead e) m (.ok ()) (m.append (lead ++ value.display))
  | printSignal {m : Memory} {span : Span} {lead : String} {e : Expr} {signal : Signal}
      (hsignal : Evaluates m.store e (.error signal)) :
      BigStep (.print span lead e) m (.error signal) m
  | throw {m : Memory} {span : Span} {e : Expr} {value : Cell}
      (hvalue : Evaluates m.store e (.ok value)) :
      BigStep (.throw span e) m (.error (.raised value)) m
  | throwSignal {m : Memory} {span : Span} {e : Expr} {signal : Signal}
      (hsignal : Evaluates m.store e (.error signal)) :
      BigStep (.throw span e) m (.error signal) m
  | branchTrue {m m' : Memory} {span : Span} {condition : Expr} {yes no : Stmt} {outcome : Outcome}
      (htest : Tests m.store condition (.ok true)) (hyes : BigStep yes m outcome m') :
      BigStep (.branch span condition yes no) m outcome m'
  | branchFalse {m m' : Memory} {span : Span} {condition : Expr} {yes no : Stmt} {outcome : Outcome}
      (htest : Tests m.store condition (.ok false)) (hno : BigStep no m outcome m') :
      BigStep (.branch span condition yes no) m outcome m'
  | branchSignal {m : Memory} {span : Span} {condition : Expr} {yes no : Stmt} {signal : Signal}
      (htest : Tests m.store condition (.error signal)) :
      BigStep (.branch span condition yes no) m (.error signal) m
  | loopFalse {m : Memory} {span : Span} {condition : Expr} {body : Stmt}
      (htest : Tests m.store condition (.ok false)) :
      BigStep (.loop span condition body) m (.ok ()) m
  | loopTrue {m m₁ m' : Memory} {span : Span} {condition : Expr} {body : Stmt} {outcome : Outcome}
      (htest : Tests m.store condition (.ok true)) (hbody : BigStep body m (.ok ()) m₁)
      (hloop : BigStep (.loop span condition body) m₁ outcome m') :
      BigStep (.loop span condition body) m outcome m'
  | loopAbort {m m' : Memory} {span : Span} {condition : Expr} {body : Stmt} {signal : Signal}
      (htest : Tests m.store condition (.ok true)) (hbody : BigStep body m (.error signal) m') :
      BigStep (.loop span condition body) m (.error signal) m'
  | loopSignal {m : Memory} {span : Span} {condition : Expr} {body : Stmt} {signal : Signal}
      (htest : Tests m.store condition (.error signal)) :
      BigStep (.loop span condition body) m (.error signal) m
  | seq {m m₁ m' : Memory} {span : Span} {first second : Stmt} {outcome : Outcome}
      (hfirst : BigStep first m (.ok ()) m₁) (hsecond : BigStep second m₁ outcome m') :
      BigStep (.seq span first second) m outcome m'
  | seqAbort {m m' : Memory} {span : Span} {first second : Stmt} {signal : Signal}
      (hfirst : BigStep first m (.error signal) m') :
      BigStep (.seq span first second) m (.error signal) m'
  | attempt {m m' : Memory} {span : Span} {body handler : Stmt} {binding : String}
      (hbody : BigStep body m (.ok ()) m') :
      BigStep (.attempt span body binding handler) m (.ok ()) m'
  | attemptCaught {m m₁ m' : Memory} {span : Span} {body handler : Stmt} {binding : String}
      {value : Cell} {outcome : Outcome} (hbody : BigStep body m (.error (.raised value)) m₁)
      (hhandler : BigStep handler (m₁.write binding value) outcome m') :
      BigStep (.attempt span body binding handler) m outcome m'
  | attemptFailed {m m' : Memory} {span : Span} {body handler : Stmt} {binding : String}
      {failure : Failure} (hbody : BigStep body m (.error (.failed failure)) m') :
      BigStep (.attempt span body binding handler) m (.error (.failed failure)) m'

/-- The memory in a state: what it has beyond the counters and the journal. -/
def State.memory (st : State) : Memory :=
  ⟨st.store, st.lines.toList⟩

/-- Counting a task is not seen in the memory. -/
@[simp] theorem State.memory_count (task : Task) (st : State) :
    (task.count st).memory = st.memory := by
  cases task <;> rfl

/-- An assignment writes to the memory and prints nothing. -/
@[simp] theorem State.memory_assign (st : State) (span : Span) (name : String) (value : Cell) :
    (st.assign span name value).memory = st.memory.write name value := rfl

/-- A print adds its line to the memory and binds nothing. -/
@[simp] theorem State.memory_print (st : State) (span : Span) (lead : String) (value : Cell) :
    (st.print span lead value).memory = st.memory.append (lead ++ value.display) := by
  simp [State.memory, State.print, State.append, State.emit, Memory.append]

/-- Events are not seen in the memory. -/
@[simp] theorem State.memory_emit (st : State) (e : Event) : (st.emit e).memory = st.memory := rfl

/-- A handler writes what it caught to the memory. -/
@[simp] theorem State.memory_catchValue (st : State) (runId : String) (span : Span) (name : String)
    (value : Cell) : (st.catchValue runId span name value).memory = st.memory.write name value := rfl

/-- The statement that a task executes: a loop at its next test is still that
    loop. -/
def Task.toStmt : Task → Stmt
  | .stmt s => s
  | .loop span condition body => .loop span condition body

/-- Without a limit and without cancellation nothing is refused. -/
theorem refusal?_unlimited (runId : String) (st : State) (task : Task) :
    Settings.refusal? { runId } st task = none := by
  cases task <;> rfl

section Soundness

variable {task first next : Task} {st mid last final : State} {outcome result : Outcome}

private theorem Started.bigStep_ended (h : Started task st (.ended outcome) final) :
    BigStep task.toStmt st.memory outcome final.memory := by
  cases h with
  | missing => exact .missing
  | skip => exact .skip
  | assigned hvalue =>
    rw [State.memory_assign]
    exact .assign (evaluates_iff.mpr hvalue)
  | unassigned hsignal => exact .assignSignal (evaluates_iff.mpr hsignal)
  | printed hvalue =>
    rw [State.memory_print]
    exact .print (evaluates_iff.mpr hvalue)
  | unprinted hsignal => exact .printSignal (evaluates_iff.mpr hsignal)
  | thrown hvalue =>
    rw [State.memory_emit]
    exact .throw (evaluates_iff.mpr hvalue)
  | unthrown hsignal => exact .throwSignal (evaluates_iff.mpr hsignal)
  | undecided htest => exact .branchSignal (tests_iff.mpr htest)
  | finished htest => exact .loopFalse (tests_iff.mpr htest)
  | untested htest => exact .loopSignal (tests_iff.mpr htest)

private theorem Started.bigStep_replaced (h : Started task st (.replaced next) mid)
    (hnext : BigStep next.toStmt mid.memory outcome final.memory) :
    BigStep task.toStmt st.memory outcome final.memory := by
  cases h with
  | yes htest => exact .branchTrue (tests_iff.mpr htest) hnext
  | no htest => exact .branchFalse (tests_iff.mpr htest) hnext
  | loop => exact hnext

private theorem Started.bigStep_left {runId : String} (h : Started task st (.waiting first) mid)
    (hfirst : BigStep first.toStmt mid.memory outcome last.memory)
    (hresumed : Resumed runId task outcome last none final) :
    BigStep task.toStmt st.memory outcome final.memory := by
  cases hresumed with
  | skipped signal =>
    cases h
    exact .seqAbort hfirst
  | unraised =>
    cases h
    exact .attempt hfirst
  | uncaught failure =>
    cases h
    exact .attemptFailed hfirst
  | aborted signal =>
    cases h with
    | entered htest => exact .loopAbort (tests_iff.mpr htest) hfirst

private theorem Started.bigStep_resumed {runId : String} {again : State}
    (h : Started task st (.waiting first) mid)
    (hfirst : BigStep first.toStmt mid.memory result last.memory)
    (hresumed : Resumed runId task result last (some next) again)
    (hnext : BigStep next.toStmt again.memory outcome final.memory) :
    BigStep task.toStmt st.memory outcome final.memory := by
  cases hresumed with
  | second =>
    cases h
    exact .seq hfirst hnext
  | caught value =>
    cases h
    rw [State.memory_catchValue] at hnext
    exact .attemptCaught hfirst hnext
  | again =>
    cases h with
    | entered htest => exact .loopTrue (tests_iff.mpr htest) hfirst hnext

/-- Every execution follows the rules. -/
theorem Runs.bigStep {runId : String} (h : Runs { runId } task st outcome final) :
    BigStep task.toStmt st.memory outcome final.memory := by
  induction h with
  | refused hrefused =>
    rw [refusal?_unlimited] at hrefused
    cases hrefused
  | @ended task st _ _ _ hstart =>
    rw [← State.memory_count task st]
    exact (Task.started hstart).bigStep_ended
  | @replaced task _ st _ _ _ _ hstart _ ih =>
    rw [← State.memory_count task st]
    exact (Task.started hstart).bigStep_replaced ih
  | @left task _ st _ _ _ _ _ hstart _ hresume ih =>
    rw [← State.memory_count task st]
    exact (Task.started hstart).bigStep_left ih (Task.resumed hstart hresume)
  | @resumed task _ _ st _ _ _ _ _ _ _ hstart _ hresume _ ihfirst ihnext =>
    rw [← State.memory_count task st]
    exact (Task.started hstart).bigStep_resumed ihfirst (Task.resumed hstart hresume) ihnext

end Soundness

/-- Execution of a task, from any state with one memory, ends with the outcome
    and with the other memory. -/
def Completes (runId : String) (task : Task) (m : Memory) (outcome : Outcome) (m' : Memory) : Prop :=
  ∀ st : State, st.memory = m → ∃ final, Runs { runId } task st outcome final ∧ final.memory = m'

/-- The task at which the rules for a statement begin: those for a loop begin at
    its test. -/
def Stmt.toTask : Stmt → Task
  | .loop span condition body => .loop span condition body
  | s => .stmt s

section Completeness

variable {runId : String} {task first next : Task} {m m₁ m' : Memory} {outcome result : Outcome}

private theorem completes_ended
    (h : ∀ st : State, st.memory = m → ∃ final, Started task st (.ended outcome) final ∧ final.memory = m') :
    Completes runId task m outcome m' := by
  intro st hst
  obtain ⟨final, hstarted, hfinal⟩ := h (task.count st) (by rw [State.memory_count, hst])
  exact ⟨final, .ended (refusal?_unlimited ..) hstarted.start_eq, hfinal⟩

private theorem Completes.replaced (hnext : Completes runId next m outcome m')
    (h : ∀ st : State, st.memory = m → Started task st (.replaced next) st) :
    Completes runId task m outcome m' := by
  intro st hst
  have hcount : (task.count st).memory = m := by rw [State.memory_count, hst]
  obtain ⟨final, hruns, hfinal⟩ := hnext _ hcount
  exact ⟨final, .replaced (refusal?_unlimited ..) (h _ hcount).start_eq hruns, hfinal⟩

private theorem Completes.left (hfirst : Completes runId first m outcome m')
    (h : ∀ st : State, st.memory = m → Started task st (.waiting first) st)
    (hresumed : ∀ st, Resumed runId task outcome st none st) :
    Completes runId task m outcome m' := by
  intro st hst
  have hcount : (task.count st).memory = m := by rw [State.memory_count, hst]
  obtain ⟨final, hruns, hfinal⟩ := hfirst _ hcount
  exact ⟨final, .left (refusal?_unlimited ..) (h _ hcount).start_eq hruns (hresumed final).resume_eq,
    hfinal⟩

private theorem Completes.resumed {m₂ : Memory} (hfirst : Completes runId first m result m₁)
    (h : ∀ st : State, st.memory = m → Started task st (.waiting first) st)
    (hresumed : ∀ st : State, st.memory = m₁ →
      ∃ again, Resumed runId task result st (some next) again ∧ again.memory = m₂)
    (hnext : Completes runId next m₂ outcome m') :
    Completes runId task m outcome m' := by
  intro st hst
  have hcount : (task.count st).memory = m := by rw [State.memory_count, hst]
  obtain ⟨last, hruns, hlast⟩ := hfirst _ hcount
  obtain ⟨again, hresume, hagain⟩ := hresumed last hlast
  obtain ⟨final, hthen, hfinal⟩ := hnext again hagain
  exact ⟨final, .resumed (refusal?_unlimited ..) (h _ hcount).start_eq hruns hresume.resume_eq hthen,
    hfinal⟩

private theorem Completes.stmt {s : Stmt} (h : Completes runId s.toTask m outcome m') :
    Completes runId (.stmt s) m outcome m' := by
  cases s with
  | loop span condition body => exact h.replaced fun _ _ => .loop
  | missing | skip | assign | branch | seq | print | throw | attempt => exact h

/-- Wherever the rules lead, execution ends. The induction is on the derivation;
    the case of a loop that goes on has to begin at the next test, hence
    `Stmt.toTask`. -/
theorem BigStep.completes {s : Stmt} (h : BigStep s m outcome m') :
    Completes runId s.toTask m outcome m' := by
  induction h with
  | missing => exact completes_ended fun st hst => ⟨st, .missing, hst⟩
  | skip => exact completes_ended fun st hst => ⟨st, .skip, hst⟩
  | assign hvalue =>
    refine completes_ended ?_
    rintro st rfl
    exact ⟨_, .assigned (evaluates_iff.mp hvalue), State.memory_assign ..⟩
  | assignSignal hsignal =>
    refine completes_ended ?_
    rintro st rfl
    exact ⟨st, .unassigned (evaluates_iff.mp hsignal), rfl⟩
  | print hvalue =>
    refine completes_ended ?_
    rintro st rfl
    exact ⟨_, .printed (evaluates_iff.mp hvalue), State.memory_print ..⟩
  | printSignal hsignal =>
    refine completes_ended ?_
    rintro st rfl
    exact ⟨st, .unprinted (evaluates_iff.mp hsignal), rfl⟩
  | throw hvalue =>
    refine completes_ended ?_
    rintro st rfl
    exact ⟨_, .thrown (evaluates_iff.mp hvalue), State.memory_emit ..⟩
  | throwSignal hsignal =>
    refine completes_ended ?_
    rintro st rfl
    exact ⟨st, .unthrown (evaluates_iff.mp hsignal), rfl⟩
  | branchTrue htest _ ih =>
    refine ih.stmt.replaced ?_
    rintro st rfl
    exact .yes (tests_iff.mp htest)
  | branchFalse htest _ ih =>
    refine ih.stmt.replaced ?_
    rintro st rfl
    exact .no (tests_iff.mp htest)
  | branchSignal htest =>
    refine completes_ended ?_
    rintro st rfl
    exact ⟨st, .undecided (tests_iff.mp htest), rfl⟩
  | loopFalse htest =>
    refine completes_ended ?_
    rintro st rfl
    exact ⟨st, .finished (tests_iff.mp htest), rfl⟩
  | loopTrue htest _ _ ihbody ihloop =>
    refine ihbody.stmt.resumed ?_ (fun st hst => ⟨st, .again, hst⟩) ihloop
    rintro st rfl
    exact .entered (tests_iff.mp htest)
  | loopAbort htest _ ih =>
    refine ih.stmt.left ?_ fun _ => .aborted _
    rintro st rfl
    exact .entered (tests_iff.mp htest)
  | loopSignal htest =>
    refine completes_ended ?_
    rintro st rfl
    exact ⟨st, .untested (tests_iff.mp htest), rfl⟩
  | seq _ _ ihfirst ihsecond =>
    exact ihfirst.stmt.resumed (fun _ _ => .first) (fun st hst => ⟨st, .second, hst⟩) ihsecond.stmt
  | seqAbort _ ih => exact ih.stmt.left (fun _ _ => .first) fun _ => .skipped _
  | attempt _ ih => exact ih.stmt.left (fun _ _ => .attempted) fun _ => .unraised
  | attemptCaught _ _ ihbody ihhandler =>
    refine ihbody.stmt.resumed (fun _ _ => .attempted) ?_ ihhandler.stmt
    rintro st rfl
    exact ⟨_, .caught _, State.memory_catchValue ..⟩
  | attemptFailed _ ih => exact ih.stmt.left (fun _ _ => .attempted) fun _ => .uncaught _

end Completeness

/-- From any state, and so with any log, an unlimited execution that is never
    canceled ends with an outcome and a memory exactly if the rules give them. -/
theorem exec_eq_some_iff_bigStep (runId : String) (s : Stmt) (st : State) (outcome : Outcome)
    (m : Memory) :
    (∃ final, exec { runId } (.stmt s) st = some (outcome, final) ∧ final.memory = m) ↔
      BigStep s st.memory outcome m := by
  constructor
  · rintro ⟨final, hexec, rfl⟩
    exact (exec_eq_some_iff.mp hexec).bigStep
  · intro h
    obtain ⟨final, hruns, hfinal⟩ := h.completes.stmt st rfl
    exact ⟨final, hruns.exec_eq, hfinal⟩

/-- Execution is sound and complete for the rules: without a limit and never
    canceled, a statement ends with some outcome, store and log, from a store
    and an empty log, exactly if the rules derive them. A statement for which
    they derive nothing never ends. -/
theorem exec_sound_and_complete (runId : String) (s : Stmt) (store : Store) :
    (∀ (outcome : Outcome) (store' : Store) (log : List String),
      (∃ final, exec { runId } (.stmt s) { store } = some (outcome, final) ∧
        final.store = store' ∧ final.lines.toList = log) ↔
      BigStep s ⟨store, []⟩ outcome ⟨store', log⟩) ∧
    (exec { runId } (.stmt s) { store } = none ↔ ∀ outcome m, ¬ BigStep s ⟨store, []⟩ outcome m) := by
  have hiff : ∀ outcome m, (∃ final, exec { runId } (.stmt s) { store } = some (outcome, final) ∧
      final.memory = m) ↔ BigStep s ⟨store, []⟩ outcome m :=
    exec_eq_some_iff_bigStep runId s { store }
  constructor
  · intro outcome store' log
    rw [← hiff]
    simp only [State.memory, Memory.mk.injEq]
  · constructor
    · intro hnone outcome m hstep
      obtain ⟨final, hexec, _⟩ := (hiff outcome m).mpr hstep
      rw [hnone] at hexec
      cases hexec
    · intro hall
      cases hexec : exec { runId } (.stmt s) { store } with
      | none => rfl
      | some result => exact absurd ((hiff result.1 _).mp ⟨result.2, hexec, rfl⟩) (hall _ _)

end WhilePlus
