import WhilePlus.Run.Execute

namespace WhilePlus

/-- All the ways in which a task can begin. -/
inductive Started : Task → State → Stage → State → Prop where
  | missing {st : State} : Started (.stmt .missing) st (.ended (.ok ())) st
  | skip {st : State} {span : Span} : Started (.stmt (.skip span)) st (.ended (.ok ())) st
  | assigned {st : State} {span : Span} {name : String} {e : Expr} {value : Cell}
      (hvalue : e.eval st.store = .ok value) :
      Started (.stmt (.assign span name e)) st (.ended (.ok ())) (st.assign span name value)
  | unassigned {st : State} {span : Span} {name : String} {e : Expr} {signal : Signal}
      (hsignal : e.eval st.store = .error signal) :
      Started (.stmt (.assign span name e)) st (.ended (.error signal)) st
  | printed {st : State} {span : Span} {lead : String} {e : Expr} {value : Cell}
      (hvalue : e.eval st.store = .ok value) :
      Started (.stmt (.print span lead e)) st (.ended (.ok ())) (st.print span lead value)
  | unprinted {st : State} {span : Span} {lead : String} {e : Expr} {signal : Signal}
      (hsignal : e.eval st.store = .error signal) :
      Started (.stmt (.print span lead e)) st (.ended (.error signal)) st
  | thrown {st : State} {span : Span} {e : Expr} {value : Cell}
      (hvalue : e.eval st.store = .ok value) :
      Started (.stmt (.throw span e)) st (.ended (.error (.raised value)))
        (st.emit (.raised span value))
  | unthrown {st : State} {span : Span} {e : Expr} {signal : Signal}
      (hsignal : e.eval st.store = .error signal) :
      Started (.stmt (.throw span e)) st (.ended (.error signal)) st
  | yes {st : State} {span : Span} {condition : Expr} {yes no : Stmt}
      (htest : condition.test st.store = .ok true) :
      Started (.stmt (.branch span condition yes no)) st (.replaced (.stmt yes)) st
  | no {st : State} {span : Span} {condition : Expr} {yes no : Stmt}
      (htest : condition.test st.store = .ok false) :
      Started (.stmt (.branch span condition yes no)) st (.replaced (.stmt no)) st
  | undecided {st : State} {span : Span} {condition : Expr} {yes no : Stmt} {signal : Signal}
      (htest : condition.test st.store = .error signal) :
      Started (.stmt (.branch span condition yes no)) st (.ended (.error signal)) st
  | loop {st : State} {span : Span} {condition : Expr} {body : Stmt} :
      Started (.stmt (.loop span condition body)) st (.replaced (.loop span condition body)) st
  | first {st : State} {span : Span} {first second : Stmt} :
      Started (.stmt (.seq span first second)) st (.waiting (.stmt first)) st
  | attempted {st : State} {span : Span} {body handler : Stmt} {binding : String} :
      Started (.stmt (.attempt span body binding handler)) st (.waiting (.stmt body)) st
  | entered {st : State} {span : Span} {condition : Expr} {body : Stmt}
      (htest : condition.test st.store = .ok true) :
      Started (.loop span condition body) st (.waiting (.stmt body)) st
  | finished {st : State} {span : Span} {condition : Expr} {body : Stmt}
      (htest : condition.test st.store = .ok false) :
      Started (.loop span condition body) st (.ended (.ok ())) st
  | untested {st : State} {span : Span} {condition : Expr} {body : Stmt} {signal : Signal}
      (htest : condition.test st.store = .error signal) :
      Started (.loop span condition body) st (.ended (.error signal)) st

private theorem State.withValue_cases {st mid : State} {e : Expr}
    {effect : State → Cell → Outcome × State} {stage : Stage}
    (h : st.withValue e effect = (stage, mid)) :
    (∃ value, e.eval st.store = .ok value ∧ stage = .ended (effect st value).1 ∧
      mid = (effect st value).2) ∨
    ∃ signal, e.eval st.store = .error signal ∧ stage = .ended (.error signal) ∧ mid = st := by
  unfold State.withValue at h
  split at h
  · next value hvalue =>
    obtain ⟨rfl, rfl⟩ := Prod.mk.inj h
    exact .inl ⟨value, hvalue, rfl, rfl⟩
  · next signal hsignal =>
    obtain ⟨rfl, rfl⟩ := Prod.mk.inj h
    exact .inr ⟨signal, hsignal, rfl, rfl⟩

private theorem State.withTest_cases {st mid : State} {condition : Expr} {yes no stage : Stage}
    (h : st.withTest condition yes no = (stage, mid)) :
    mid = st ∧ (condition.test st.store = .ok true ∧ stage = yes ∨
      condition.test st.store = .ok false ∧ stage = no ∨
      ∃ signal, condition.test st.store = .error signal ∧ stage = .ended (.error signal)) := by
  unfold State.withTest at h
  split at h
  · next htrue =>
    obtain ⟨rfl, rfl⟩ := Prod.mk.inj h
    exact ⟨rfl, .inl ⟨htrue, rfl⟩⟩
  · next hfalse =>
    obtain ⟨rfl, rfl⟩ := Prod.mk.inj h
    exact ⟨rfl, .inr (.inl ⟨hfalse, rfl⟩)⟩
  · next signal hsignal =>
    obtain ⟨rfl, rfl⟩ := Prod.mk.inj h
    exact ⟨rfl, .inr (.inr ⟨signal, hsignal, rfl⟩)⟩

/-- What a task begins with is one of the cases. -/
theorem Task.started {task : Task} {st mid : State} {stage : Stage}
    (h : task.start st = (stage, mid)) : Started task st stage mid := by
  cases task with
  | loop span condition body =>
    obtain ⟨rfl, ⟨htest, rfl⟩ | ⟨htest, rfl⟩ | ⟨signal, htest, rfl⟩⟩ := State.withTest_cases h
    · exact .entered htest
    · exact .finished htest
    · exact .untested htest
  | stmt s =>
    cases s with
    | missing =>
      obtain ⟨rfl, rfl⟩ := Prod.mk.inj h
      exact .missing
    | skip span =>
      obtain ⟨rfl, rfl⟩ := Prod.mk.inj h
      exact .skip
    | assign span name e =>
      simp only [Task.start] at h
      obtain ⟨value, hvalue, rfl, rfl⟩ | ⟨signal, hsignal, rfl, rfl⟩ := State.withValue_cases h
      · exact .assigned hvalue
      · exact .unassigned hsignal
    | print span lead e =>
      simp only [Task.start] at h
      obtain ⟨value, hvalue, rfl, rfl⟩ | ⟨signal, hsignal, rfl, rfl⟩ := State.withValue_cases h
      · exact .printed hvalue
      · exact .unprinted hsignal
    | throw span e =>
      simp only [Task.start] at h
      obtain ⟨value, hvalue, rfl, rfl⟩ | ⟨signal, hsignal, rfl, rfl⟩ := State.withValue_cases h
      · exact .thrown hvalue
      · exact .unthrown hsignal
    | branch span condition yes no =>
      obtain ⟨rfl, ⟨htest, rfl⟩ | ⟨htest, rfl⟩ | ⟨signal, htest, rfl⟩⟩ := State.withTest_cases h
      · exact .yes htest
      · exact .no htest
      · exact .undecided htest
    | loop span condition body =>
      obtain ⟨rfl, rfl⟩ := Prod.mk.inj h
      exact .loop
    | seq span first second =>
      obtain ⟨rfl, rfl⟩ := Prod.mk.inj h
      exact .first
    | attempt span body binding handler =>
      obtain ⟨rfl, rfl⟩ := Prod.mk.inj h
      exact .attempted

/-- Each of the cases is what a task begins with. -/
theorem Started.start_eq {task : Task} {st mid : State} {stage : Stage}
    (h : Started task st stage mid) : task.start st = (stage, mid) := by
  cases h with
  | missing | skip | loop | first | attempted => rfl
  | assigned h | unassigned h | printed h | unprinted h | thrown h | unthrown h =>
    simp only [Task.start, State.withValue, h]
  | yes h | no h | undecided h | entered h | finished h | untested h =>
    simp only [Task.start, State.withTest, h]

/-- All that can become of a task that has waited for another: the outcome of
    the other, the state it left, and the task that takes over from there, if
    any. -/
inductive Resumed (runId : String) : Task → Outcome → State → Option Task → State → Prop where
  | second {st : State} {span : Span} {first second : Stmt} :
      Resumed runId (.stmt (.seq span first second)) (.ok ()) st (some (.stmt second)) st
  | skipped {st : State} {span : Span} {first second : Stmt} (signal : Signal) :
      Resumed runId (.stmt (.seq span first second)) (.error signal) st none st
  | caught {st : State} {span : Span} {body handler : Stmt} {binding : String} (value : Cell) :
      Resumed runId (.stmt (.attempt span body binding handler)) (.error (.raised value)) st
        (some (.stmt handler)) (st.catchValue runId span binding value)
  | unraised {st : State} {span : Span} {body handler : Stmt} {binding : String} :
      Resumed runId (.stmt (.attempt span body binding handler)) (.ok ()) st none st
  | uncaught {st : State} {span : Span} {body handler : Stmt} {binding : String}
      (failure : Failure) :
      Resumed runId (.stmt (.attempt span body binding handler)) (.error (.failed failure)) st none st
  | again {st : State} {span : Span} {condition : Expr} {body : Stmt} :
      Resumed runId (.loop span condition body) (.ok ()) st (some (.loop span condition body)) st
  | aborted {st : State} {span : Span} {condition : Expr} {body : Stmt} (signal : Signal) :
      Resumed runId (.loop span condition body) (.error signal) st none st

/-- How a task goes on is one of the cases, if it has waited for the task that
    ended. -/
theorem Task.resumed {runId : String} {task first : Task} {outcome : Outcome}
    {before mid st final : State} {next : Option Task}
    (hstart : task.start before = (.waiting first, mid))
    (h : task.resume runId outcome st = (next, final)) :
    Resumed runId task outcome st next final := by
  cases Task.started hstart with
  | first =>
    cases outcome with
    | ok _ =>
      obtain ⟨rfl, rfl⟩ := Prod.mk.inj h
      exact .second
    | error signal =>
      obtain ⟨rfl, rfl⟩ := Prod.mk.inj h
      exact .skipped signal
  | attempted =>
    rcases outcome with (value | failure) | _
    · obtain ⟨rfl, rfl⟩ := Prod.mk.inj h
      exact .caught value
    · obtain ⟨rfl, rfl⟩ := Prod.mk.inj h
      exact .uncaught failure
    · obtain ⟨rfl, rfl⟩ := Prod.mk.inj h
      exact .unraised
  | entered _ =>
    cases outcome with
    | ok _ =>
      obtain ⟨rfl, rfl⟩ := Prod.mk.inj h
      exact .again
    | error signal =>
      obtain ⟨rfl, rfl⟩ := Prod.mk.inj h
      exact .aborted signal

/-- Each of the cases is how a task goes on. -/
theorem Resumed.resume_eq {runId : String} {task : Task} {outcome : Outcome} {st final : State}
    {next : Option Task} (h : Resumed runId task outcome st next final) :
    task.resume runId outcome st = (next, final) := by
  cases h <;> rfl

section Frame

variable {runId : String} {task : Task} {st mid final : State} {stage : Stage} {outcome : Outcome}
  {next : Option Task}

/-- Counting a task leaves the store alone. -/
theorem Task.store_count (task : Task) (st : State) : (task.count st).store = st.store := by
  cases task <;> rfl

/-- Only counting a statement takes a step. -/
theorem Started.steps_eq (h : Started task st stage mid) : mid.steps = st.steps := by
  cases h <;> rfl

/-- Going on after a task counts no step. -/
theorem Resumed.steps_eq (h : Resumed runId task outcome st next final) :
    final.steps = st.steps := by
  cases h <;> rfl

/-- A task that is done after the one it has waited for changes nothing any
    more. -/
theorem Resumed.state_eq (h : Resumed runId task outcome st none final) : final = st := by
  cases h <;> rfl

end Frame

end WhilePlus
