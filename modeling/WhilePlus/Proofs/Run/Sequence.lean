import WhilePlus.Proofs.Run.Raise

namespace WhilePlus

/-- The statements on the spine of sequences of a tree, from left to right. -/
def Stmt.leaves : Stmt → List Stmt
  | .seq _ first second => first.leaves ++ second.leaves
  | s => [s]

/-- Goes on from a state in which something has ended normally. -/
def andThen (result : Option (Outcome × State)) (next : State → Option (Outcome × State)) :
    Option (Outcome × State) :=
  match result with
  | some (.ok (), st) => next st
  | stopped => stopped

/-- Executes statements one after the other, up to the first that does not end
    normally. -/
def execAll (cfg : Settings) : List Stmt → State → Option (Outcome × State)
  | [], st => some (.ok (), st)
  | s :: rest, st => andThen (exec cfg (.stmt s) st) (execAll cfg rest)

section Leaves

private theorem Stmt.leaves_ne_nil (s : Stmt) : s.leaves ≠ [] := by
  induction s with
  | seq span first second ihfirst ihsecond => simp [Stmt.leaves, ihfirst]
  | missing | skip | assign | branch | loop | print | throw | attempt => simp [Stmt.leaves]

private theorem Stmt.leaves_of_mem_leaves {s leaf : Stmt} (h : leaf ∈ s.leaves) : leaf.leaves = [leaf] := by
  induction s with
  | seq span first second ihfirst ihsecond =>
    rw [Stmt.leaves] at h
    exact (List.mem_append.mp h).elim ihfirst ihsecond
  | missing | skip | assign | branch | loop | print | throw | attempt =>
    obtain rfl := List.mem_singleton.mp h
    rfl

private theorem Stmt.leaves_ofList {statements : List Stmt} (hne : statements ≠ [])
    (h : ∀ s ∈ statements, s.leaves = [s]) : (Stmt.ofList statements).leaves = statements := by
  induction statements with
  | nil => exact absurd rfl hne
  | cons s rest ih =>
    obtain ⟨hs, hrest⟩ := List.forall_mem_cons.mp h
    cases rest with
    | nil => exact hs
    | cons t more =>
      change s.leaves ++ (Stmt.ofList (t :: more)).leaves = _
      rw [hs, ih (List.cons_ne_nil _ _) hrest]
      rfl

/-- Nesting the leaves of a statement to the right does not change them. -/
theorem Stmt.leaves_ofList_leaves (s : Stmt) : (Stmt.ofList s.leaves).leaves = s.leaves :=
  Stmt.leaves_ofList s.leaves_ne_nil fun _ => Stmt.leaves_of_mem_leaves

end Leaves

section Chain

variable {result : Option (Outcome × State)} {next again : State → Option (Outcome × State)}

private theorem andThen_assoc :
    andThen (andThen result next) again = andThen result fun st => andThen (next st) again := by
  rcases result with _ | ⟨_ | _, st⟩ <;> rfl

private theorem execAll_append (cfg : Settings) (before after : List Stmt) (st : State) :
    execAll cfg (before ++ after) st = andThen (execAll cfg before st) (execAll cfg after) := by
  induction before generalizing st with
  | nil => rfl
  | cons s rest ih =>
    rw [List.cons_append, execAll, execAll, andThen_assoc]
    exact congrArg _ (funext ih)

private theorem execAll_singleton (cfg : Settings) (s : Stmt) (st : State) :
    execAll cfg [s] st = exec cfg (.stmt s) st := by
  rw [execAll]
  rcases exec cfg (.stmt s) st with _ | ⟨_ | _, st⟩ <;> rfl

end Chain

/-- The state with entries put before those of its journal, and with more steps. -/
def State.preceded (st : State) (entries : Array Entry) (steps : Nat) : State :=
  { st with journal := entries ++ st.journal, steps := st.steps + steps }

section Preceded

variable {cfg : Settings} {runId : String} {task : Task} {st mid final : State} {stage : Stage}
  {outcome : Outcome} {next : Option Task} {before : Array Entry} {n : Nat} {span : Span}
  {name lead : String} {value : Cell}

private theorem State.preceded_zero (st : State) : st.preceded #[] 0 = st := by
  simp [State.preceded]

private theorem State.preceded_preceded (st : State) (before : Array Entry) (n k : Nat) :
    (st.preceded #[] k).preceded before n = st.preceded before (k + n) := by
  simp [State.preceded, Nat.add_assoc]

private theorem State.emit_preceded (st : State) (e : Event) :
    (st.preceded before n).emit e = (st.emit e).preceded before n := by
  simp [State.preceded, State.emit]

private theorem State.assign_preceded :
    (st.preceded before n).assign span name value = (st.assign span name value).preceded before n :=
  State.emit_preceded (st.write name value) _

private theorem State.print_preceded :
    (st.preceded before n).print span lead value = (st.print span lead value).preceded before n :=
  State.emit_preceded (st.append _) _

private theorem State.catchValue_preceded :
    (st.preceded before n).catchValue runId span name value =
      (st.catchValue runId span name value).preceded before n := by
  simp [State.preceded, State.catchValue, State.emit, State.write, State.log]

private theorem Task.count_preceded (task : Task) :
    task.count (st.preceded before n) = (task.count st).preceded before n := by
  cases task with
  | stmt s => simp [Task.count, State.step, State.preceded, Nat.add_right_comm]
  | loop span condition body => rfl

/-- Without a limit, what is refused depends neither on the journal nor on the
    steps. -/
theorem Settings.refusal?_preceded (hlimit : cfg.limit = none) (task : Task) (st : State)
    (before : Array Entry) (n : Nat) :
    cfg.refusal? (task.count (st.preceded before n)) task = cfg.refusal? (task.count st) task := by
  cases task with
  | stmt s => simp [Settings.refusal?, Settings.exceeded?, hlimit]
  | loop span condition body => rfl

private theorem Started.preceded (h : Started task st stage mid) (before : Array Entry) (n : Nat) :
    Started task (st.preceded before n) stage (mid.preceded before n) := by
  cases h with
  | missing => exact .missing
  | skip => exact .skip
  | assigned hvalue =>
    rw [← State.assign_preceded]
    exact .assigned hvalue
  | unassigned hsignal => exact .unassigned hsignal
  | printed hvalue =>
    rw [← State.print_preceded]
    exact .printed hvalue
  | unprinted hsignal => exact .unprinted hsignal
  | thrown hvalue =>
    rw [← State.emit_preceded]
    exact .thrown hvalue
  | unthrown hsignal => exact .unthrown hsignal
  | yes htest => exact .yes htest
  | no htest => exact .no htest
  | undecided htest => exact .undecided htest
  | loop => exact .loop
  | first => exact .first
  | attempted => exact .attempted
  | entered htest => exact .entered htest
  | finished htest => exact .finished htest
  | untested htest => exact .untested htest

private theorem Resumed.preceded (h : Resumed runId task outcome st next final) (before : Array Entry)
    (n : Nat) : Resumed runId task outcome (st.preceded before n) next (final.preceded before n) := by
  cases h with
  | second => exact .second
  | skipped signal => exact .skipped signal
  | caught value =>
    rw [← State.catchValue_preceded]
    exact .caught value
  | unraised => exact .unraised
  | uncaught failure => exact .uncaught failure
  | again => exact .again
  | aborted signal => exact .aborted signal

private theorem Task.start_preceded (task : Task) (st : State) (before : Array Entry) (n : Nat) :
    task.start (task.count (st.preceded before n)) =
      ((task.start (task.count st)).1, (task.start (task.count st)).2.preceded before n) := by
  rw [Task.count_preceded]
  exact ((Task.started rfl).preceded before n).start_eq

private theorem Task.resume_preceded {first : Task} {start : State}
    (hstart : task.start start = (.waiting first, mid)) (outcome : Outcome) (st : State)
    (before : Array Entry) (n : Nat) :
    task.resume runId outcome (st.preceded before n) =
      ((task.resume runId outcome st).1, (task.resume runId outcome st).2.preceded before n) :=
  ((Task.resumed hstart rfl).preceded before n).resume_eq

/-- An execution goes on in the same way whatever was in the journal before it,
    and however many steps were taken. -/
theorem Runs.preceded (hlimit : cfg.limit = none)
    (h : Runs cfg task (st.preceded before n) outcome final) (before' : Array Entry) (n' : Nat) :
    ∃ last : State, final = last.preceded before n ∧
      Runs cfg task (st.preceded before' n') outcome (last.preceded before' n') := by
  -- Both executions are at the same rule all the time, in states that have a common rest.
  have hsame := Settings.refusal?_preceded hlimit
  generalize hbegun : st.preceded before n = begun at h
  induction h generalizing st with
  | refused hrefused =>
    subst hbegun
    refine ⟨_, Task.count_preceded _, ?_⟩
    rw [← Task.count_preceded]
    exact .refused (by rw [hsame, ← hsame, hrefused])
  | ended hlet hstart =>
    subst hbegun
    rw [Task.start_preceded] at hstart
    obtain ⟨hstage, rfl⟩ := Prod.mk.inj hstart
    exact ⟨_, rfl, .ended (by rw [hsame, ← hsame, hlet]) (by rw [Task.start_preceded, hstage])⟩
  | replaced hlet hstart _ ih =>
    subst hbegun
    rw [Task.start_preceded] at hstart
    obtain ⟨hstage, hmid⟩ := Prod.mk.inj hstart
    obtain ⟨last, rfl, hnext⟩ := ih hmid
    exact ⟨last, rfl,
      .replaced (by rw [hsame, ← hsame, hlet]) (by rw [Task.start_preceded, hstage]) hnext⟩
  | left hlet hstart _ hresume ih =>
    subst hbegun
    have hwaits := hstart
    rw [Task.start_preceded] at hstart
    obtain ⟨hstage, hmid⟩ := Prod.mk.inj hstart
    obtain ⟨last, rfl, hfirst⟩ := ih hmid
    rw [Task.resume_preceded hwaits] at hresume
    obtain ⟨hnone, rfl⟩ := Prod.mk.inj hresume
    exact ⟨_, rfl, .left (by rw [hsame, ← hsame, hlet]) (by rw [Task.start_preceded, hstage]) hfirst
      (by rw [Task.resume_preceded hwaits, hnone])⟩
  | resumed hlet hstart _ hresume _ ihfirst ihnext =>
    subst hbegun
    have hwaits := hstart
    rw [Task.start_preceded] at hstart
    obtain ⟨hstage, hmid⟩ := Prod.mk.inj hstart
    obtain ⟨ended, rfl, hfirst⟩ := ihfirst hmid
    rw [Task.resume_preceded hwaits] at hresume
    obtain ⟨hnext, hagain⟩ := Prod.mk.inj hresume
    obtain ⟨last, rfl, hrest⟩ := ihnext hagain
    exact ⟨last, rfl, .resumed (by rw [hsame, ← hsame, hlet]) (by rw [Task.start_preceded, hstage])
      hfirst (by rw [Task.resume_preceded hwaits, hnext]) hrest⟩

private theorem exec_preceded (hlimit : cfg.limit = none) (task : Task) (st : State) (before : Array Entry)
    (n : Nat) :
    exec cfg task (st.preceded before n) =
      (exec cfg task st).map fun result => (result.1, result.2.preceded before n) := by
  cases hplain : exec cfg task st with
  | some result =>
    rw [← State.preceded_zero st] at hplain
    obtain ⟨last, hlast, hruns⟩ := (exec_eq_some_iff.mp hplain).preceded hlimit before n
    rw [State.preceded_zero] at hlast
    rw [hruns.exec_eq, ← hlast]
    rfl
  | none =>
    cases hexec : exec cfg task (st.preceded before n) with
    | none => rfl
    | some result =>
      obtain ⟨last, -, hruns⟩ := (exec_eq_some_iff.mp hexec).preceded hlimit #[] 0
      rw [State.preceded_zero] at hruns
      rw [hruns.exec_eq] at hplain
      cases hplain

end Preceded

section Spine

variable {cfg : Settings}

private theorem exec_seq (hlimit : cfg.limit = none) (span : Span) (first second : Stmt) (st : State) :
    exec cfg (.stmt (.seq span first second)) st =
      andThen (exec cfg (.stmt first) st.step) (exec cfg (.stmt second)) := by
  have hlet : cfg.refusal? ((Task.stmt (.seq span first second)).count st)
      (.stmt (.seq span first second)) = none := by
    simp [Settings.refusal?, Settings.exceeded?, hlimit]
  cases hfirst : exec cfg (.stmt first) st.step with
  | some result =>
    obtain ⟨_ | _, mid⟩ := result
    · exact exec_left hlet rfl hfirst rfl
    · exact exec_resumed hlet rfl hfirst rfl
  | none =>
    cases hexec : exec cfg (.stmt (.seq span first second)) st with
    | none => rfl
    | some result =>
      obtain ⟨_, _, hruns, _⟩ := (exec_eq_some_iff.mp hexec).of_waiting hlet rfl
      cases hruns.exec_eq.symm.trans hfirst

/-- One result differs from another in nothing but steps, of which it has `n`
    more if the execution has ended normally. -/
def TakesMore (n : Nat) (result plain : Outcome × State) : Prop :=
  ∃ k, result = (plain.1, plain.2.preceded #[] k) ∧ (plain.1 = .ok () → k = n)

private theorem takesMore_refl (result : Option (Outcome × State)) :
    Option.Rel (TakesMore 0) result result := by
  cases result with
  | none => exact .none
  | some result => exact .some ⟨0, by rw [State.preceded_zero], fun _ => rfl⟩

private theorem TakesMore.preceded {n : Nat} {result plain : Option (Outcome × State)}
    (h : Option.Rel (TakesMore n) result plain) (k : Nat) :
    Option.Rel (TakesMore (n + k))
      (result.map fun result => (result.1, result.2.preceded #[] k)) plain := by
  cases h with
  | none => exact .none
  | some hmore =>
    obtain ⟨j, rfl, hj⟩ := hmore
    refine .some ⟨j + k, by simp only [State.preceded_preceded], fun hok => by rw [hj hok]⟩

/-- A statement is executed as its leaves are, one after the other. It takes one
    more step for each sequence on its spine, all of them if it ends normally. -/
theorem exec_takesMore (hlimit : cfg.limit = none) (s : Stmt) (st : State) :
    Option.Rel (TakesMore (s.leaves.length - 1)) (exec cfg (.stmt s) st) (execAll cfg s.leaves st) := by
  induction s generalizing st with
  | seq span first second ihfirst ihsecond =>
    have hstep : st.step = st.preceded #[] 1 := by simp [State.step, State.preceded]
    have hlength := List.length_pos_iff.mpr first.leaves_ne_nil
    have hlength' := List.length_pos_iff.mpr second.leaves_ne_nil
    rw [exec_seq hlimit, hstep, exec_preceded hlimit, Stmt.leaves, execAll_append,
      List.length_append]
    have hfirst := TakesMore.preceded (ihfirst st) 1
    generalize (exec cfg (.stmt first) st).map _ = result at hfirst
    generalize execAll cfg first.leaves st = plain at hfirst
    cases hfirst with
    | none => exact .none
    | @some _ plain hmore =>
      obtain ⟨k, rfl, hk⟩ := hmore
      obtain ⟨_ | _, mid⟩ := plain
      · exact .some ⟨k, rfl, by rintro ⟨⟩⟩
      · change Option.Rel _ (exec cfg (.stmt second) (mid.preceded #[] k)) (execAll cfg _ mid)
        rw [exec_preceded hlimit]
        convert TakesMore.preceded (ihsecond mid) k using 2
        rw [hk rfl]
        omega
  | missing | skip | assign | branch | loop | print | throw | attempt =>
    change Option.Rel (TakesMore 0) _ (execAll cfg [_] st)
    rw [execAll_singleton]
    exact takesMore_refl _

end Spine

/-- The failure of the host that an outcome is. -/
def Outcome.failure? : Outcome → Option Failure
  | .error (.failed failure) => some failure
  | .ok () | .error (.raised _) => none

/-- A run whose statement has ended with an outcome, after all that is in a
    state. The events of the state stand between those that start and end the
    run. -/
structure Result.Wraps (r : Result) (runId : String) (span : Span) (outcome : Outcome)
    (final : State) : Prop where
  store : r.store = final.store
  lines : r.lines = final.lines.toList
  exception : r.exception = outcome.raised?.join
  failure : r.failure = outcome.failure?
  records : r.records = final.records ++ outcome.raised?.toList.map (uncaughtRecord runId)
  events : r.events = .started span :: final.events ++ [.ended span r.exception]

/-- Two runs that do the same between their first and their last event. -/
structure Result.SameWithin (r r' : Result) : Prop where
  store : r'.store = r.store
  lines : r'.lines = r.lines
  exception : r'.exception = r.exception
  failure : r'.failure = r.failure
  records : r'.records = r.records
  within : r'.events.tail.dropLast = r.events.tail.dropLast

section Result

variable {cfg : Settings} {r r' : Result} {runId : String} {span span' : Span} {outcome : Outcome}
  {final : State}

private theorem finish_wraps (cfg : Settings) (span : Span) (outcome : Outcome) (final : State) (n : Nat) :
    (finish cfg span outcome (final.preceded #[.event (.started span)] n)).Wraps cfg.runId span
      outcome final where
  store := finish_store
  lines := finish_lines
  exception := by rcases outcome with (_ | _) | _ <;> rfl
  failure := by rcases outcome with (_ | _) | _ <;> rfl
  records := by
    rw [finish_records]
    simp [State.records, State.preceded, Entry.record?, List.filterMap_cons]
  events := by
    rw [finish_events]
    simp [State.events, State.preceded, Entry.event?]

private theorem Result.Wraps.within (h : r.Wraps runId span outcome final) :
    r.events.tail.dropLast = final.events := by
  rw [h.events, List.cons_append, List.tail_cons, List.dropLast_concat]

private theorem Result.Wraps.sameWithin (h : r.Wraps runId span outcome final)
    (h' : r'.Wraps runId span' outcome final) : r.SameWithin r' where
  store := h'.store.trans h.store.symm
  lines := h'.lines.trans h.lines.symm
  exception := h'.exception.trans h.exception.symm
  failure := h'.failure.trans h.failure.symm
  records := h'.records.trans h.records.symm
  within := h'.within.trans h.within.symm

private theorem run?_eq_map (hlimit : cfg.limit = none) (store : Store) (s : Stmt) :
    run? cfg store s = (exec cfg (.stmt s) { store, emitted := 1 }).map fun result =>
      finish cfg s.span result.1 (result.2.preceded #[.event (.started s.span)] 0) := by
  have hrun : run? cfg store s =
      ((exec cfg (.stmt s) (State.preceded { store, emitted := 1 } #[.event (.started s.span)] 0)).map
        fun result => finish cfg s.span result.1 result.2) := rfl
  rw [hrun, exec_preceded hlimit, Option.map_map]
  rfl

private theorem run?_eq_none_of_execAll (hlimit : cfg.limit = none) {store : Store} {s : Stmt}
    (h : execAll cfg s.leaves { store, emitted := 1 } = none) : run? cfg store s = none := by
  have hexec := exec_takesMore hlimit s { store, emitted := 1 }
  rw [h] at hexec
  rw [run?_eq_map hlimit]
  generalize exec cfg (.stmt s) { store, emitted := 1 } = result at hexec
  cases hexec
  rfl

/-- A run is its leaves, executed one after the other once the first event was
    reported. -/
theorem run?_wraps_execAll (hlimit : cfg.limit = none) {store : Store} {s : Stmt}
    (h : execAll cfg s.leaves { store, emitted := 1 } = some (outcome, final)) :
    ∃ r, run? cfg store s = some r ∧ r.Wraps cfg.runId s.span outcome final ∧
      (outcome = .ok () → r.steps + 1 = final.steps + s.leaves.length) := by
  have hexec := exec_takesMore hlimit s { store, emitted := 1 }
  have hlength := List.length_pos_iff.mpr s.leaves_ne_nil
  rw [h] at hexec
  rw [run?_eq_map hlimit]
  generalize exec cfg (.stmt s) { store, emitted := 1 } = result at hexec
  obtain @⟨_, _, k, rfl, hk⟩ := hexec
  refine ⟨_, rfl, ?_, fun hok => ?_⟩
  · dsimp only
    rw [State.preceded_preceded]
    exact finish_wraps ..
  · have hk := hk hok
    rw [finish_steps]
    simp only [State.preceded]
    omega

end Result

/-- Sequencing is associative, and a statement that is put together from a list
    executes the list. Let nothing limit the steps of a run, and let it be
    canceled at any event, before any test of a loop, or never. Then a statement
    and the one that nests the leaves of its spine to the right both run as the
    leaves do, one after the other up to the first that does not end normally:
    if these never end, neither run has a result; if they end, both runs have
    their outcome, with the same store, lines, records and events between the
    first and the last. If the outcome is normal, the two take the same number
    of steps. -/
theorem run?_executes_leaves (runId : String) (cancelAt cancelBefore : Option Nat) (store : Store)
    (s : Stmt) :
    (execAll { runId, cancelAt, cancelBefore } s.leaves { store, emitted := 1 } = none →
      run? { runId, cancelAt, cancelBefore } store s = none ∧
        run? { runId, cancelAt, cancelBefore } store (.ofList s.leaves) = none) ∧
    ∀ outcome final,
      execAll { runId, cancelAt, cancelBefore } s.leaves { store, emitted := 1 } =
          some (outcome, final) →
        ∃ r r', run? { runId, cancelAt, cancelBefore } store s = some r ∧
          run? { runId, cancelAt, cancelBefore } store (.ofList s.leaves) = some r' ∧
          r.Wraps runId s.span outcome final ∧
          r'.Wraps runId (Stmt.ofList s.leaves).span outcome final ∧
          r.SameWithin r' ∧ (outcome = .ok () → r'.steps = r.steps) := by
  have hleaves := s.leaves_ofList_leaves
  constructor
  · intro h
    exact ⟨run?_eq_none_of_execAll rfl h, run?_eq_none_of_execAll rfl (hleaves.symm ▸ h)⟩
  · intro outcome final h
    obtain ⟨r, hrun, hwraps, hsteps⟩ := run?_wraps_execAll rfl h
    obtain ⟨r', hrun', hwraps', hsteps'⟩ := run?_wraps_execAll rfl (hleaves.symm ▸ h)
    refine ⟨r, r', hrun, hrun', hwraps, hwraps', hwraps.sameWithin hwraps', fun hok => ?_⟩
    have hsteps := hsteps hok
    have hsteps' := hsteps' hok
    rw [hleaves] at hsteps'
    omega

end WhilePlus
