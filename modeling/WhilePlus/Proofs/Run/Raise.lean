import Mathlib.Data.List.Chain
import WhilePlus.Proofs.Run.Report

namespace WhilePlus

/-- The value that is on its way after a task has ended. -/
def Outcome.raised? : Outcome → Option Cell
  | .ok () => none
  | .error signal => signal.raised?

/-- The value that is on its way after a task was begun. -/
def Stage.raised? : Stage → Option Cell
  | .ended outcome => outcome.raised?
  | .replaced _ | .waiting _ => none

namespace Event

/-- The value that was thrown in an event. -/
def thrown? : Event → Option Cell
  | raised _ value => some value
  | started _ | assigned _ _ _ | printed _ _ _ | caught _ _ _ | ended _ _ => none

/-- The value that was caught in an event. -/
def caught? : Event → Option Cell
  | caught _ _ value => some value
  | started _ | assigned _ _ _ | printed _ _ _ | raised _ _ | ended _ _ => none

/-- The record that is made with an event: every caught value has one, and
    nothing else. -/
def record? (runId : String) : Event → Option Record
  | caught _ name value => some (caughtRecord runId name value)
  | started _ | assigned _ _ _ | printed _ _ _ | raised _ _ | ended _ _ => none

private theorem caught?_eq_some_iff {e : Event} {value : Cell} :
    e.caught? = some value ↔ ∃ span name, e = .caught span name value := by
  cases e <;> simp [caught?]

end Event

private theorem Outcome.raised?_eq_some_iff {outcome : Outcome} {value : Cell} :
    outcome.raised? = some value ↔ outcome = .error (.raised value) := by
  rcases outcome with (_ | _) | _ <;> simp [Outcome.raised?, Signal.raised?]

/-- Every value that was thrown in some events is caught in the next one. Only
    the last event may have thrown a value that is still on its way. -/
structure Accounted (events : List Event) (pending : Option Cell) : Prop where
  followed : events.IsChain fun e next => ∀ value ∈ e.thrown?, next.caught? = some value
  last : ∀ e ∈ events.getLast?, ∀ value ∈ e.thrown?, pending = some value

namespace Accounted

variable {events : List Event} {pending : Option Cell} {e : Event}

private theorem weaken (h : Accounted events none) (pending : Option Cell) : Accounted events pending where
  followed := h.followed
  last := by
    intro e he value hvalue
    cases h.last e he value hvalue

/-- One more event: if a value is on its way, it has to be the one that is
    caught. -/
theorem concat (h : Accounted events pending) (he : ∀ value ∈ pending, e.caught? = some value) :
    Accounted (events ++ [e]) e.thrown? where
  followed := by
    refine h.followed.append (.singleton e) ?_
    intro before hbefore next hnext value hvalue
    obtain rfl : e = next := by simpa using hnext
    exact he value (h.last before hbefore value hvalue)
  last := by
    intro last hlast value hvalue
    obtain rfl : e = last := by simpa using hlast
    exact hvalue

/-- What follows a thrown value. -/
theorem caught {before after : List Event} {span : Span} {value : Cell} {next : Event}
    (h : Accounted (before ++ .raised span value :: next :: after) pending) :
    ∃ span' name, next = .caught span' name value := by
  have hnext := (List.isChain_cons_cons.mp h.followed.right_of_append).1
  exact Event.caught?_eq_some_iff.mp (hnext value rfl)

private theorem pending_eq {before : List Event} {span : Span} {value : Cell}
    (h : Accounted (before ++ [.raised span value]) pending) : pending = some value :=
  h.last (.raised span value) (by simp) value rfl

end Accounted

section State

variable (st : State) (runId : String) (span : Span) (name : String) (value : Cell)

/-- The records in the journal of a state. -/
def State.records (st : State) : List Record :=
  st.journal.toList.filterMap Entry.record?

/-- An assignment reports its place, its target and its value. -/
@[simp] theorem State.events_assign :
    (st.assign span name value).events = st.events ++ [.assigned span name value] :=
  State.events_emit _ _

/-- A print reports its place, its value and its line. -/
@[simp] theorem State.events_print (lead : String) :
    (st.print span lead value).events = st.events ++ [.printed span value (lead ++ value.display)] :=
  State.events_emit _ _

/-- A handler reports its place, its name and the value that it caught. -/
@[simp] theorem State.events_catchValue :
    (st.catchValue runId span name value).events = st.events ++ [.caught span name value] := by
  rw [State.catchValue, State.events_emit]
  exact congrArg (· ++ _) (State.events_log st _)

/-- An event is no record. -/
@[simp] theorem State.records_emit (e : Event) : (st.emit e).records = st.records := by
  simp [State.records, State.emit, Entry.record?]

/-- A record is added behind the others. -/
@[simp] theorem State.records_log (r : Record) : (st.log r).records = st.records ++ [r] := by
  simp [State.records, State.log, Entry.record?]

end State

section Step

variable {runId : String} {task next : Task} {st mid final : State} {stage : Stage} {outcome : Outcome}

private theorem Accounted.emit {events : List Event} (h : Accounted events none) (e : Event) :
    Accounted (events ++ [e]) e.thrown? :=
  h.concat (by rintro value ⟨⟩)

/-- A task throws a value only if it ends with it. So far every value that was
    thrown must have been caught. -/
theorem Started.accounted (h : Started task st stage mid) (hst : Accounted st.events none) :
    Accounted mid.events stage.raised? := by
  cases h with
  | assigned =>
    rw [State.events_assign]
    exact hst.emit _
  | printed =>
    rw [State.events_print]
    exact hst.emit _
  | thrown =>
    rw [State.events_emit]
    exact hst.emit _
  | missing | skip | unassigned | unprinted | unthrown | yes | no | undecided | loop | first
  | attempted | entered | finished | untested => exact hst.weaken _

/-- What goes on has nothing on its way any more: the outcome before raised
    nothing, or its value was caught. -/
theorem Resumed.accounted (h : Resumed runId task outcome st (some next) final)
    (hst : Accounted st.events outcome.raised?) : Accounted final.events none := by
  cases h with
  | second | again => exact hst
  | caught value =>
    rw [State.events_catchValue]
    exact hst.concat (e := .caught ..) fun _ hvalue => hvalue

end Step

section Run

variable {cfg : Settings} {task : Task} {st final : State} {outcome : Outcome}
  {before after : Task × State}

private theorem Task.events_count (task : Task) (st : State) : (task.count st).events = st.events := by
  cases task <;> rfl

/-- After an execution a value is on its way only if it has ended with that
    value. -/
theorem Runs.accounted (h : Runs cfg task st outcome final) (hst : Accounted st.events none) :
    Accounted final.events outcome.raised? := by
  induction h with
  | refused =>
    rw [Task.events_count]
    exact hst
  | ended _ hstart =>
    rw [← Task.events_count] at hst
    exact (Task.started hstart).accounted hst
  | replaced _ hstart _ ih =>
    rw [← Task.events_count] at hst
    exact ih ((Task.started hstart).accounted hst)
  | left _ hstart _ hresume ih =>
    rw [← Task.events_count] at hst
    rw [(Task.resumed hstart hresume).state_eq]
    exact ih ((Task.started hstart).accounted hst)
  | resumed _ hstart _ hresume _ ihfirst ihnext =>
    rw [← Task.events_count] at hst
    have hlast := ihfirst ((Task.started hstart).accounted hst)
    exact ihnext ((Task.resumed hstart hresume).accounted hlast)

/-- No task begins while a value is on its way: a value that was thrown ends
    tasks until it is caught. -/
theorem Begins.accounted (h : Begins cfg before after) (hbefore : Accounted before.2.events none) :
    Accounted after.2.events none := by
  cases h with
  | replaced _ hstart | waiting _ hstart =>
    rw [← Task.events_count] at hbefore
    exact (Task.started hstart).accounted hbefore
  | resumed _ hstart hfirst hresume =>
    rw [← Task.events_count] at hbefore
    have hlast := (exec_eq_some_iff.mp hfirst).accounted ((Task.started hstart).accounted hbefore)
    exact (Task.resumed hstart hresume).accounted hlast

private theorem Reaches.accounted (h : Reaches cfg before after) (hbefore : Accounted before.2.events none) :
    Accounted after.2.events none := by
  induction h with
  | refl => exact hbefore
  | tail _ hbegins ih => exact hbegins.accounted ih

/-- A raised value leaves every task on its way in the same state, up to one
    that catches it. -/
theorem Reaches.raised {value : Cell} (h : Reaches cfg before (task, st))
    (hraised : exec cfg task st = some (.error (.raised value), final)) :
    exec cfg before.1 before.2 = some (.error (.raised value), final) ∨
      ∃ span binding handler,
        Reaches cfg before (.stmt handler, final.catchValue cfg.runId span binding value) := by
  -- By induction on the way down to the task: whatever began it ends with the same value, unless it
  -- has waited for it with a handler.
  generalize hafter : (task, st) = after at h
  induction h generalizing task st with
  | refl =>
    subst hafter
    exact .inl hraised
  | @tail mid _ hreaches hbegins ih =>
    obtain ⟨outer, start⟩ := mid
    subst hafter
    cases hbegins with
    | replaced hlet hstart => exact ih (exec_replaced hlet hstart ▸ hraised) rfl
    | resumed hlet hstart hfirst hresume =>
      exact ih (exec_resumed hlet hstart hfirst hresume ▸ hraised) rfl
    | waiting hlet hstart =>
      cases Task.started hstart with
      | first | entered => exact ih (exec_left hlet hstart hraised rfl) rfl
      | attempted => exact .inr ⟨_, _, _, hreaches.tail (.resumed hlet hstart hraised rfl)⟩

end Run

section Records

variable {runId : String} {st final : State}

/-- The records that are made with some events, in their order. -/
def recordsOf (runId : String) (events : List Event) : List Record :=
  events.filterMap (Event.record? runId)

/-- The records that some events call for, with one more event at the end. -/
@[simp] theorem recordsOf_concat (runId : String) (events : List Event) (e : Event) :
    recordsOf runId (events ++ [e]) = recordsOf runId events ++ (e.record? runId).toList := by
  rw [recordsOf, List.filterMap_append, recordsOf]
  cases h : e.record? runId <;> simp [h]

/-- A record is made with every caught value, and with nothing else. If the
    records were those of the journal before, then they still are. -/
theorem Effect.records_eq (h : Effect runId st final)
    (hst : st.records = recordsOf runId st.events) :
    final.records = recordsOf runId final.events := by
  cases h with
  | counted task => cases task <;> exact hst
  | assigned span name value =>
    rw [State.events_assign, recordsOf_concat, ← hst]
    exact (State.records_emit _ _).trans (List.append_nil _).symm
  | printed span lead value =>
    rw [State.events_print, recordsOf_concat, ← hst]
    exact (State.records_emit _ _).trans (List.append_nil _).symm
  | raised span value =>
    rw [State.events_emit, recordsOf_concat, ← hst]
    exact (State.records_emit _ _).trans (List.append_nil _).symm
  | caught span name value =>
    rw [State.events_catchValue, recordsOf_concat, ← hst]
    exact (State.records_emit _ _).trans (State.records_log st _)

private theorem Effects.records_eq (h : Effects runId st final)
    (hst : st.records = recordsOf runId st.events) :
    final.records = recordsOf runId final.events := by
  induction h with
  | refl => exact hst
  | tail _ heffect ih => exact heffect.records_eq ih

private theorem Visits.records_eq {cfg : Settings} {store : Store} {s : Stmt} {visited : State}
    (h : Visits cfg store s visited) : visited.records = recordsOf cfg.runId visited.events :=
  h.effects.records_eq rfl

/-- The end of a run makes a record of the value that it ends with, if any. -/
theorem finish_records (cfg : Settings) (span : Span) (outcome : Outcome) (st : State) :
    (finish cfg span outcome st).records =
      st.records ++ outcome.raised?.toList.map (uncaughtRecord cfg.runId) := by
  rcases outcome with (value | failure) | _
  · exact (State.records_emit _ _).trans (State.records_log st _)
  · exact (State.records_emit st _).trans (List.append_nil _).symm
  · exact (State.records_emit st _).trans (List.append_nil _).symm

end Records

section Visit

variable {cfg : Settings} {store : Store} {s : Stmt} {before : List Event} {span : Span} {value : Cell}

private theorem accounted_initial (store : Store) (s : Stmt) : Accounted (State.initial store s).events none :=
  ⟨.singleton _, by rintro e ⟨⟩ value ⟨⟩⟩

private theorem Visits.accounted {visited : State} (h : Visits cfg store s visited) :
    ∃ pending, Accounted visited.events pending := by
  obtain ⟨task, st, hreaches, rfl | ⟨outcome, hexec⟩⟩ := h
  · exact ⟨none, hreaches.accounted (accounted_initial store s)⟩
  · have hst := hreaches.accounted (accounted_initial store s)
    exact ⟨_, (exec_eq_some_iff.mp hexec).accounted hst⟩

/-- Where the last thing that a run has done is to throw a value, some task has
    just ended with it. -/
theorem Visits.raised {visited : State} (h : Visits cfg store s visited)
    (hevents : visited.events = before ++ [.raised span value]) :
    ∃ task st, Reaches cfg (.stmt s, .initial store s) (task, st) ∧
      exec cfg task st = some (.error (.raised value), visited) := by
  obtain ⟨task, st, hreaches, hvisited⟩ := h
  have hst := hreaches.accounted (accounted_initial store s)
  obtain rfl | ⟨outcome, hexec⟩ := hvisited
  · rw [hevents] at hst
    cases hst.pending_eq
  · have hfinal := (exec_eq_some_iff.mp hexec).accounted hst
    rw [hevents] at hfinal
    rw [Outcome.raised?_eq_some_iff.mp hfinal.pending_eq] at hexec
    exact ⟨task, st, hreaches, hexec⟩

private theorem Visits.caught {visited : State} {next : Event} {after : List Event}
    (h : Visits cfg store s visited)
    (hevents : before ++ .raised span value :: next :: after <+: visited.events) :
    ∃ span' name, next = .caught span' name value := by
  obtain ⟨pending, haccounted⟩ := h.accounted
  obtain ⟨rest, hrest⟩ := hevents
  rw [← hrest, List.append_assoc] at haccounted
  exact haccounted.caught

/-- After a value was thrown, more is reported: the handler is entered, or the
    run ends. -/
theorem Visits.exists_next {visited : State} (h : Visits cfg store s visited)
    (hevents : before ++ [.raised span value] <+: visited.events) :
    ∃ next, Reports cfg store s (before ++ [.raised span value, next]) := by
  obtain ⟨after, hafter⟩ := hevents
  cases after with
  | cons next rest =>
    refine ⟨next, .inl ⟨visited, h, rest, ?_⟩⟩
    rw [← hafter]
    simp
  | nil =>
    rw [List.append_nil] at hafter
    obtain ⟨task, st, hreaches, hexec⟩ := h.raised hafter.symm
    obtain htop | ⟨span', name, handler, hcaught⟩ := hreaches.raised hexec
    · have hrun := run?_eq_some_iff.mpr ⟨_, _, exec_eq_some_iff.mp htop, rfl⟩
      refine ⟨.ended s.span value, .inr ⟨_, hrun, ?_⟩⟩
      rw [finish_events, ← hafter]
      exact ⟨[], by simp [finish]⟩
    · refine ⟨.caught span' name value, .inl ⟨_, ⟨_, _, hcaught, .inl rfl⟩, ?_⟩⟩
      rw [State.events_catchValue, ← hafter]
      simp

private theorem Reports.exists_next (h : Reports cfg store s (before ++ [.raised span value])) :
    ∃ next, Reports cfg store s (before ++ [.raised span value, next]) := by
  obtain ⟨st, hvisits, hevents⟩ | ⟨r, hrun, hevents⟩ := h
  · exact hvisits.exists_next hevents
  · obtain ⟨outcome, final, hruns, rfl⟩ := run?_eq_some_iff.mp hrun
    have hvisits : Visits cfg store s final := ⟨_, _, .refl, .inr ⟨outcome, hruns.exec_eq⟩⟩
    rw [finish_events] at hevents
    obtain heq | hbefore := List.prefix_concat_iff.mp hevents
    · simp at heq
    · exact hvisits.exists_next hbefore

private theorem Reports.next_cases {next : Event} {after : List Event}
    (h : Reports cfg store s (before ++ .raised span value :: next :: after)) :
    (∃ span' name, next = .caught span' name value) ∨ next = .ended s.span value ∧ after = [] := by
  obtain ⟨st, hvisits, hevents⟩ | ⟨r, hrun, hevents⟩ := h
  · exact .inl (hvisits.caught hevents)
  · obtain ⟨outcome, final, hruns, rfl⟩ := run?_eq_some_iff.mp hrun
    have hvisits : Visits cfg store s final := ⟨_, _, .refl, .inr ⟨outcome, hruns.exec_eq⟩⟩
    rw [finish_events] at hevents
    obtain heq | hevents := List.prefix_concat_iff.mp hevents
    · -- the last event is the end of the run, so it is either the next one or comes after that
      obtain rfl | ⟨rest, last, rfl⟩ := List.eq_nil_or_concat' after
      · rw [List.append_cons] at heq
        obtain ⟨hfinal, hnext⟩ := List.append_inj' heq rfl
        have hpending := hruns.accounted (accounted_initial store s)
        rw [← hfinal] at hpending
        rw [Outcome.raised?_eq_some_iff.mp hpending.pending_eq] at hnext
        exact .inr ⟨List.singleton_inj.mp hnext, rfl⟩
      · rw [← List.cons_append, ← List.cons_append, ← List.append_assoc] at heq
        obtain ⟨hfinal, -⟩ := List.append_inj' heq rfl
        exact .inl (hvisits.caught ⟨[], (List.append_nil _).trans hfinal⟩)
    · exact .inl (hvisits.caught hevents)

end Visit

/-- Every thrown value is accounted for at once, whatever the settings, and
    whether the run ends or not. After an event that throws a value there is
    another one, and it catches this value, or it is the last event and names
    the value. The records of a run, as far as it has come, are one for each
    event that catches a value, with the variable and the value, in the order of
    the events. When the run ends, one more record stands behind these if a
    raised value has left the statement, and none otherwise. -/
theorem run?_accounts_for_raises (cfg : Settings) (store : Store) (s : Stmt) :
    (∀ before span value, Reports cfg store s (before ++ [.raised span value]) →
      (∃ next, Reports cfg store s (before ++ [.raised span value, next])) ∧
      ∀ next after, Reports cfg store s (before ++ .raised span value :: next :: after) →
        (∃ span' name, next = .caught span' name value) ∨ next = .ended s.span value ∧ after = []) ∧
    (∀ st, Visits cfg store s st → st.records = recordsOf cfg.runId st.events) ∧
    ∀ r, run? cfg store s = some r →
      ∃ outcome final, exec cfg (.stmt s) (.initial store s) = some (outcome, final) ∧
        r.records =
          recordsOf cfg.runId r.events ++ outcome.raised?.toList.map (uncaughtRecord cfg.runId) := by
  refine ⟨fun before span value h => ⟨h.exists_next, fun next after h => h.next_cases⟩,
    fun st h => h.records_eq, fun r hrun => ?_⟩
  obtain ⟨outcome, final, hruns, rfl⟩ := run?_eq_some_iff.mp hrun
  refine ⟨outcome, final, hruns.exec_eq, ?_⟩
  rw [finish_records, finish_events, recordsOf_concat, hruns.effects.records_eq rfl]
  simp [Event.record?]

end WhilePlus
