import WhilePlus.Proofs.Run.Effect

namespace WhilePlus

namespace Event

/-- The store after an event: only assigning and catching write to it. -/
def replay (store : Store) : Event → Store
  | assigned _ name value | caught _ name value => store.set name value
  | started _ | printed _ _ _ | raised _ _ | ended _ _ => store

/-- The line that an event has printed. -/
def line? : Event → Option String
  | printed _ _ text => some text
  | started _ | assigned _ _ _ | raised _ _ | caught _ _ _ | ended _ _ => none

/-- Whether an event starts a run. -/
def isStart : Event → Bool
  | started _ => true
  | assigned _ _ _ | printed _ _ _ | raised _ _ | caught _ _ _ | ended _ _ => false

/-- Whether an event ends a run. -/
def isEnd : Event → Bool
  | ended _ _ => true
  | started _ | assigned _ _ _ | printed _ _ _ | raised _ _ | caught _ _ _ => false

/-- Whether the text of an event, if it has one, ends with the value that it
    shows. -/
def ShowsValue : Event → Prop
  | printed _ value text => ∃ lead, text = lead ++ value.display
  | started _ | assigned _ _ _ | raised _ _ | caught _ _ _ | ended _ _ => True

end Event

/-- The store that some events, in their order, make of another. -/
def replay (store : Store) (events : List Event) : Store :=
  events.foldl Event.replay store

/-- The lines that some events have printed, in their order. -/
def printedLines (events : List Event) : List String :=
  events.filterMap Event.line?

/-- The events in the journal of a state. -/
def State.events (st : State) : List Event :=
  st.journal.toList.filterMap Entry.event?

/-- An event is added behind the others. -/
@[simp] theorem State.events_emit (st : State) (e : Event) : (st.emit e).events = st.events ++ [e] := by
  simp [State.events, State.emit, Entry.event?]

/-- A record is no event. -/
@[simp] theorem State.events_log (st : State) (r : Record) : (st.log r).events = st.events := by
  simp [State.events, State.log, Entry.event?]

/-- Some events tell how one state became another: they are what its journal has
    gained, and replaying them accounts for every change of the store and of the
    lines. None of them starts or ends a run. -/
structure Tells (events : List Event) (st final : State) : Prop where
  journal : final.events = st.events ++ events
  store : final.store = replay st.store events
  lines : final.lines.toList = st.lines.toList ++ printedLines events
  inner : ∀ e ∈ events, e.isStart = false ∧ e.isEnd = false
  shown : ∀ e ∈ events, e.ShowsValue

private theorem Tells.refl (st : State) : Tells [] st st where
  journal := by simp
  store := rfl
  lines := by simp [printedLines]
  inner := by simp
  shown := by simp

private theorem Tells.trans {before after : List Event} {st mid final : State}
    (hbefore : Tells before st mid) (hafter : Tells after mid final) :
    Tells (before ++ after) st final where
  journal := by rw [hafter.journal, hbefore.journal, List.append_assoc]
  store := by rw [hafter.store, hbefore.store, replay, replay, replay, List.foldl_append]
  lines := by
    rw [hafter.lines, hbefore.lines, printedLines, printedLines, printedLines,
      List.filterMap_append, List.append_assoc]
  inner := fun e he => (List.mem_append.mp he).elim (hbefore.inner e) (hafter.inner e)
  shown := fun e he => (List.mem_append.mp he).elim (hbefore.shown e) (hafter.shown e)

/-- One event tells a change that it accounts for. It must replay the store,
    give the line that was printed, if any, and show the value that was stored. -/
theorem Tells.single {e : Event} {st final : State} (hjournal : final.events = st.events ++ [e])
    (hstore : final.store = e.replay st.store)
    (hlines : final.lines.toList = st.lines.toList ++ e.line?.toList)
    (hinner : e.isStart = false ∧ e.isEnd = false) (hshown : e.ShowsValue) :
    Tells [e] st final where
  journal := hjournal
  store := hstore
  lines := by
    rw [hlines, printedLines]
    cases hline : e.line? <;> simp [hline]
  inner := by simpa using hinner
  shown := by simpa using hshown

/-- Every effect is told by the event that it emits, if any: no write without
    its event, and no event without its write. -/
theorem Effect.tells {runId : String} {st final : State} (h : Effect runId st final) :
    ∃ events, Tells events st final := by
  cases h with
  | counted task =>
    refine ⟨[], ?_⟩
    cases task with
    | stmt s => exact { Tells.refl st with }
    | loop span condition body => exact { Tells.refl st with }
  | assigned span name value =>
    refine ⟨_, .single (e := .assigned span name value) ?_ rfl ?_ ⟨rfl, rfl⟩ trivial⟩
    · exact State.events_emit ..
    · exact (List.append_nil _).symm
  | printed span lead value =>
    refine ⟨_, .single (e := .printed span value (lead ++ value.display)) ?_ rfl ?_ ⟨rfl, rfl⟩ ⟨lead, rfl⟩⟩
    · exact State.events_emit ..
    · exact Array.toList_push
  | raised span value =>
    refine ⟨_, .single (e := .raised span value) ?_ rfl ?_ ⟨rfl, rfl⟩ trivial⟩
    · exact State.events_emit ..
    · exact (List.append_nil _).symm
  | caught span name value =>
    refine ⟨_, .single (e := .caught span name value) ?_ rfl ?_ ⟨rfl, rfl⟩ trivial⟩
    · rw [State.catchValue, State.events_emit]
      exact congrArg (· ++ _) (State.events_log st _)
    · exact (List.append_nil _).symm

/-- A chain of effects tells some events, and the state at its end is what they
    say. -/
theorem Effects.tells {runId : String} {st final : State} (h : Effects runId st final) :
    ∃ events, Tells events st final := by
  induction h with
  | refl => exact ⟨[], Tells.refl st⟩
  | tail _ heffect ih =>
    obtain ⟨before, hbefore⟩ := ih
    obtain ⟨after, hafter⟩ := heffect.tells
    exact ⟨before ++ after, hbefore.trans hafter⟩

section Finish

variable (cfg : Settings) (span : Span) (outcome : Outcome) (st : State)

/-- The last event of a run is its end, with what escaped it. -/
theorem finish_events :
    (finish cfg span outcome st).events =
      st.events ++ [.ended span (finish cfg span outcome st).exception] := by
  rcases outcome with (value | failure) | _
  · change ((st.log (uncaughtRecord cfg.runId value)).emit (.ended span value)).events = _
    rw [State.events_emit, State.events_log]
    rfl
  · exact State.events_emit st _
  · exact State.events_emit st _

end Finish

/-- The events of a run are what its statement tells, between one that starts
    and one that ends the run. -/
theorem run?_tells {cfg : Settings} {store : Store} {s : Stmt} {r : Result}
    (h : run? cfg store s = some r) :
    ∃ events, r.events = .started s.span :: events ++ [.ended s.span r.exception] ∧
      r.store = replay store events ∧ r.lines = printedLines events ∧
      (∀ e ∈ events, e.isStart = false ∧ e.isEnd = false) ∧ ∀ e ∈ events, e.ShowsValue := by
  obtain ⟨outcome, final, hruns, rfl⟩ := run?_eq_some_iff.mp h
  obtain ⟨events, htells⟩ := hruns.effects.tells
  refine ⟨events, ?_, ?_, ?_, htells.inner, htells.shown⟩
  · rw [finish_events, htells.journal]
    rfl
  · rw [finish_store]
    exact htells.store
  · rw [finish_lines]
    exact htells.lines

/-- The journal of a run is faithful, whatever the settings and however the run
    ends: the final store is what the assigned and caught values, written in the
    order of their events, make of the first one, the lines are the texts of the
    printed events in their order, every text ends with the value that it shows,
    and the first and the last event, which names the uncaught value, occur
    nowhere else. -/
theorem run?_replays {cfg : Settings} {store : Store} {s : Stmt} {r : Result}
    (h : run? cfg store s = some r) :
    r.store = replay store r.events ∧ r.lines = printedLines r.events ∧
      (∀ e ∈ r.events, e.ShowsValue) ∧
      r.events.head? = some (.started s.span) ∧
      r.events.getLast? = some (.ended s.span r.exception) ∧
      r.events.countP Event.isStart = 1 ∧ r.events.countP Event.isEnd = 1 := by
  obtain ⟨events, hevents, hstore, hlines, hinner, hshown⟩ := run?_tells h
  have hstarts : events.countP Event.isStart = 0 := by
    rw [List.countP_eq_zero]
    intro e he
    simp [(hinner e he).1]
  have hends : events.countP Event.isEnd = 0 := by
    rw [List.countP_eq_zero]
    intro e he
    simp [(hinner e he).2]
  rw [hevents]
  refine ⟨?_, ?_, ?_, rfl, ?_, ?_, ?_⟩
  · rw [hstore]
    simp [replay, Event.replay]
  · rw [hlines]
    simp [printedLines, List.filterMap_cons, Event.line?]
  · simpa [or_imp, forall_and, Event.ShowsValue] using hshown
  · exact List.getLast?_concat
  · simp [List.countP_append, List.countP_cons, hstarts, Event.isStart]
  · simp [List.countP_append, List.countP_cons, hends, Event.isEnd]

/-- A statement that binds a name, raises a value and prints it once it is
    caught. -/
def Stmt.bindThrowPrint : Stmt :=
  .attempt .zero (.seq .zero (.assign .zero "x" (.int .zero 1)) (.throw .zero (.int .zero 9))) "e"
    (.print .zero "e = " (.var .zero "e"))

/-- The journal is faithful also where the step limit ends the run between a
    caught value and its handler. -/
theorem run?_replays_cut_off :
    ∃ r, run? { runId := "r", limit := some 4 } .empty .bindThrowPrint = some r ∧
      r.failure = some (.stepLimit 4) ∧ r.events.length = 5 ∧
      r.store = replay .empty r.events ∧ r.lines = printedLines r.events ∧
      r.events.getLast? = some (.ended .zero r.exception) := by
  have hrun : ∃ r, run? { runId := "r", limit := some 4 } .empty .bindThrowPrint = some r ∧
      r.failure = some (.stepLimit 4) ∧ r.events.length = 5 :=
    ⟨_, run?_eq_some_iff.mpr ⟨_, _, .resumed rfl rfl
      (.resumed rfl rfl (.ended rfl rfl) rfl (.ended rfl rfl)) rfl (.refused rfl), rfl⟩, rfl, rfl⟩
  obtain ⟨r, hrun, hfailure, hlength⟩ := hrun
  obtain ⟨hstore, hlines, _, _, hlast, _, _⟩ := run?_replays hrun
  exact ⟨r, hrun, hfailure, hlength, hstore, hlines, hlast⟩

end WhilePlus
