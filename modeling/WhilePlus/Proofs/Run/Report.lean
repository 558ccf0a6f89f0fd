import WhilePlus.Proofs.Run.Derivation
import WhilePlus.Proofs.Run.Replay

namespace WhilePlus

/-- The events of a run begin with these. -/
def Reports (cfg : Settings) (store : Store) (s : Stmt) (events : List Event) : Prop :=
  (∃ st, Visits cfg store s st ∧ events <+: st.events) ∨
    ∃ r, run? cfg store s = some r ∧ events <+: r.events

/-- An event with this number occurs in a run. -/
def Occurs (cfg : Settings) (store : Store) (s : Stmt) (k : Nat) : Prop :=
  ∃ events, Reports cfg store s events ∧ k < events.length

section Reach

variable {cfg : Settings} {before after : Task × State}

private theorem Begins.effects (h : Begins cfg before after) : Effects cfg.runId before.2 after.2 := by
  cases h with
  | replaced _ hstart => exact .head (.counted _) (Task.start_effects _ hstart)
  | waiting _ hstart => exact .head (.counted _) (Task.start_effects _ hstart)
  | resumed _ hstart hfirst hresume =>
    have hmid := Relation.ReflTransGen.head (.counted _) (Task.start_effects cfg.runId hstart)
    have hlast := (exec_eq_some_iff.mp hfirst).effects
    exact hmid.trans (hlast.trans (Task.resume_effects hstart hresume))

private theorem Reaches.effects (h : Reaches cfg before after) : Effects cfg.runId before.2 after.2 := by
  induction h with
  | refl => exact .refl
  | tail _ hbegins ih => exact ih.trans hbegins.effects

/-- What an execution that ends begins ends as well, and not after it: the final
    state of the whole extends that of the part. -/
theorem Begins.runs (h : Begins cfg before after) {outcome : Outcome} {final : State}
    (hruns : Runs cfg before.1 before.2 outcome final) :
    ∃ result last, Runs cfg after.1 after.2 result last ∧ last.Extends final := by
  cases h with
  | replaced hlet hstart => exact ⟨_, _, hruns.of_replaced hlet hstart, .refl _⟩
  | waiting hlet hstart =>
    obtain ⟨result, last, hfirst, hrest⟩ := hruns.of_waiting hlet hstart
    refine ⟨result, last, hfirst, ?_⟩
    obtain ⟨_, hresume⟩ | ⟨_, _, hresume, hnext⟩ := hrest
    · exact (Task.resume_effects hstart hresume).extends
    · exact (Task.resume_effects hstart hresume).extends.trans hnext.effects.extends
  | resumed hlet hstart hfirst hresume =>
    obtain ⟨result, last, hfirst', hrest⟩ := hruns.of_waiting hlet hstart
    obtain ⟨rfl, rfl⟩ := (exec_eq_some_iff.mp hfirst).deterministic hfirst'
    obtain ⟨_, hresume'⟩ | ⟨_, _, hresume', hnext⟩ := hrest
    · simp [hresume'] at hresume
    · simp only [hresume', Prod.mk.injEq, Option.some.injEq] at hresume
      obtain ⟨rfl, rfl⟩ := hresume
      exact ⟨_, _, hnext, .refl _⟩

private theorem Reaches.runs (h : Reaches cfg before after) {outcome : Outcome} {final : State}
    (hruns : Runs cfg before.1 before.2 outcome final) :
    ∃ result last, Runs cfg after.1 after.2 result last ∧ last.Extends final := by
  induction h with
  | refl => exact ⟨outcome, final, hruns, .refl final⟩
  | tail _ hbegins ih =>
    obtain ⟨_, _, hmid, hextends⟩ := ih
    obtain ⟨result, last, hlast, hextends'⟩ := hbegins.runs hmid
    exact ⟨result, last, hlast, hextends'.trans hextends⟩

end Reach

section Visit

variable {cfg : Settings} {store : Store} {s : Stmt} {visited : State}

/-- A state that a run passes through is reached by a chain of effects. The run
    need not end. -/
theorem Visits.effects (h : Visits cfg store s visited) :
    Effects cfg.runId (.initial store s) visited := by
  obtain ⟨task, st, hreaches, rfl | ⟨outcome, hexec⟩⟩ := h
  · exact hreaches.effects
  · exact hreaches.effects.trans (exec_eq_some_iff.mp hexec).effects

/-- A run that ends has passed through all its states by then, so what they hold
    of the journal is the beginning of the whole. -/
theorem Visits.extends (h : Visits cfg store s visited) {outcome : Outcome} {final : State}
    (hruns : Runs cfg (.stmt s) (.initial store s) outcome final) : visited.Extends final := by
  obtain ⟨task, st, hreaches, hvisited⟩ := h
  obtain ⟨result, last, hlast, hextends⟩ := hreaches.runs hruns
  rcases hvisited with rfl | ⟨outcome', hexec⟩
  · exact hlast.effects.extends.trans hextends
  · obtain ⟨_, rfl⟩ := (exec_eq_some_iff.mp hexec).deterministic hlast
    exact hextends

end Visit

section Count

variable {runId : String} {st final : State}

private theorem State.emitted_eq_emit (hst : st.emitted = st.events.length) (e : Event) :
    (st.emit e).emitted = (st.emit e).events.length := by
  rw [State.events_emit, List.length_append]
  exact congrArg (· + 1) hst

/-- Every event in the journal is counted, and nothing else. -/
theorem Effect.emitted_eq (h : Effect runId st final) (hst : st.emitted = st.events.length) :
    final.emitted = final.events.length := by
  cases h with
  | counted task => cases task <;> exact hst
  | assigned span name value => exact State.emitted_eq_emit hst _
  | printed span lead value => exact State.emitted_eq_emit hst _
  | raised span value => exact State.emitted_eq_emit hst _
  | caught span name value =>
    refine State.emitted_eq_emit ?_ _
    exact hst.trans (congrArg List.length (State.events_log st _).symm)

/-- The number of events that is kept is the number of those in the journal, if
    it was so before. -/
theorem Effects.emitted_eq (h : Effects runId st final) (hst : st.emitted = st.events.length) :
    final.emitted = final.events.length := by
  induction h with
  | refl => exact hst
  | tail _ heffect ih => exact heffect.emitted_eq ih

/-- In every state that a run passes through, the number of events that is kept
    is right. -/
theorem Visits.emitted_eq {cfg : Settings} {store : Store} {s : Stmt} {visited : State}
    (h : Visits cfg store s visited) : visited.emitted = visited.events.length :=
  h.effects.emitted_eq rfl

end Count

/-- Where a run ends, what it reports is the beginning of the events of its
    result. -/
theorem reports_iff_begins_events {cfg : Settings} {store : Store} {s : Stmt} {r : Result}
    (h : run? cfg store s = some r) {events : List Event} :
    Reports cfg store s events ↔ events <+: r.events := by
  constructor
  · rintro (⟨st, hvisits, hevents⟩ | ⟨r', hrun, hevents⟩)
    · obtain ⟨outcome, final, hruns, rfl⟩ := run?_eq_some_iff.mp h
      rw [finish_events]
      have hjournal := (hvisits.extends hruns).journal.filterMap Entry.event?
      exact hevents.trans (hjournal.trans (List.prefix_append _ _))
    · obtain rfl : r = r' := by simpa [h] using hrun
      exact hevents
  · exact fun hevents => .inr ⟨r, h, hevents⟩

end WhilePlus
