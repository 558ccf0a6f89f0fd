import Mathlib.Logic.Relation
import WhilePlus.Proofs.Run.Derivation
import WhilePlus.Proofs.Run.Stage

namespace WhilePlus

/-- One thing that the execution of a task does to the state. -/
inductive Effect (runId : String) : State → State → Prop where
  | counted {st : State} (task : Task) : Effect runId st (task.count st)
  | assigned {st : State} (span : Span) (name : String) (value : Cell) :
      Effect runId st (st.assign span name value)
  | printed {st : State} (span : Span) (lead : String) (value : Cell) :
      Effect runId st (st.print span lead value)
  | raised {st : State} (span : Span) (value : Cell) :
      Effect runId st (st.emit (.raised span value))
  | caught {st : State} (span : Span) (name : String) (value : Cell) :
      Effect runId st (st.catchValue runId span name value)

/-- Any number of effects, one after the other. -/
abbrev Effects (runId : String) : State → State → Prop :=
  Relation.ReflTransGen (Effect runId)

/-- Beginning a task has at most one effect. -/
theorem Task.start_effects (runId : String) {task : Task} {st mid : State} {stage : Stage}
    (h : task.start st = (stage, mid)) : Effects runId st mid := by
  cases Task.started h with
  | assigned _ => exact .single (.assigned ..)
  | printed _ => exact .single (.printed ..)
  | thrown _ => exact .single (.raised ..)
  | missing | skip | unassigned | unprinted | unthrown | yes | no | undecided | loop | first
  | attempted | entered | finished | untested => exact .refl

/-- Resuming a task is a chain of effects. The task must have waited for the one
    that ended. -/
theorem Task.resume_effects {runId : String} {task first : Task} {outcome : Outcome}
    {before mid st final : State} {next : Option Task}
    (hstart : task.start before = (.waiting first, mid))
    (h : task.resume runId outcome st = (next, final)) : Effects runId st final := by
  cases Task.resumed hstart h with
  | caught value => exact .single (.caught ..)
  | second | skipped | unraised | uncaught | again | aborted => exact .refl

/-- After its task is counted, every run is a chain of effects. -/
theorem Runs.effects_count {cfg : Settings} {task : Task} {st final : State} {outcome : Outcome}
    (h : Runs cfg task st outcome final) : Effects cfg.runId (task.count st) final := by
  induction h with
  | refused => exact .refl
  | ended _ hstart => exact Task.start_effects _ hstart
  | replaced _ hstart _ ih => exact (Task.start_effects _ hstart).trans (.head (.counted _) ih)
  | left _ hstart _ hresume ih =>
    exact (Task.start_effects _ hstart).trans
      ((Relation.ReflTransGen.head (.counted _) ih).trans (Task.resume_effects hstart hresume))
  | resumed _ hstart _ hresume _ ihfirst ihnext =>
    have hfirst := Relation.ReflTransGen.head (.counted _) ihfirst
    have hnext := Relation.ReflTransGen.head (.counted _) ihnext
    exact (Task.start_effects _ hstart).trans
      (hfirst.trans ((Task.resume_effects hstart hresume).trans hnext))

/-- Every run is a chain of effects. -/
theorem Runs.effects {cfg : Settings} {task : Task} {st final : State} {outcome : Outcome}
    (h : Runs cfg task st outcome final) : Effects cfg.runId st final :=
  .head (.counted task) h.effects_count

/-- One state comes after another: nothing is taken back, neither from the
    journal and the lines nor from the counters. -/
structure State.Extends (st final : State) : Prop where
  journal : st.journal.toList <+: final.journal.toList
  lines : st.lines.toList <+: final.lines.toList
  emitted : st.emitted ≤ final.emitted
  steps : st.steps ≤ final.steps
  tests : st.tests ≤ final.tests

theorem State.Extends.refl (st : State) : st.Extends st :=
  ⟨List.prefix_rfl, List.prefix_rfl, Nat.le_refl _, Nat.le_refl _, Nat.le_refl _⟩

theorem State.Extends.trans {st mid final : State} (hbefore : st.Extends mid)
    (hafter : mid.Extends final) : st.Extends final where
  journal := hbefore.journal.trans hafter.journal
  lines := hbefore.lines.trans hafter.lines
  emitted := Nat.le_trans hbefore.emitted hafter.emitted
  steps := Nat.le_trans hbefore.steps hafter.steps
  tests := Nat.le_trans hbefore.tests hafter.tests

private theorem Effect.extends {runId : String} {st final : State} (h : Effect runId st final) :
    st.Extends final := by
  cases h with
  | counted task =>
    cases task with
    | stmt s => exact { State.Extends.refl st with steps := Nat.le_succ _ }
    | loop span condition body => exact { State.Extends.refl st with tests := Nat.le_succ _ }
  | assigned | raised =>
    exact { State.Extends.refl st with
      journal := by simp [State.assign, State.write, State.emit]
      emitted := Nat.le_succ _ }
  | printed =>
    exact { State.Extends.refl st with
      journal := by simp [State.print, State.append, State.emit]
      lines := by simp [State.print, State.append, State.emit]
      emitted := Nat.le_succ _ }
  | caught =>
    exact { State.Extends.refl st with
      journal := by simp [State.catchValue, State.write, State.log, State.emit]
      emitted := Nat.le_succ _ }

/-- A chain of effects only adds to the journal, the lines and the steps. -/
theorem Effects.extends {runId : String} {st final : State} (h : Effects runId st final) :
    st.Extends final := by
  induction h with
  | refl => exact .refl st
  | tail _ heffect ih => exact ih.trans heffect.extends

end WhilePlus
