import WhilePlus.Proofs.Run.Report

namespace WhilePlus

/-- The names that an expression looks up. -/
def Expr.reads : Expr → List String
  | missing | int _ _ | bool _ _ => []
  | var _ name => [name]
  | binary _ _ left right => left.reads ++ right.reads

namespace Stmt

/-- The names that a statement looks up. -/
def reads : Stmt → List String
  | missing | skip _ => []
  | assign _ _ value => value.reads
  | branch _ condition yes no => condition.reads ++ (yes.reads ++ no.reads)
  | loop _ condition body => condition.reads ++ body.reads
  | seq _ first second => first.reads ++ second.reads
  | print _ _ expression | throw _ expression => expression.reads
  | attempt _ body _ handler => body.reads ++ handler.reads

/-- The names that a statement binds: those it assigns to and those it binds
    caught values to. -/
def targets : Stmt → List String
  | missing | skip _ | print _ _ _ | throw _ _ => []
  | assign _ name _ => [name]
  | branch _ _ yes no => yes.targets ++ no.targets
  | loop _ _ body => body.targets
  | seq _ first second => first.targets ++ second.targets
  | attempt _ body binding handler => binding :: (body.targets ++ handler.targets)

/-- The names that a statement mentions. -/
def names (s : Stmt) : List String :=
  s.reads ++ s.targets

end Stmt

/-- Two stores bind these names alike, or not at all. -/
def Store.AgreeOn (names : List String) (a b : Store) : Prop :=
  ∀ name ∈ names, a.get? name = b.get? name

instance (names : List String) (a b : Store) : Decidable (Store.AgreeOn names a b) :=
  inferInstanceAs (Decidable (∀ name ∈ names, a.get? name = b.get? name))

section Store

variable {names more : List String} {a b : Store}

private theorem Store.isSome_get?_set {s : Store} {other : String} (h : (s.get? other).isSome)
    (name : String) (cell : Cell) : ((s.set name cell).get? other).isSome := by
  rw [Store.get?_set]
  split
  · rfl
  · exact h

private theorem Store.AgreeOn.symm (h : Store.AgreeOn names a b) : Store.AgreeOn names b a :=
  fun name hname => (h name hname).symm

private theorem Store.AgreeOn.mono (h : Store.AgreeOn names a b) (hmore : more ⊆ names) :
    Store.AgreeOn more a b :=
  fun name hname => h name (hmore hname)

/-- Stores go on to agree when a name is bound to the same cell in both. -/
theorem Store.AgreeOn.set (h : Store.AgreeOn names a b) (name : String) (cell : Cell) :
    Store.AgreeOn names (a.set name cell) (b.set name cell) := by
  intro other hother
  rw [Store.get?_set, Store.get?_set, h other hother]

/-- The value of an expression depends on the names that it looks up. -/
theorem Store.AgreeOn.eval_eq {e : Expr} (h : Store.AgreeOn e.reads a b) :
    e.eval a = e.eval b := by
  induction e with
  | missing | int | bool => rfl
  | var span name => rw [Expr.eval, Expr.eval, h name (List.mem_singleton_self name)]
  | binary span op left right ihleft ihright =>
    rw [Expr.eval, Expr.eval, ihleft (h.mono (List.subset_append_left ..)),
      ihright (h.mono (List.subset_append_right ..))]

/-- A condition is tested alike in stores that agree on the names of what begins
    with it. -/
theorem Store.AgreeOn.test_eq {condition : Expr} (h : Store.AgreeOn (condition.reads ++ names) a b) :
    condition.test a = condition.test b := by
  rw [Expr.test, Expr.test, (h.mono (List.subset_append_left ..)).eval_eq]

end Store

namespace Task

/-- The names that a task looks up. -/
def reads : Task → List String
  | .stmt s => s.reads
  | .loop _ condition body => condition.reads ++ body.reads

/-- The names that a task binds. -/
def targets : Task → List String
  | .stmt s => s.targets
  | .loop _ _ body => body.targets

/-- A task looks up and binds no names but these. -/
structure Within (reads targets : List String) (task : Task) : Prop where
  reads : task.reads ⊆ reads
  targets : task.targets ⊆ targets

end Task

/-- The tasks with which a beginning goes on keep to these names. -/
def Stage.Within (reads targets : List String) : Stage → Prop
  | .ended _ => True
  | .replaced next => next.Within reads targets
  | .waiting first => first.Within reads targets

/-- The state with another store. -/
def State.withStore (st : State) (store : Store) : State :=
  { st with store }

section Step

variable {cfg : Settings} {runId : String} {task : Task} {st mid final : State} {stage : Stage}
  {outcome : Outcome} {next : Option Task} {reads targets : List String} {other : Store}

/-- Counting a task does not look at the store. -/
@[simp] theorem Task.count_withStore (task : Task) (st : State) (store : Store) :
    task.count (st.withStore store) = (task.count st).withStore store := by
  cases task <;> rfl

/-- The host looks at the counters only. -/
@[simp] theorem Settings.refusal?_withStore (cfg : Settings) (st : State) (store : Store)
    (task : Task) : cfg.refusal? (st.withStore store) task = cfg.refusal? st task := by
  cases task <;> rfl

/-- Beginning a task leads to tasks that keep to its names, so the names of a
    statement bound those of its whole execution. -/
theorem Started.within (h : Started task st stage mid) (htask : task.Within reads targets) :
    stage.Within reads targets := by
  obtain ⟨hreads, htargets⟩ := htask
  simp only [Task.reads, Task.targets] at hreads htargets
  cases h with
  | missing | skip | assigned | unassigned | printed | unprinted | thrown | unthrown | undecided
  | finished | untested => trivial
  | yes =>
    obtain ⟨-, hbranches⟩ := List.append_subset.mp hreads
    exact ⟨(List.append_subset.mp hbranches).1, (List.append_subset.mp htargets).1⟩
  | no =>
    obtain ⟨-, hbranches⟩ := List.append_subset.mp hreads
    exact ⟨(List.append_subset.mp hbranches).2, (List.append_subset.mp htargets).2⟩
  | loop => exact ⟨hreads, htargets⟩
  | first => exact ⟨(List.append_subset.mp hreads).1, (List.append_subset.mp htargets).1⟩
  | attempted =>
    obtain ⟨-, hparts⟩ := List.cons_subset.mp htargets
    exact ⟨(List.append_subset.mp hreads).1, (List.append_subset.mp hparts).1⟩
  | entered => exact ⟨(List.append_subset.mp hreads).2, htargets⟩

private theorem Resumed.within (h : Resumed runId task outcome st next final)
    (htask : task.Within reads targets) : ∀ task ∈ next, task.Within reads targets := by
  obtain ⟨hreads, htargets⟩ := htask
  simp only [Task.reads, Task.targets] at hreads htargets
  cases h with
  | skipped | unraised | uncaught | aborted => rintro _ ⟨⟩
  | second =>
    rintro _ ⟨⟩
    exact ⟨(List.append_subset.mp hreads).2, (List.append_subset.mp htargets).2⟩
  | caught =>
    rintro _ ⟨⟩
    obtain ⟨-, hparts⟩ := List.cons_subset.mp htargets
    exact ⟨(List.append_subset.mp hreads).2, (List.append_subset.mp hparts).2⟩
  | again =>
    rintro _ ⟨⟩
    exact ⟨hreads, htargets⟩

/-- A task begins alike in stores that agree on what it looks up, and they go on
    to agree. -/
theorem Started.of_agreeOn (h : Started task st stage mid) (hreads : task.reads ⊆ reads)
    (hagree : st.store.AgreeOn reads other) :
    ∃ last, Started task (st.withStore other) stage (mid.withStore last) ∧
      mid.store.AgreeOn reads last := by
  have htask := hagree.mono hreads
  cases h with
  | missing => exact ⟨other, .missing, hagree⟩
  | skip => exact ⟨other, .skip, hagree⟩
  | @assigned _ _ name _ value hvalue =>
    exact ⟨other.set name value, .assigned (htask.eval_eq ▸ hvalue), hagree.set name value⟩
  | unassigned hsignal => exact ⟨other, .unassigned (htask.eval_eq ▸ hsignal), hagree⟩
  | printed hvalue => exact ⟨other, .printed (htask.eval_eq ▸ hvalue), hagree⟩
  | unprinted hsignal => exact ⟨other, .unprinted (htask.eval_eq ▸ hsignal), hagree⟩
  | thrown hvalue => exact ⟨other, .thrown (htask.eval_eq ▸ hvalue), hagree⟩
  | unthrown hsignal => exact ⟨other, .unthrown (htask.eval_eq ▸ hsignal), hagree⟩
  | loop => exact ⟨other, .loop, hagree⟩
  | first => exact ⟨other, .first, hagree⟩
  | attempted => exact ⟨other, .attempted, hagree⟩
  | yes htest => exact ⟨other, .yes (htask.test_eq ▸ htest), hagree⟩
  | no htest => exact ⟨other, .no (htask.test_eq ▸ htest), hagree⟩
  | undecided htest => exact ⟨other, .undecided (htask.test_eq ▸ htest), hagree⟩
  | entered htest => exact ⟨other, .entered (htask.test_eq ▸ htest), hagree⟩
  | finished htest => exact ⟨other, .finished (htask.test_eq ▸ htest), hagree⟩
  | untested htest => exact ⟨other, .untested (htask.test_eq ▸ htest), hagree⟩

private theorem Resumed.of_agreeOn (h : Resumed runId task outcome st next final)
    (hagree : st.store.AgreeOn reads other) :
    ∃ last, Resumed runId task outcome (st.withStore other) next (final.withStore last) ∧
      final.store.AgreeOn reads last := by
  cases h with
  | second => exact ⟨other, .second, hagree⟩
  | skipped signal => exact ⟨other, .skipped signal, hagree⟩
  | @caught _ _ _ _ binding value =>
    exact ⟨other.set binding value, .caught value, hagree.set binding value⟩
  | unraised => exact ⟨other, .unraised, hagree⟩
  | uncaught failure => exact ⟨other, .uncaught failure, hagree⟩
  | again => exact ⟨other, .again, hagree⟩
  | aborted signal => exact ⟨other, .aborted signal, hagree⟩

/-- Only the targets of a task are bound when it begins. -/
theorem Started.get?_eq (h : Started task st stage mid) {name : String} (hname : name ∉ task.targets) :
    mid.store.get? name = st.store.get? name := by
  cases h with
  | assigned => exact (Store.get?_set ..).trans (if_neg (List.ne_of_not_mem_cons hname))
  | missing | skip | unassigned | printed | unprinted | thrown | unthrown | yes | no | undecided
  | loop | first | attempted | entered | finished | untested => rfl

private theorem Resumed.get?_eq (h : Resumed runId task outcome st next final) {name : String}
    (hname : name ∉ task.targets) : final.store.get? name = st.store.get? name := by
  cases h with
  | caught => exact (Store.get?_set ..).trans (if_neg (List.ne_of_not_mem_cons hname))
  | second | skipped | unraised | uncaught | again | aborted => rfl

end Step

section Run

variable {cfg : Settings} {task : Task} {st mid final : State} {stage : Stage} {outcome : Outcome}
  {reads targets : List String} {other : Store}

private theorem Task.start_of_agreeOn (h : task.start (task.count st) = (stage, mid))
    (htask : task.Within reads targets) (hagree : st.store.AgreeOn reads other) :
    ∃ last, task.start (task.count (st.withStore other)) = (stage, mid.withStore last) ∧
      mid.store.AgreeOn reads last ∧ stage.Within reads targets := by
  rw [← Task.store_count task st] at hagree
  obtain ⟨last, hstarted, hlast⟩ := (Task.started h).of_agreeOn htask.reads hagree
  rw [Task.count_withStore]
  exact ⟨last, hstarted.start_eq, hlast, (Task.started h).within htask⟩

private theorem Task.resume_of_agreeOn {first : Task} {before : State} {next : Option Task}
    (hstart : task.start before = (.waiting first, mid))
    (h : task.resume cfg.runId outcome st = (next, final)) (htask : task.Within reads targets)
    (hagree : st.store.AgreeOn reads other) :
    ∃ last, task.resume cfg.runId outcome (st.withStore other) = (next, final.withStore last) ∧
      final.store.AgreeOn reads last ∧ ∀ task ∈ next, task.Within reads targets := by
  have hresumed := Task.resumed hstart h
  obtain ⟨last, hother, hlast⟩ := hresumed.of_agreeOn hagree
  exact ⟨last, hother.resume_eq, hlast, hresumed.within htask⟩

/-- An execution has a twin in every store that agrees on what it looks up: the
    two differ in nothing but what other names are bound to. -/
theorem Runs.of_agreeOn (h : Runs cfg task st outcome final) (htask : task.Within reads targets)
    (hagree : st.store.AgreeOn reads other) :
    ∃ last, Runs cfg task (st.withStore other) outcome (final.withStore last) ∧
      final.store.AgreeOn reads last := by
  -- By induction on the derivation; the twin is at the same rule all the time, since the refusals, the
  -- stages and the outcomes are the same, and each rule hands its names on to the next.
  induction h generalizing other with
  | @refused task st _ hrefused =>
    refine ⟨other, ?_, by rwa [Task.store_count]⟩
    rw [← Task.count_withStore]
    exact .refused (by simpa using hrefused)
  | ended hlet hstart =>
    obtain ⟨last, hstart, hlast, -⟩ := Task.start_of_agreeOn hstart htask hagree
    exact ⟨last, .ended (by simpa using hlet) hstart, hlast⟩
  | replaced hlet hstart _ ih =>
    obtain ⟨_, hstart, hmid, hnext⟩ := Task.start_of_agreeOn hstart htask hagree
    obtain ⟨last, hruns, hlast⟩ := ih hnext hmid
    exact ⟨last, .replaced (by simpa using hlet) hstart hruns, hlast⟩
  | left hlet hstart _ hresume ih =>
    obtain ⟨_, hstart', hmid, hfirst⟩ := Task.start_of_agreeOn hstart htask hagree
    obtain ⟨_, hruns, hended⟩ := ih hfirst hmid
    obtain ⟨last, hresume, hlast, -⟩ := Task.resume_of_agreeOn hstart hresume htask hended
    exact ⟨last, .left (by simpa using hlet) hstart' hruns hresume, hlast⟩
  | resumed hlet hstart _ hresume _ ihfirst ihnext =>
    obtain ⟨_, hstart', hmid, hfirst⟩ := Task.start_of_agreeOn hstart htask hagree
    obtain ⟨_, hruns, hended⟩ := ihfirst hfirst hmid
    obtain ⟨_, hresume, hagain, hnext⟩ := Task.resume_of_agreeOn hstart hresume htask hended
    obtain ⟨last, hnextRuns, hlast⟩ := ihnext (hnext _ rfl) hagain
    exact ⟨last, .resumed (by simpa using hlet) hstart' hruns hresume hnextRuns, hlast⟩

private theorem Task.start_get?_eq (h : task.start (task.count st) = (stage, mid))
    (htask : task.Within reads targets) {name : String} (hname : name ∉ targets) :
    mid.store.get? name = st.store.get? name ∧ stage.Within reads targets := by
  have hmid := (Task.started h).get?_eq (fun hmem => hname (htask.targets hmem))
  rw [Task.store_count] at hmid
  exact ⟨hmid, (Task.started h).within htask⟩

private theorem Task.resume_get?_eq {first : Task} {before : State} {next : Option Task}
    (hstart : task.start before = (.waiting first, mid))
    (h : task.resume cfg.runId outcome st = (next, final)) (htask : task.Within reads targets)
    {name : String} (hname : name ∉ targets) :
    final.store.get? name = st.store.get? name ∧ ∀ task ∈ next, task.Within reads targets := by
  have hresumed := Task.resumed hstart h
  exact ⟨hresumed.get?_eq (fun hmem => hname (htask.targets hmem)), hresumed.within htask⟩

/-- Everything but its targets is bound after an execution as it was before.
    This is the frame of a task, whichever way it ends. -/
theorem Runs.get?_eq (h : Runs cfg task st outcome final) (htask : task.Within reads targets)
    {name : String} (hname : name ∉ targets) : final.store.get? name = st.store.get? name := by
  induction h with
  | refused => rw [Task.store_count]
  | ended _ hstart => exact (Task.start_get?_eq hstart htask hname).1
  | replaced _ hstart _ ih =>
    obtain ⟨hmid, hnext⟩ := Task.start_get?_eq hstart htask hname
    exact (ih hnext).trans hmid
  | left _ hstart _ hresume ih =>
    obtain ⟨hmid, hfirst⟩ := Task.start_get?_eq hstart htask hname
    obtain ⟨hfinal, -⟩ := Task.resume_get?_eq hstart hresume htask hname
    exact hfinal.trans ((ih hfirst).trans hmid)
  | resumed _ hstart _ hresume _ ihfirst ihnext =>
    obtain ⟨hmid, hfirst⟩ := Task.start_get?_eq hstart htask hname
    have hlast := (ihfirst hfirst).trans hmid
    obtain ⟨hagain, hnext⟩ := Task.resume_get?_eq hstart hresume htask hname
    exact (ihnext (hnext _ rfl)).trans (hagain.trans hlast)

end Run

/-- No effect takes back a binding. -/
theorem Effect.isSome_get? {runId : String} {st final : State} (h : Effect runId st final)
    {name : String} (hbound : (st.store.get? name).isSome) : (final.store.get? name).isSome := by
  cases h with
  | counted task => rwa [Task.store_count]
  | assigned | caught => exact Store.isSome_get?_set hbound _ _
  | printed | raised => exact hbound

private theorem Effects.isSome_get? {runId : String} {st final : State} (h : Effects runId st final)
    {name : String} (hbound : (st.store.get? name).isSome) : (final.store.get? name).isSome := by
  induction h with
  | refl => exact hbound
  | tail _ heffect ih => exact heffect.isSome_get? ih

section Reach

variable {cfg : Settings} {before after : Task × State} {reads targets : List String} {other : Store}

/-- Twins begin the same tasks. They may differ in what is bound to names that
    are not read, and they still agree on the ones that are. -/
theorem Begins.of_agreeOn (h : Begins cfg before after) (htask : before.1.Within reads targets)
    (hagree : before.2.store.AgreeOn reads other) :
    ∃ last, Begins cfg (before.1, before.2.withStore other) (after.1, after.2.withStore last) ∧
      after.2.store.AgreeOn reads last ∧ after.1.Within reads targets := by
  cases h with
  | replaced hlet hstart =>
    obtain ⟨last, hstart, hlast, hnext⟩ := Task.start_of_agreeOn hstart htask hagree
    exact ⟨last, .replaced (by simpa using hlet) hstart, hlast, hnext⟩
  | waiting hlet hstart =>
    obtain ⟨last, hstart, hlast, hfirst⟩ := Task.start_of_agreeOn hstart htask hagree
    exact ⟨last, .waiting (by simpa using hlet) hstart, hlast, hfirst⟩
  | resumed hlet hstart hexec hresume =>
    obtain ⟨_, hstart', hmid, hfirst⟩ := Task.start_of_agreeOn hstart htask hagree
    obtain ⟨_, hruns, hended⟩ := (exec_eq_some_iff.mp hexec).of_agreeOn hfirst hmid
    obtain ⟨last, hresume, hlast, hnext⟩ := Task.resume_of_agreeOn hstart hresume htask hended
    exact ⟨last, .resumed (by simpa using hlet) hstart' hruns.exec_eq hresume, hlast, hnext _ rfl⟩

private theorem Reaches.of_agreeOn (h : Reaches cfg before after) (htask : before.1.Within reads targets)
    (hagree : before.2.store.AgreeOn reads other) :
    ∃ last, Reaches cfg (before.1, before.2.withStore other) (after.1, after.2.withStore last) ∧
      after.2.store.AgreeOn reads last ∧ after.1.Within reads targets := by
  induction h with
  | refl => exact ⟨other, .refl, hagree, htask⟩
  | tail _ hbegins ih =>
    obtain ⟨_, hreaches, hmid, hnext⟩ := ih
    obtain ⟨last, hbegins, hlast, hafter⟩ := hbegins.of_agreeOn hnext hmid
    exact ⟨last, hreaches.tail hbegins, hlast, hafter⟩

end Reach

/-- Two results that differ at most in what names other than these are bound to. -/
def Result.AlikeOn (names : List String) (r r' : Result) : Prop :=
  r' = { r with store := r'.store } ∧ r.store.AgreeOn names r'.store

section Result

variable {cfg : Settings} {store store' : Store} {s : Stmt} {names : List String}

private theorem Task.within_names (s : Stmt) : (Task.stmt s).Within s.names s.targets :=
  ⟨List.subset_append_left .., List.Subset.refl _⟩

private theorem finish_withStore (cfg : Settings) (span : Span) (outcome : Outcome) (st : State)
    (store : Store) :
    finish cfg span outcome (st.withStore store) =
      { finish cfg span outcome st with store := store } := by
  rcases outcome with (_ | _) | _ <;> rfl

private theorem run?_some_of_agreeOn {r : Result} (h : run? cfg store s = some r)
    (hagree : store.AgreeOn s.names store') :
    ∃ r', run? cfg store' s = some r' ∧ r.AlikeOn s.names r' := by
  obtain ⟨outcome, final, hruns, rfl⟩ := run?_eq_some_iff.mp h
  obtain ⟨last, hruns, hlast⟩ := hruns.of_agreeOn (Task.within_names s) hagree
  refine ⟨_, run?_eq_some_iff.mpr ⟨outcome, _, hruns, rfl⟩, ?_⟩
  rw [finish_withStore]
  exact ⟨rfl, by rwa [finish_store]⟩

private theorem reports_of_agreeOn {events : List Event} (h : Reports cfg store s events)
    (hagree : store.AgreeOn s.names store') : Reports cfg store' s events := by
  obtain ⟨_, ⟨task, st, hreaches, hvisited⟩, hevents⟩ | ⟨r, hrun, hevents⟩ := h
  · obtain ⟨last, hreaches, hlast, htask⟩ := hreaches.of_agreeOn (Task.within_names s) hagree
    obtain rfl | ⟨outcome, hexec⟩ := hvisited
    · exact .inl ⟨_, ⟨task, _, hreaches, .inl rfl⟩, hevents⟩
    · obtain ⟨ended, hruns, -⟩ := (exec_eq_some_iff.mp hexec).of_agreeOn htask hlast
      exact .inl ⟨_, ⟨task, _, hreaches, .inr ⟨outcome, hruns.exec_eq⟩⟩, hevents⟩
  · obtain ⟨r', hrun', hrest, -⟩ := run?_some_of_agreeOn hrun hagree
    refine .inr ⟨r', hrun', ?_⟩
    rw [hrest]
    exact hevents

end Result

/-- A run has to do with the names that its statement mentions, whatever its
    settings. From another store that agrees on them it has the same result, up
    to what other names are bound to, or does not end either, and reports the
    same events. Nothing but the targets of the statement is bound anew, and
    nothing that was bound is ever unbound. -/
theorem run?_confined_to_names (cfg : Settings) (store : Store) (s : Stmt) :
    (∀ store', store.AgreeOn s.names store' →
        Option.Rel (Result.AlikeOn s.names) (run? cfg store s) (run? cfg store' s) ∧
          ∀ events, Reports cfg store s events ↔ Reports cfg store' s events) ∧
      ∀ r, run? cfg store s = some r →
        (∀ name, name ∉ s.targets → r.store.get? name = store.get? name) ∧
          ∀ name, (store.get? name).isSome → (r.store.get? name).isSome := by
  constructor
  · intro store' hagree
    refine ⟨?_, fun events =>
      ⟨fun h => reports_of_agreeOn h hagree, fun h => reports_of_agreeOn h hagree.symm⟩⟩
    cases hrun : run? cfg store s with
    | some r =>
      obtain ⟨r', hrun', halike⟩ := run?_some_of_agreeOn hrun hagree
      rw [hrun']
      exact .some halike
    | none =>
      cases hrun' : run? cfg store' s with
      | none => exact .none
      | some r' =>
        obtain ⟨_, hback, -⟩ := run?_some_of_agreeOn hrun' hagree.symm
        rw [hrun] at hback
        cases hback
  · intro r hrun
    obtain ⟨outcome, final, hruns, rfl⟩ := run?_eq_some_iff.mp hrun
    rw [finish_store]
    exact ⟨fun name hname => hruns.get?_eq (Task.within_names s) hname,
      fun name hbound => hruns.effects.isSome_get? hbound⟩

/-- A binding that the statement does not mention makes no difference, and is
    still there at the end. -/
theorem run?_confined_to_names_spare :
    ∃ r r', run? { runId := "r" } (.ofList [("y", some (.int 1))]) .bindThrowPrint = some r ∧
      run? { runId := "r" } .empty .bindThrowPrint = some r' ∧ r.events.length = 6 ∧
      r'.events = r.events ∧ r'.store.get? "x" = r.store.get? "x" ∧
      r.store.get? "y" = some (some (.int 1)) ∧ r'.store.get? "y" = none := by
  have hrun : ∃ r, run? { runId := "r" } (.ofList [("y", some (.int 1))]) .bindThrowPrint = some r ∧
      r.events.length = 6 :=
    ⟨_, run?_eq_some_iff.mpr ⟨_, _, .resumed rfl rfl
      (.resumed rfl rfl (.ended rfl rfl) rfl (.ended rfl rfl)) rfl (.ended rfl rfl), rfl⟩, rfl⟩
  obtain ⟨r, hrun, hlength⟩ := hrun
  obtain ⟨hdepends, hchanges⟩ :=
    run?_confined_to_names { runId := "r" } (.ofList [("y", some (.int 1))]) .bindThrowPrint
  have halike := (hdepends .empty (by decide)).1
  rw [hrun] at halike
  generalize hrun' : run? { runId := "r" } .empty .bindThrowPrint = result at halike
  obtain @⟨_, r', hrest, hstore⟩ := halike
  have hchanges' := (run?_confined_to_names { runId := "r" } .empty .bindThrowPrint).2 r' hrun'
  exact ⟨r, r', hrun, rfl, hlength, by rw [hrest]; rfl, (hstore "x" (by decide)).symm,
    (hchanges r hrun).1 "y" (by decide), hchanges'.1 "y" (by decide)⟩

end WhilePlus
