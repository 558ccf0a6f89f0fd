import WhilePlus.Proofs.CommandLine.Run
import WhilePlus.Proofs.Fixture.Verdict
import WhilePlus.Proofs.Suite.Pinning

namespace WhilePlus

section Targets

/-- How a target is found: the directory of its fixtures, and what finding it
    leaves. A suite that the manifest declares goes before a directory of that
    name. -/
inductive Locates (env : Surroundings) (manifest : Option Manifest) (cache : String)
    (st : Suite.State) (target : String) : String → Suite.State → Prop where
  | directory {entries : List (String × FileTree)}
      (hundeclared : ∀ m, manifest = some m → m.suites.lookup target = none)
      (hfound : st.disk.find target = .ok (.directory entries)) :
      Locates env manifest cache st target (st.disk.absolute target) st
  | path {m : Manifest} {spec : SuiteSpec} (hmanifest : manifest = some m)
      (hdeclared : m.suites.lookup target = some (some spec)) (hlocal : spec.isGit = false) :
      Locates env manifest cache st target (m.resolve spec.path) st
  | repository {m : Manifest} {spec : SuiteSpec} {directory : String} {final : Suite.State}
      (hmanifest : manifest = some m) (hdeclared : m.suites.lookup target = some (some spec))
      (hgit : spec.isGit = true)
      (hlocated : Suite.locate env.cloner (some cache) st m target = (final, .ok directory)) :
      Locates env manifest cache st target directory { final with records := [] }

/-- The fixtures of a target. -/
structure TargetFixtures where
  target : String
  directory : String
  fixtures : List Fixture

/-- All targets can be found, one after the other, and their fixtures can be
    read. -/
inductive Collects (env : Surroundings) (manifest : Option Manifest) (cache : String) :
    Suite.State → List String → List TargetFixtures → Suite.State → Prop where
  | nil (st : Suite.State) : Collects env manifest cache st [] [] st
  | cons {st mid final : Suite.State} {target directory : String} {rest : List String}
      {fixtures : List Fixture} {collected : List TargetFixtures}
      (hlocates : Locates env manifest cache st target directory mid)
      (hfixtures : Fixture.collect mid.disk directory = .ok fixtures)
      (hrest : Collects env manifest cache mid rest collected final) :
      Collects env manifest cache st (target :: rest) (⟨target, directory, fixtures⟩ :: collected) final

/-- A target that needs no fetching: if it is a suite from a repository, then it
    is pinned, and its checkout has the right checksum. -/
def AtHand (manifest : Option Manifest) (cache : String) (st : Suite.State) (target : String) : Prop :=
  ∀ m spec, manifest = some m → m.suites.lookup target = some (some spec) → spec.isGit = true →
    ∃ pinned, st.lock.bind (·.find? target) = some pinned ∧
      Suite.checksum st.disk (Suite.checkoutDirectory cache target pinned.version) = .ok pinned.checksum

variable {env : Surroundings} {manifest : Option Manifest} {cache : String} {st final : Suite.State}
  {target directory : String} {targets : List String} {collected : List TargetFixtures}

private theorem Locates.records_eq (h : Locates env manifest cache st target directory final)
    (hst : st.records = []) : final.records = [] := by
  cases h with
  | directory | path => exact hst
  | repository => rfl

/-- Without a cache no suite from a repository is found, not even a pinned one. -/
theorem locate_without_cache {cloner : Suite.Cloner} {m : Manifest} {spec : SuiteSpec}
    (hdeclared : (m.suites.lookup target).bind id = some spec) (hgit : spec.isGit = true) :
    ∃ e, Suite.locate cloner (some "") st m target = (st, .error e) := by
  have hfetch : ∃ e, Suite.fetchPinned cloner (some "") st target spec = (st, .error e) := ⟨_, rfl⟩
  rw [Suite.locate, hdeclared]
  dsimp only
  rw [if_neg (by simp [hgit])]
  split
  · exact hfetch
  · exact hfetch

/-- What is at hand is found without any change of the disk or the lockfile.
    Nothing may have been recorded before, so that nothing is now. -/
theorem Locates.of_atHand (h : Locates env manifest cache st target directory final)
    (hst : st.records = []) (hhand : AtHand manifest cache st target) : final = st := by
  cases h with
  | directory | path => rfl
  | repository hmanifest hdeclared hgit hlocated =>
    obtain ⟨pinned, hpinned, hverified⟩ := hhand _ _ hmanifest hdeclared hgit
    have hdeclared := congrArg (Option.bind · id) hdeclared
    -- Without a cache the suite would be fetched after all, and that would fail.
    have hcached : cache ≠ "" := by
      rintro rfl
      obtain ⟨e, herror⟩ := locate_without_cache hdeclared hgit
      rw [herror] at hlocated
      cases hlocated
    have hispinned : Suite.IsPinned (some cache) st _ target _ pinned :=
      ⟨hdeclared, hgit, hcached, hpinned⟩
    rw [hispinned.locate_of_verified hverified] at hlocated
    cases hlocated
    rw [← hst]

/-- Targets that are all at hand leave everything as it was. As for one of them,
    nothing may have been recorded before. -/
theorem Collects.of_atHand (h : Collects env manifest cache st targets collected final)
    (hst : st.records = []) (hhand : ∀ target ∈ targets, AtHand manifest cache st target) :
    final = st := by
  induction h with
  | nil => rfl
  | cons hlocates _ _ ih =>
    obtain ⟨htarget, hrest⟩ := List.forall_mem_cons.mp hhand
    obtain rfl := hlocates.of_atHand hst htarget
    exact ih hst hrest

end Targets

section Reports

/-- The lines that tell a verdict about a fixture of a target. -/
def Verdict.lines (target name : String) : Verdict → List String
  | .skipped => ["skip " ++ (target ++ "/" ++ name)]
  | .passed => ["ok   " ++ (target ++ "/" ++ name)]
  | .failed reasons => ("FAIL " ++ (target ++ "/" ++ name)) :: reasons.map ("     " ++ ·)

/-- The fixtures of a target with their verdicts. -/
structure TargetReport where
  target : String
  directory : String
  judged : List (Fixture × Verdict)

/-- What a report of a target is about. -/
def TargetReport.about (r : TargetReport) : TargetFixtures :=
  ⟨r.target, r.directory, r.judged.map Prod.fst⟩

/-- The lines of a report of a target. -/
def TargetReport.lines (r : TargetReport) : List String :=
  if r.judged = [] then ["whilep test: no fixtures found in " ++ r.directory]
  else r.judged.flatMap fun j => j.2.lines r.target j.1.name

/-- The number of each sort of verdicts. -/
def Summary.of (verdicts : List Verdict) : Summary where
  passed := verdicts.countP fun v => v matches .passed
  failed := verdicts.countP fun v => v matches .failed _
  skipped := verdicts.countP fun v => v matches .skipped

private theorem Report.lines_eq (r : Report) (target : String) :
    r.lines target = r.verdict.lines target r.name := by
  unfold Report.lines Report.verdict
  split
  · rfl
  split <;> rfl

/-- The summary of a list of verdicts and of one more. -/
theorem Summary.add_of (verdicts : List Verdict) (r : Report) :
    (Summary.of verdicts).add r = .of (verdicts ++ [r.verdict]) := by
  unfold Summary.add Report.verdict
  split
  · simp [Summary.of]
  split <;> simp [Summary.of]

private theorem Summary.total_of (verdicts : List Verdict) :
    (Summary.of verdicts).passed + (Summary.of verdicts).failed + (Summary.of verdicts).skipped =
      verdicts.length := by
  induction verdicts with
  | nil => rfl
  | cons v rest ih =>
    simp only [Summary.of, List.countP_cons, List.length_cons] at ih ⊢
    cases v <;> simp <;> omega

end Reports

section Testing

/-- What a test has written to standard output. -/
def Testing.output (t : Testing) : String :=
  String.join (t.pieces.map Piece.outputText)

/-- What a test has done so far: some fixtures have run, each under the settings
    of its number, and got verdicts, and some lines have been written. -/
structure Testing.HasReported (settings : Nat → Settings) (t : Testing)
    (judged : List (Fixture × Verdict)) (lines : List String) : Prop where
  fixtures : t.fixtures = judged.length
  summary : t.summary = .of (judged.map Prod.snd)
  output : t.output = String.join (lines.map (· ++ "\n"))
  verdicts : ∀ (k : Nat) (fx : Fixture) (v : Verdict), judged[k]? = some (fx, v) →
    v = (fx.run (settings k)).verdict

variable {env : Surroundings} {options : Options} {manifest : Option Manifest} {cache : String}
  {settings : Nat → Settings} {t : Testing} {judged : List (Fixture × Verdict)} {lines : List String}
  {target : String}

/-- A change that keeps the fixtures, the counts and the output keeps what has
    been reported. This is how writing to the error stream is passed over. -/
theorem Testing.HasReported.of_output_eq {t' : Testing} (h : t.HasReported settings judged lines)
    (hfixtures : t'.fixtures = t.fixtures) (hsummary : t'.summary = t.summary)
    (houtput : t'.output = t.output) : t'.HasReported settings judged lines :=
  ⟨hfixtures.trans h.fixtures, hsummary.trans h.summary, houtput.trans h.output, h.verdicts⟩

private theorem output_append_outputLines {t : Testing} {aside : List Piece} {more : List String}
    (haside : ∀ piece ∈ aside, piece.IsAside) :
    String.join ((t.pieces ++ aside ++ more.map Piece.outputLine).map Piece.outputText) =
      t.output ++ String.join (more.map (· ++ "\n")) := by
  have hmore : more.map (Piece.outputText ∘ Piece.outputLine) = more.map (· ++ "\n") := rfl
  rw [List.map_append, List.map_append, String.join_append, String.join_append,
    output_of_isAside haside, String.append_empty, List.map_map, hmore]
  rfl

private theorem Testing.HasReported.writeLine (h : t.HasReported settings judged lines) (line : String) :
    (t.write [.outputLine line]).HasReported settings judged (lines ++ [line]) := by
  refine ⟨h.fixtures, h.summary, ?_, h.verdicts⟩
  rw [Testing.output, Testing.write, List.map_append, String.join_append, List.map_append,
    String.join_append, ← h.output]
  rfl

private theorem Fixture.name_run (fx : Fixture) (cfg : Settings) : (fx.run cfg).name = fx.name := by
  unfold Fixture.run
  split <;> rfl

private theorem isAside_journal (r : Report) :
    ∀ piece ∈ (r.result.map (journalPieces env options)).getD [], piece.IsAside := by
  cases r.result with
  | none => exact nofun
  | some result => exact isAside_journalPieces result

/-- One fixture more: it gets its verdict, and the verdict gets its lines. -/
theorem Testing.HasReported.runFixture
    (h : t.HasReported (runSettings env options manifest) judged lines) (target : String) (fx : Fixture) :
    ∃ v, (t.runFixture env options manifest target fx).HasReported (runSettings env options manifest)
      (judged ++ [(fx, v)]) (lines ++ v.lines target fx.name) := by
  let report := fx.run (runSettings env options manifest t.fixtures)
  refine ⟨report.verdict, ?_, ?_, ?_, ?_⟩
  · rw [List.length_append, ← h.fixtures]
    rfl
  · rw [List.map_append, List.map_singleton, ← Summary.add_of, ← h.summary]
    rfl
  · have hname : report.name = fx.name := Fixture.name_run fx _
    rw [List.map_append, String.join_append, ← h.output, ← hname, ← Report.lines_eq]
    exact output_append_outputLines (isAside_journal report)
  · intro k other v hk
    rw [List.getElem?_append] at hk
    split at hk
    · exact h.verdicts k other v hk
    · next hlast =>
      rw [List.getElem?_singleton] at hk
      split at hk
      · next hzero =>
        cases hk
        -- The number of a fixture is the number of those that ran before it.
        have hk : k = t.fixtures := by
          rw [h.fixtures]
          omega
        rw [hk]
      · cases hk

/-- The fixtures of a target, one after the other. -/
theorem Testing.HasReported.runFixtures (target : String) (fixtures : List Fixture) :
    ∀ {t : Testing} {judged : List (Fixture × Verdict)} {lines : List String},
      t.HasReported (runSettings env options manifest) judged lines →
      ∃ more : List (Fixture × Verdict), more.map Prod.fst = fixtures ∧
        (fixtures.foldl (Testing.runFixture env options manifest target) t).HasReported
          (runSettings env options manifest) (judged ++ more)
          (lines ++ more.flatMap fun j => j.2.lines target j.1.name) := by
  induction fixtures with
  | nil =>
    intro t judged lines h
    exact ⟨[], rfl, by simpa using h⟩
  | cons fx rest ih =>
    intro t judged lines h
    obtain ⟨v, hfirst⟩ := h.runFixture target fx
    obtain ⟨more, hmore, hrest⟩ := ih hfirst
    exact ⟨(fx, v) :: more, by simp [hmore], by simpa using hrest⟩

/-- Running fixtures leaves the disk, the lockfile and the records of the suites
    as they are. -/
theorem Testing.suites_runFixtures (fixtures : List Fixture) (t : Testing) :
    (fixtures.foldl (Testing.runFixture env options manifest target) t).suites = t.suites := by
  induction fixtures generalizing t with
  | nil => rfl
  | cons fx rest ih => exact ih _

private theorem isAside_records (records : List Record) :
    ∀ piece ∈ records.flatMap (recordPieces env options), piece.IsAside := by
  intro piece hpiece
  obtain ⟨record, _, hpiece⟩ := List.mem_flatMap.mp hpiece
  exact isAside_recordPieces record piece hpiece

/-- What is written aside while a target is found is no output. -/
theorem Testing.output_write {aside : List Piece} (haside : ∀ piece ∈ aside, piece.IsAside) :
    (t.write aside).output = t.output := by
  rw [Testing.output, Testing.write, List.map_append, String.join_append, output_of_isAside haside,
    String.append_empty]
  rfl

private theorem Testing.locate_of_declared {m : Manifest} {final : Suite.State} {directory : String}
    (hdeclared : (m.suites.lookup target).isSome)
    (hlocated : Suite.locate env.cloner (some cache) t.suites m target = (final, .ok directory)) :
    t.locate env options (some m) cache target =
      ({ t.write (final.records.flatMap (recordPieces env options)) with
        suites := { final with records := [] } }, .ok directory) := by
  rw [Testing.locate, Option.filter_some, if_pos hdeclared]
  dsimp only
  rw [hlocated]

/-- A target that can be found is found, and what is written about this goes
    aside. -/
theorem Locates.locate_eq {directory : String} {mid : Suite.State} (options : Options)
    (h : Locates env manifest cache t.suites target directory mid) (hst : t.suites.records = []) :
    ∃ t', t.locate env options manifest cache target = (t', .ok directory) ∧ t'.suites = mid ∧
      t'.fixtures = t.fixtures ∧ t'.summary = t.summary ∧ t'.output = t.output := by
  cases h with
  | directory hundeclared hfound =>
    refine ⟨t, ?_, rfl, rfl, rfl, rfl⟩
    have hfilter : (manifest.filter fun m => (m.suites.lookup target).isSome) = none := by
      rw [Option.filter_eq_none_iff]
      intro m hm
      simp [hundeclared m hm]
    rw [Testing.locate, hfilter]
    dsimp only
    rw [hfound]
  | @path m spec hmanifest hdeclared hlocal =>
    subst hmanifest
    have hlocated : Suite.locate env.cloner (some cache) t.suites m target =
        (t.suites, .ok (m.resolve spec.path)) := by
      rw [Suite.locate, hdeclared]
      simp [hlocal]
    refine ⟨_, Testing.locate_of_declared (by simp [hdeclared]) hlocated, ?_, rfl, rfl,
      Testing.output_write (isAside_records _)⟩
    dsimp only
    rw [← hst]
  | repository hmanifest hdeclared hgit hlocated =>
    subst hmanifest
    exact ⟨_, Testing.locate_of_declared (by simp [hdeclared]) hlocated, rfl, rfl, rfl,
      Testing.output_write (isAside_records _)⟩

/-- One target more: once it is located and its fixtures are collected, each of
    them is reported in turn, or else that there are none. -/
theorem Testing.HasReported.runTarget {directory : String} {mid : Suite.State} {fixtures : List Fixture}
    (h : t.HasReported (runSettings env options manifest) judged lines)
    (hst : t.suites.records = []) (hlocates : Locates env manifest cache t.suites target directory mid)
    (hfixtures : Fixture.collect mid.disk directory = .ok fixtures) :
    ∃ (report : TargetReport) (t' : Testing), report.about = ⟨target, directory, fixtures⟩ ∧
      t.runTarget env options manifest cache target = (t', .ok ()) ∧ t'.suites = mid ∧
      t'.HasReported (runSettings env options manifest) (judged ++ report.judged)
        (lines ++ report.lines) := by
  -- Finding the target is not reported, so only its fixtures, or the line that there are none, count.
  obtain ⟨found, hlocate, rfl, hnumber, hsummary, houtput⟩ := hlocates.locate_eq options hst
  have hfound := h.of_output_eq hnumber hsummary houtput
  rw [Testing.runTarget, hlocate]
  dsimp only
  rw [hfixtures]
  cases fixtures with
  | nil =>
    refine ⟨⟨target, directory, []⟩, _, rfl, rfl, rfl, ?_⟩
    rw [List.append_nil]
    exact hfound.writeLine _
  | cons fx rest =>
    obtain ⟨more, hmore, hrest⟩ := hfound.runFixtures target (fx :: rest)
    refine ⟨⟨target, directory, more⟩, _, ?_, rfl, Testing.suites_runFixtures .., ?_⟩
    · rw [TargetReport.about, hmore]
    · have hne : more ≠ [] := by
        rintro rfl
        cases hmore
      rwa [TargetReport.lines, if_neg hne]

/-- All targets, one after the other. The induction is on how they were located,
    so each target starts from what the ones before it left. -/
theorem Testing.HasReported.runTargets {st final : Suite.State} {targets : List String}
    {collected : List TargetFixtures}
    (hcollects : Collects env manifest cache st targets collected final) (hst : st.records = []) :
    ∀ {t : Testing} {judged : List (Fixture × Verdict)} {lines : List String}, t.suites = st →
      t.HasReported (runSettings env options manifest) judged lines →
      ∃ (reports : List TargetReport) (t' : Testing), reports.map TargetReport.about = collected ∧
        t.runTargets env options manifest cache targets = (t', .ok ()) ∧ t'.suites = final ∧
        t'.HasReported (runSettings env options manifest)
          (judged ++ reports.flatMap TargetReport.judged)
          (lines ++ reports.flatMap TargetReport.lines) := by
  induction hcollects with
  | nil st =>
    intro t judged lines hsuites h
    exact ⟨[], t, rfl, rfl, hsuites, by simpa using h⟩
  | cons hlocates hfixtures hrest ih =>
    intro t judged lines hsuites h
    subst hsuites
    obtain ⟨report, mid, habout, hrun, hmid, hfirst⟩ := h.runTarget hst hlocates hfixtures
    obtain ⟨reports, t', habouts, hruns, hfinal, hlast⟩ := ih (hlocates.records_eq hst) hmid hfirst
    refine ⟨report :: reports, t', ?_, ?_, hfinal, ?_⟩
    · rw [List.map_cons, habout, habouts]
    · rw [Testing.runTargets, hrun]
      exact hruns
    · simpa using hlast

end Testing

section Command

variable {env : Surroundings} {arguments targets : List String} {options : Options} {plan : TestPlan}
  {collected : List TargetFixtures} {final : Suite.State}

/-- The verdicts of some reports, counted. -/
def summaryOf (reports : List TargetReport) : Summary :=
  .of ((reports.flatMap TargetReport.judged).map Prod.snd)

/-- Where a test starts. -/
def TestPlan.start (env : Surroundings) (plan : TestPlan) : Suite.State :=
  { disk := env.disk, lock := plan.lock }

private theorem fixtures_about (reports : List TargetReport) :
    (reports.map TargetReport.about).flatMap TargetFixtures.fixtures =
      (reports.flatMap TargetReport.judged).map Prod.fst := by
  rw [List.flatMap_map, List.map_flatMap]
  rfl

/-- A lockfile that is the same is not written. -/
theorem save_start (env : Surroundings) (plan : TestPlan) :
    Testing.save env plan.manifest plan.lock { suites := plan.start env } = .ok env.disk := by
  unfold Testing.save
  dsimp only [TestPlan.start]
  split
  · next hold hsame =>
    cases hold.symm.trans hsame
    rw [if_pos (beq_self_eq_true _)]
  · rfl

/-- What is written at the end depends on the suites alone. -/
theorem Testing.save_eq (t : Testing) (manifest : Option Manifest) (before : Option Lockfile) :
    t.save env manifest before = Testing.save env manifest before { suites := t.suites } :=
  rfl

/-- A fixture that is limited, or that ends by itself, has a result. The premise
    is needed only of a fixture that nothing limits. -/
theorem exists_run?_of_budget {fx : Fixture} {limit : Option Nat} (runId : String)
    (h : fx.budget limit = none → ∃ r, run? { runId } fx.program.store fx.program.body = some r) :
    ∃ r, run? { runId, limit := fx.budget limit } fx.program.store fx.program.body = some r := by
  cases hbudget : fx.budget limit with
  | none => exact h hbudget
  | some n =>
    obtain ⟨outcome, last, hruns⟩ :=
      exists_runs_limit runId n (.stmt fx.program.body) (.initial fx.program.store fx.program.body)
        (Nat.zero_le n)
    exact ⟨_, run?_eq_some_iff.mpr ⟨outcome, last, hruns, rfl⟩⟩

/-- The verdict of a fixture that has some number in the test. The number only
    tells which run identifier it gets; the premise is that a fixture that is
    neither skipped nor limited ends by itself. -/
theorem earns_runSettings {fx : Fixture} (options : Options) (manifest : Option Manifest) (k : Nat)
    (h : fx.skip = false → fx.budget (stepBudget options manifest) = none →
      ∃ r, run? { runId := env.runId k } fx.program.store fx.program.body = some r) :
    fx.Earns { runId := env.runId k, limit := fx.budget (stepBudget options manifest) }
      (fx.run (runSettings env options manifest k)).verdict := by
  have hsettings : runSettings env options manifest k =
      { runId := env.runId k, limit := stepBudget options manifest } := by
    rw [runSettings, stepLimit_limit]
  rw [hsettings]
  exact Fixture.earns_verdict_run { runId := env.runId k, limit := stepBudget options manifest }
    fun hskip => exists_run?_of_budget _ (h hskip)

private theorem commandLine_test {t : Testing} {disk : Disk}
    (hparse : Options.parse arguments = .ok (options, "test" :: targets))
    (hplan : TestPlan.make env targets = .ok plan)
    (hrun : Testing.runTargets env options plan.manifest plan.cache { suites := plan.start env }
      plan.targets = (t, .ok ()))
    (hsaved : t.save env plan.manifest plan.lock = .ok disk) :
    commandLine env arguments = t.finish disk := by
  have hcommand : commandLine env arguments = testCommand env options targets := by
    rw [commandLine, hparse]
    rfl
  rw [hcommand, testCommand, hplan]
  dsimp only [TestPlan.start] at hrun ⊢
  rw [hrun]
  dsimp only
  rw [hsaved]

private theorem Testing.HasReported.output_finish {settings : Nat → Settings} {t : Testing}
    {judged : List (Fixture × Verdict)} {lines : List String} (h : t.HasReported settings judged lines)
    (disk : Disk) :
    (t.finish disk).output = String.join
      ((lines ++ [(Summary.of (judged.map Prod.snd)).display]).map (· ++ "\n")) := by
  rw [← h.summary]
  exact (h.writeLine t.summary.display).output

/-- The command `test` passes exactly if every fixture does. If all targets can
    be found and their fixtures can be read and come to an end, then each
    fixture is reported once, in the order of the targets and of their fixtures,
    with the verdict that it earns under its own step limit or else that of the
    options or the project. The last line counts the verdicts, the command
    succeeds if none is a failure, and without a suite that has to be fetched
    all files stay as they are. -/
theorem test_reports_every_fixture
    (hparse : Options.parse arguments = .ok (options, "test" :: targets))
    (hplan : TestPlan.make env targets = .ok plan)
    (hcollects : Collects env plan.manifest plan.cache (plan.start env) plan.targets collected final)
    (hends : ∀ tested ∈ collected, ∀ fx ∈ tested.fixtures, fx.skip = false →
      fx.budget (stepBudget options plan.manifest) = none →
      ∀ runId, ∃ r, run? { runId } fx.program.store fx.program.body = some r)
    (hsave : (∃ target ∈ plan.targets, ¬ AtHand plan.manifest plan.cache (plan.start env) target) →
      ∃ disk, Testing.save env plan.manifest plan.lock { suites := final } = .ok disk) :
    ∃ reports : List TargetReport, reports.map TargetReport.about = collected ∧
      (∀ (k : Nat) (fx : Fixture) (v : Verdict),
        (reports.flatMap TargetReport.judged)[k]? = some (fx, v) →
        fx.Earns { runId := env.runId k, limit := fx.budget (stepBudget options plan.manifest) } v) ∧
      (commandLine env arguments).output = String.join
        ((reports.flatMap TargetReport.lines ++ [(summaryOf reports).display]).map (· ++ "\n")) ∧
      (summaryOf reports).passed + (summaryOf reports).failed + (summaryOf reports).skipped =
        (collected.flatMap TargetFixtures.fixtures).length ∧
      ((commandLine env arguments).code.toNat = 0 ↔ (summaryOf reports).failed = 0) ∧
      ((∀ target ∈ plan.targets, AtHand plan.manifest plan.cache (plan.start env) target) →
        (commandLine env arguments).disk = env.disk) := by
  have hstart : Testing.HasReported (runSettings env options plan.manifest)
      { suites := plan.start env } [] [] :=
    ⟨rfl, rfl, rfl, nofun⟩
  obtain ⟨reports, t, habout, hrun, hsuites, hreported⟩ :=
    Testing.HasReported.runTargets hcollects rfl rfl hstart
  rw [List.nil_append, List.nil_append] at hreported
  have hunfetched : (∀ target ∈ plan.targets,
      AtHand plan.manifest plan.cache (plan.start env) target) →
      Testing.save env plan.manifest plan.lock { suites := final } = .ok env.disk := by
    intro hhand
    rw [hcollects.of_atHand rfl hhand]
    exact save_start env plan
  obtain ⟨disk, hsaved⟩ : ∃ disk, Testing.save env plan.manifest plan.lock { suites := final } =
      .ok disk := by
    by_cases hhand : ∀ target ∈ plan.targets, AtHand plan.manifest plan.cache (plan.start env) target
    · exact ⟨env.disk, hunfetched hhand⟩
    · exact hsave (by simpa using hhand)
  have hanswer : commandLine env arguments = t.finish disk := by
    refine commandLine_test hparse hplan hrun ?_
    rw [Testing.save_eq, hsuites, hsaved]
  refine ⟨reports, habout, ?_, ?_, ?_, ?_, ?_⟩
  · intro k fx v hk
    rw [hreported.verdicts k fx v hk]
    have hmem : fx ∈ collected.flatMap TargetFixtures.fixtures := by
      rw [← habout, fixtures_about]
      exact List.mem_map_of_mem (List.mem_of_getElem? hk)
    obtain ⟨tested, htested, hfx⟩ := List.mem_flatMap.mp hmem
    exact earns_runSettings options plan.manifest k fun hskip hfree =>
      hends tested htested fx hfx hskip hfree (env.runId k)
  · rw [hanswer, hreported.output_finish]
    rfl
  · rw [summaryOf, Summary.total_of, ← habout, fixtures_about, List.length_map, List.length_map]
  · rw [hanswer, Testing.finish, hreported.summary, ← summaryOf]
    split <;> simp_all [ExitCode.toNat]
  · intro hhand
    rw [hanswer]
    cases hsaved.symm.trans (hunfetched hhand)
    rfl

end Command

section Twice

/-- The files of a fixture that may take one step. -/
def oneStepFiles : List (String × FileTree) :=
  [("manifest.yml", .file (Text.toBytes "max_steps: 1\n")),
    ("program.json", .file (Text.toBytes "\x7b\"type\":\"Skip\"\x7d"))]

/-- A directory that is such a fixture. -/
def oneStepProject : Surroundings where
  disk := { root := .directory [("t", .directory oneStepFiles)], directory := "/" }
  now := "2024-01-01T00:00:00Z"
  logTime := "2024-01-01T00:00:00Z"
  runId := fun _ => "run"
  cloner := fun _ => .error "repository not found"

/-- The fixture, as it is read from the files. It expects a run that completes. -/
def oneStepFixture : Fixture where
  name := "t"
  directory := "/t"
  description := ""
  skip := false
  maxSteps := 1
  programPath := "/t/program.json"
  program := ⟨.empty, .skip .zero⟩
  expect := {}

/-- The directory twice, in a place without a manifest. -/
def oneStepPlan : TestPlan := ⟨none, ["t", "t"], "", none⟩

private theorem find_oneStepProject : oneStepProject.disk.find "t" = .ok (.directory oneStepFiles) := by
  rfl

private theorem collect_oneStepProject : Fixture.collect oneStepProject.disk "/t" = .ok [oneStepFixture] := by
  decide +kernel

private theorem make_oneStepProject : TestPlan.make oneStepProject ["t", "t"] = .ok oneStepPlan := by
  have hmanifest : manifestFor oneStepProject.disk "" = .ok none := by decide +kernel
  rw [TestPlan.make, hmanifest]
  rfl

private theorem collects_oneStepProject :
    Collects oneStepProject none "" (oneStepPlan.start oneStepProject) ["t", "t"]
      [⟨"t", "/t", [oneStepFixture]⟩, ⟨"t", "/t", [oneStepFixture]⟩]
      (oneStepPlan.start oneStepProject) := by
  have hlocates : Locates oneStepProject none "" (oneStepPlan.start oneStepProject) "t" "/t"
      (oneStepPlan.start oneStepProject) :=
    .directory nofun find_oneStepProject
  exact .cons hlocates collect_oneStepProject (.cons hlocates collect_oneStepProject (.nil _))

/-- The run of the fixture meets its expectation. -/
theorem meets_oneStepFixture :
    ∃ r, run? { runId := "run", limit := some 1 } .empty (.skip .zero) = some r ∧
      r.Meets oneStepFixture.expect :=
  ⟨_, run?_eq_some_iff.mpr ⟨_, _, .ended rfl rfl, rfl⟩, rfl, rfl, nofun, nofun⟩

private theorem passed_of_earns_oneStepFixture {v : Verdict}
    (h : oneStepFixture.Earns { runId := "run", limit := some 1 } v) : v = .passed :=
  h.passed.mpr ⟨rfl, meets_oneStepFixture⟩

/-- A report about one fixture. -/
theorem TargetReport.eq_of_about {r : TargetReport} {target directory : String} {fx : Fixture}
    (h : r.about = ⟨target, directory, [fx]⟩) : ∃ v, r = ⟨target, directory, [(fx, v)]⟩ := by
  obtain ⟨_, _, judged⟩ := r
  simp only [TargetReport.about, TargetFixtures.mk.injEq] at h
  obtain ⟨rfl, rfl, hjudged⟩ := h
  obtain ⟨⟨_, v⟩, rest, rfl, rfl, hrest⟩ := List.map_eq_cons_iff.mp hjudged
  obtain rfl := List.map_eq_nil_iff.mp hrest
  exact ⟨v, rfl⟩

/-- A target that is given twice is tested twice. -/
theorem test_reports_every_fixture_twice :
    (commandLine oneStepProject ["test", "t", "t"]).output =
        "ok   t/t\nok   t/t\n2 passed, 0 failed, 0 skipped\n" ∧
      (commandLine oneStepProject ["test", "t", "t"]).code.toNat = 0 ∧
      (commandLine oneStepProject ["test", "t", "t"]).disk = oneStepProject.disk := by
  have hparse : Options.parse ["test", "t", "t"] = .ok ({}, "test" :: ["t", "t"]) := by decide
  have hhand : ∀ target ∈ oneStepPlan.targets,
      AtHand oneStepPlan.manifest oneStepPlan.cache (oneStepPlan.start oneStepProject) target := nofun
  obtain ⟨reports, habout, hearns, houtput, _, hcode, hdisk⟩ :=
    test_reports_every_fixture hparse make_oneStepProject collects_oneStepProject
      (by simp [oneStepFixture, Fixture.budget])
      (fun _ => ⟨oneStepProject.disk, save_start oneStepProject oneStepPlan⟩)
  obtain ⟨first, rest, rfl, hfirst, hrest⟩ := List.map_eq_cons_iff.mp habout
  obtain ⟨second, none, rfl, hsecond, hnone⟩ := List.map_eq_cons_iff.mp hrest
  obtain ⟨v, rfl⟩ := TargetReport.eq_of_about hfirst
  obtain ⟨w, rfl⟩ := TargetReport.eq_of_about hsecond
  obtain rfl := List.map_eq_nil_iff.mp hnone
  obtain rfl := passed_of_earns_oneStepFixture (hearns 0 oneStepFixture v rfl)
  obtain rfl := passed_of_earns_oneStepFixture (hearns 1 oneStepFixture w rfl)
  exact ⟨houtput, hcode.mpr rfl, hdisk hhand⟩

end Twice

end WhilePlus
