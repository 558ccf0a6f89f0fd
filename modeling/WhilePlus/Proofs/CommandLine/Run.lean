import WhilePlus.CommandLine.Command
import WhilePlus.Proofs.Lockfile.Order
import WhilePlus.Proofs.Program.Safety
import WhilePlus.Proofs.Run.Limit
import WhilePlus.Proofs.Store.Bindings

namespace WhilePlus

section Invocation

/-- The number of steps that a run may take, if it is limited: the one that was
    asked for, where zero lifts the limit, or else the one of the project. -/
def stepBudget (options : Options) (manifest : Option Manifest) : Option Nat :=
  match options.maxSteps, manifest with
  | some 0, _ => none
  | some n, _ => some n
  | none, some m => if 0 < m.maxSteps then some m.maxSteps.toNat else none
  | none, none => none

/-- The words that are commands. -/
def commandWords : List String :=
  ["--help", "-h", "help", "--version", "-V", "version", "run", "test", "suites"]

/-- Arguments without options that ask for one program to be run; the command
    may be left out. -/
inductive AsksToRun : List String → String → Prop where
  | command (argument : String) : AsksToRun ["run", argument] argument
  | bare {argument : String} (hword : argument ∉ commandWords) : AsksToRun [argument] argument

/-- A command line that gets as far as running a program, with the options it
    gives and the manifest that the program belongs to, if any. -/
inductive RunsProgram (env : Surroundings) (arguments : List String) (options : Options)
    (manifest : Option Manifest) (p : Program) : Prop where
  | intro {rest : List String} {argument : String}
      (hparse : Options.parse arguments = .ok (options, rest)) (hasks : AsksToRun rest argument)
      (hmanifest : manifestFor env.disk argument = .ok manifest)
      (hprogram : programFor env manifest argument = .ok p) :
      RunsProgram env arguments options manifest p

variable {env : Surroundings} {options : Options} {manifest : Option Manifest} {p : Program}

/-- The number of steps that the options and the manifest come to is the budget
    of the run. A number that is not positive limits nothing. -/
theorem stepLimit_limit (options : Options) (manifest : Option Manifest) :
    stepLimit (options.limit (manifest.map (·.maxSteps))) = stepBudget options manifest := by
  unfold Options.limit stepBudget
  cases options.maxSteps with
  | some n => cases n <;> simp [stepLimit]
  | none => cases manifest <;> simp [stepLimit]

private theorem command_of_asksToRun {rest : List String} {argument : String} (h : AsksToRun rest argument) :
    command env options rest = runCommand env options [argument] := by
  cases h with
  | command => rfl
  | bare hword =>
    unfold command
    dsimp only
    split <;> first | rfl | exact absurd (by decide) hword

/-- What the command answers is made of the run alone, under the settings that
    the options and the manifest give. -/
theorem RunsProgram.commandLine_eq {arguments : List String}
    (h : RunsProgram env arguments options manifest p) :
    commandLine env arguments =
      let r := commandRun env options manifest p
      ⟨r.exitCode, runPieces env options r, env.disk⟩ := by
  obtain ⟨hparse, hasks, hmanifest, hprogram⟩ := h
  unfold commandLine
  rw [hparse]
  dsimp only
  rw [command_of_asksToRun hasks, runCommand, hmanifest, ok_bind, hprogram]
  rfl

private theorem Program.wellFormed_of_parse {bytes : List UInt8} {format : Format}
    (h : Program.parse bytes format = .ok p) : p.body.WellFormed ∧ p.store.Full := by
  obtain ⟨d, _, hd⟩ := bind_eq_ok_iff.mp h
  exact Program.ofDocument_wellFormed hd

private theorem Program.wellFormed_of_load {d : Disk} {path place : String}
    (h : Program.load d path = .ok (place, p)) : p.body.WellFormed ∧ p.store.Full := by
  unfold Program.load at h
  split at h
  · cases h
  · obtain ⟨bytes, _, h⟩ := bind_eq_ok_iff.mp h
    obtain ⟨program, hprogram, h⟩ := bind_eq_ok_iff.mp h
    cases h
    exact Program.wellFormed_of_parse (within_eq_ok_iff.mp hprogram)

/-- Wherever a program comes from, it is a whole tree on a full store. -/
theorem wellFormed_of_programFor {argument : String} (h : programFor env manifest argument = .ok p) :
    p.body.WellFormed ∧ p.store.Full := by
  have hload : ∀ path, (Program.load env.disk path).map Prod.snd = .ok p →
      p.body.WellFormed ∧ p.store.Full := by
    intro path hpath
    obtain ⟨⟨place, program⟩, hloaded, rfl⟩ := map_eq_ok_iff.mp hpath
    exact Program.wellFormed_of_load hloaded
  unfold programFor at h
  split at h
  · exact Program.wellFormed_of_parse (within_eq_ok_iff.mp h)
  split at h
  · exact hload _ h
  split at h
  · exact hload _ h
  · cases h

private theorem RunsProgram.wellFormed {arguments : List String}
    (h : RunsProgram env arguments options manifest p) : p.body.WellFormed ∧ p.store.Full := by
  obtain ⟨_, _, _, hprogram⟩ := h
  exact wellFormed_of_programFor hprogram

end Invocation

section Ending

variable {runId : String} {limit : Option Nat} {store : Store} {s : Stmt} {outcome : Outcome}
  {final : State}

/-- How the run of a whole tree ends: completely or with a value that escapes,
    within the steps that it may take, or with the first step beyond them. -/
inductive Ending (limit : Option Nat) (final : State) : Outcome → Prop where
  | completed (hroom : ∀ n, limit = some n → final.steps ≤ n) : Ending limit final (.ok ())
  | uncaught (v : Value) (hroom : ∀ n, limit = some n → final.steps ≤ n) :
      Ending limit final (.error (.raised (some v)))
  | exceeded {n : Nat} (hlimit : limit = some n) (hsteps : n < final.steps) :
      Ending limit final (.error (.failed (.stepLimit n)))

private theorem Runs.ending (h : Runs { runId, limit } (.stmt s) (.initial store s) outcome final)
    (hs : s.WellFormed) (hfull : store.Full) : Ending limit final outcome := by
  have hsteps : ∀ n, limit = some n →
      outcome.Limited ∧ final.steps = n + 1 ∨ ¬ outcome.Limited ∧ final.steps ≤ n := by
    rintro n rfl
    exact h.steps_limit (Nat.zero_le n)
  have hroom : ¬ outcome.Limited → ∀ n, limit = some n → final.steps ≤ n := by
    intro hfree n hlimit
    exact ((hsteps n hlimit).resolve_left fun hcut => hfree hcut.1).2
  cases (h.safe hs hfull).1 with
  | done => exact .completed (hroom (by rintro ⟨_, ⟨⟩⟩))
  | raised hraises =>
    obtain ⟨v, rfl⟩ := hraises
    exact .uncaught v (hroom (by rintro ⟨_, ⟨⟩⟩))
  | refused hrefused =>
    -- Nothing is canceled here, so the host refuses for the limit only.
    cases Settings.refusal?_ofSettings hrefused with
    | stepLimit hlimit =>
      obtain ⟨_, hcut⟩ | ⟨hfree, _⟩ := hsteps _ hlimit
      · exact .exceeded hlimit (by omega)
      · exact absurd ⟨_, rfl⟩ hfree
    | canceled hcancel => simp at hcancel

/-- The lines of a run are those that its events have printed. -/
theorem Runs.lines_eq {cfg : Settings} (h : Runs cfg (.stmt s) (.initial store s) outcome final) :
    final.lines.toList = printedLines final.events := by
  obtain ⟨events, htells⟩ := h.effects.tells
  rw [htells.lines, htells.journal]
  rfl

end Ending

section Writing

/-- Whether a piece is a line that lists a store. -/
def Piece.isStoreLine (piece : Piece) : Bool :=
  "store: ".toList.isPrefixOf piece.errorText.toList

/-- The line that lists some bindings. -/
def storeLine (bindings : List (String × Cell)) : Piece :=
  .errorLine ("store: \x7b" ++
    ", ".intercalate (bindings.map fun b => b.1 ++ ": " ++ b.2.display) ++ "\x7d")

variable {env : Surroundings} {options : Options}

/-- What goes to standard error and lists no store. -/
def Piece.IsAside (piece : Piece) : Prop :=
  piece.outputText = "" ∧ piece.isStoreLine = false

private theorem isAside_errorLine {text : String} {c : Char} (h : text.toList.head? = some c) (hc : c ≠ 's') :
    (Piece.errorLine text).IsAside := by
  refine ⟨rfl, ?_⟩
  obtain ⟨rest, hrest⟩ := List.head?_eq_some_iff.mp h
  simp [Piece.isStoreLine, Piece.errorLine, Piece.errorText, String.toList_append, hrest,
    List.isPrefixOf, hc.symm]

/-- Log records are written beside the output, at every level. -/
theorem isAside_recordPieces (r : Record) : ∀ piece ∈ recordPieces env options r, piece.IsAside := by
  intro piece hpiece
  unfold recordPieces at hpiece
  split at hpiece
  · obtain rfl := List.mem_singleton.mp hpiece
    exact isAside_errorLine (c := 't') (by simp [Record.render, String.toList_append]) (by decide)
  · cases hpiece

/-- What the journal of a run has to say is written beside the output, so the
    options that ask for it do not change the output. -/
theorem isAside_journalPieces (r : Result) : ∀ piece ∈ journalPieces env options r, piece.IsAside := by
  intro piece hpiece
  obtain ⟨entry, _, hpiece⟩ := List.mem_flatMap.mp hpiece
  cases entry with
  | record record => exact isAside_recordPieces record piece hpiece
  | event e =>
    simp only [entryPieces] at hpiece
    split at hpiece
    · obtain rfl := List.mem_singleton.mp hpiece
      exact isAside_errorLine (c := 't') (by simp [TraceLine.render, String.toList_append]) (by decide)
    · cases hpiece

private theorem isAside_verdict (r : Result) : ∀ piece ∈ r.verdict, piece.IsAside := by
  intro piece hpiece
  unfold Result.verdict at hpiece
  split at hpiece
  · obtain rfl := List.mem_singleton.mp hpiece
    exact isAside_errorLine (c := 'w') (by simp [String.toList_append]) (by decide)
  · obtain rfl := List.mem_singleton.mp hpiece
    exact isAside_errorLine (c := 'u') (by simp [String.toList_append]) (by decide)
  · cases hpiece

/-- Of what is written aside nothing is output. -/
theorem output_of_isAside {pieces : List Piece} (h : ∀ piece ∈ pieces, piece.IsAside) :
    String.join (pieces.map Piece.outputText) = "" := by
  induction pieces with
  | nil => rfl
  | cons piece rest ih =>
    obtain ⟨hpiece, hrest⟩ := List.forall_mem_cons.mp h
    rw [List.map_cons, String.join_cons, hpiece.1, ih hrest]
    rfl

private theorem filter_of_isAside {pieces : List Piece} (h : ∀ piece ∈ pieces, piece.IsAside) :
    pieces.filter Piece.isStoreLine = [] := by
  rw [List.filter_eq_nil_iff]
  intro piece hpiece
  rw [(h piece hpiece).2]
  exact Bool.false_ne_true

private theorem output_runPieces (env : Surroundings) (options : Options) (r : Result) :
    String.join ((runPieces env options r).map Piece.outputText) = renderLog r.lines := by
  simp only [runPieces, List.map_append, String.join_append,
    output_of_isAside (isAside_journalPieces r), output_of_isAside (isAside_recordPieces _),
    output_of_isAside (isAside_verdict r), List.map_cons, List.map_nil, String.join_cons,
    String.join_nil, Piece.outputText, Piece.errorLine, String.empty_append, String.append_empty]

private theorem filter_runPieces (env : Surroundings) (options : Options) (r : Result) :
    (runPieces env options r).filter Piece.isStoreLine = [storeLine r.store.bindings] := by
  have houtput : (Piece.output (renderLog r.lines)).isStoreLine = false := rfl
  have hstore : Piece.errorLine ("store: " ++ r.store.display) = storeLine r.store.bindings := by
    have hlead : "store: \x7b" = "store: " ++ "\x7b" := rfl
    simp only [storeLine, Store.display, hlead, String.append_assoc]
  have hline : (storeLine r.store.bindings).isStoreLine = true := by
    simp [← hstore, Piece.isStoreLine, Piece.errorLine, Piece.errorText, String.toList_append,
      List.isPrefixOf]
  simp only [runPieces, List.filter_append, filter_of_isAside (isAside_journalPieces r),
    filter_of_isAside (isAside_recordPieces _), filter_of_isAside (isAside_verdict r), hstore,
    List.filter_cons, houtput, hline, List.filter_nil]
  rfl

end Writing

section Report

/-- What a command line answers about the run of its program, which had an
    outcome and ended in a state. -/
structure Response.Reports (r : Response) (limit : Option Nat) (outcome : Outcome) (final : State) :
    Prop where
  /-- Everything that was printed up to the end, and nothing else. -/
  output : r.output = String.join ((printedLines final.events).map (· ++ "\n"))
  uncaught : r.code.toNat = 3 ↔ ∃ value, outcome = .error (.raised value)
  exceeded : r.code.toNat = 1 ↔ ∃ n, limit = some n ∧ n < final.steps
  completed : r.code.toNat = 0 ↔ outcome = .ok ()
  /-- There is one line with the bindings of the final store, each once and in
      the order of the names. -/
  store : ∃ bindings, r.pieces.filter Piece.isStoreLine = [storeLine bindings] ∧
    (∀ name cell, (name, cell) ∈ bindings ↔ final.store.get? name = some cell) ∧
    bindings.Pairwise fun a b => a.1 ≠ b.1 ∧ Text.toBytes a.1 ≤ Text.toBytes b.1

variable {env : Surroundings} {options : Options} {manifest : Option Manifest} {p : Program}
  {arguments : List String} {outcome : Outcome} {final : State}

private theorem exitCode_of_ending {limit : Option Nat} (h : Ending limit final outcome) (cfg : Settings)
    (span : Span) :
    let code := (finish cfg span outcome final).exitCode.toNat
    (code = 3 ↔ ∃ value, outcome = .error (.raised value)) ∧
      (code = 1 ↔ ∃ n, limit = some n ∧ n < final.steps) ∧ (code = 0 ↔ outcome = .ok ()) := by
  cases h with
  | completed hroom =>
    refine ⟨⟨nofun, nofun⟩, ⟨nofun, ?_⟩, ⟨fun _ => rfl, fun _ => rfl⟩⟩
    rintro ⟨n, hlimit, hsteps⟩
    exact absurd (hroom n hlimit) (by omega)
  | uncaught v hroom =>
    refine ⟨⟨fun _ => ⟨_, rfl⟩, fun _ => rfl⟩, ⟨nofun, ?_⟩, ⟨nofun, nofun⟩⟩
    rintro ⟨n, hlimit, hsteps⟩
    exact absurd (hroom n hlimit) (by omega)
  | exceeded hlimit hsteps =>
    exact ⟨⟨nofun, nofun⟩, ⟨fun _ => ⟨_, hlimit, hsteps⟩, fun _ => rfl⟩, ⟨nofun, nofun⟩⟩

private theorem commandRun_of_runs
    (hruns : Runs { runId := env.runId 0, limit := stepBudget options manifest } (.stmt p.body)
      (.initial p.store p.body) outcome final) :
    commandRun env options manifest p =
      finish (runSettings env options manifest 0) p.body.span outcome final := by
  rw [← stepLimit_limit] at hruns
  have hrun : run? (runSettings env options manifest 0) p.store p.body =
      some (finish (runSettings env options manifest 0) p.body.span outcome final) :=
    run?_eq_some_iff.mpr ⟨outcome, final, hruns, rfl⟩
  rw [commandRun, run, hrun]
  rfl

private theorem RunsProgram.reports (h : RunsProgram env arguments options manifest p)
    (hruns : Runs { runId := env.runId 0, limit := stepBudget options manifest } (.stmt p.body)
      (.initial p.store p.body) outcome final) :
    (commandLine env arguments).Reports (stepBudget options manifest) outcome final := by
  obtain ⟨hbody, hfull⟩ := h.wellFormed
  rw [h.commandLine_eq, commandRun_of_runs hruns]
  obtain ⟨huncaught, hexceeded, hcompleted⟩ :=
    exitCode_of_ending (hruns.ending hbody hfull) (runSettings env options manifest 0) p.body.span
  refine ⟨?_, huncaught, hexceeded, hcompleted, ?_⟩
  · rw [Response.output, output_runPieces, finish_lines, hruns.lines_eq]
    rfl
  · refine ⟨final.store.bindings, ?_, fun name cell => Store.mem_bindings_iff, ?_⟩
    · rw [filter_runPieces, finish_store]
    · exact final.store.bytes_increasing

/-- Two answers that tell the same about a run. -/
structure Response.TellsSame (r r' : Response) : Prop where
  code : r.code = r'.code
  output : r.output = r'.output
  store : r.pieces.filter Piece.isStoreLine = r'.pieces.filter Piece.isStoreLine

/-- Options that allow the same number of steps make no difference to what is
    told. -/
theorem RunsProgram.tellsSame {arguments' : List String} {options' : Options}
    (h : RunsProgram env arguments options manifest p)
    (h' : RunsProgram env arguments' options' manifest p)
    (hsteps : options'.maxSteps = options.maxSteps) :
    (commandLine env arguments').TellsSame (commandLine env arguments) := by
  have hrun : commandRun env options' manifest p = commandRun env options manifest p := by
    rw [commandRun, commandRun, runSettings, runSettings, Options.limit, Options.limit, hsteps]
  rw [h.commandLine_eq, h'.commandLine_eq, hrun]
  refine ⟨rfl, ?_, ?_⟩
  · rw [Response.output, Response.output, output_runPieces, output_runPieces]
  · rw [filter_runPieces, filter_runPieces]

/-- The command `run` is faithful. For a command line that gets as far as
    running a program, a run with a step budget ends; if the run ends, then the
    output, the exit code and the line with the store tell how, and this does
    not depend on whether a trace or a log was asked for. -/
theorem run_reports_faithfully (h : RunsProgram env arguments options manifest p) :
    (stepBudget options manifest ≠ none →
      ∃ outcome final, Runs { runId := env.runId 0, limit := stepBudget options manifest }
        (.stmt p.body) (.initial p.store p.body) outcome final) ∧
      ∀ outcome final, Runs { runId := env.runId 0, limit := stepBudget options manifest }
          (.stmt p.body) (.initial p.store p.body) outcome final →
        (commandLine env arguments).Reports (stepBudget options manifest) outcome final ∧
        ∀ arguments' options', RunsProgram env arguments' options' manifest p →
          options'.maxSteps = options.maxSteps →
          (commandLine env arguments').TellsSame (commandLine env arguments) := by
  refine ⟨fun hlimited => ?_, fun outcome final hruns => ⟨h.reports hruns, ?_⟩⟩
  · obtain ⟨n, hn⟩ := Option.ne_none_iff_exists.mp hlimited
    rw [← hn]
    exact exists_runs_limit (env.runId 0) n (.stmt p.body) (.initial p.store p.body) (Nat.zero_le n)
  · intro arguments' options' h' hsteps
    exact h.tellsSame h' hsteps

end Report

section Printing

/-- A file with a program that prints what its store holds. -/
def printingProject : Surroundings where
  disk := {
    root := .directory [("p.json", .file (Text.toBytes
      ("\x7b\"store\":\x7b\"x\":\x7b\"int\":7\x7d\x7d,\"program\":" ++
        "\x7b\"type\":\"Print\",\"expression\":\x7b\"type\":\"Var\",\"name\":\"x\"\x7d\x7d\x7d")))]
    directory := "/" }
  now := "2024-01-01T00:00:00Z"
  logTime := "2024-01-01T00:00:00Z"
  runId := fun _ => "run"
  cloner := fun _ => .error "repository not found"

/-- The program, as it is read from its file. -/
def printingProgram : Program where
  store := .ofList [("x", some (.int 7))]
  body := .print .zero "" (.var .zero "x")

private theorem programFor_printingProject : programFor printingProject none "p.json" = .ok printingProgram := by
  decide +kernel

private theorem runsProgram_printingProject :
    RunsProgram printingProject ["--trace", "run", "--max-steps=1", "p.json"]
      { trace := true, maxSteps := some 1 } none printingProgram := by
  have hparse : Options.parse ["--trace", "run", "--max-steps=1", "p.json"] =
      .ok ({ trace := true, maxSteps := some 1 }, ["run", "p.json"]) := by
    decide +kernel
  have hmanifest : manifestFor printingProject.disk "p.json" = .ok none := by
    decide +kernel
  exact .intro hparse (.command "p.json") hmanifest programFor_printingProject

/-- The last step that the options leave is enough for the program. -/
theorem run_reports_faithfully_printing :
    RunsProgram printingProject ["--trace", "run", "--max-steps=1", "p.json"]
        { trace := true, maxSteps := some 1 } none printingProgram ∧
      (commandLine printingProject ["--trace", "run", "--max-steps=1", "p.json"]).output = "IntVal 7\n" ∧
      (commandLine printingProject ["--trace", "run", "--max-steps=1", "p.json"]).code.toNat = 0 := by
  refine ⟨runsProgram_printingProject, ?_⟩
  obtain ⟨hreports, _⟩ := (run_reports_faithfully runsProgram_printingProject).2 _ _ (.ended rfl rfl)
  exact ⟨hreports.output, hreports.completed.mpr rfl⟩

end Printing

end WhilePlus
