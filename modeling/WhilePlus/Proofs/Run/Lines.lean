import WhilePlus.Proofs.Run.Derivation
import WhilePlus.Proofs.Run.Stage
import WhilePlus.Proofs.Text.Lines
import WhilePlus.Proofs.Value.Display

namespace WhilePlus

/-- What is printed at once: a value, and the text before it. -/
structure Print where
  lead : String
  value : Cell

/-- The line that is printed. -/
def Print.line (p : Print) : String :=
  p.lead ++ p.value.display

private theorem State.lines_print (st : State) (span : Span) (p : Print) :
    (st.print span p.lead p.value).lines = st.lines.push p.line := rfl

/-- The texts that a statement prints before values. -/
def Stmt.leads : Stmt → List String
  | missing | skip _ | assign _ _ _ | throw _ _ => []
  | print _ lead _ => [lead]
  | branch _ _ yes no => yes.leads ++ no.leads
  | loop _ _ body => body.leads
  | seq _ first second => first.leads ++ second.leads
  | attempt _ body _ handler => body.leads ++ handler.leads

/-- The texts that a task prints before values. -/
def Task.leads : Task → List String
  | .stmt s => s.leads
  | .loop _ _ body => body.leads

/-- The texts that the tasks with which a beginning goes on print before values. -/
def Stage.leads : Stage → List String
  | .ended _ => []
  | .replaced next | .waiting next => next.leads

/-- What one state has printed more than another, with no other texts than these
    before the values. -/
def Prints (leads : List String) (st final : State) : Prop :=
  ∃ prints : List Print, (∀ p ∈ prints, p.lead ∈ leads) ∧
    final.lines.toList = st.lines.toList ++ prints.map Print.line

section Prints

variable {cfg : Settings} {runId : String} {leads : List String} {task : Task} {stage : Stage}
  {outcome : Outcome} {next : Option Task} {st mid final : State}

private theorem Prints.of_lines_eq (h : final.lines = st.lines) : Prints leads st final :=
  ⟨[], nofun, by simp [h]⟩

private theorem Prints.trans (hbefore : Prints leads st mid) (hafter : Prints leads mid final) :
    Prints leads st final := by
  obtain ⟨before, hleads, hmid⟩ := hbefore
  obtain ⟨after, hleads', hfinal⟩ := hafter
  exact ⟨before ++ after, List.forall_mem_append.mpr ⟨hleads, hleads'⟩, by simp [hfinal, hmid]⟩

private theorem Task.prints_count (task : Task) (st : State) : Prints leads st (task.count st) := by
  cases task <;> exact .of_lines_eq rfl

/-- Beginning a task prints one line at most, and leads to tasks that print no
    other texts. -/
theorem Started.prints (h : Started task st stage mid) (htask : task.leads ⊆ leads) :
    stage.leads ⊆ leads ∧ Prints leads st mid := by
  cases h with
  | @printed _ span lead _ value _ =>
    refine ⟨List.nil_subset _, [⟨lead, value⟩], ?_, ?_⟩
    · rintro p (_ | ⟨_, ⟨⟩⟩)
      exact htask List.mem_cons_self
    · exact (congrArg Array.toList (State.lines_print st span ⟨lead, value⟩)).trans Array.toList_push
  | missing | skip | assigned | unassigned | unprinted | thrown | unthrown | undecided | finished
  | untested => exact ⟨List.nil_subset _, .of_lines_eq rfl⟩
  | yes => exact ⟨(List.append_subset.mp htask).1, .of_lines_eq rfl⟩
  | no => exact ⟨(List.append_subset.mp htask).2, .of_lines_eq rfl⟩
  | first | attempted => exact ⟨(List.append_subset.mp htask).1, .of_lines_eq rfl⟩
  | loop | entered => exact ⟨htask, .of_lines_eq rfl⟩

private theorem Resumed.prints (h : Resumed runId task outcome st next final) (htask : task.leads ⊆ leads) :
    (∀ task ∈ next, task.leads ⊆ leads) ∧ Prints leads st final := by
  cases h with
  | second | caught => exact ⟨by rintro _ ⟨⟩; exact (List.append_subset.mp htask).2, .of_lines_eq rfl⟩
  | again => exact ⟨by rintro _ ⟨⟩; exact htask, .of_lines_eq rfl⟩
  | skipped | unraised | uncaught | aborted => exact ⟨by rintro _ ⟨⟩, .of_lines_eq rfl⟩

/-- The execution of a task prints lines with the texts of the task and values. -/
theorem Runs.prints (h : Runs cfg task st outcome final) (htask : task.leads ⊆ leads) :
    Prints leads st final := by
  induction h with
  | refused => exact Task.prints_count _ _
  | ended _ hstart => exact (Task.prints_count _ _).trans ((Task.started hstart).prints htask).2
  | replaced _ hstart _ ih =>
    obtain ⟨hnext, hmid⟩ := (Task.started hstart).prints htask
    exact (Task.prints_count _ _).trans (hmid.trans (ih hnext))
  | left _ hstart _ hresume ih =>
    obtain ⟨hfirst, hmid⟩ := (Task.started hstart).prints htask
    obtain ⟨-, hfinal⟩ := (Task.resumed hstart hresume).prints htask
    exact (Task.prints_count _ _).trans (hmid.trans ((ih hfirst).trans hfinal))
  | resumed _ hstart _ hresume _ ihfirst ihnext =>
    obtain ⟨hfirst, hmid⟩ := (Task.started hstart).prints htask
    obtain ⟨hnext, hagain⟩ := (Task.resumed hstart hresume).prints htask
    exact (Task.prints_count _ _).trans
      (hmid.trans ((ihfirst hfirst).trans (hagain.trans (ihnext (hnext _ rfl)))))

end Prints

/-- The lines of a run are prints, with texts of its statement before the
    values. -/
theorem run?_prints {cfg : Settings} {store : Store} {s : Stmt} {r : Result}
    (h : run? cfg store s = some r) :
    ∃ prints : List Print, (∀ p ∈ prints, p.lead ∈ s.leads) ∧ r.lines = prints.map Print.line := by
  obtain ⟨outcome, final, hruns, rfl⟩ := run?_eq_some_iff.mp h
  obtain ⟨prints, hleads, hlines⟩ := hruns.prints (List.Subset.refl _)
  exact ⟨prints, hleads, by rw [finish_lines, hlines]; rfl⟩

private theorem Print.newline_notMem_line {p : Print} (h : '\n' ∉ p.lead.toList) : '\n' ∉ p.line.toList := by
  rw [line, String.toList_append, List.mem_append, not_or]
  exact ⟨h, p.value.newline_notMem_display⟩

private theorem splitOn_renderLog_prints {prints : List Print} (h : ∀ p ∈ prints, '\n' ∉ p.lead.toList) :
    Text.splitOn '\n' (renderLog (prints.map Print.line)) = prints.map Print.line ++ [""] := by
  refine splitOn_renderLog fun line hline => ?_
  obtain ⟨p, hp, rfl⟩ := List.mem_map.mp hline
  exact Print.newline_notMem_line (h p hp)

/-- Display forms identify values. Two cells are displayed alike exactly if they
    hold equal values, or no value both, and no display form holds a newline. So
    whatever is printed, with no newline before the values, the rendered log
    gives the printed lines again when it is taken apart at its newlines; and so
    does the log of every run of a statement that prints no newline before a
    value, whatever it runs on and however it ends. -/
theorem display_identifies_values :
    (∀ a b : Cell, a.display = b.display ↔ a.equal b = true) ∧
    (∀ a : Cell, '\n' ∉ a.display.toList) ∧
    (∀ prints : List Print, (∀ p ∈ prints, '\n' ∉ p.lead.toList) →
      Text.splitOn '\n' (renderLog (prints.map Print.line)) = prints.map Print.line ++ [""]) ∧
    ∀ (cfg : Settings) (store : Store) (s : Stmt) (r : Result), run? cfg store s = some r →
      (∀ lead ∈ s.leads, '\n' ∉ lead.toList) →
      Text.splitOn '\n' (renderLog r.lines) = r.lines ++ [""] := by
  refine ⟨fun _ _ => Cell.display_eq_iff, Cell.newline_notMem_display,
    fun _ => splitOn_renderLog_prints, fun cfg store s r hrun hs => ?_⟩
  obtain ⟨prints, hleads, hlines⟩ := run?_prints hrun
  rw [hlines]
  exact splitOn_renderLog_prints fun p hp => hs p.lead (hleads p hp)

/-- A statement that prints the least integer and its truth value. -/
def Stmt.printTwice : Stmt :=
  .seq .zero (.print .zero "least = " (.int .zero Int64.minValue)) (.print .zero "" (.bool .zero true))

/-- The least integer, a truth value and an empty cell are told apart in a log
    of three lines, and the lines of a run are read back from its output. -/
theorem display_identifies_values_least :
    Text.splitOn '\n' (renderLog (List.map Print.line
      [⟨"least = ", some (.int Int64.minValue)⟩, ⟨"", some (.bool true)⟩, ⟨"none: ", none⟩])) =
        ["least = IntVal (-9223372036854775808)", "BoolVal True", "none: <nil>", ""] ∧
      ∃ r, run? { runId := "r" } .empty .printTwice = some r ∧
        r.lines = ["least = IntVal (-9223372036854775808)", "BoolVal True"] ∧
        Text.splitOn '\n' (renderLog r.lines) = r.lines ++ [""] := by
  obtain ⟨-, -, hprints, hruns⟩ := display_identifies_values
  refine ⟨hprints _ (by decide), ?_⟩
  have hrun : ∃ r, run? { runId := "r" } .empty .printTwice = some r ∧
      r.lines = ["least = IntVal (-9223372036854775808)", "BoolVal True"] :=
    ⟨_, run?_eq_some_iff.mpr ⟨_, _, .resumed rfl rfl (.ended rfl rfl) rfl (.ended rfl rfl), rfl⟩, rfl⟩
  obtain ⟨r, hrun, hlines⟩ := hrun
  exact ⟨r, hrun, hlines, hruns _ _ _ _ hrun (by decide)⟩

end WhilePlus
