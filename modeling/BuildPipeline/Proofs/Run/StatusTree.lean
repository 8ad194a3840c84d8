import BuildPipeline.Run.Report
import BuildPipeline.Proofs.Text.Lines

/-!
# The lines of a report

A report writes the nodes of a status tree one after the other, each above the nodes below it.

* `PipelineResult.nodes` is the tree in this order and `ResultNode.line` what is written of a node.
* `PipelineResult.report_eq`: the report is these lines and nothing else.
* `ResultNode.count_newline_line`: of all that a line is made of, only the label can break it.
  Marks, names of statuses and spans of time hold no newline, and of an error one line is shown.
* `report_has_one_line_per_node` counts the lines, and says which of them belongs to which node.
-/

namespace BuildPipeline

open Text

/-! ## Nodes -/

/-- A node of a status tree. -/
inductive ResultNode where
  | pipeline (result : PipelineResult)
  | stage (result : StageResult)
  | job (result : JobResult)
  | step (result : StepResult)

namespace ResultNode

def depth : ResultNode → Nat
  | pipeline _ => 0
  | stage _ => 1
  | job _ => 2
  | step _ => 3

def status : ResultNode → Status
  | pipeline result => result.status
  | stage result => result.status
  | job result => result.status
  | step result => result.status

/-- The name under which a node is shown. -/
def label : ResultNode → String
  | pipeline result => result.name
  | stage result => result.displayName.getD result.name
  | job result => result.displayName.getD result.name
  | step result => result.label

/-- The first line of an error, as it follows a status. -/
def errorNote (error : Option String) : String :=
  match error.bind fun error => (Text.lines error).head? with
  | some line => " - " ++ line
  | none => ""

/-- What follows the status: the time that the run took, or the first line of the error.  A step
shows its error only if it failed, perhaps with the failure masked. -/
def note : ResultNode → String
  | pipeline result => " (" ++ secondsText result.duration ++ "s)"
  | stage result => errorNote result.error
  | job result => errorNote result.error
  | step result =>
    errorNote <| if result.status = .failed ∨ result.status = .succeededWithIssues then result.error
      else none

/-- What is written of a node, two blanks further to the right at each level. -/
def line (node : ResultNode) : String :=
  String.ofList (List.replicate (2 * node.depth) ' ') ++ node.status.marker ++ " " ++ node.label ++
    ": " ++ node.status.name ++ node.note

end ResultNode

def JobResult.nodes (job : JobResult) : List ResultNode :=
  .job job :: job.steps.map .step

def StageResult.nodes (stage : StageResult) : List ResultNode :=
  .stage stage :: stage.jobs.flatMap JobResult.nodes

/-- All nodes, each before those below it. -/
def PipelineResult.nodes (result : PipelineResult) : List ResultNode :=
  .pipeline result :: result.stages.flatMap StageResult.nodes

theorem PipelineResult.length_nodes (result : PipelineResult) :
    result.nodes.length = 1 + result.stages.length + (result.stages.flatMap (·.jobs)).length +
      result.steps.length := by
  have hjobs (jobs : List JobResult) : (jobs.flatMap JobResult.nodes).length =
      jobs.length + (jobs.flatMap (·.steps)).length := by
    induction jobs with
    | nil => rfl
    | cons job others ih =>
        simp only [List.flatMap_cons, List.length_append, ih, JobResult.nodes, List.length_cons,
          List.length_map]
        omega
  have hstages (stages : List StageResult) : (stages.flatMap StageResult.nodes).length =
      stages.length + (stages.flatMap (·.jobs)).length +
        (stages.flatMap fun stage => stage.jobs.flatMap (·.steps)).length := by
    induction stages with
    | nil => rfl
    | cons stage others ih =>
        simp only [List.flatMap_cons, List.length_append, ih, StageResult.nodes, List.length_cons,
          hjobs]
        omega
  rw [PipelineResult.nodes, List.length_cons, hstages, PipelineResult.steps]
  omega

/-! ## The report -/

/-- What is written of some nodes. -/
def writtenNodes (nodes : List ResultNode) : String :=
  String.join (nodes.map fun node => node.line ++ "\n")

theorem writtenNodes_cons (node : ResultNode) (nodes : List ResultNode) :
    writtenNodes (node :: nodes) = node.line ++ "\n" ++ writtenNodes nodes := by
  rw [writtenNodes, List.map_cons, String.join_cons]
  rfl

theorem writtenNodes_flatMap {α : Type} {write : α → String} {nodes : α → List ResultNode}
    (hwrite : ∀ item, write item = writtenNodes (nodes item)) (items : List α) :
    String.join (items.map write) = writtenNodes (items.flatMap nodes) := by
  induction items with
  | nil => rfl
  | cons item others ih =>
      rw [List.map_cons, String.join_cons, ih, hwrite, List.flatMap_cons, writtenNodes,
        writtenNodes, writtenNodes, List.map_append, String.join_append]

theorem writtenNodes_singleton (node : ResultNode) : writtenNodes [node] = node.line ++ "\n" := by
  rw [writtenNodes_cons, writtenNodes, List.map_nil, String.join_nil, String.append_empty]

theorem StepResult.report_eq (step : StepResult) : step.report = writtenNodes [.step step] := by
  rw [writtenNodes_singleton, StepResult.report, ResultNode.line, ResultNode.note]
  cases hstatus : step.status <;> rw [ResultNode.status, hstatus] <;> rfl

theorem JobResult.report_eq (job : JobResult) : job.report = writtenNodes job.nodes := by
  rw [JobResult.report, writtenNodes_flatMap StepResult.report_eq, ← List.map_eq_flatMap,
    JobResult.nodes, writtenNodes_cons]
  rfl

theorem StageResult.report_eq (stage : StageResult) : stage.report = writtenNodes stage.nodes := by
  rw [StageResult.report, writtenNodes_flatMap JobResult.report_eq, StageResult.nodes,
    writtenNodes_cons]
  rfl

/-- The report is made of the lines of the nodes, each node before those below it. -/
theorem PipelineResult.report_eq (result : PipelineResult) :
    result.report = writtenNodes result.nodes := by
  have hline : (ResultNode.pipeline result).line ++ "\n" =
      result.status.marker ++ " " ++ result.name ++ ": " ++ result.status.name ++ " (" ++
        secondsText result.duration ++ "s)\n" := by
    rw [← String.toList_inj]
    simp [ResultNode.line, ResultNode.note, ResultNode.depth, ResultNode.status, ResultNode.label]
  rw [PipelineResult.report, writtenNodes_flatMap StageResult.report_eq, PipelineResult.nodes,
    writtenNodes_cons, hline]

/-! ## Newlines -/

theorem notMem_newline_toDigits (n : Nat) : '\n' ∉ Nat.toDigits 10 n :=
  fun hmem => absurd (Nat.isDigit_of_mem_toDigits (by decide) (by decide) hmem) (by decide)

theorem notMem_newline_secondsText (milliseconds : Nat) :
    '\n' ∉ (secondsText milliseconds).toList := by
  rw [secondsText]
  cases secondsOf milliseconds with
  | nan => decide
  | infinite negative => exact show '\n' ∉ "inf".toList by decide
  | finite negative significand exponent canonical =>
      rw [twoDecimals]
      dsimp only
      split <;> simp [notMem_newline_toDigits]

namespace ResultNode

theorem notMem_newline_errorNote (error : Option String) : '\n' ∉ (errorNote error).toList := by
  rw [errorNote]
  split
  case h_1 line hline =>
      obtain ⟨text, -, hhead⟩ := Option.bind_eq_some_iff.mp hline
      obtain ⟨chars, hchars, rfl⟩ := List.mem_map.mp (List.mem_of_mem_head? hhead)
      simpa using notMem_of_mem_lineChars hchars
  case h_2 => decide

theorem notMem_newline_note (node : ResultNode) : '\n' ∉ node.note.toList := by
  cases node with
  | pipeline result => simpa [note] using notMem_newline_secondsText result.duration
  | stage result => exact notMem_newline_errorNote _
  | job result => exact notMem_newline_errorNote _
  | step result => exact notMem_newline_errorNote _

/-- Nothing but the label can break the line of a node. -/
theorem count_newline_line (node : ResultNode) :
    node.line.toList.count '\n' = node.label.toList.count '\n' := by
  have hmarker (status : Status) : status.marker.toList.count '\n' = 0 := by
    cases status <;> decide
  have hname (status : Status) : status.name.toList.count '\n' = 0 := by
    cases status <;> decide
  have hnote : node.note.toList.count '\n' = 0 :=
    List.count_eq_zero_of_not_mem node.notMem_newline_note
  simp [line, List.count_append, List.count_replicate, hmarker, hname, hnote]

/-- The lines in which a node is shown. -/
def lines (node : ResultNode) : List String :=
  Text.lines (node.line ++ "\n")

theorem length_lines (node : ResultNode) :
    node.lines.length = node.label.toList.count '\n' + 1 := by
  rw [lines, Text.lines, List.length_map, String.toList_append]
  exact (length_lineChars_append_newline _).trans (congrArg (· + 1) node.count_newline_line)

theorem lines_of_unbroken {node : ResultNode} (hlabel : '\n' ∉ node.label.toList) :
    node.lines = [String.ofList (dropCarriageReturn node.line.toList)] := by
  have hline : '\n' ∉ node.line.toList := by
    rw [← List.count_eq_zero, count_newline_line, List.count_eq_zero]
    exact hlabel
  rw [lines, Text.lines, String.toList_append,
    show "\n".toList = ['\n'] from rfl, lineChars_append_newline hline]
  rfl

end ResultNode

theorem lines_writtenNodes (nodes : List ResultNode) :
    Text.lines (writtenNodes nodes) = nodes.flatMap ResultNode.lines := by
  induction nodes with
  | nil => rfl
  | cons node others ih =>
      rw [writtenNodes_cons, List.flatMap_cons, ← ih, ResultNode.lines, Text.lines, Text.lines,
        Text.lines, ← List.map_append, String.toList_append, String.toList_append,
        show "\n".toList = ['\n'] from rfl, List.append_assoc, List.singleton_append,
        lineChars_append_cons]

theorem length_flatMap_lines (nodes : List ResultNode) :
    (nodes.flatMap ResultNode.lines).length =
      nodes.length + (nodes.flatMap fun node => node.label.toList).count '\n' := by
  induction nodes with
  | nil => rfl
  | cons node others ih =>
      rw [List.flatMap_cons, List.length_append, node.length_lines, ih, List.flatMap_cons,
        List.count_append, List.length_cons]
      omega

theorem PipelineResult.lines_report (result : PipelineResult) :
    Text.lines result.report = result.nodes.flatMap ResultNode.lines := by
  rw [result.report_eq, lines_writtenNodes]

theorem PipelineResult.length_lines_report (result : PipelineResult) :
    (Text.lines result.report).length =
      result.nodes.length + (result.nodes.flatMap fun node => node.label.toList).count '\n' := by
  rw [result.lines_report, length_flatMap_lines]

/-- The lines of a report are those of the nodes, in the order of the tree.  A node has one line,
and one more for each newline in the name under which it is shown; so there are as many lines as
nodes exactly if no such name is broken, and then each line is that of its node. -/
theorem report_has_one_line_per_node (result : PipelineResult) :
    result.nodes.length = 1 + result.stages.length + (result.stages.flatMap (·.jobs)).length +
      result.steps.length ∧
    Text.lines result.report = result.nodes.flatMap ResultNode.lines ∧
    (∀ node ∈ result.nodes, node.lines.length = node.label.toList.count '\n' + 1) ∧
    ((Text.lines result.report).length = result.nodes.length ↔
      ∀ node ∈ result.nodes, '\n' ∉ node.label.toList) ∧
    ((∀ node ∈ result.nodes, '\n' ∉ node.label.toList) →
      Text.lines result.report = result.nodes.map fun node =>
        String.ofList (dropCarriageReturn node.line.toList)) := by
  refine ⟨result.length_nodes, result.lines_report, fun node _ => node.length_lines, ?_, ?_⟩
  · rw [result.length_lines_report, Nat.add_eq_left, List.count_eq_zero]
    simp only [List.mem_flatMap, not_exists, not_and]
  · intro hlabels
    rw [result.lines_report, List.map_eq_flatMap]
    exact List.flatMap_congr fun node hnode => ResultNode.lines_of_unbroken (hlabels node hnode)

/-- A run of one step that is shown under this name. -/
def stepRun (label : String) : PipelineResult where
  name := "ci"
  status := .succeeded
  stages := [{
    name := "build"
    status := .succeeded
    jobs := [{
      name := "compile"
      status := .succeeded
      steps := [{ label := label, status := .succeeded }] }] }]

theorem report_has_one_line_per_node_of_make :
    (∀ node ∈ (stepRun "make").nodes, '\n' ∉ node.label.toList) ∧
    Text.lines (stepRun "make").report = (stepRun "make").nodes.map fun node =>
      String.ofList (dropCarriageReturn node.line.toList) := by
  have hlabels : ∀ node ∈ (stepRun "make").nodes, '\n' ∉ node.label.toList := by decide
  exact ⟨hlabels, (report_has_one_line_per_node (stepRun "make")).2.2.2.2 hlabels⟩

/-- With a name of two lines the report has a line more than the tree has nodes. -/
theorem broken_label_adds_a_line :
    (Text.lines (stepRun "fetch\nmake").report).length ≠
      1 + (stepRun "fetch\nmake").stages.length +
        ((stepRun "fetch\nmake").stages.flatMap (·.jobs)).length +
        (stepRun "fetch\nmake").steps.length := by
  rw [(stepRun "fetch\nmake").length_lines_report]
  decide

end BuildPipeline
