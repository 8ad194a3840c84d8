import BuildPipeline.Graph.Basic
import BuildPipeline.Status
import BuildPipeline.Table

/-!
# Results of a run

The status tree of a finished run: stages, their jobs and their steps, in the order of declaration,
with the output variables that steps have published.
-/

namespace BuildPipeline

structure StepResult where
  name : Option String := none
  label : String
  status : Status
  output : String := ""
  error : Option String := none
  exitCode : Option Int := none
  /-- Milliseconds from the start to the end. -/
  duration : Nat := 0
  /-- Output variables by name. -/
  outputs : Table String := []
  deriving DecidableEq, Repr, Inhabited

structure JobResult where
  name : String
  displayName : Option String := none
  status : Status
  error : Option String := none
  steps : List StepResult := []
  duration : Nat := 0
  /-- Output variables under `step.variable`. -/
  outputs : Table String := []
  deriving DecidableEq, Repr, Inhabited

structure StageResult where
  name : String
  displayName : Option String := none
  status : Status
  error : Option String := none
  jobs : List JobResult := []
  duration : Nat := 0
  deriving DecidableEq, Repr, Inhabited

structure PipelineResult where
  name : String
  status : Status
  stages : List StageResult := []
  duration : Nat := 0
  deriving DecidableEq, Repr, Inhabited

/-! ## Nodes that did not run -/

/-- The result of a step that was not executed. -/
def StepResult.ofStep (step : Step) (status : Status) : StepResult :=
  { name := step.name, label := step.label, status }

/-- A job that did not start, with all its steps. -/
def JobResult.notRun (node : JobNode) (status steps : Status) (error : Option String) :
    JobResult where
  name := node.name
  displayName := node.job.displayName
  status := status
  error := error
  steps := node.job.steps.map fun step => .ofStep step steps

/-- A stage that did not start, with all its jobs and steps. -/
def StageResult.notRun (node : StageNode) (status children : Status) (error : Option String) :
    StageResult where
  name := node.name
  displayName := node.stage.displayName
  status := status
  error := error
  jobs := node.jobs.map fun job => .notRun job children children none

/-! ## Output variables -/

/-- The output variables of the jobs of a stage, under `job.step.variable`. -/
def StageResult.outputs (stage : StageResult) : Table String :=
  Table.ofList (stage.jobs.flatMap fun job =>
    job.outputs.map fun (name, value) => (job.name ++ "." ++ name, value))

/-! ## Finding nodes -/

namespace PipelineResult

def stage? (result : PipelineResult) (name : String) : Option StageResult :=
  result.stages.find? (·.name == name)

/-- The job at `stage.job`, or of the first stage if there is no dot. -/
def job? (result : PipelineResult) (path : String) : Option JobResult := do
  match Text.splitOnce? ['.'] path.toList with
  | some (stage, job) =>
    (← result.stage? (String.ofList stage)).jobs.find? (·.name == String.ofList job)
  | none => (← result.stages.head?).jobs.find? (·.name == path)

end PipelineResult

/-- The first step with a name or a label. -/
def JobResult.step? (job : JobResult) (key : String) : Option StepResult :=
  job.steps.find? fun step => step.name == some key || step.label == key

end BuildPipeline
