import BuildPipeline.Pipeline.Basic
import BuildPipeline.Pipeline.DocumentError
import BuildPipeline.Pipeline.Reading

/-!
# Normal form and validation

A pipeline of steps alone is one default job, a pipeline of jobs alone one default stage.  In the
normal form a valid pipeline has stages only, each with jobs, each with steps; every stage and job
has a name, names are words and differ among siblings, and nothing refers to a template any more.
Dependencies are checked when the graph is built.
-/

namespace BuildPipeline

/-- The name of the stage and the job that wrap jobs or steps standing alone. -/
def defaultName : String := "__default"

namespace Pipeline

/-- Wrap steps standing alone in a job. -/
def wrapSteps (pipeline : Pipeline) : Pipeline :=
  if !pipeline.steps.isEmpty && pipeline.jobs.isEmpty && pipeline.stages.isEmpty then
    { pipeline with jobs := [{ job := some defaultName, steps := pipeline.steps }], steps := [] }
  else pipeline

/-- Wrap jobs standing alone in a stage. -/
def wrapJobs (pipeline : Pipeline) : Pipeline :=
  if !pipeline.jobs.isEmpty && pipeline.stages.isEmpty then
    { pipeline with stages := [{ stage := some defaultName, jobs := pipeline.jobs }], jobs := [] }
  else pipeline

def normalize (pipeline : Pipeline) : Pipeline :=
  pipeline.wrapSteps.wrapJobs

/-- Read a document without templates and bring it into normal form. -/
def parse (content : String) : Except DocumentError Pipeline :=
  match Yaml.readText reader content with
  | .ok pipeline => .ok pipeline.normalize
  | .error error => .error (.ofReadError error content)

end Pipeline

/-! ## Defects -/

/-- The nodes of a pipeline that have names. -/
inductive NodeKind where
  | stage
  | job
  | step
  deriving DecidableEq, Repr

def NodeKind.name : NodeKind → String
  | stage => "stage"
  | job => "job"
  | step => "step"

inductive Defect where
  | nothingToRun
  | severalBodies
  | unnamed (kind : NodeKind)
  | badName (kind : NodeKind) (name : String)
  | duplicateName (kind : NodeKind) (name : String)
  | unresolvedTemplate (path : String)
  | noJobs
  | noSteps
  deriving DecidableEq, Repr

namespace Defect

def message : Defect → String
  | nothingToRun => "pipeline has nothing to run"
  | severalBodies => "only one of 'stages', 'jobs' or 'steps' may be used at the root"
  | unnamed kind => kind.name ++ " has no name"
  | badName kind name =>
    kind.name ++ " name '" ++ name ++ "' may only contain letters, digits and '_'"
  | duplicateName kind name => "duplicate " ++ kind.name ++ " name '" ++ name ++ "'"
  | unresolvedTemplate path => "unresolved template reference '" ++ path ++ "'"
  | noJobs => "stage has no jobs"
  | noSteps => "job has no steps"

def suggestion? : Defect → Option String
  | nothingToRun => some "add 'stages:', 'jobs:' or 'steps:'"
  | unnamed kind => some ("add '" ++ kind.name ++ ": <Name>'")
  | unresolvedTemplate _ =>
    some "template references cannot be combined with a stage or job name"
  | noJobs => some "add 'jobs:' to the stage"
  | noSteps => some "add 'steps:' to define what the job should do"
  | severalBodies | badName _ _ | duplicateName _ _ => none

end Defect

/-- A defect and the node that has it. -/
structure ValidationError where
  defect : Defect
  path : String
  deriving DecidableEq, Repr

def ValidationError.text (error : ValidationError) : String :=
  error.path ++ ": " ++ error.defect.message ++
    (match error.defect.suggestion? with
      | some suggestion => " (help: " ++ suggestion ++ ")"
      | none => "")

/-! ## Validation -/

/-- Whether a text is a word of ASCII letters, digits and underscores. -/
def isWord (name : String) : Bool :=
  name.toList ≠ [] && name.toList.all fun c => c.isAlphanum || c == '_'

/-- The defects of a name after the names in `seen`. -/
def nameDefects (kind : NodeKind) (seen : List String) : Option String → List Defect
  | none => [.unnamed kind]
  | some name =>
    (if isWord name then [] else [.badName kind name]) ++
      (if seen.contains name then [.duplicateName kind name] else [])

def templateDefects : Option String → List Defect
  | some path => [.unresolvedTemplate path]
  | none => []

/-- The path of a child by its name, or by its number. -/
def childPath (path list : String) (index : Nat) : Option String → String
  | some name => path ++ list ++ "." ++ name
  | none => path ++ list ++ "[" ++ toString index ++ "]"

def atPath (path : String) (defects : List Defect) : List ValidationError :=
  defects.map fun defect => ⟨defect, path⟩

def Step.defects (step : Step) (seen : List String) : List Defect :=
  (match step.action with
    | .template path _ => [.unresolvedTemplate path]
    | _ => []) ++
    (if step.name.isSome then nameDefects .step seen step.name else [])

def stepErrors (path : String) (index : Nat) (seen : List String) :
    List Step → List ValidationError
  | [] => []
  | step :: steps =>
    atPath (childPath path ".steps" index none) (step.defects seen) ++
      stepErrors path (index + 1) (step.name.toList ++ seen) steps

def Job.defects (job : Job) (seen : List String) : List Defect :=
  nameDefects .job seen job.job ++ templateDefects job.template ++
    (if job.steps.isEmpty then [.noSteps] else [])

def jobErrors (path : String) (index : Nat) (seen : List String) :
    List Job → List ValidationError
  | [] => []
  | job :: jobs =>
    let jobPath := childPath path ".jobs" index job.job
    atPath jobPath (job.defects seen) ++ stepErrors jobPath 0 [] job.steps ++
      jobErrors path (index + 1) (job.job.toList ++ seen) jobs

def Stage.defects (stage : Stage) (seen : List String) : List Defect :=
  nameDefects .stage seen stage.stage ++ templateDefects stage.template ++
    (if stage.jobs.isEmpty then [.noJobs] else [])

def stageErrors (index : Nat) (seen : List String) : List Stage → List ValidationError
  | [] => []
  | stage :: stages =>
    let stagePath := childPath "" "stages" index stage.stage
    atPath stagePath (stage.defects seen) ++ jobErrors stagePath 0 [] stage.jobs ++
      stageErrors (index + 1) (stage.stage.toList ++ seen) stages

namespace Pipeline

def rootDefects (pipeline : Pipeline) : List Defect :=
  (if pipeline.stages.isEmpty then [.nothingToRun] else []) ++
    (if pipeline.jobs.isEmpty && pipeline.steps.isEmpty then [] else [.severalBodies])

/-- What is wrong with a pipeline in normal form, in the order of the document. -/
def validate (pipeline : Pipeline) : List ValidationError :=
  atPath "pipeline" pipeline.rootDefects ++ stageErrors 0 [] pipeline.stages

end Pipeline

end BuildPipeline
