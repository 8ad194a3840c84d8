import BuildPipeline.Table
import BuildPipeline.Text.Blank
import BuildPipeline.Text.Search
import BuildPipeline.Yaml.Value

/-!
# Pipelines

The document of a pipeline: stages of jobs of steps, with variables, parameters and references to
templates.  A document may leave out the stages, or stages and jobs.
-/

namespace BuildPipeline

/-- A truth value, or an expression that is decided when a node has run. -/
inductive Flag where
  | fixed (value : Bool)
  | expression (text : String)
  deriving DecidableEq, Repr

instance : Inhabited Flag := ⟨.fixed false⟩

/-! ## Variables and parameters -/

inductive Variable where
  | definition (name value : String) (readonly : Bool)
  | template (path : String) (parameters : Table Yaml.Value)
  deriving Inhabited

/-- The types of parameters. -/
inductive ParameterType where
  | string
  | number
  | boolean
  | object
  | list
  | step
  | stepList
  | job
  | jobList
  | stage
  | stageList
  deriving DecidableEq, Repr, Inhabited

namespace ParameterType

def name : ParameterType → String
  | string => "string"
  | number => "number"
  | boolean => "boolean"
  | object => "object"
  | list => "list"
  | step => "step"
  | stepList => "stepList"
  | job => "job"
  | jobList => "jobList"
  | stage => "stage"
  | stageList => "stageList"

def all : List ParameterType :=
  [string, number, boolean, object, list, step, stepList, job, jobList, stage, stageList]

/-- Whether values are passed on as they are. -/
def isStructured : ParameterType → Bool
  | string | number | boolean => false
  | _ => true

def isList : ParameterType → Bool
  | list | stepList | jobList | stageList => true
  | _ => false

end ParameterType

/-- The declaration of a parameter. -/
structure Parameter where
  name : String
  displayName : Option String := none
  type : ParameterType := .string
  default : Option Yaml.Value := none
  /-- The only values allowed. -/
  values : Option (List Yaml.Value) := none
  deriving Inhabited

/-! ## Steps -/

/-- The shells that a step can name. -/
inductive Shell where
  | script
  | bash
  | pwsh
  deriving DecidableEq, Repr

def Shell.field : Shell → String
  | script => "script"
  | bash => "bash"
  | pwsh => "pwsh"

def Shell.title : Shell → String
  | script => "Script"
  | bash => "Bash"
  | pwsh => "PowerShell"

/-- What a step does. -/
inductive Action where
  | shell (kind : Shell) (body : String) (workingDirectory : Option String)
  | task (name : String) (inputs : Table String)
  | template (path : String) (parameters : Table Yaml.Value)
  | publish (path : String) (artifact : Option String)
  /-- The source is `current`, or the artifact itself. -/
  | download (source : String) (artifact path : Option String)
  deriving Inhabited

namespace Action

def isTemplate : Action → Bool
  | template .. => true
  | _ => false

/-- The artifact that is published or downloaded. -/
def artifact? : Action → Option String
  | publish _ artifact => some (artifact.getD "drop")
  | download source artifact _ => some (artifact.getD source)
  | _ => none

/-- A summary for reports. -/
def summary : Action → String
  | .shell kind body _ => kind.title ++ ": " ++ Text.trim ((Text.lines body).headD "")
  | .task name _ => name
  | .template path _ => "template: " ++ path
  | .publish _ artifact => "Publish " ++ artifact.getD "drop"
  | .download source artifact _ => "Download " ++ artifact.getD source

end Action

structure Step where
  /-- The name for status functions and output variables. -/
  name : Option String := none
  displayName : Option String := none
  condition : Option String := none
  continueOnError : Flag := default
  enabled : Bool := true
  timeoutInMinutes : Option UInt32 := none
  /-- How many further attempts a failure allows. -/
  retries : Option UInt32 := none
  /-- Environment variables on top of those of the scope. -/
  env : Table String := []
  action : Action
  deriving Inhabited

/-- What a report calls a step: its display name, its name or a summary of its action. -/
def Step.label (step : Step) : String :=
  (step.displayName.or step.name).getD step.action.summary

/-! ## Jobs and stages -/

/-- The dependencies as written.  Implicit ones are the previous stage for a stage and none for a
job. -/
inductive DependsOn where
  | implicit
  | single (name : String)
  | multiple (names : List String)
  deriving DecidableEq, Repr, Inhabited

def DependsOn.isImplicit : DependsOn → Bool
  | implicit => true
  | _ => false

def DependsOn.names : DependsOn → List String
  | implicit => []
  | single name => [name]
  | multiple names => names

structure Job where
  job : Option String := none
  displayName : Option String := none
  dependsOn : DependsOn := .implicit
  condition : Option String := none
  /-- Whether a failure counts as success with issues for the stage. -/
  continueOnError : Flag := default
  pool : Option Yaml.Value := none
  vars : List Variable := []
  steps : List Step := []
  template : Option String := none
  parameters : Table Yaml.Value := []
  deriving Inhabited

structure Stage where
  stage : Option String := none
  displayName : Option String := none
  dependsOn : DependsOn := .implicit
  condition : Option String := none
  vars : List Variable := []
  jobs : List Job := []
  pool : Option Yaml.Value := none
  template : Option String := none
  parameters : Table Yaml.Value := []
  deriving Inhabited

structure Pipeline where
  name : Option String := none
  parameters : List Parameter := []
  vars : List Variable := []
  stages : List Stage := []
  jobs : List Job := []
  steps : List Step := []
  deriving Inhabited

/-- The name, or another one for a pipeline without a name. -/
def Pipeline.nameOr (pipeline : Pipeline) (other : String) : String :=
  pipeline.name.getD other

end BuildPipeline
