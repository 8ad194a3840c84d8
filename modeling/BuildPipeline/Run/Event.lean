import BuildPipeline.Pipeline.Basic
import BuildPipeline.Status

/-!
# Events and calls

What a run tells while it is under way, and what it hands over to the outside: attempts at steps to
an executor, and artifacts to a store.  Every entry belongs to the pipeline, to a stage or to a job.
-/

namespace BuildPipeline

/-- One attempt at a step, its variables replaced. -/
structure Invocation where
  stage : String
  job : String
  /-- The number of the step in its job. -/
  index : Nat
  step : Step
  /-- The environment of the process. -/
  environment : Table String
  workingDirectory : String
  deriving Inhabited

/-- What an executor may know a step by: its name or its label. -/
def Invocation.key (invocation : Invocation) : String :=
  invocation.step.name.getD invocation.step.label

inductive Call where
  /-- The attempt with a number that begins with one. -/
  | attempt (invocation : Invocation) (number : Nat)
  | publish (artifact source : String)
  | download (artifact target : String)
  deriving Inhabited

/-- An entry of the log of a job. -/
inductive JobEvent where
  | started (displayName : Option String) (steps : Nat)
  | completed (status : Status)
  | skipped (reason : String)
  | stepStarted (index : Nat) (label : String)
  | stepOutput (index : Nat) (line : String)
  | stepCompleted (index : Nat) (status : Status) (exitCode : Option Int)
  | stepSkipped (index : Nat) (reason : String)
  | variableSet (name value : String) (isOutput : Bool)
  | artifactPublished (artifact : String)
  /-- A call to the outside, which is not part of the progress that is told. -/
  | called (index : Nat) (call : Call)

inductive StageEvent where
  | started (displayName : Option String) (jobs : Nat)
  | completed (status : Status)
  | skipped (reason : String)
  | job (name : String) (event : JobEvent)

inductive Event where
  | started (name : String) (stages : Nat)
  | completed (name : String) (status : Status)
  | stage (name : String) (event : StageEvent)

/-- A line for a live log. -/
def Event.summary? : Event → Option String
  | .stage name (.started ..) => some ("stage " ++ name ++ " started")
  | .stage name (.completed status) => some ("stage " ++ name ++ " " ++ status.name)
  | .stage name (.skipped reason) => some ("stage " ++ name ++ " skipped: " ++ reason)
  | .stage name (.job jobName (.completed status)) =>
    some ("job " ++ name ++ "." ++ jobName ++ " " ++ status.name)
  | .stage _ (.job jobName (.stepStarted _ label)) => some ("[" ++ jobName ++ "] " ++ label)
  | .stage _ (.job jobName (.stepOutput _ line)) => some ("[" ++ jobName ++ "]   " ++ line)
  | _ => none

end BuildPipeline
