import BuildPipeline.Artifact.Ledger
import BuildPipeline.Run.Environment
import BuildPipeline.Run.Event
import BuildPipeline.Run.Outcome
import BuildPipeline.Run.Result

/-!
# Steps

How a step begins and how it ends.  A step is skipped, fails on its condition, is over at once, or
calls for something outside: an attempt by the executor, or a store.  Its outcome becomes a result,
sets variables of the job and is told line by line.
-/

namespace BuildPipeline

/-- The condition of a node that states none. -/
def defaultCondition : String := "succeeded()"

/-- What does not change during a run. -/
structure Setup where
  name : String
  graph : Graph
  workingDirectory : String := "."
  /-- Variables of the pipeline from outside the document. -/
  vars : Table String := []
  /-- The values of the parameters. -/
  parameters : Table Expression.Value := []
  /-- The environment that processes inherit. -/
  processEnvironment : Table String := []
  /-- How many jobs may run at a time. -/
  agents : Nat := 4
  /-- The limit for steps without one, in milliseconds. -/
  timeout : Option Nat := none
  /-- How the variables of a step are listed for its process. -/
  listing : Listing := .byName
  deriving Inhabited

/-- What expressions see when a run starts. -/
def Setup.context (setup : Setup) : Expression.Context :=
  { parameters := setup.parameters }

def Flag.resolve (context : Expression.Context) : Flag → Except Expression.EvalError Bool
  | .fixed value => .ok value
  | .expression text => Expression.evaluateCondition context text

/-- The value of a flag; false if it has none. -/
def Flag.holds (context : Expression.Context) (flag : Flag) : Bool :=
  (flag.resolve context).toOption.getD false

/-! ## Variables in steps -/

/-- Replace variables in what an action hands to the outside. -/
def Action.substitute (replace : String → String) : Action → Action
  | .shell kind body workingDirectory =>
    .shell kind (replace body) (workingDirectory.map replace)
  | .task name inputs => .task name (inputs.mapValues replace)
  | .publish path artifact => .publish (replace path) (artifact.map replace)
  | .download source artifact path => .download source (artifact.map replace) (path.map replace)
  | .template path parameters => .template path parameters

def Step.substitute (replace : String → String) (step : Step) : Step :=
  { step with action := step.action.substitute replace, env := step.env.mapValues replace }

/-- The name for the output variables of a step. -/
def Step.reference (step : Step) (index : Nat) : String :=
  step.name.getD ("step" ++ toString (index + 1))

/-- The limit of an attempt in milliseconds. -/
def Step.limit? (setup : Setup) (step : Step) : Option Nat :=
  match step.timeoutInMinutes.filter (0 < ·) with
  | some minutes => some (minutes.toNat * 60000)
  | none => setup.timeout

/-- How many attempts a step has.  Words wrap: with the largest number of retries there are none. -/
def Step.attempts (step : Step) : UInt32 :=
  step.retries.getD 0 + 1

theorem Step.toNat_attempts {step : Step} (hattempts : step.attempts ≠ 0) :
    step.attempts.toNat = (step.retries.getD 0).toNat + 1 := by
  have hpositive : step.attempts.toNat ≠ 0 := fun hzero => hattempts (UInt32.toNat_inj.mp hzero)
  have hbound := (step.retries.getD 0).toNat_lt
  simp only [attempts, UInt32.toNat_add, UInt32.toNat_one] at hpositive ⊢
  omega

/-- A span of milliseconds in the largest unit that it fills, without superfluous zeros. -/
def spanText (milliseconds : Nat) : String :=
  let seconds := milliseconds / 1000
  let rest := milliseconds % 1000
  if milliseconds = 0 then "0ns"
  else if seconds = 0 then toString rest ++ "ms"
  else if rest = 0 then toString seconds ++ "s"
  else
    let digits := (Text.padLeft 3 (toString rest)).toList.map fun c => if c = ' ' then '0' else c
    toString seconds ++ "." ++ String.ofList (digits.reverse.dropWhile (· == '0')).reverse ++ "s"

/-- The outcome of an attempt that reached its limit. -/
def Outcome.timedOut (limit : Nat) : Outcome :=
  .failed ("timed out after " ++ spanText limit)

/-! ## Beginning -/

/-- Where a job runs. -/
structure Place where
  stage : String
  job : String
  /-- The stages that may have published what is downloaded. -/
  ancestors : List String
  /-- Whether a job of the stage has failed. -/
  stageFailed : Bool

/-- A step that waits for an answer. -/
structure Ongoing where
  /-- The step with its variables replaced. -/
  step : Step
  /-- The status if it fails. -/
  failure : Status
  call : Call

/-- How a step begins. -/
inductive Beginning where
  /-- Not run, with the reason. -/
  | skipped (reason : String)
  /-- Over before it started. -/
  | refused (failure : Status) (error : String)
  /-- Started and over without a call. -/
  | immediate (step : Step) (failure : Status) (outcome : Outcome)
  /-- Started with a call. -/
  | calling (ongoing : Ongoing) (ledger : Ledger)

/-- What a started step calls for, or its outcome if it needs nothing.  A command without attempts
has the outcome that no attempt has replaced. -/
def Action.call (setup : Setup) (place : Place) (ledger : Ledger) (invocation : Invocation) :
    Action → Except Outcome (Call × Ledger)
  | .publish path artifact =>
    let name := artifact.getD "drop"
    match ledger.reserve name place.stage with
    | .error error => .error (.failed error.message)
    | .ok ledger => .ok (.publish name (Path.join setup.workingDirectory path), ledger)
  | .download source artifact path =>
    if source = "none" then .error (.succeeded "")
    else
      let name := artifact.getD source
      match ledger.checkDownload name place.stage place.ancestors with
      | .error error => .error (.failed error.message)
      | .ok () => .ok (.download name (Path.join setup.workingDirectory (path.getD name)), ledger)
  | .template path _ => .error (.failed ("unresolved template reference '" ++ path ++ "'"))
  | .shell .. | .task .. =>
    if invocation.step.attempts = 0 then .error {} else .ok (.attempt invocation 1, ledger)

/-- The invocation of a step whose variables are replaced. -/
def Step.invocation (setup : Setup) (place : Place) (environment : Environment) (index : Nat)
    (step : Step) : Invocation where
  stage := place.stage
  job := place.job
  index := index
  step := step
  environment := Table.union step.env
    (Table.union (setup.listing.process place.stage place.job index environment)
      setup.processEnvironment)
  workingDirectory := setup.workingDirectory

/-- Begin the step with a number, with the variables of the job in `environment` and `context`. -/
def Step.begin (setup : Setup) (place : Place) (ledger : Ledger) (environment : Environment)
    (context : Expression.Context) (index : Nat) (step : Step) : Beginning :=
  if !step.enabled then .skipped "step is disabled"
  else
    let failure :=
      if step.continueOnError.holds context then Status.succeededWithIssues else .failed
    let blocked := match step.action, step.condition with
      | .publish .., none => place.stageFailed
      | _, _ => false
    if blocked then .skipped "stage already has a failed job"
    else
      let condition := step.condition.getD defaultCondition
      match Expression.evaluateCondition context condition with
      | .error error => .refused failure error.message
      | .ok false => .skipped ("condition '" ++ condition ++ "' was false")
      | .ok true =>
        let step := step.substitute (Expression.substituteVariables context)
        let invocation := step.invocation setup place environment index
        match step.action.call setup place ledger invocation with
        | .error outcome => .immediate step failure outcome
        | .ok (call, ledger) => .calling ⟨step, failure, call⟩ ledger

/-! ## Ending -/

/-- Set the variables that a step leaves, where that is allowed: the environment after it, the
output variables and what is told. -/
def applyUpdates (environment : Environment) (outputs : Table String) :
    List VariableUpdate → Environment × Table String × List JobEvent
  | [] => (environment, outputs, [])
  | update :: rest =>
    match environment.write update.name update.value update.isReadonly with
    | .error _ => applyUpdates environment outputs rest
    | .ok environment =>
      let outputs := if update.isOutput then outputs.insert update.name update.value else outputs
      let (environment, outputs, events) := applyUpdates environment outputs rest
      (environment, outputs, .variableSet update.name update.value update.isOutput :: events)

/-- What the end of a step leaves. -/
structure Ending where
  result : StepResult
  environment : Environment
  events : List JobEvent

/-- End a step that was started. -/
def Outcome.settle (outcome : Outcome) (environment : Environment) (index : Nat) (step : Step)
    (failure : Status) : Ending :=
  let (environment, outputs, updates) := applyUpdates environment [] outcome.vars
  let status := if outcome.success then Status.succeeded else failure
  { result := { StepResult.ofStep step status with
      output := outcome.output, error := outcome.error, exitCode := outcome.exitCode, outputs }
    environment
    events := (Text.lines outcome.output).map (.stepOutput index ·) ++ updates ++
      [.stepCompleted index status outcome.exitCode] }

end BuildPipeline
