import BuildPipeline.Run.Schedule
import BuildPipeline.Run.Step

/-!
# Jobs

A job decides on its condition, waits for an agent, and takes its steps in order while it holds the
agent.  What a job may do next is a move; a move that does not fit is refused.  The steps that a
cancellation leaves are cancelled without a word, and a running attempt is waited for.
-/

namespace BuildPipeline

/-- What the jobs of a run share. -/
structure Shared where
  canceled : Bool := false
  /-- Agents that no job holds. -/
  freeAgents : Nat
  ledger : Ledger := []

/-- A job that holds an agent. -/
structure JobRun where
  environment : Environment
  /-- What conditions see, but for the variables and the status so far. -/
  context : Expression.Context
  /-- Whether a failure of the job counts as issues. -/
  masksFailure : Bool
  /-- The results of the steps so far, in order. -/
  results : List StepResult := []
  outputs : Table String := []
  soFar : Status := .succeeded
  ongoing : Option Ongoing := none

inductive JobWork where
  /-- Released, with the results of its dependencies. -/
  | released (dependencies : List JobResult)
  /-- In the queue for an agent. -/
  | queued (context : Expression.Context)
  | running (run : JobRun)

/-- An answer to a call. -/
inductive Reply where
  | outcome (outcome : Outcome)
  /-- The attempt reached its limit. -/
  | timedOut
  /-- The store has done what it was asked, or not. -/
  | stored (result : Except ArtifactError Unit)

inductive JobMove where
  | start
  /-- Take an agent. -/
  | takeAgent
  /-- Leave the queue because the run was cancelled. -/
  | withdraw
  /-- Take the next step, or end the job after the last one. -/
  | advance
  | answer (reply : Reply)
  /-- Break off without a result. -/
  | die

/-- The state after a move and what it told. -/
structure JobTurn where
  phase : Phase JobWork JobResult
  shared : Shared
  events : List JobEvent := []

/-- What expressions see, with dependencies and the state of cancellation. -/
def Setup.contextAfter (setup : Setup) (canceled : Bool)
    (dependencies : List (String × Status × Table String)) : Expression.Context :=
  let context := dependencies.foldl
    (fun context (name, status, outputs) => context.addDependency name status outputs) setup.context
  { context with status := { context.status with canceled } }

namespace JobRun

/-- What the conditions of the next step see. -/
def stepContext (run : JobRun) : Expression.Context :=
  let context := run.context.withVariables run.environment.flatten
  { context with status := { context.status with implicit := [run.soFar] } }

/-- Take the result of a step. -/
def record (run : JobRun) (step : Step) (result : StepResult) : JobRun :=
  let reference := step.reference run.results.length
  let status := run.context.status
  let named := match step.name with
    | some name => status.named.insert name result.status
    | none => status.named
  { run with
    context := { run.context with status := { status with named } }
    results := run.results ++ [result]
    outputs := result.outputs.foldl
      (fun outputs (name, value) => outputs.insert (reference ++ "." ++ name) value) run.outputs
    soFar := run.soFar.aggregate result.status
    ongoing := none }

/-- The result of a job whose steps are over. -/
def result (run : JobRun) (node : JobNode) : JobResult :=
  let status := Status.aggregateAll (run.results.map (·.status))
  { name := node.name
    displayName := node.job.displayName
    status := if status = .failed && run.masksFailure then .succeededWithIssues else status
    steps := run.results
    outputs := run.outputs }

end JobRun

namespace JobWork

/-- Decide whether a released job runs. -/
def start (setup : Setup) (environment : Environment) (shared : Shared) (node : JobNode)
    (dependencies : List JobResult) : JobTurn :=
  if shared.canceled then
    { phase := .returned (.notRun node .canceled .canceled none), shared }
  else
    let context := (setup.contextAfter shared.canceled
      (dependencies.map fun result => (result.name, result.status, result.outputs))).withVariables
        environment.flatten
    let condition := node.job.condition.getD defaultCondition
    match Expression.evaluateCondition context condition with
    | .ok true => { phase := .active (.queued context), shared }
    | .ok false =>
      { phase := .returned (.notRun node .skipped .skipped none), shared
        events := [.skipped ("condition '" ++ condition ++ "' was false")] }
    | .error error =>
      { phase := .returned (.notRun node .failed .skipped (some error.message)), shared }

/-- Open the scope of a job that gets an agent. -/
def takeAgent (environment : Environment) (shared : Shared) (node : JobNode)
    (context : Expression.Context) : JobTurn :=
  match environment.child.declare context node.job.vars with
  | (_, some error) =>
    { phase := .returned (.notRun node .failed .skipped (some error.message)), shared }
  | (environment, none) =>
    let context := context.withVariables environment.flatten
    { phase := .active (.running
        { environment, context, masksFailure := node.job.continueOnError.holds context })
      shared := { shared with freeAgents := shared.freeAgents - 1 }
      events := [.started node.job.displayName node.job.steps.length] }

/-- Take a step that was not started: nothing is told unless a reason is given. -/
def passOver (shared : Shared) (run : JobRun) (step : Step) (result : StepResult)
    (events : List JobEvent) : JobTurn :=
  { phase := .active (.running (run.record step result)), shared, events }

/-- Take the end of a step that was started. -/
def conclude (shared : Shared) (run : JobRun) (declared step : Step) (failure : Status)
    (outcome : Outcome) (events : List JobEvent) : JobTurn :=
  let ending := outcome.settle run.environment run.results.length step failure
  { phase := .active (.running
      ({ run with environment := ending.environment }.record declared ending.result))
    shared
    events := events ++ ending.events }

/-- Take the next step of a running job, or end the job. -/
def advance (setup : Setup) (place : Place) (shared : Shared) (node : JobNode) (run : JobRun) :
    JobTurn :=
  let index := run.results.length
  match node.job.steps[index]? with
  | none =>
    let result := run.result node
    { phase := .returned result
      shared := { shared with freeAgents := shared.freeAgents + 1 }
      events := [.completed result.status] }
  | some step =>
    if shared.canceled then passOver shared run step (.ofStep step .canceled) []
    else
      match step.begin setup place shared.ledger run.environment run.stepContext index with
      | .skipped reason =>
        passOver shared run step (.ofStep step .skipped) [.stepSkipped index reason]
      | .refused failure error =>
        passOver shared run step { StepResult.ofStep step failure with error := some error } []
      | .immediate started failure outcome =>
        conclude shared run step started failure outcome [.stepStarted index started.label]
      | .calling ongoing ledger =>
        { phase := .active (.running { run with ongoing := some ongoing })
          shared := { shared with ledger }
          events := [.stepStarted index ongoing.step.label, .called index ongoing.call] }

/-- Take the outcome of an attempt: try again, or end the step. -/
def takeOutcome (shared : Shared) (run : JobRun) (declared : Step) (ongoing : Ongoing)
    (invocation : Invocation) (number : Nat) (outcome : Outcome) : JobTurn :=
  if outcome.success || shared.canceled || ongoing.step.attempts.toNat ≤ number then
    conclude shared run declared ongoing.step ongoing.failure outcome []
  else
    let call := Call.attempt invocation (number + 1)
    { phase := .active (.running { run with ongoing := some { ongoing with call } })
      shared
      events := [.called run.results.length call] }

/-- Take an answer that fits the call. -/
def answer (setup : Setup) (shared : Shared) (run : JobRun) (declared : Step) (ongoing : Ongoing) :
    Reply → Option JobTurn
  | .outcome outcome =>
    match ongoing.call with
    | .attempt invocation number =>
      some (takeOutcome shared run declared ongoing invocation number outcome)
    | _ => none
  | .timedOut =>
    match ongoing.call, ongoing.step.limit? setup with
    | .attempt invocation number, some limit =>
      some (takeOutcome shared run declared ongoing invocation number (.timedOut limit))
    | _, _ => none
  | .stored result =>
    match ongoing.call, result with
    | .publish artifact _, .ok () =>
      some (conclude shared run declared ongoing.step ongoing.failure
        (.succeeded ("published artifact '" ++ artifact ++ "'")) [.artifactPublished artifact])
    | .publish artifact _, .error error =>
      some (conclude { shared with ledger := shared.ledger.release artifact } run declared
        ongoing.step ongoing.failure (.failed error.message) [])
    | .download artifact _, .ok () =>
      some (conclude shared run declared ongoing.step ongoing.failure
        (.succeeded ("downloaded artifact '" ++ artifact ++ "'")) [])
    | .download _ _, .error error =>
      some (conclude shared run declared ongoing.step ongoing.failure (.failed error.message) [])
    | .attempt .., _ => none

/-- Whether the job holds an agent. -/
def holdsAgent : JobWork → Bool
  | running _ => true
  | _ => false

/-- Break off. -/
def die (shared : Shared) (work : JobWork) : JobTurn :=
  { phase := .died
    shared :=
      if work.holdsAgent then { shared with freeAgents := shared.freeAgents + 1 } else shared }

/-- Make a move, if it fits. -/
def step? (setup : Setup) (place : Place) (environment : Environment) (shared : Shared)
    (node : JobNode) (work : JobWork) : JobMove → Option JobTurn
  | .start =>
    match work with
    | released dependencies => some (start setup environment shared node dependencies)
    | _ => none
  | .takeAgent =>
    match work with
    | queued context =>
      if 0 < shared.freeAgents then some (takeAgent environment shared node context) else none
    | _ => none
  | .withdraw =>
    match work with
    | queued _ =>
      if shared.canceled then
        some { phase := .returned (.notRun node .canceled .canceled none), shared }
      else none
    | _ => none
  | .advance =>
    match work with
    | running run =>
      if run.ongoing.isNone then some (advance setup place shared node run) else none
    | _ => none
  | .answer reply =>
    match work with
    | running run => do
      let ongoing ← run.ongoing
      let declared ← node.job.steps[run.results.length]?
      answer setup shared run declared ongoing reply
    | _ => none
  | .die => some (die shared work)

end JobWork

end BuildPipeline
