import BuildPipeline.Run.Job

/-!
# Stages

A stage decides on its condition and then runs its jobs as a schedule of its own.  It ends when none
of its jobs is under way any more.
-/

namespace BuildPipeline

abbrev JobSchedule := Schedule JobNode JobWork JobResult

/-- A stage that was started. -/
structure StageRun where
  environment : Environment
  /-- Whether a job was noticed to have failed or died. -/
  failed : Bool := false
  jobs : JobSchedule

inductive StageWork where
  /-- Released, with the results of its dependencies. -/
  | released (dependencies : List StageResult)
  | running (run : StageRun)

inductive StageMove where
  | start
  | job (index : Nat) (move : JobMove)
  /-- Notice that a job has ended. -/
  | notice (index : Nat)
  | finish
  /-- Break off without a result. -/
  | die

/-- The state after a move and what it told. -/
structure StageTurn where
  phase : Phase StageWork StageResult
  shared : Shared
  events : List StageEvent := []

/-- The jobs of a stage before any of them has started. -/
def JobSchedule.ofNodes (nodes : List JobNode) : JobSchedule :=
  let tasks := nodes.map fun node =>
    { name := node.name, dependencies := node.dependencies, node : Task JobNode JobWork JobResult }
  Schedule.release JobWork.released { tasks }

namespace StageRun

/-- The result of a job that broke off. -/
def lostJob (node : JobNode) : JobResult :=
  .notRun node .failed .skipped (some "job task did not complete")

/-- The result of a job that was never released. -/
def unreleasedJob (node : JobNode) : JobResult :=
  .notRun node .skipped .skipped none

def result (run : StageRun) (node : StageNode) : StageResult :=
  let jobs := run.jobs.collect lostJob unreleasedJob
  { name := node.name
    displayName := node.stage.displayName
    status := Status.aggregateAll (jobs.map (·.status))
    jobs }

end StageRun

namespace StageWork

/-- Decide whether a released stage runs, and open its scope. -/
def start (setup : Setup) (environment : Environment) (shared : Shared) (node : StageNode)
    (dependencies : List StageResult) : StageTurn :=
  if shared.canceled then
    { phase := .returned (.notRun node .canceled .canceled none), shared }
  else
    let context := (setup.contextAfter shared.canceled
      (dependencies.map fun result => (result.name, result.status, result.outputs))).withVariables
        environment.flatten
    let condition := node.stage.condition.getD defaultCondition
    match Expression.evaluateCondition context condition with
    | .ok false =>
      { phase := .returned (.notRun node .skipped .skipped none), shared
        events := [.skipped ("condition '" ++ condition ++ "' was false")] }
    | .error error =>
      { phase := .returned (.notRun node .failed .skipped (some error.message)), shared }
    | .ok true =>
      match environment.child.declare context node.stage.vars with
      | (_, some error) =>
        { phase := .returned (.notRun node .failed .skipped (some error.message)), shared }
      | (environment, none) =>
        { phase := .active (.running { environment, jobs := .ofNodes node.jobs }), shared
          events := [.started node.stage.displayName node.jobs.length] }

/-- Let a job of a running stage make a move. -/
def moveJob (setup : Setup) (ancestors : List String) (shared : Shared) (node : StageNode)
    (run : StageRun) (index : Nat) (move : JobMove) : Option StageTurn := do
  let task ← run.jobs.tasks[index]?
  match task.phase with
  | .active work =>
    let place : Place := ⟨node.name, task.name, ancestors, run.failed⟩
    let turn ← work.step? setup place run.environment shared task.node move
    return {
      phase := .active (.running { run with jobs := run.jobs.setPhase index turn.phase })
      shared := turn.shared
      events := turn.events.map (.job task.name ·) }
  | _ => none

/-- Notice that a job has ended; a failure is remembered. -/
def noticeJob (shared : Shared) (run : StageRun) (index : Nat) : Option StageTurn := do
  let (jobs, result) ← run.jobs.notice? JobWork.released index
  let failed := match result with
    | some result => result.status == .failed
    | none => true
  return { phase := .active (.running { run with jobs, failed := run.failed || failed }), shared }

/-- The number of agents that the jobs of a stage hold. -/
def heldAgents : StageWork → Nat
  | released _ => 0
  | running run => run.jobs.tasks.countP fun task =>
    match task.phase with
    | .active work => work.holdsAgent
    | _ => false

/-- Break off together with all jobs. -/
def die (shared : Shared) (work : StageWork) : StageTurn :=
  { phase := .died, shared := { shared with freeAgents := shared.freeAgents + work.heldAgents } }

/-- Make a move, if it fits. -/
def step? (setup : Setup) (environment : Environment) (shared : Shared) (node : StageNode)
    (work : StageWork) : StageMove → Option StageTurn
  | .start =>
    match work with
    | released dependencies => some (start setup environment shared node dependencies)
    | running _ => none
  | .job index move =>
    match work with
    | running run =>
      moveJob setup (setup.graph.ancestors node.name) shared node run index move
    | released _ => none
  | .notice index =>
    match work with
    | running run => noticeJob shared run index
    | released _ => none
  | .finish =>
    match work with
    | running run =>
      if run.jobs.isSettled then
        let result := run.result node
        some { phase := .returned result, shared, events := [.completed result.status] }
      else none
    | released _ => none
  | .die => some (die shared work)

end StageWork

end BuildPipeline
