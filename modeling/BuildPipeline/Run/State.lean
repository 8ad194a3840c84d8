import BuildPipeline.Run.Stage

/-!
# Runs

A run is a sequence of moves from the state in which the stages without dependencies are released.
The moves of different stages and jobs can interleave in any order, and cancellation can come at any
moment.  A run is complete when no stage is under way any more.
-/

namespace BuildPipeline

abbrev StageSchedule := Schedule StageNode StageWork StageResult

structure RunState where
  shared : Shared
  /-- The variables of the pipeline. -/
  environment : Environment
  stages : StageSchedule
  /-- What was told and called so far, in order. -/
  log : List Event

inductive Move where
  | cancel
  | stage (index : Nat) (move : StageMove)
  /-- Notice that a stage has ended. -/
  | notice (index : Nat)

namespace RunState

/-- The result of a stage that broke off. -/
def lostStage (node : StageNode) : StageResult :=
  .notRun node .failed .skipped (some "stage task did not complete")

/-- The result of a stage that was never released. -/
def unreleasedStage (node : StageNode) : StageResult :=
  .notRun node .skipped .skipped none

def stageTask (node : StageNode) : Task StageNode StageWork StageResult :=
  { name := node.name, dependencies := node.dependencies, node }

/-- Every stage failed before it could start. -/
def refused (nodes : List StageNode) (error : String) : StageSchedule where
  tasks := nodes.map fun node => { stageTask node with phase := .closed }
  finished := Table.ofList (nodes.map fun node =>
    (node.name, .notRun node .failed .skipped (some error)))

/-- The state in which a run starts. -/
def start (setup : Setup) : RunState :=
  let (environment, error) :=
    (Environment.ofTable setup.vars).declare setup.context setup.graph.vars
  { shared := { freeAgents := max setup.agents 1 }
    environment
    stages :=
      match error with
      | some error => refused setup.graph.stages error.message
      | none =>
        Schedule.release StageWork.released { tasks := setup.graph.stages.map stageTask }
    log := [.started setup.name setup.graph.stages.length] }

/-- Let a stage make a move. -/
def moveStage (setup : Setup) (state : RunState) (index : Nat) (move : StageMove) :
    Option RunState := do
  let task ← state.stages.tasks[index]?
  match task.phase with
  | .active work =>
    let turn ← work.step? setup state.environment state.shared task.node move
    return { state with
      shared := turn.shared
      stages := state.stages.setPhase index turn.phase
      log := state.log ++ turn.events.map (.stage task.name ·) }
  | _ => none

/-- Make a move, if it fits. -/
def step? (setup : Setup) (state : RunState) : Move → Option RunState
  | .cancel => some { state with shared := { state.shared with canceled := true } }
  | .stage index move => state.moveStage setup index move
  | .notice index => do
    let (stages, _) ← state.stages.notice? StageWork.released index
    return { state with stages }

/-- Whether the run is complete. -/
def isComplete (state : RunState) : Bool :=
  state.stages.isSettled

/-- The result of a complete run. -/
def result (setup : Setup) (state : RunState) : PipelineResult :=
  let stages := state.stages.collect lostStage unreleasedStage
  { name := setup.name, status := Status.aggregateAll (stages.map (·.status)), stages }

/-- The whole log of a complete run. -/
def fullLog (setup : Setup) (state : RunState) : List Event :=
  state.log ++ [.completed setup.name (state.result setup).status]

end RunState

/-- The states that a run can come to. -/
inductive RunState.Reachable (setup : Setup) : RunState → Prop where
  | start : Reachable setup (.start setup)
  | step {state next : RunState} (move : Move) (hstate : Reachable setup state)
      (hstep : state.step? setup move = some next) : Reachable setup next

end BuildPipeline
