import BuildPipeline.Run.State

/-!
# Runs on a clock

One way to make the moves of a run: a single worker takes what is ready first come, first served,
and the clock goes on to the next moment at which something is due only when nothing is ready.  Jobs
get agents in the order in which they asked.  An attempt that ends at the moment of its limit has
ended in time.  Every change of the state of the run is one of its moves.
-/

namespace BuildPipeline

/-- What an executor says when an attempt begins. -/
structure AttemptStart where
  /-- Whether the attempt cancels the run. -/
  cancels : Bool := false
  /-- Milliseconds until it ends. -/
  duration : Nat := 0

/-- What a run calls for, over a state of its own. -/
structure World (σ : Type) where
  begin : σ → Invocation → AttemptStart × σ
  /-- The end of an attempt; without an outcome the job breaks off. -/
  finish : σ → Invocation → Option Outcome × σ
  publish : σ → String → String → Except ArtifactError Unit × σ
  download : σ → String → String → Except ArtifactError Unit × σ
  /-- Whether others may go on while the store is at work. -/
  storeYields : Bool

/-- The numbers of a stage and of a job in it. -/
abbrev JobRef := Nat × Nat

/-- What is to be looked at. -/
inductive Turn where
  | stage (index : Nat)
  | job (ref : JobRef)
  deriving DecidableEq

/-- What a call of a job is waiting for. -/
inductive Pending where
  /-- The end of an attempt, or its limit. -/
  | moment (ends : Nat) (limit : Option Nat)
  | stored (result : Except ArtifactError Unit)

/-- Someone to be woken at a moment; nobody stands for the cancellation. -/
structure Timer where
  due : Nat
  job : Option JobRef

structure Clock (σ : Type) where
  state : RunState
  world : σ
  /-- Milliseconds since the start. -/
  now : Nat := 0
  /-- The job at work. -/
  focus : Option JobRef := none
  ready : List Turn := []
  /-- Stages and jobs that have ended and were not noticed yet, in this order. -/
  endedStages : List Nat := []
  endedJobs : List JobRef := []
  /-- Jobs that asked for an agent, in this order. -/
  queue : List JobRef := []
  /-- Jobs that an agent was set aside for. -/
  granted : List JobRef := []
  pending : List (JobRef × Pending) := []
  /-- In the order in which they were set. -/
  timers : List Timer := []
  /-- Every attempt with the moment at which it began. -/
  attempts : List (Nat × Invocation) := []

namespace Clock

variable {σ : Type}

def move (setup : Setup) (move : Move) (clock : Clock σ) : Clock σ :=
  match clock.state.step? setup move with
  | some state => { clock with state }
  | none => clock

def moveJob (setup : Setup) (ref : JobRef) (jobMove : JobMove) (clock : Clock σ) : Clock σ :=
  clock.move setup (.stage ref.1 (.job ref.2 jobMove))

/-- Put something at the end of what is ready, unless it is there. -/
def wake (turn : Turn) (clock : Clock σ) : Clock σ :=
  if clock.ready.contains turn then clock else { clock with ready := clock.ready ++ [turn] }

def wakeAll (turns : List Turn) (clock : Clock σ) : Clock σ :=
  turns.foldl (fun clock turn => clock.wake turn) clock

/-- Cancel the run, and wake the jobs that ask for an agent. -/
def cancel (setup : Setup) (clock : Clock σ) : Clock σ :=
  (clock.move setup .cancel).wakeAll (clock.queue.map .job)

/-! ## Released nodes -/

def stagePhase? (clock : Clock σ) (index : Nat) : Option (Phase StageWork StageResult) :=
  (clock.state.stages.tasks[index]?).map (·.phase)

def stageRun? (clock : Clock σ) (index : Nat) : Option StageRun :=
  match clock.stagePhase? index with
  | some (.active (.running run)) => some run
  | _ => none

def jobPhase? (clock : Clock σ) (ref : JobRef) : Option (Phase JobWork JobResult) := do
  let run ← clock.stageRun? ref.1
  let task ← run.jobs.tasks[ref.2]?
  return task.phase

def isReleasedStage : Phase StageWork StageResult → Bool
  | .active (.released _) => true
  | _ => false

def isReleasedJob : Phase JobWork JobResult → Bool
  | .active (.released _) => true
  | _ => false

/-- The numbers of the tasks in a phase. -/
def positions {ν α ρ : Type} (isMeant : Phase α ρ → Bool) (tasks : List (Task ν α ρ)) : List Nat :=
  (List.range tasks.length).filter fun index =>
    (tasks[index]?).any fun task => isMeant task.phase

/-- Wake the stages that were released. -/
def wakeStages (clock : Clock σ) : Clock σ :=
  clock.wakeAll ((positions isReleasedStage clock.state.stages.tasks).map .stage)

/-- Wake the jobs of a stage that were released. -/
def wakeJobs (index : Nat) (clock : Clock σ) : Clock σ :=
  match clock.stageRun? index with
  | some run => clock.wakeAll ((positions isReleasedJob run.jobs.tasks).map fun job =>
      .job (index, job))
  | none => clock

/-! ## Stages -/

/-- Notice ended jobs in order. -/
def noticeJobs (setup : Setup) (clock : Clock σ) : List JobRef → Clock σ
  | [] => clock
  | (stage, job) :: rest =>
    noticeJobs setup ((clock.move setup (.stage stage (.notice job))).wakeJobs stage) rest

/-- Put a stage that has ended on the list. -/
def endStage (index : Nat) (clock : Clock σ) : Clock σ :=
  match clock.stagePhase? index with
  | some (.returned _) | some .died => { clock with endedStages := clock.endedStages ++ [index] }
  | _ => clock

/-- Let a stage start, notice its ended jobs and end if nothing is under way in it. -/
def visitStage (setup : Setup) (index : Nat) (clock : Clock σ) : Clock σ :=
  match clock.stagePhase? index with
  | some (.active (.released _)) =>
    (((clock.move setup (.stage index .start)).wakeJobs index).move setup
      (.stage index .finish)).endStage index
  | some (.active (.running _)) =>
    let (mine, others) := clock.endedJobs.partition (·.1 == index)
    ((noticeJobs setup { clock with endedJobs := others } mine).move setup
      (.stage index .finish)).endStage index
  | _ => clock

/-- Notice ended stages in order. -/
def noticeStages (setup : Setup) (clock : Clock σ) : List Nat → Clock σ
  | [] => clock
  | stage :: rest => noticeStages setup ((clock.move setup (.notice stage)).wakeStages) rest

/-! ## Agents -/

/-- Set free agents aside for the first jobs in the queue. -/
def grant (clock : Clock σ) : List JobRef → Clock σ
  | [] => { clock with queue := [] }
  | ref :: rest =>
    if clock.granted.length < clock.state.shared.freeAgents then
      grant ({ clock with granted := clock.granted ++ [ref] }.wake (.job ref)) rest
    else { clock with queue := ref :: rest }

/-- Leave a job that has ended: its agent goes on, and its stage is told. -/
def leaveJob (ref : JobRef) (clock : Clock σ) : Clock σ :=
  let clock := { clock with focus := none, endedJobs := clock.endedJobs ++ [ref] }
  (clock.grant clock.queue).wake (.stage ref.1)

/-- Let a job in the queue take an agent, give up or go on waiting. -/
def visitQueued (setup : Setup) (ref : JobRef) (clock : Clock σ) : Clock σ :=
  if clock.granted.contains ref then
    { clock with granted := clock.granted.erase ref }.moveJob setup ref .takeAgent
  else if clock.state.shared.canceled then
    { clock with queue := clock.queue.erase ref }.moveJob setup ref .withdraw
  else if clock.queue.contains ref then { clock with focus := none }
  else if clock.granted.length < clock.state.shared.freeAgents then
    clock.moveJob setup ref .takeAgent
  else { clock with focus := none, queue := clock.queue ++ [ref] }

/-! ## Calls -/

def setPending (ref : JobRef) (pending : Pending) (clock : Clock σ) : Clock σ :=
  { clock with pending := (ref, pending) :: clock.pending }

/-- Forget what a call was waiting for. -/
def clearPending (ref : JobRef) (clock : Clock σ) : Clock σ :=
  { clock with
    pending := clock.pending.filter (·.1 != ref)
    timers := clock.timers.filter (·.job != some ref) }

/-- Make a call. -/
def issue (setup : Setup) (world : World σ) (ref : JobRef) (ongoing : Ongoing) (clock : Clock σ) :
    Clock σ :=
  match ongoing.call with
  | .attempt invocation _ =>
    let (start, σ) := world.begin clock.world invocation
    let clock := { clock with
      world := σ, attempts := clock.attempts ++ [(clock.now, invocation)] }
    let clock := if start.cancels then clock.cancel setup else clock
    let ends := clock.now + start.duration
    let limit := (ongoing.step.limit? setup).map (clock.now + ·)
    let timers := { due := ends, job := some ref } ::
      (limit.toList.map fun due => { due, job := some ref : Timer })
    { clock with timers := clock.timers ++ timers }.setPending ref (.moment ends limit)
  | .publish artifact source =>
    let (result, σ) := world.publish clock.world artifact source
    yielding ({ clock with world := σ }.setPending ref (.stored result))
  | .download artifact target =>
    let (result, σ) := world.download clock.world artifact target
    yielding ({ clock with world := σ }.setPending ref (.stored result))
where
  yielding (clock : Clock σ) : Clock σ :=
    if world.storeYields then { clock with focus := none }.wake (.job ref) else clock

/-- What a job is waiting for in a call. -/
def ongoing? (clock : Clock σ) (ref : JobRef) : Option Ongoing :=
  match clock.jobPhase? ref with
  | some (.active (.running run)) => run.ongoing
  | _ => none

/-- Make the call that a move has led to, if it has. -/
def issueNext (setup : Setup) (world : World σ) (ref : JobRef) (clock : Clock σ) : Clock σ :=
  match clock.ongoing? ref with
  | some ongoing => clock.issue setup world ref ongoing
  | none => clock

def answer (setup : Setup) (world : World σ) (ref : JobRef) (reply : Reply) (clock : Clock σ) :
    Clock σ :=
  ((clock.clearPending ref).moveJob setup ref (.answer reply)).issueNext setup world ref

/-- Look whether what a call waits for is there. -/
def visitCall (setup : Setup) (world : World σ) (ref : JobRef) (ongoing : Ongoing)
    (clock : Clock σ) : Clock σ :=
  match clock.pending.lookup ref, ongoing.call with
  | some (.stored result), _ => clock.answer setup world ref (.stored result)
  | some (.moment ends limit), .attempt invocation _ =>
    if ends ≤ clock.now then
      match world.finish clock.world invocation with
      | (some outcome, σ) => { clock with world := σ }.answer setup world ref (.outcome outcome)
      | (none, σ) => ({ clock with world := σ }.clearPending ref).moveJob setup ref .die
    else if limit.any (· ≤ clock.now) then clock.answer setup world ref .timedOut
    else { clock with focus := none }
  | _, _ => { clock with focus := none }

/-- Let the job at work go one step further. -/
def visitJob (setup : Setup) (world : World σ) (ref : JobRef) (clock : Clock σ) : Clock σ :=
  match clock.jobPhase? ref with
  | some (.active (.released _)) => clock.moveJob setup ref .start
  | some (.active (.queued _)) => clock.visitQueued setup ref
  | some (.active (.running run)) =>
    match run.ongoing with
    | some ongoing => clock.visitCall setup world ref ongoing
    | none => (clock.moveJob setup ref .advance).issueNext setup world ref
  | some (.returned _) | some .died => clock.leaveJob ref
  | _ => { clock with focus := none }

/-! ## Time -/

/-- The first moment at which something is due. -/
def nextDue? (clock : Clock σ) : Option Nat :=
  (clock.timers.map (·.due)).min?

/-- Go on to a moment and wake what is due then. -/
def goTo (setup : Setup) (moment : Nat) (clock : Clock σ) : Clock σ :=
  let (due, later) := clock.timers.partition (·.due ≤ moment)
  due.foldl
    (fun clock timer =>
      match timer.job with
      | some ref => clock.wake (.job ref)
      | none => clock.cancel setup)
    { clock with now := moment, timers := later }

/-- One step; nothing when the run is over. -/
def tick? (setup : Setup) (world : World σ) (clock : Clock σ) : Option (Clock σ) :=
  match clock.focus, clock.ready, clock.endedStages with
  | some ref, _, _ => some (clock.visitJob setup world ref)
  | none, .stage index :: rest, _ => some ({ clock with ready := rest }.visitStage setup index)
  | none, .job ref :: rest, _ => some { clock with ready := rest, focus := some ref }
  | none, [], _ :: _ =>
    some (noticeStages setup { clock with endedStages := [] } clock.endedStages)
  | none, [], [] =>
    if clock.state.isComplete then none
    else clock.nextDue?.map fun moment => clock.goTo setup moment

/-- Go on until the run is over, for at most some steps. -/
def run (setup : Setup) (world : World σ) : Nat → Clock σ → Clock σ
  | 0, clock => clock
  | steps + 1, clock =>
    match clock.tick? setup world with
    | some clock => run setup world steps clock
    | none => clock

/-- The clock before the first step, with the moment of a cancellation if there is to be one.  A
cancellation at the moment zero comes before everything else. -/
def start (setup : Setup) (world : σ) (cancelAt : Option Nat) : Clock σ :=
  let clock : Clock σ := { state := .start setup, world }
  match cancelAt with
  | none => clock.wakeStages
  | some 0 => (clock.move setup .cancel).wakeStages
  | some moment => { clock with timers := [⟨moment, none⟩] }.wakeStages

end Clock

/-- More steps than a run can take. -/
def Setup.stepBound (setup : Setup) : Nat :=
  let jobBound (node : JobNode) : Nat :=
    total (node.job.steps.map fun step => 16 * (step.attempts.toNat + 1)) + 64
  total (setup.graph.stages.map fun node => total (node.jobs.map jobBound) + 64) + 64

/-- Run from the start to the end. -/
def Setup.run {σ : Type} (setup : Setup) (world : World σ) (initial : σ) (cancelAt : Option Nat) :
    Clock σ :=
  (Clock.start setup initial cancelAt).run setup world setup.stepBound

end BuildPipeline
