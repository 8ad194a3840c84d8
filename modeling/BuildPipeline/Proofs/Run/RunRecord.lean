import BuildPipeline.Proofs.Run.JobRecord
import BuildPipeline.Proofs.Run.StageCourse
import BuildPipeline.Proofs.Schedule.Records

/-!
# What a run tells

The log of a run has the events of its stages between each other, and the events of a stage have
those of its jobs between each other.  On both levels the log is taken apart by name and put next to
the phases of the nodes.

* `Event.voice` and `StageEvent.voice` say whose an entry is.
* `StageNode.Story` and `StageNode.Records` are for a stage what `JobNode.Story` and
  `JobNode.Records` are for a job.
* `RunState.admits` are the moves of a run in which only a call that is not answered makes a task
  break off.  `RunState.records_of_history` is the invariant of such a run.

A run whose variables cannot be declared tells nothing after its start
(`RunState.log_of_not_declares`).
-/

namespace BuildPipeline

/-! ## Whose an entry is -/

/-- The event of a job among those of its stage.  Calls are not told. -/
def StageEvent.ofJob? (name : String) : StageEvent → Option JobEvent
  | .job other event => if other = name ∧ event.isTold = true then some event else none
  | _ => none

def StageEvent.voice : Voice StageEvent JobEvent where
  say := .job
  isTold := JobEvent.isTold
  hear? := ofJob?
  hear?_say := fun _ _ _ => rfl

/-- The event of a stage among those of the run. -/
def Event.ofStage? (name : String) : Event → Option StageEvent
  | .stage other event => if other = name then some event else none
  | _ => none

def Event.voice : Voice Event StageEvent where
  say := .stage
  isTold := fun _ => true
  hear? := ofStage?
  hear?_say := fun name other event => by simp [ofStage?]

/-! ## The story of a stage -/

/-- What a running stage has told since it started. -/
structure StageRun.Records (mayCancel : Bool) (node : StageNode) (run : StageRun)
    (told : List StageEvent) : Prop where
  plan : run.jobs.plan = node.jobs.map JobNode.task
  jobs : run.jobs.Recorded StageEvent.voice JobNode.name (JobNode.Records mayCancel) told

namespace StageNode

/-- A stage without a condition opens only if its dependencies were successful. -/
def Opens (node : StageNode) (dependencies : List StageResult) : Prop :=
  node.stage.condition = none → ∀ dependency ∈ dependencies, dependency.status.isSuccess = true

/-- The news that a stage has started. -/
def startEvent (node : StageNode) : StageEvent :=
  .started node.stage.displayName node.jobs.length

/-- The whole story of a stage with a result. -/
inductive Story (mayCancel : Bool) (node : StageNode) (dependencies : List StageResult) :
    StageResult → List StageEvent → Prop
  | canceled (hcancel : mayCancel = true) :
      Story mayCancel node dependencies (.notRun node .canceled .canceled none) []
  | skipped (reason : String) :
      Story mayCancel node dependencies (.notRun node .skipped .skipped none) [.skipped reason]
  | failed (error : String) (hopens : node.Opens dependencies) :
      Story mayCancel node dependencies (.notRun node .failed .skipped (some error)) []
  | ran {run : StageRun} {told : List StageEvent} (hopens : node.Opens dependencies)
      (hrecords : run.Records mayCancel node told) (hsettled : run.jobs.isSettled = true) :
      Story mayCancel node dependencies (run.result node)
        (node.startEvent :: told ++ [.completed (run.result node).status])

/-- What a stage has told in its phase, if it was released with the results of some
dependencies. -/
def Records (mayCancel : Bool) (node : StageNode) (dependencies : List StageResult) :
    Phase StageWork StageResult → List StageEvent → Prop
  | .active (.released given), events => given = dependencies ∧ events = []
  | .active (.running run), events => node.Opens dependencies ∧
      ∃ told, run.Records mayCancel node told ∧ events = node.startEvent :: told
  | .returned result, events => node.Story mayCancel dependencies result events
  | _, _ => False

variable {node : StageNode} {dependencies : List StageResult} {setup : Setup}
  {environment : Environment} {shared : Shared}

theorem Records.start (mayCancel : Bool) (node : StageNode) (dependencies : List StageResult) :
    node.Records mayCancel dependencies (.active (.released dependencies)) [] :=
  ⟨rfl, rfl⟩

/-- A stage that is not skipped on its condition opens. -/
theorem opens_of_decision {answer : Except Expression.EvalError Bool}
    (hcondition : StageWork.decision setup environment shared node dependencies = answer)
    (hanswer : answer ≠ .ok false) : node.Opens dependencies := by
  intro hdefault
  rw [← hcondition, StageWork.decision_default hdefault] at hanswer
  exact forall_isSuccess_of_ne_ok_false hanswer

end StageNode

/-! ## Moves of a stage -/

/-- A stage does not break off, and its jobs do so only with a call. -/
def StageWork.admits (work : StageWork) : StageMove → Bool
  | .job index move => (work.job? index).all (·.admits move)
  | .die => false
  | _ => true

namespace StageRun.Records

variable {mayCancel : Bool} {node : StageNode} {run : StageRun} {told : List StageEvent}

theorem start (mayCancel : Bool) (scope : Environment)
    (hnames : (node.jobs.map (·.name)).Nodup) :
    StageRun.Records mayCancel node { environment := scope, jobs := .ofNodes node.jobs } [] := by
  refine ⟨JobSchedule.plan_ofNodes node.jobs, ?_⟩
  refine Schedule.Recorded.opened ?_ JobNode.phase_of_mem_tasks ?_ (JobNode.Records.start mayCancel)
  · rw [← JobNode.names_tasks] at hnames
    exact hnames
  · intro task htask
    obtain ⟨job, -, rfl⟩ := List.mem_map.mp htask
    rfl

/-- A job of the stage goes on and tells of it. -/
theorem job {setup : Setup} {place : Place} {shared : Shared} {index : Nat}
    {task : Task JobNode JobWork JobResult} {work : JobWork} {move : JobMove} {turn : JobTurn}
    (hrecords : run.Records mayCancel node told) (htask : run.jobs.tasks[index]? = some task)
    (hwork : task.phase = .active work)
    (hmoves : work.Moves setup place run.environment shared task.node move turn)
    (hadmits : work.admits move = true) (hcancel : shared.canceled = true → mayCancel = true) :
    StageRun.Records mayCancel node { run with jobs := run.jobs.setPhase index turn.phase }
      (told ++ turn.events.map (.job task.name ·)) := by
  have hbefore := Phase.isSettled_of_active hwork
  have hafter := JobWork.isSettled_of_moves hmoves
  have hcourse := hrecords.jobs.coherent.course_of_getElem? htask hbefore
  rw [Schedule.courseIn, ← hrecords.jobs.name_eq (List.mem_of_getElem? htask), hwork] at hcourse
  refine ⟨(Schedule.plan_setPhase run.jobs index turn.phase).trans hrecords.plan, ?_⟩
  exact hrecords.jobs.setPhase htask hbefore hafter (hcourse.moves hmoves hadmits hcancel)

/-- Every job of a stage that is over has settled as its result and the log say. -/
theorem forall₂_jobs (hrecords : run.Records mayCancel node told)
    (hsettled : run.jobs.isSettled = true) :
    List.Forall₂
      (fun job result => Schedule.Settles (JobNode.Records mayCancel) lostJob unreleasedJob
        run.jobs.finished job.task (StageEvent.voice.heard job.name told) result)
      node.jobs (run.result node).jobs := by
  have hsettles := hrecords.jobs.forall₂_settles hsettled lostJob unreleasedJob
  rw [hrecords.plan, List.forall₂_map_left_iff] at hsettles
  exact hsettles

theorem notice {index : Nat} {jobs : JobSchedule} {result : Option JobResult} {failed : Bool}
    (hrecords : run.Records mayCancel node told)
    (hnotice : run.jobs.notice? JobWork.released index = some (jobs, result)) :
    StageRun.Records mayCancel node { run with jobs, failed } told :=
  ⟨(Schedule.plan_notice? hnotice).trans hrecords.plan,
    hrecords.jobs.notice (JobNode.Records.start mayCancel) hnotice⟩

end StageRun.Records

namespace StageNode

variable {mayCancel : Bool} {node : StageNode} {dependencies : List StageResult} {setup : Setup}
  {environment : Environment} {shared : Shared}

theorem records_of_starts {turn : StageTurn}
    (hstarts : StageWork.Starts setup environment shared node dependencies turn)
    (hnames : (node.jobs.map (·.name)).Nodup)
    (hcancel : shared.canceled = true → mayCancel = true) :
    node.Records mayCancel dependencies turn.phase turn.events := by
  cases hstarts with
  | canceled hcanceled => exact .canceled (hcancel hcanceled)
  | skipped => exact .skipped _
  | failed hlive hcondition => exact .failed _ (opens_of_decision hcondition (by simp))
  | refused hlive hcondition => exact .failed _ (opens_of_decision hcondition (by simp))
  | @running scope hlive hcondition =>
      have hopens : node.Opens dependencies := opens_of_decision hcondition (by simp)
      exact ⟨hopens, [], StageRun.Records.start mayCancel scope hnames, rfl⟩

/-- A stage goes on with its story, if its jobs break off with a call only. -/
theorem Records.moves {work : StageWork} {move : StageMove} {turn : StageTurn}
    {events : List StageEvent}
    (hrecords : node.Records mayCancel dependencies (.active work) events)
    (hmoves : work.Moves setup environment shared node move turn)
    (hadmits : work.admits move = true) (hnames : (node.jobs.map (·.name)).Nodup)
    (hcancel : shared.canceled = true → mayCancel = true) :
    node.Records mayCancel dependencies turn.phase (events ++ turn.events) := by
  cases hmoves with
  | start given =>
      obtain ⟨rfl, rfl⟩ := hrecords
      exact records_of_starts (StageWork.starts_of_start rfl) hnames hcancel
  | @job run index task work move turn htask hwork hmoves =>
      obtain ⟨hopens, told, hrun, rfl⟩ := hrecords
      have hjob : (StageWork.running run).job? index = some work := by
        simp [StageWork.job?, htask, hwork, Phase.work?]
      have hjobAdmits : work.admits move = true := by
        simpa [StageWork.admits, hjob] using hadmits
      exact ⟨hopens, _, hrun.job htask hwork hmoves hjobAdmits hcancel, rfl⟩
  | notice hnotice =>
      obtain ⟨hopens, told, hrun, rfl⟩ := hrecords
      exact ⟨hopens, told, hrun.notice hnotice, List.append_nil _⟩
  | finish run hsettled =>
      obtain ⟨hopens, told, hrun, rfl⟩ := hrecords
      exact .ran hopens hrun hsettled
  | die => cases hadmits

/-- A stage at work that goes on is not settled. -/
theorem Records.isSettled {phase : Phase StageWork StageResult} {events : List StageEvent}
    (hrecords : node.Records mayCancel dependencies phase events) : phase.isSettled = false := by
  cases phase with
  | active work => rfl
  | returned result => rfl
  | _ => exact hrecords.elim

end StageNode

/-! ## Runs -/

namespace RunState

variable {mayCancel : Bool} {setup : Setup} {state next : RunState} {move : Move}

/-- Only a job breaks off, and only with a call.  Whether the run may be cancelled is given. -/
def admits (mayCancel : Bool) (state : RunState) : Move → Bool
  | .cancel => mayCancel
  | .stage index move => (state.work? index).all (·.admits move)
  | .notice _ => true

/-- What a run has told since it started. -/
structure Records (mayCancel : Bool) (setup : Setup) (state : RunState) (told : List Event) :
    Prop where
  canceled : state.shared.canceled = true → mayCancel = true
  plan : state.stages.plan = setup.graph.stages.map stageTask
  log : state.log = .started setup.name setup.graph.stages.length :: told
  stages : state.stages.Recorded Event.voice StageNode.name (StageNode.Records mayCancel) told

theorem log_start (setup : Setup) :
    (RunState.start setup).log = [.started setup.name setup.graph.stages.length] := by
  unfold start
  split
  rfl

theorem records_start (mayCancel : Bool) (hdeclares : Declares setup)
    (hdistinct : setup.graph.DistinctNames) :
    (RunState.start setup).Records mayCancel setup [] := by
  refine ⟨fun hcanceled => ?_, (sound_start setup).plan, log_start setup, ?_⟩
  · rw [canceled_start] at hcanceled
    cases hcanceled
  · rw [stages_start hdeclares]
    refine Schedule.Recorded.opened ?_ phase_of_mem_stageTasks ?_
      (StageNode.Records.start mayCancel)
    · rw [names_stageTasks]
      exact hdistinct.stages
    · intro task htask
      obtain ⟨node, -, rfl⟩ := List.mem_map.mp htask
      rfl

/-- The node of a task is one of the graph. -/
theorem node_mem_of_plan (hplan : state.stages.plan = setup.graph.stages.map stageTask)
    {task : Task StageNode StageWork StageResult} (htask : task ∈ state.stages.tasks) :
    task.node ∈ setup.graph.stages := by
  have hplanned := Schedule.mem_plan_of_mem htask
  rw [hplan] at hplanned
  obtain ⟨node, hnode, heq⟩ := List.mem_map.mp hplanned
  obtain rfl : node = task.node := congrArg Task.node heq
  exact hnode

theorem Records.moves {told : List Event} (hrecords : state.Records mayCancel setup told)
    (hmoves : Moves setup state move next) (hadmits : state.admits mayCancel move = true)
    (hdistinct : setup.graph.DistinctNames) :
    ∃ more, next.Records mayCancel setup (told ++ more) := by
  cases hmoves with
  | cancel =>
      refine ⟨[], fun _ => hadmits, hrecords.plan, ?_, ?_⟩
      · rw [List.append_nil]
        exact hrecords.log
      · rw [List.append_nil]
        exact hrecords.stages
  | @stage index task work move turn htask hwork hmoves =>
      have hmem := List.mem_of_getElem? htask
      have hstage : state.work? index = some work := by
        simp [work?, htask, hwork, Phase.work?]
      have hstageAdmits : work.admits move = true := by
        simpa [admits, hstage] using hadmits
      have hbefore := Phase.isSettled_of_active hwork
      have hcourse := hrecords.stages.coherent.course_of_getElem? htask hbefore
      rw [Schedule.courseIn, ← hrecords.stages.name_eq hmem, hwork] at hcourse
      have hturn := hcourse.moves hmoves hstageAdmits
        (hdistinct.jobs task.node (node_mem_of_plan hrecords.plan hmem)) hrecords.canceled
      refine ⟨turn.events.map (.stage task.name ·), ?_, ?_, ?_, ?_⟩
      · rw [StageWork.canceled_of_moves hmoves]
        exact hrecords.canceled
      · exact (Schedule.plan_setPhase state.stages index turn.phase).trans hrecords.plan
      · exact congrArg (· ++ _) hrecords.log
      · -- Every event of a stage is told, so nothing is lost when its entries are picked out.
        have htold : turn.events.filter Event.voice.isTold = turn.events :=
          List.filter_eq_self.mpr fun _ _ => rfl
        refine hrecords.stages.setPhase htask hbefore hturn.isSettled ?_
        rw [htold]
        exact hturn
  | notice hnotice =>
      refine ⟨[], hrecords.canceled, (Schedule.plan_notice? hnotice).trans hrecords.plan, ?_, ?_⟩
      · rw [List.append_nil]
        exact hrecords.log
      · rw [List.append_nil]
        exact hrecords.stages.notice (StageNode.Records.start mayCancel) hnotice

/-- Every stage of a run that is over has settled as its result and the log say. -/
theorem Records.forall₂_stages {told : List Event} (hrecords : state.Records mayCancel setup told)
    (hcomplete : state.isComplete = true) :
    List.Forall₂
      (fun node result => Schedule.Settles (StageNode.Records mayCancel) lostStage unreleasedStage
        state.stages.finished (stageTask node) (Event.voice.heard node.name told) result)
      setup.graph.stages (state.result setup).stages := by
  have hsettles := hrecords.stages.forall₂_settles hcomplete lostStage unreleasedStage
  rw [hrecords.plan, List.forall₂_map_left_iff] at hsettles
  exact hsettles

/-- What every state of a run has told. -/
theorem records_of_history {states : List RunState}
    (hhistory : History setup (fun state move => state.admits mayCancel move = true) states)
    (hdeclares : Declares setup) (hdistinct : setup.graph.DistinctNames) :
    ∀ state ∈ states, ∃ told, state.Records mayCancel setup told := by
  induction hhistory with
  | start => exact List.forall_mem_singleton.mpr ⟨[], records_start mayCancel hdeclares hdistinct⟩
  | step move hadmits hstep _ ih =>
      refine List.forall_mem_cons.mpr ⟨?_, ih⟩
      obtain ⟨told, hrecords⟩ := ih _ List.mem_cons_self
      obtain ⟨more, hnext⟩ := hrecords.moves (moves_of_step? hstep) hadmits hdistinct
      exact ⟨told ++ more, hnext⟩

/-- A run whose variables cannot be declared tells nothing after its start. -/
theorem log_of_not_declares {allowed : RunState → Move → Prop} {states : List RunState}
    (hrefused : ¬ Declares setup) (hhistory : History setup allowed states) :
    ∀ state ∈ states, state.log = [.started setup.name setup.graph.stages.length] := by
  have hclosed := closed_of_not_declares hrefused
  induction hhistory with
  | start => exact List.forall_mem_singleton.mpr (log_start setup)
  | @step state next earlier move _ hstep hearlier ih =>
      have hlog := ih state List.mem_cons_self
      have hstages := stages_of_not_declares hrefused hearlier state List.mem_cons_self
      refine List.forall_mem_cons.mpr ⟨?_, ih⟩
      cases moves_of_step? hstep with
      | cancel => exact hlog
      | notice => exact hlog
      | stage htask hwork =>
          -- Everything was over from the start, so no stage is left that could move.
          rw [hstages] at htask
          rw [hclosed _ (List.mem_of_getElem? htask)] at hwork
          cases hwork

end RunState
end BuildPipeline
