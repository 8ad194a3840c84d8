import BuildPipeline.Proofs.Run.JobCourse
import BuildPipeline.Proofs.Run.ScheduleOrder

/-!
# The course of a stage and of a run

The course of a job, carried over to the stages of a run that is not cancelled and has no steps with
artifacts.  What is known of a stage is said in terms of the results it was released with.

* `RunState.Obeys` are the moves of such a run: attempts are answered by an executor, and only a job
  can break off, with one of its attempts.
* `StageCourse` says how a stage opened, and that its jobs are coherent with their courses.
  `StageCourse.moves` is the step lemma.
* `RunState.onCourse_of_history` is the invariant of a run: its stages are coherent with their
  courses.

The order of the moves does not occur in a course.
-/

namespace BuildPipeline

/-! ## Moves that an executor determines -/

/-- The work of a node that is at work. -/
def Phase.work? {α ρ : Type} : Phase α ρ → Option α
  | .active work => some work
  | _ => none

/-- The work of the job at a place, in a stage that is running. -/
def StageWork.job? (work : StageWork) (index : Nat) : Option JobWork :=
  match work with
  | .released _ => none
  | .running run => run.jobs.tasks[index]?.bind (·.phase.work?)

/-- Whether the jobs of a stage obey an executor.  The stage itself does not break off. -/
def StageWork.Obeys (executor : Executor) (work : StageWork) : StageMove → Prop
  | .job index move => ∀ job ∈ work.job? index, job.Obeys executor move
  | .die => False
  | _ => True

/-- The work of the stage at a place. -/
def RunState.work? (state : RunState) (index : Nat) : Option StageWork :=
  state.stages.tasks[index]?.bind (·.phase.work?)

/-- Whether a run obeys an executor, and is not cancelled. -/
def RunState.Obeys (executor : Executor) (state : RunState) : Move → Prop
  | .cancel => False
  | .stage index move => ∀ work ∈ state.work? index, work.Obeys executor move
  | .notice _ => True

instance (executor : Executor) (work : StageWork) (move : StageMove) :
    Decidable (work.Obeys executor move) :=
  match move with
  | .job index move =>
    inferInstanceAs (Decidable (∀ job ∈ work.job? index, job.Obeys executor move))
  | .die => .isFalse id
  | .start | .notice _ | .finish => .isTrue trivial

instance (executor : Executor) (state : RunState) (move : Move) :
    Decidable (state.Obeys executor move) :=
  match move with
  | .cancel => .isFalse id
  | .stage index move =>
    inferInstanceAs (Decidable (∀ work ∈ state.work? index, work.Obeys executor move))
  | .notice _ => .isTrue trivial

/-- Whether no step of a graph publishes or downloads anything. -/
def Graph.NoArtifacts (graph : Graph) : Prop :=
  ∀ stage ∈ graph.stages, ∀ job ∈ stage.jobs, job.NoArtifacts

/-! ## Moves do not cancel a run -/

theorem JobWork.Answers.canceled_eq {shared : Shared} {run : JobRun} {declared : Step}
    {ongoing : Ongoing} {reply : Reply} {turn : JobTurn}
    (hanswers : Answers shared run declared ongoing reply turn) :
    turn.shared.canceled = shared.canceled := by
  cases hanswers with
  | attempt =>
      unfold takeOutcome
      split <;> rfl
  | published | refused | download => rfl

theorem JobWork.canceled_of_moves {setup : Setup} {place : Place} {environment : Environment}
    {shared : Shared} {node : JobNode} {work : JobWork} {move : JobMove} {turn : JobTurn}
    (hmoves : work.Moves setup place environment shared node move turn) :
    turn.shared.canceled = shared.canceled := by
  cases hmoves with
  | start dependencies =>
      generalize hstart : JobWork.start setup environment shared node dependencies = turn
      cases JobWork.starts_of_start hstart <;> rfl
  | takeAgent context =>
      generalize htake : JobWork.takeAgent environment shared node context = turn
      cases JobWork.takesAgent_of_takeAgent htake <;> rfl
  | withdraw => rfl
  | advance run =>
      generalize hadvance : JobWork.advance setup place shared node run = turn
      cases JobWork.advances_of_advance hadvance <;> rfl
  | answer _ _ hanswer => exact (JobWork.answers_of_answer hanswer).canceled_eq
  | die work =>
      unfold JobWork.die
      dsimp only
      split <;> rfl

theorem StageWork.canceled_of_moves {setup : Setup} {environment : Environment} {shared : Shared}
    {node : StageNode} {work : StageWork} {move : StageMove} {turn : StageTurn}
    (hmoves : work.Moves setup environment shared node move turn) :
    turn.shared.canceled = shared.canceled := by
  cases hmoves with
  | start dependencies =>
      generalize hstart : StageWork.start setup environment shared node dependencies = turn
      cases StageWork.starts_of_start hstart <;> rfl
  | job _ _ hmoves => exact JobWork.canceled_of_moves hmoves
  | _ => rfl

/-! ## The course of a stage -/

/-- The phase to which a stage opens, in a run that is not cancelled. -/
def StageNode.opening (setup : Setup) (environment : Environment) (node : StageNode)
    (results : List StageResult) : Phase StageWork StageResult :=
  (StageWork.start setup environment Shared.calm node results).phase

/-- What is known of a stage that is running. -/
structure StageRun.OnCourse (executor : Executor) (setup : Setup) (environment : Environment)
    (node : StageNode) (results : List StageResult) (run : StageRun) : Prop where
  opened : node.opening setup environment results =
    .active (.running { environment := run.environment, jobs := .ofNodes node.jobs })
  plan : run.jobs.plan = node.jobs.map JobNode.task
  coherent : run.jobs.Coherent (JobCourse executor setup node.name run.environment)
  saturated : run.jobs.Saturated

/-- What is known of a stage that was released with some results. -/
def StageCourse (executor : Executor) (setup : Setup) (environment : Environment)
    (node : StageNode) (results : List StageResult) : Phase StageWork StageResult → Prop
  | .active (.released dependencies) => dependencies = results
  | .active (.running run) => run.OnCourse executor setup environment node results
  | .returned result => node.opening setup environment results = .returned result ∨
    ∃ run : StageRun, run.OnCourse executor setup environment node results ∧
      run.jobs.isSettled = true ∧ result = run.result node
  | _ => False

namespace StageNode

variable {setup : Setup} {environment : Environment} {shared : Shared} {node : StageNode}
  {results : List StageResult}

theorem opening_eq (hcalm : shared.canceled = false) :
    node.opening setup environment results =
      (StageWork.start setup environment shared node results).phase := by
  have hcalm' : Shared.calm.canceled = false := rfl
  unfold opening StageWork.start
  rw [hcalm, hcalm', if_neg Bool.false_ne_true, if_neg Bool.false_ne_true]
  dsimp only
  split
  · rfl
  · rfl
  · split <;> rfl

theorem opening_cases (setup : Setup) (environment : Environment) (node : StageNode)
    (results : List StageResult) :
    (∃ result, node.opening setup environment results = .returned result) ∨
      ∃ inner, node.opening setup environment results =
        .active (.running { environment := inner, jobs := .ofNodes node.jobs }) := by
  unfold opening
  generalize hstart : StageWork.start setup environment Shared.calm node results = turn
  cases StageWork.starts_of_start hstart with
  | canceled | skipped | failed | refused => exact Or.inl ⟨_, rfl⟩
  | running => exact Or.inr ⟨_, rfl⟩

end StageNode

namespace StageRun.OnCourse

variable {executor : Executor} {setup : Setup} {environment : Environment} {node : StageNode}
  {results : List StageResult} {run : StageRun}

theorem start {inner : Environment} (hnames : (node.jobs.map (·.name)).Nodup)
    (hopened : node.opening setup environment results =
      .active (.running { environment := inner, jobs := .ofNodes node.jobs })) :
    OnCourse executor setup environment node results
      { environment := inner, jobs := .ofNodes node.jobs } := by
  rw [← JobNode.names_tasks] at hnames
  obtain ⟨hcoherent, hsaturated⟩ := Schedule.coherent_release
    (Schedule.coherent_of_waiting hnames JobNode.phase_of_mem_tasks)
    (JobCourse.start executor setup node.name inner)
  exact ⟨hopened, JobSchedule.plan_ofNodes node.jobs, hcoherent, hsaturated⟩

/-- A task of a running stage carries the name of its job. -/
theorem mem_jobs (honCourse : run.OnCourse executor setup environment node results)
    {task : Task JobNode JobWork JobResult} (htask : task ∈ run.jobs.tasks) :
    task.node ∈ node.jobs ∧ task.name = task.node.name := by
  have hplanned := Schedule.mem_plan_of_mem htask
  rw [honCourse.plan] at hplanned
  obtain ⟨job, hjob, heq⟩ := List.mem_map.mp hplanned
  have hnode : job = task.node := congrArg Task.node heq
  have hname : job.name = task.name := congrArg Task.name heq
  exact ⟨hnode ▸ hjob, by rw [← hname, hnode]⟩

/-- The jobs of a stage stay on their courses. -/
theorem job {index : Nat} {task : Task JobNode JobWork JobResult} {work : JobWork}
    {move : JobMove} {turn : JobTurn} {shared : Shared}
    (honCourse : run.OnCourse executor setup environment node results)
    (htask : run.jobs.tasks[index]? = some task) (hwork : task.phase = .active work)
    (hmoves : work.Moves setup (StageWork.placeOf setup node run task.name) run.environment shared
      task.node move turn)
    (hobeys : work.Obeys executor move) (hcalm : shared.canceled = false)
    (hartifacts : ∀ job ∈ node.jobs, job.NoArtifacts) :
    OnCourse executor setup environment node results
      { run with jobs := run.jobs.setPhase index turn.phase } := by
  obtain ⟨hmem, hname⟩ := honCourse.mem_jobs (List.mem_of_getElem? htask)
  have hnext := JobWork.next_of_moves hmoves hobeys hcalm (hartifacts task.node hmem) hname
  have hbefore := Phase.isSettled_of_active hwork
  have hcourse := honCourse.coherent.course_of_getElem? htask hbefore
  rw [hwork] at hcourse
  have hafter := JobWork.isSettled_of_moves hmoves
  refine ⟨honCourse.opened, ?_, ?_, Schedule.saturated_setPhase honCourse.saturated hafter⟩
  · exact (Schedule.plan_setPhase run.jobs index turn.phase).trans honCourse.plan
  · exact honCourse.coherent.setPhase htask hbefore hafter (hcourse.tail hnext)

theorem notice {index : Nat} {jobs : JobSchedule} {result : Option JobResult} {failed : Bool}
    (honCourse : run.OnCourse executor setup environment node results)
    (hnotice : run.jobs.notice? JobWork.released index = some (jobs, result)) :
    OnCourse executor setup environment node results { run with jobs, failed } := by
  obtain ⟨hcoherent, hsaturated⟩ := Schedule.coherent_notice honCourse.coherent
    (JobCourse.start executor setup node.name run.environment) hnotice
  exact ⟨honCourse.opened, (Schedule.plan_notice? hnotice).trans honCourse.plan, hcoherent,
    hsaturated⟩

end StageRun.OnCourse

theorem StageCourse.start (executor : Executor) (setup : Setup) (environment : Environment)
    (node : StageNode) (results : List StageResult) :
    StageCourse executor setup environment node results (.active (.released results)) :=
  rfl

/-- A stage on its course is at work or has returned. -/
theorem StageCourse.isUnderWay {executor : Executor} {setup : Setup} {environment : Environment}
    {node : StageNode} {results : List StageResult} {phase : Phase StageWork StageResult}
    (hcourse : StageCourse executor setup environment node results phase) :
    phase.isUnderWay = true := by
  cases phase with
  | active work => rfl
  | returned result => rfl
  | _ => exact hcourse.elim

/-- A stage stays on its course, if its jobs obey the executor. -/
theorem StageCourse.moves {executor : Executor} {setup : Setup} {environment : Environment}
    {shared : Shared} {node : StageNode} {results : List StageResult} {work : StageWork}
    {move : StageMove} {turn : StageTurn}
    (hcourse : StageCourse executor setup environment node results (.active work))
    (hmoves : work.Moves setup environment shared node move turn)
    (hobeys : work.Obeys executor move) (hcalm : shared.canceled = false)
    (hartifacts : ∀ job ∈ node.jobs, job.NoArtifacts)
    (hnames : (node.jobs.map (·.name)).Nodup) :
    StageCourse executor setup environment node results turn.phase := by
  cases hmoves with
  | start dependencies =>
      obtain rfl : dependencies = results := hcourse
      rw [← StageNode.opening_eq hcalm]
      rcases StageNode.opening_cases setup environment node dependencies with
        ⟨result, hopening⟩ | ⟨inner, hopening⟩
      · rw [hopening]
        exact Or.inl hopening
      · rw [hopening]
        exact StageRun.OnCourse.start hnames hopening
  | @job run index task work move turn htask hwork hmoves =>
      -- The stage obeys the executor exactly as the job that moves does.
      have hjob : work ∈ (StageWork.running run).job? index := by
        simp [StageWork.job?, htask, hwork, Phase.work?]
      exact StageRun.OnCourse.job hcourse htask hwork hmoves (hobeys work hjob) hcalm hartifacts
  | notice hnotice => exact StageRun.OnCourse.notice hcourse hnotice
  | finish run hsettled => exact Or.inr ⟨run, hcourse, hsettled, rfl⟩
  | die => exact hobeys.elim

/-! ## The course of a run -/

namespace RunState

variable {executor : Executor} {setup : Setup} {state next : RunState} {move : Move}

/-- What is known of a run that obeys an executor. -/
structure OnCourse (executor : Executor) (setup : Setup) (state : RunState) : Prop where
  calm : state.shared.canceled = false
  environment : state.environment = (RunState.start setup).environment
  plan : state.stages.plan = setup.graph.stages.map stageTask
  coherent : state.stages.Coherent (StageCourse executor setup state.environment)
  saturated : state.stages.Saturated

theorem canceled_start (setup : Setup) : (RunState.start setup).shared.canceled = false := by
  unfold start
  split
  rfl

theorem onCourse_start (executor : Executor) (hdeclares : Declares setup)
    (hdistinct : setup.graph.DistinctNames) : (RunState.start setup).OnCourse executor setup := by
  have hnames := hdistinct.stages
  rw [← names_stageTasks] at hnames
  have hrelease := Schedule.coherent_release
    (Schedule.coherent_of_waiting hnames phase_of_mem_stageTasks)
    (StageCourse.start executor setup (RunState.start setup).environment)
  rw [← stages_start hdeclares] at hrelease
  exact ⟨canceled_start setup, rfl, (sound_start setup).plan, hrelease.1, hrelease.2⟩

/-- Moves that obey the executor keep a run on its course. -/
theorem OnCourse.moves (honCourse : state.OnCourse executor setup)
    (hmoves : Moves setup state move next) (hobeys : state.Obeys executor move)
    (hdistinct : setup.graph.DistinctNames) (hartifacts : setup.graph.NoArtifacts) :
    next.OnCourse executor setup := by
  cases hmoves with
  | cancel => exact hobeys.elim
  | @stage index task work move turn htask hwork hmoves =>
      have hplanned := Schedule.mem_plan_of_mem (List.mem_of_getElem? htask)
      rw [honCourse.plan] at hplanned
      obtain ⟨node, hnode, heq⟩ := List.mem_map.mp hplanned
      obtain rfl : node = task.node := congrArg Task.node heq
      have hbefore := Phase.isSettled_of_active hwork
      have hcourse := honCourse.coherent.course_of_getElem? htask hbefore
      rw [hwork] at hcourse
      have hstage : work ∈ state.work? index := by
        simp [work?, htask, hwork, Phase.work?]
      have hturn := hcourse.moves hmoves (hobeys work hstage) honCourse.calm
        (hartifacts task.node hnode) (hdistinct.jobs task.node hnode)
      have hafter := Phase.isSettled_of_isUnderWay hturn.isUnderWay
      constructor
      · exact (StageWork.canceled_of_moves hmoves).trans honCourse.calm
      · exact honCourse.environment
      · exact (Schedule.plan_setPhase state.stages index turn.phase).trans honCourse.plan
      · exact honCourse.coherent.setPhase htask hbefore hafter hturn
      · exact Schedule.saturated_setPhase honCourse.saturated hafter
  | notice hnotice =>
      obtain ⟨hcoherent, hsaturated⟩ := Schedule.coherent_notice honCourse.coherent
        (StageCourse.start executor setup state.environment) hnotice
      exact ⟨honCourse.calm, honCourse.environment,
        (Schedule.plan_notice? hnotice).trans honCourse.plan, hcoherent, hsaturated⟩

/-- Every run that obeys an executor is on its course. -/
theorem onCourse_of_history {states : List RunState}
    (hhistory : History setup (fun state move => state.Obeys executor move) states)
    (hdeclares : Declares setup) (hdistinct : setup.graph.DistinctNames)
    (hartifacts : setup.graph.NoArtifacts) : ∀ state ∈ states, state.OnCourse executor setup := by
  induction hhistory with
  | start => exact List.forall_mem_singleton.mpr (onCourse_start executor hdeclares hdistinct)
  | step move hobeys hstep _ ih =>
      refine List.forall_mem_cons.mpr ⟨?_, ih⟩
      exact (ih _ List.mem_cons_self).moves (moves_of_step? hstep) hobeys hdistinct hartifacts

end RunState

end BuildPipeline
