import BuildPipeline.Proofs.Run.Moves
import BuildPipeline.Proofs.Schedule.Gathering
import BuildPipeline.Proofs.Status
import BuildPipeline.Run.Report

/-!
# The result tree of a run

What a run reports is read off an invariant of its states: every node that is at work has reported
its first children, and every node that ended did so in one of two ways.

* `JobNode.Ends` and `StageNode.Ends` are those two ways: not started, with all that is below it, or
  run to the end.  Which of them, and why, is not recorded.
* `RunState.sound_of_reachable` is the invariant.  It holds along every run, whichever moves it
  makes: cancellation, tasks that break off and declarations that fail are among them.
* `Graph.ReportedBy` says that a result mirrors a graph, level by level and in the order of
  declaration, with final statuses only.  `length_steps_of_reportedBy` counts the steps of such a
  result.

Names may repeat in the invariant.  They have to be distinct for the mirror, since results are given
out by name.
-/

namespace BuildPipeline

/-! ## Steps -/

/-- A result for a step: its name, its label with variables replaced or not, and a final status. -/
structure Step.ReportedBy (step : Step) (result : StepResult) : Prop where
  name : result.name = step.name
  label : result.label = step.label ∨ ∃ context, result.label = (step.started context).label
  terminal : result.status.isTerminal = true

namespace Step

theorem isTerminal_failureStatus (context : Expression.Context) (step : Step) :
    (step.failureStatus context).isTerminal = true := by
  unfold failureStatus
  split <;> rfl

theorem reportedBy_ofStep (step : Step) {status : Status} (hterminal : status.isTerminal = true) :
    step.ReportedBy (.ofStep step status) :=
  ⟨rfl, Or.inl rfl, hterminal⟩

theorem reportedBy_settle (step : Step) (context : Expression.Context) (outcome : Outcome)
    (environment : Environment) (index : Nat) {failure : Status}
    (hterminal : failure.isTerminal = true) :
    step.ReportedBy (outcome.settle environment index (step.started context) failure).result := by
  refine ⟨rfl, Or.inr ⟨context, rfl⟩, ?_⟩
  change (if outcome.success then Status.succeeded else failure).isTerminal = true
  split
  · rfl
  · exact hterminal

end Step

/-! ## Jobs -/

/-- The statuses of a node that did not start and of everything below it. -/
inductive Unstarted : Status → Status → Prop
  | canceled : Unstarted .canceled .canceled
  | skipped : Unstarted .skipped .skipped
  | failed : Unstarted .failed .skipped

theorem Unstarted.isTerminal {status below : Status} (hunstarted : Unstarted status below) :
    status.isTerminal = true ∧ below.isTerminal = true := by
  cases hunstarted <;> exact ⟨rfl, rfl⟩

/-- The children of a node that did not start are unstarted themselves. -/
theorem Unstarted.below {status below : Status} (hunstarted : Unstarted status below) :
    Unstarted below below := by
  cases hunstarted
  · exact .canceled
  · exact .skipped
  · exact .skipped

/-- What holds of a job while it runs: its first steps are reported, and the ongoing one is the
next. -/
structure JobRun.Sound (node : JobNode) (run : JobRun) : Prop where
  steps : List.Forall₂ Step.ReportedBy (node.job.steps.take run.results.length) run.results
  masks : run.masksFailure = true → node.job.continueOnError ≠ .fixed false
  ongoing : ∀ ongoing, run.ongoing = some ongoing → ongoing.failure.isTerminal = true ∧
    ∀ declared, node.job.steps[run.results.length]? = some declared →
      ∃ context, ongoing.step = declared.started context

/-- The results that a job can end with. -/
inductive JobNode.Ends (node : JobNode) : JobResult → Prop
  | unstarted {status steps : Status} (error : Option String)
      (hunstarted : Unstarted status steps) : Ends node (.notRun node status steps error)
  | ran {run : JobRun} (hsound : run.Sound node)
      (hover : node.job.steps[run.results.length]? = none) : Ends node (run.result node)

/-- What holds of a job in its phase. -/
def JobNode.PhaseSound (node : JobNode) : Phase JobWork JobResult → Prop
  | .active (.running run) => run.Sound node
  | .returned result => node.Ends result
  | _ => True

namespace JobRun.Sound

variable {node : JobNode} {run : JobRun}

/-- A flag that is fixed to false masks nothing. -/
theorem start (environment : Environment) (context : Expression.Context) :
    JobRun.Sound node
      { environment, context, masksFailure := node.job.continueOnError.holds context } := by
  refine ⟨.nil, fun hmasks hfixed => ?_, fun _ hongoing => by cases hongoing⟩
  simp [hfixed, Flag.holds, Flag.resolve, Except.toOption] at hmasks

theorem record {declared : Step} {result : StepResult} (hsound : run.Sound node)
    (hdeclared : node.job.steps[run.results.length]? = some declared)
    (hreported : declared.ReportedBy result) : (run.record declared result).Sound node := by
  refine ⟨?_, hsound.masks, fun _ hongoing => by cases hongoing⟩
  change List.Forall₂ Step.ReportedBy (node.job.steps.take (run.results ++ [result]).length)
    (run.results ++ [result])
  rw [List.length_append, List.length_singleton, List.take_add_one, hdeclared]
  exact List.rel_append hsound.steps (.cons hreported .nil)

theorem concluded {declared : Step} {failure : Status} (hsound : run.Sound node)
    (hdeclared : node.job.steps[run.results.length]? = some declared)
    (hterminal : failure.isTerminal = true) (context : Expression.Context) (outcome : Outcome) :
    (run.concluded declared (declared.started context) failure outcome).Sound node := by
  let ending := outcome.settle run.environment run.results.length (declared.started context) failure
  have hopen : ({ run with environment := ending.environment } : JobRun).Sound node :=
    ⟨hsound.steps, hsound.masks, hsound.ongoing⟩
  exact hopen.record hdeclared (declared.reportedBy_settle context outcome _ _ hterminal)

/-- A call that is made again belongs to the same step. -/
theorem callAgain {ongoing : Ongoing} (hsound : run.Sound node)
    (hongoing : run.ongoing = some ongoing) (call : Call) :
    JobRun.Sound node { run with ongoing := some { ongoing with call } } := by
  refine ⟨hsound.steps, hsound.masks, fun other hother => ?_⟩
  cases hother
  exact hsound.ongoing ongoing hongoing

end JobRun.Sound

namespace JobNode

variable {node : JobNode} {setup : Setup} {place : Place} {environment : Environment}
  {shared : Shared}

theorem phaseSound_of_advances {run : JobRun} {turn : JobTurn}
    (hadvances : JobWork.Advances setup place shared node run turn) (hsound : run.Sound node) :
    node.PhaseSound turn.phase := by
  cases hadvances with
  | ended hover => exact .ran hsound hover
  | @canceled step hdeclared => exact hsound.record hdeclared (step.reportedBy_ofStep rfl)
  | @skipped step reason hdeclared => exact hsound.record hdeclared (step.reportedBy_ofStep rfl)
  | @refused step error hdeclared =>
      have hterminal := step.isTerminal_failureStatus run.stepContext
      exact hsound.record hdeclared ⟨rfl, Or.inl rfl, hterminal⟩
  | @immediate step outcome hdeclared =>
      exact hsound.concluded hdeclared (step.isTerminal_failureStatus run.stepContext) _ _
  | @calling step call after hdeclared =>
      -- Nothing is reported yet.  The call belongs to the step that comes next.
      refine ⟨hsound.steps, hsound.masks, fun ongoing hongoing => ?_⟩
      cases hongoing
      refine ⟨step.isTerminal_failureStatus run.stepContext, fun declared hother => ?_⟩
      rw [hdeclared, Option.some.injEq] at hother
      exact ⟨run.stepContext, by rw [hother]⟩

/-- No move of a job leaves the invariant. -/
theorem phaseSound_of_moves {work : JobWork} {move : JobMove} {turn : JobTurn}
    (hmoves : work.Moves setup place environment shared node move turn)
    (hsound : node.PhaseSound (.active work)) : node.PhaseSound turn.phase := by
  cases hmoves with
  | start dependencies =>
      generalize hstart : JobWork.start setup environment shared node dependencies = turn
      cases JobWork.starts_of_start hstart with
      | canceled => exact .unstarted none .canceled
      | queued => exact trivial
      | skipped => exact .unstarted none .skipped
      | failed => exact .unstarted _ .failed
  | takeAgent context =>
      generalize htake : JobWork.takeAgent environment shared node context = turn
      cases JobWork.takesAgent_of_takeAgent htake with
      | refused => exact .unstarted _ .failed
      | running => exact JobRun.Sound.start _ _
  | withdraw => exact .unstarted none .canceled
  | advance run => exact phaseSound_of_advances (JobWork.advances_of_advance rfl) hsound
  | @answer run ongoing declared reply turn hongoing hdeclared hanswer =>
      obtain ⟨hterminal, hstarted⟩ := JobRun.Sound.ongoing hsound ongoing hongoing
      obtain ⟨context, hcontext⟩ := hstarted declared hdeclared
      rcases JobWork.answer_phase hanswer with ⟨outcome, hphase⟩ | ⟨invocation, number, -, hphase⟩
      · rw [hphase, hcontext]
        exact JobRun.Sound.concluded hsound hdeclared hterminal context outcome
      · rw [hphase]
        exact JobRun.Sound.callAgain hsound hongoing _
  | die => exact trivial

end JobNode

/-! ## Stages -/

/-- The task of a job in the schedule of its stage. -/
def JobNode.task (node : JobNode) : Task JobNode JobWork JobResult :=
  { name := node.name, dependencies := node.dependencies, node }

theorem JobNode.phase_of_mem_tasks {nodes : List JobNode} :
    ∀ task ∈ nodes.map JobNode.task, task.phase = .waiting := by
  intro task htask
  obtain ⟨node, -, rfl⟩ := List.mem_map.mp htask
  rfl

theorem JobNode.names_tasks (nodes : List JobNode) :
    (nodes.map JobNode.task).map (·.name) = nodes.map (·.name) := by
  rw [List.map_map]
  rfl

/-- What holds of a stage while it runs. -/
structure StageRun.Sound (node : StageNode) (run : StageRun) : Prop where
  plan : run.jobs.plan = node.jobs.map JobNode.task
  keeps : run.jobs.Keeps JobNode.PhaseSound

/-- The results that a stage can end with. -/
inductive StageNode.Ends (node : StageNode) : StageResult → Prop
  | unstarted {status jobs : Status} (error : Option String)
      (hunstarted : Unstarted status jobs) : Ends node (.notRun node status jobs error)
  | ran {run : StageRun} (hsound : run.Sound node) : Ends node (run.result node)

/-- What holds of a stage in its phase. -/
def StageNode.PhaseSound (node : StageNode) : Phase StageWork StageResult → Prop
  | .active (.running run) => run.Sound node
  | .returned result => node.Ends result
  | _ => True

namespace JobSchedule

theorem plan_ofNodes (nodes : List JobNode) :
    (JobSchedule.ofNodes nodes).plan = nodes.map JobNode.task := by
  unfold ofNodes
  rw [Schedule.plan_release, Schedule.plan, List.map_map]
  rfl

/-- The phases with which the jobs of a stage begin: released or waiting. -/
theorem keeps_ofNodes {ok : JobNode → Phase JobWork JobResult → Prop}
    (hwaiting : ∀ node, ok node .waiting)
    (hreleased : ∀ node dependencies, ok node (.active (.released dependencies)))
    (nodes : List JobNode) : (JobSchedule.ofNodes nodes).Keeps ok := by
  refine Schedule.Keeps.release (Schedule.keeps_of_waiting fun task htask => ?_) hreleased
  rw [JobNode.phase_of_mem_tasks task htask]
  exact hwaiting task.node

/-- Jobs that were only released have nothing to show. -/
theorem gather_ofNodes {β : Type} {view : JobNode → JobWork → List β}
    (hreleased : ∀ node dependencies, view node (.released dependencies) = [])
    (nodes : List JobNode) : (JobSchedule.ofNodes nodes).gather view = [] := by
  unfold ofNodes
  rw [Schedule.gather_release hreleased]
  exact Schedule.gather_of_waiting JobNode.phase_of_mem_tasks

end JobSchedule

namespace StageNode

variable {node : StageNode} {setup : Setup} {environment : Environment} {shared : Shared}

/-- No move of a stage leaves the invariant. -/
theorem phaseSound_of_moves {work : StageWork} {move : StageMove} {turn : StageTurn}
    (hmoves : work.Moves setup environment shared node move turn)
    (hsound : node.PhaseSound (.active work)) : node.PhaseSound turn.phase := by
  cases hmoves with
  | start dependencies =>
      generalize hstart : StageWork.start setup environment shared node dependencies = turn
      cases StageWork.starts_of_start hstart with
      | canceled => exact .unstarted none .canceled
      | skipped => exact .unstarted none .skipped
      | failed => exact .unstarted _ .failed
      | refused => exact .unstarted _ .failed
      | running =>
          refine ⟨JobSchedule.plan_ofNodes node.jobs, JobSchedule.keeps_ofNodes ?_ ?_ node.jobs⟩
          · exact fun _ => trivial
          · exact fun _ _ => trivial
  | @job run index task work move turn htask hwork hmoves =>
      obtain ⟨hplan, hkeeps⟩ : run.Sound node := hsound
      refine ⟨(Schedule.plan_setPhase run.jobs index turn.phase).trans hplan, ?_⟩
      have hbefore := hkeeps.tasks task (List.mem_of_getElem? htask)
      rw [hwork] at hbefore
      exact hkeeps.setPhase htask (JobNode.phaseSound_of_moves hmoves hbefore)
  | notice hnotice =>
      obtain ⟨hplan, hkeeps⟩ : StageRun.Sound node _ := hsound
      refine ⟨(Schedule.plan_notice? hnotice).trans hplan, ?_⟩
      refine hkeeps.notice (fun _ => trivial) ?_ hnotice
      exact fun _ _ => trivial
  | finish run hsettled => exact .ran hsound
  | die => exact trivial

end StageNode

/-! ## Runs -/

namespace RunState

variable {setup : Setup} {state : RunState}

theorem phase_of_mem_stageTasks {nodes : List StageNode} :
    ∀ task ∈ nodes.map stageTask, task.phase = .waiting := by
  intro task htask
  obtain ⟨node, -, rfl⟩ := List.mem_map.mp htask
  rfl

theorem names_stageTasks (nodes : List StageNode) :
    (nodes.map stageTask).map (·.name) = nodes.map (·.name) := by
  rw [List.map_map]
  rfl

/-- What holds of every state of a run. -/
structure Sound (setup : Setup) (state : RunState) : Prop where
  plan : state.stages.plan = setup.graph.stages.map stageTask
  keeps : state.stages.Keeps StageNode.PhaseSound

/-- Every stage of the graph has a task at its place. -/
theorem Sound.exists_task (hsound : state.Sound setup) {index : Nat} {node : StageNode}
    (hnode : setup.graph.stages[index]? = some node) :
    ∃ task, state.stages.tasks[index]? = some task ∧ task.node = node := by
  have hplace : state.stages.plan[index]? = some (stageTask node) := by
    rw [hsound.plan, List.getElem?_map, hnode, Option.map_some]
  obtain ⟨task, htask, hreset⟩ := Schedule.exists_task_of_plan hplace
  exact ⟨task, htask, congrArg Task.node hreset⟩

theorem plan_refused (nodes : List StageNode) (error : String) :
    (refused nodes error).plan = nodes.map stageTask := by
  simp only [refused, Schedule.plan, List.map_map]
  rfl

/-- What holds of a stage that was refused holds of all stages of a run that cannot start. -/
theorem keeps_refused {ok : StageNode → Phase StageWork StageResult → Prop}
    (nodes : List StageNode) (error : String) (hclosed : ∀ node, ok node .closed)
    (hfailed : ∀ node, ok node (.returned (.notRun node .failed .skipped (some error)))) :
    (refused nodes error).Keeps ok := by
  constructor
  · intro task htask
    obtain ⟨node, -, rfl⟩ := List.mem_map.mp htask
    exact hclosed node
  · intro name result hfound
    obtain ⟨node, hnode, heq⟩ := List.mem_map.mp (Table.mem_of_get?_ofList hfound)
    obtain ⟨rfl, rfl⟩ := Prod.mk.inj heq
    refine ⟨stageTask node, ?_, rfl, hfailed node⟩
    rw [plan_refused]
    exact List.mem_map_of_mem hnode

/-- The phases with which stages start: refused at once, or released, or waiting. -/
theorem keeps_start {ok : StageNode → Phase StageWork StageResult → Prop} (setup : Setup)
    (hwaiting : ∀ node, ok node .waiting) (hclosed : ∀ node, ok node .closed)
    (hreleased : ∀ node dependencies, ok node (.active (.released dependencies)))
    (hfailed : ∀ node error, ok node (.returned (.notRun node .failed .skipped (some error)))) :
    (RunState.start setup).stages.Keeps ok := by
  unfold start
  split
  next environment error hdeclared =>
    cases error with
    | some error =>
        exact keeps_refused setup.graph.stages error.message hclosed fun node => hfailed node _
    | none =>
        refine Schedule.Keeps.release (Schedule.keeps_of_waiting fun task htask => ?_) hreleased
        rw [phase_of_mem_stageTasks task htask]
        exact hwaiting task.node

/-- A run starts with nothing to show. -/
theorem gather_start {β : Type} {view : StageNode → StageWork → List β}
    (hreleased : ∀ node dependencies, view node (.released dependencies) = []) (setup : Setup) :
    (RunState.start setup).stages.gather view = [] := by
  unfold start
  split
  next environment error hdeclared =>
    cases error with
    | some error =>
        refine List.flatMap_eq_nil_iff.mpr fun task htask => ?_
        obtain ⟨node, -, rfl⟩ := List.mem_map.mp htask
        rfl
    | none =>
        rw [Schedule.gather_release hreleased]
        exact Schedule.gather_of_waiting phase_of_mem_stageTasks

/-- What a stage keeps along its own moves is kept along the moves of the run. -/
theorem keeps_of_moves {ok : StageNode → Phase StageWork StageResult → Prop} {next : RunState}
    {move : Move} (hmoves : Moves setup state move next) (hkeeps : state.stages.Keeps ok)
    (hclosed : ∀ node, ok node .closed)
    (hreleased : ∀ node dependencies, ok node (.active (.released dependencies)))
    (hstep : ∀ {node : StageNode} {work : StageWork} {move : StageMove} {turn : StageTurn},
      work.Moves setup state.environment state.shared node move turn →
        ok node (.active work) → ok node turn.phase) :
    next.stages.Keeps ok := by
  cases hmoves with
  | cancel => exact hkeeps
  | @stage index task work move turn htask hwork hmoves =>
      have hbefore := hkeeps.tasks task (List.mem_of_getElem? htask)
      rw [hwork] at hbefore
      exact hkeeps.setPhase htask (hstep hmoves hbefore)
  | notice hnotice => exact hkeeps.notice hclosed hreleased hnotice

theorem plan_start (setup : Setup) :
    (RunState.start setup).stages.plan = setup.graph.stages.map stageTask := by
  unfold start
  split
  next environment error hdeclared =>
    cases error with
    | some error => exact plan_refused setup.graph.stages _
    | none =>
        change (Schedule.release _ _).plan = _
        rw [Schedule.plan_release, Schedule.plan, List.map_map]
        rfl

theorem plan_of_moves {next : RunState} {move : Move} (hmoves : Moves setup state move next) :
    next.stages.plan = state.stages.plan := by
  cases hmoves with
  | cancel => rfl
  | @stage index task work move turn => exact Schedule.plan_setPhase state.stages index turn.phase
  | notice hnotice => exact Schedule.plan_notice? hnotice

theorem sound_start (setup : Setup) : (RunState.start setup).Sound setup := by
  refine ⟨plan_start setup, keeps_start setup ?_ ?_ ?_ ?_⟩
  · exact fun _ => trivial
  · exact fun _ => trivial
  · exact fun _ _ => trivial
  · exact fun _ _ => .unstarted _ .failed

theorem sound_of_moves {next : RunState} {move : Move} (hmoves : Moves setup state move next)
    (hsound : state.Sound setup) : next.Sound setup := by
  refine ⟨(plan_of_moves hmoves).trans hsound.plan, ?_⟩
  refine keeps_of_moves hmoves hsound.keeps ?_ ?_ StageNode.phaseSound_of_moves
  · exact fun _ => trivial
  · exact fun _ _ => trivial

/-- Every state of a run is sound. -/
theorem sound_of_reachable (hreachable : Reachable setup state) : state.Sound setup := by
  induction hreachable with
  | start => exact sound_start setup
  | step move _ hstep ih => exact sound_of_moves (moves_of_step? hstep) ih

end RunState

/-! ## The mirror -/

/-- A result for a job, with a result for each of its steps in order. -/
structure JobNode.ReportedBy (node : JobNode) (result : JobResult) : Prop where
  name : result.name = node.name
  displayName : result.displayName = node.job.displayName
  terminal : result.status.isTerminal = true
  steps : List.Forall₂ Step.ReportedBy node.job.steps result.steps

/-- A result for a stage, with a result for each of its jobs in order. -/
structure StageNode.ReportedBy (node : StageNode) (result : StageResult) : Prop where
  name : result.name = node.name
  displayName : result.displayName = node.stage.displayName
  terminal : result.status.isTerminal = true
  jobs : List.Forall₂ JobNode.ReportedBy node.jobs result.jobs

/-- A result of a run, with a result for each stage of the graph in order. -/
structure Graph.ReportedBy (graph : Graph) (result : PipelineResult) : Prop where
  terminal : result.status.isTerminal = true
  stages : List.Forall₂ StageNode.ReportedBy graph.stages result.stages

theorem JobNode.Ends.reportedBy {node : JobNode} {result : JobResult} (hends : node.Ends result) :
    node.ReportedBy result := by
  cases hends with
  | unstarted error hunstarted =>
      obtain ⟨hstatus, hsteps⟩ := hunstarted.isTerminal
      refine ⟨rfl, rfl, hstatus, List.forall₂_map_right_iff.mpr ?_⟩
      exact List.forall₂_same.mpr fun step _ => step.reportedBy_ofStep hsteps
  | @ran run hsound hover =>
      refine ⟨rfl, rfl, ?_, ?_⟩
      · change (if _ then Status.succeededWithIssues else _ : Status).isTerminal = true
        split
        · rfl
        · exact Status.isTerminal_aggregateAll _
      · have hsteps := hsound.steps
        rwa [List.take_of_length_le (List.getElem?_eq_none_iff.mp hover)] at hsteps

namespace StageNode.Ends

variable {node : StageNode} {result : StageResult}

/-- The results in a stage are those of jobs with the names of their places. -/
theorem forall₂_jobs (hends : node.Ends result) :
    List.Forall₂ (fun job result => ∃ other ∈ node.jobs, other.name = job.name ∧ other.Ends result)
      node.jobs result.jobs := by
  cases hends with
  | unstarted error hunstarted =>
      refine List.forall₂_map_right_iff.mpr (List.forall₂_same.mpr fun job hjob => ?_)
      exact ⟨job, hjob, rfl, .unstarted none hunstarted.below⟩
  | ran hsound =>
      exact hsound.keeps.forall₂_collect_nodes hsound.plan (fun _ => rfl)
        (fun _ => .unstarted _ .failed) (fun _ => .unstarted none .skipped)

theorem exists_ends_of_mem_jobs (hends : node.Ends result) {job : JobResult}
    (hjob : job ∈ result.jobs) : ∃ other ∈ node.jobs, other.Ends job := by
  obtain ⟨-, -, other, hother, -, hjobEnds⟩ := exists_node_of_mem hends.forall₂_jobs hjob
  exact ⟨other, hother, hjobEnds⟩

theorem isTerminal_status (hends : node.Ends result) : result.status.isTerminal = true := by
  cases hends with
  | unstarted error hunstarted => exact hunstarted.isTerminal.1
  | ran hsound => exact Status.isTerminal_aggregateAll _

theorem reportedBy (hnames : (node.jobs.map (·.name)).Nodup) (hends : node.Ends result) :
    node.ReportedBy result := by
  have hlabels : result.name = node.name ∧ result.displayName = node.stage.displayName := by
    cases hends <;> exact ⟨rfl, rfl⟩
  refine ⟨hlabels.1, hlabels.2, hends.isTerminal_status, ?_⟩
  have hjobs := Schedule.forall₂_of_names hnames hends.forall₂_jobs
  exact hjobs.imp fun job jobResult ⟨_, hjobEnds⟩ => hjobEnds.reportedBy

end StageNode.Ends

/-- The results of a run are those of stages with the names of their places. -/
theorem RunState.Sound.forall₂_stages {setup : Setup} {state : RunState}
    (hsound : state.Sound setup) :
    List.Forall₂ (fun node result =>
        ∃ other ∈ setup.graph.stages, other.name = node.name ∧ other.Ends result)
      setup.graph.stages (state.result setup).stages :=
  hsound.keeps.forall₂_collect_nodes hsound.plan (fun _ => rfl) (fun _ => .unstarted _ .failed)
    (fun _ => .unstarted none .skipped)

theorem RunState.Sound.exists_ends_of_mem_stages {setup : Setup} {state : RunState}
    (hsound : state.Sound setup) {stage : StageResult}
    (hstage : stage ∈ (state.result setup).stages) :
    ∃ node ∈ setup.graph.stages, node.Ends stage := by
  obtain ⟨-, -, other, hother, -, hends⟩ := exists_node_of_mem hsound.forall₂_stages hstage
  exact ⟨other, hother, hends⟩

theorem RunState.Sound.reportedBy {setup : Setup} {state : RunState}
    (hsound : state.Sound setup) (hdistinct : setup.graph.DistinctNames) :
    setup.graph.ReportedBy (state.result setup) := by
  refine ⟨Status.isTerminal_aggregateAll _, ?_⟩
  have hstages := Schedule.forall₂_of_names hdistinct.stages hsound.forall₂_stages
  exact hstages.imp fun node result ⟨hnode, hends⟩ =>
    hends.reportedBy (hdistinct.jobs node hnode)

/-! ## Counting steps -/

theorem length_flatMap_eq_total {α β γ : Type} {related : α → β → Prop} {children : β → List γ}
    {size : α → Nat} {nodes : List α} {results : List β}
    (hsize : ∀ node result, related node result → (children result).length = size node)
    (hrelated : List.Forall₂ related nodes results) :
    (results.flatMap children).length = total (nodes.map size) := by
  induction hrelated with
  | nil => rfl
  | @cons node result _ _ hhead _ ih =>
      rw [List.flatMap_cons, List.length_append, hsize node result hhead, ih, List.map_cons,
        total_cons]

theorem length_steps_of_reportedBy {graph : Graph} {result : PipelineResult}
    (hreported : graph.ReportedBy result) : result.steps.length = graph.stepCount := by
  refine length_flatMap_eq_total (fun node stage hstage => ?_) hreported.stages
  refine length_flatMap_eq_total (fun node job hjob => ?_) hstage.jobs
  exact hjob.steps.length_eq.symm

theorem isTerminal_of_mem_steps {graph : Graph} {result : PipelineResult}
    (hreported : graph.ReportedBy result) :
    ∀ step ∈ result.steps, step.status.isTerminal = true := by
  intro step hstep
  obtain ⟨stage, hstage, hjobs⟩ := List.mem_flatMap.mp hstep
  obtain ⟨job, hjob, hsteps⟩ := List.mem_flatMap.mp hjobs
  obtain ⟨stageNode, -, hstageReported⟩ := exists_node_of_mem hreported.stages hstage
  obtain ⟨jobNode, -, hjobReported⟩ := exists_node_of_mem hstageReported.jobs hjob
  obtain ⟨declared, -, hstepReported⟩ := exists_node_of_mem hjobReported.steps hsteps
  exact hstepReported.terminal

/-- Every final status is counted exactly once. -/
theorem sum_countP_status (steps : List StepResult)
    (hterminal : ∀ step ∈ steps, step.status.isTerminal = true) :
    steps.countP (·.status == .succeeded) + steps.countP (·.status == .succeededWithIssues) +
      steps.countP (·.status == .failed) + steps.countP (·.status == .skipped) +
      steps.countP (·.status == .canceled) = steps.length := by
  induction steps with
  | nil => rfl
  | cons step rest ih =>
      obtain ⟨hstep, hrest⟩ := List.forall_mem_cons.mp hterminal
      have hsum := ih hrest
      simp only [List.countP_cons, List.length_cons]
      cases hstatus : step.status <;> simp [hstatus, Status.isTerminal] at hstep ⊢ <;> omega

/-- Every run reports exactly the nodes of its graph, in the order of declaration and with final
statuses, and counts each of its steps once.  The run may have been cancelled at any moment, and
stages and jobs of it may have broken off. -/
theorem result_mirrors_graph {setup : Setup} {state : RunState}
    (hdistinct : setup.graph.DistinctNames) (hreachable : RunState.Reachable setup state) :
    setup.graph.ReportedBy (state.result setup) ∧
      (state.result setup).counts.succeeded + (state.result setup).counts.withIssues +
          (state.result setup).counts.failed + (state.result setup).counts.skipped +
          (state.result setup).counts.canceled = setup.graph.stepCount := by
  have hreported := (RunState.sound_of_reachable hreachable).reportedBy hdistinct
  refine ⟨hreported, ?_⟩
  rw [← length_steps_of_reportedBy hreported]
  exact sum_countP_status _ (isTerminal_of_mem_steps hreported)

/-- A job breaks off with a step under way, the run is cancelled, and a stage breaks off. -/
theorem result_mirrors_graph_broken_off :
    Delivery.setup.graph.DistinctNames ∧ ∃ state, RunState.Reachable Delivery.setup state ∧
      (state.isComplete && (state.result Delivery.setup).counts == ⟨0, 0, 0, 4, 1⟩) = true ∧
      Delivery.setup.graph.ReportedBy (state.result Delivery.setup) ∧
      (state.result Delivery.setup).counts.succeeded +
          (state.result Delivery.setup).counts.withIssues +
          (state.result Delivery.setup).counts.failed +
          (state.result Delivery.setup).counts.skipped +
          (state.result Delivery.setup).counts.canceled = Delivery.setup.graph.stepCount := by
  let check (state : RunState) : Bool :=
    state.isComplete && (state.result Delivery.setup).counts == ⟨0, 0, 0, 4, 1⟩
  obtain ⟨state, hreachable, hcheck⟩ :=
    RunState.exists_reachable_of_replay Delivery.setup check
      [.stage 0 .start, .stage 0 (.job 0 .start), .stage 0 (.job 0 .takeAgent),
        .stage 0 (.job 0 .advance), .stage 0 (.job 0 .die), .stage 0 (.notice 0), .stage 0 .finish,
        .cancel, .notice 0, .stage 1 .start, .stage 2 .die, .notice 2, .notice 1]
      (by decide +kernel)
  refine ⟨Delivery.distinctNames_graph, state, hreachable, hcheck, ?_⟩
  exact result_mirrors_graph Delivery.distinctNames_graph hreachable

end BuildPipeline
