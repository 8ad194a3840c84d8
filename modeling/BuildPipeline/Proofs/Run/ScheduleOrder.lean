import BuildPipeline.Proofs.Run.ResultTree
import BuildPipeline.Proofs.Schedule.Trace

/-!
# The order in which stages and jobs start

The schedule of the stages goes its way through the whole run, and the schedule of the jobs of a
stage goes its own way while that stage is running.  This module follows both through a history in
which no task breaks off.

* `StageWork.Follows` lists how the phase of a stage can change from one state to the next.
* `StageNode.Traced` is the invariant for the jobs of one stage: their schedules form a way, which
  ends with nothing under way when the stage ends.
* `schedules_are_orderly` is the result for both levels: everything starts exactly once and after
  its dependencies, and no substitute is given out in the end.

Cancellation may come at any moment.  Runs whose variables cannot be declared start no stage at all
and are left out.
-/

namespace BuildPipeline

/-! ## Moves that break off -/

def JobMove.breaksOff : JobMove → Bool
  | .die => true
  | _ => false

def StageMove.breaksOff : StageMove → Bool
  | .job _ move => move.breaksOff
  | .die => true
  | _ => false

def Move.breaksOff : Move → Bool
  | .stage _ move => move.breaksOff
  | _ => false

/-- Whether a whole stage breaks off. -/
def Move.losesStage : Move → Bool
  | .stage _ .die => true
  | _ => false

theorem Move.losesStage_of_returns {move : Move} (hreturns : move.breaksOff = false) :
    move.losesStage = false := by
  cases move with
  | stage index move =>
      cases move with
      | die => cases hreturns
      | _ => rfl
  | _ => rfl

/-- After a move a job is at work or has returned, unless it has broken off. -/
theorem JobWork.isUnderWay_of_moves {setup : Setup} {place : Place} {environment : Environment}
    {shared : Shared} {node : JobNode} {work : JobWork} {move : JobMove} {turn : JobTurn}
    (hmoves : work.Moves setup place environment shared node move turn)
    (hreturns : move.breaksOff = false) : turn.phase.isUnderWay = true := by
  cases hmoves with
  | start dependencies =>
      generalize hstart : JobWork.start setup environment shared node dependencies = turn
      cases JobWork.starts_of_start hstart <;> rfl
  | takeAgent context =>
      generalize htake : JobWork.takeAgent environment shared node context = turn
      cases JobWork.takesAgent_of_takeAgent htake <;> rfl
  | withdraw => rfl
  | advance run =>
      generalize hadvance : JobWork.advance setup place shared node run = turn
      cases JobWork.advances_of_advance hadvance <;> rfl
  | answer _ _ hanswer =>
      rcases JobWork.answer_phase hanswer with ⟨_, hphase⟩ | ⟨_, _, _, hphase⟩
      · rw [hphase]
        rfl
      · rw [hphase]
        rfl
  | die => cases hreturns

/-- A job that makes a move has something to be noticed in the end. -/
theorem JobWork.isSettled_of_moves {setup : Setup} {place : Place} {environment : Environment}
    {shared : Shared} {node : JobNode} {work : JobWork} {move : JobMove} {turn : JobTurn}
    (hmoves : work.Moves setup place environment shared node move turn) :
    turn.phase.isSettled = false := by
  cases hreturns : move.breaksOff with
  | false => exact Phase.isSettled_of_isUnderWay (isUnderWay_of_moves hmoves hreturns)
  | true =>
      cases hmoves with
      | die => rfl
      | _ => cases hreturns

/-! ## The jobs of a stage -/

/-- The schedule of the jobs of a stage that is running. -/
def Phase.jobs? : Phase StageWork StageResult → Option JobSchedule
  | .active (.running run) => some run.jobs
  | _ => none

/-- The schedule of the jobs of the stage at a place, while it is running. -/
def RunState.jobs? (state : RunState) (index : Nat) : Option JobSchedule :=
  state.stages.tasks[index]?.bind (·.phase.jobs?)

/-- How the phase of a stage can change when no task breaks off. -/
inductive StageNode.Follows (node : StageNode) :
    Phase StageWork StageResult → Phase StageWork StageResult → Prop
  | rest (phase : Phase StageWork StageResult) : Follows node phase phase
  | release (dependencies : List StageResult) :
      Follows node .waiting (.active (.released dependencies))
  | decline {dependencies : List StageResult} (result : StageResult) :
      Follows node (.active (.released dependencies)) (.returned result)
  | opened {dependencies : List StageResult} (environment : Environment) :
      Follows node (.active (.released dependencies))
        (.active (.running { environment, jobs := .ofNodes node.jobs }))
  | jobs {before after : StageRun}
      (hnext : Schedule.Next JobWork.released before.jobs after.jobs) :
      Follows node (.active (.running before)) (.active (.running after))
  | finish {run : StageRun} (hsettled : run.jobs.isSettled = true) (result : StageResult) :
      Follows node (.active (.running run)) (.returned result)
  | close {phase : Phase StageWork StageResult} {result : Option StageResult}
      (hended : phase = .ended result) : Follows node phase .closed

/-- The schedules of the jobs of a stage so far, the latest first, as its phase has it. -/
def StageNode.Traced (node : StageNode) (phase : Phase StageWork StageResult)
    (schedules : List JobSchedule) : Prop :=
  match phase with
  | .waiting | .active (.released _) => schedules = []
  | .active (.running run) =>
      Schedule.Trace JobWork.released (node.jobs.map JobNode.task) schedules ∧
        schedules.head? = some run.jobs
  | _ => schedules = [] ∨
      Schedule.Trace JobWork.released (node.jobs.map JobNode.task) schedules ∧
        ∀ latest ∈ schedules.head?, latest.isSettled = true

/-- The schedules of the jobs form a way whatever happens to the stage. -/
theorem StageNode.Traced.follows {node : StageNode} {before after : Phase StageWork StageResult}
    {schedules : List JobSchedule} (htraced : node.Traced before schedules)
    (hfollows : node.Follows before after) :
    node.Traced after (after.jobs?.toList ++ schedules) := by
  have hextend : ∀ {run : StageRun} (jobs : JobSchedule),
      node.Traced (.active (.running run)) schedules →
      Schedule.Next JobWork.released run.jobs jobs →
      Schedule.Trace JobWork.released (node.jobs.map JobNode.task) (jobs :: schedules) := by
    rintro run jobs ⟨htrace, hhead⟩ hnext
    obtain ⟨earlier, rfl⟩ := List.head?_eq_some_iff.mp hhead
    exact .next hnext htrace
  -- A stage that is running afterwards adds a schedule to the way; any other phase adds none.
  cases hfollows with
  | rest =>
      unfold Phase.jobs?
      split
      · next run => exact ⟨hextend run.jobs htraced .rest, rfl⟩
      · exact htraced
  | release dependencies => exact htraced
  | decline result => exact Or.inl htraced
  | opened environment =>
      obtain rfl : schedules = [] := htraced
      exact ⟨.opened, rfl⟩
  | @jobs before after hnext => exact ⟨hextend after.jobs htraced hnext, rfl⟩
  | @finish run hsettled result =>
      obtain ⟨htrace, hhead⟩ := htraced
      refine Or.inr ⟨htrace, fun latest hlatest => ?_⟩
      obtain rfl : run.jobs = latest := Option.some.inj (hhead.symm.trans hlatest)
      exact hsettled
  | @close phase result hended =>
      subst hended
      cases result <;> exact htraced

/-! ## One move of a run -/

/-- After a move a stage is at work or has returned, unless it has broken off itself. -/
theorem StageWork.isUnderWay_of_moves {setup : Setup} {environment : Environment} {shared : Shared}
    {node : StageNode} {work : StageWork} {move : StageMove} {turn : StageTurn}
    (hmoves : work.Moves setup environment shared node move turn) (hstays : move ≠ .die) :
    turn.phase.isUnderWay = true := by
  cases hmoves with
  | start dependencies =>
      generalize hstart : StageWork.start setup environment shared node dependencies = turn
      cases StageWork.starts_of_start hstart <;> rfl
  | job | notice | finish => rfl
  | die => exact absurd rfl hstays

/-- How the phase of a stage changes when no task of it breaks off. -/
theorem StageWork.follows_of_moves {setup : Setup} {environment : Environment} {shared : Shared}
    {node : StageNode} {work : StageWork} {move : StageMove} {turn : StageTurn}
    (hmoves : work.Moves setup environment shared node move turn)
    (hreturns : move.breaksOff = false) : node.Follows (.active work) turn.phase := by
  cases hmoves with
  | start dependencies =>
      generalize hstart : StageWork.start setup environment shared node dependencies = turn
      cases StageWork.starts_of_start hstart with
      | canceled | skipped | failed | refused => exact .decline _
      | running => exact .opened _
  | @job run index task work move turn htask hwork hmoves =>
      have hbefore := Phase.isSettled_of_active hwork
      exact .jobs (.move htask hbefore (JobWork.isUnderWay_of_moves hmoves hreturns))
  | notice hnotice => exact .jobs (.notice hnotice)
  | finish run hsettled => exact .finish hsettled _
  | die => cases hreturns

/-- What a move does to the schedule of the stages, unless a stage breaks off. -/
theorem RunState.next_stages_of_moves {setup : Setup} {state next : RunState} {move : Move}
    (hmoves : Moves setup state move next) (hkeeps : move.losesStage = false) :
    Schedule.Next StageWork.released state.stages next.stages := by
  cases hmoves with
  | cancel => exact .rest
  | @stage index task work move turn htask hwork hmoves =>
      have hstays : move ≠ .die := by
        rintro rfl
        cases hkeeps
      exact .move htask (Phase.isSettled_of_active hwork)
        (StageWork.isUnderWay_of_moves hmoves hstays)
  | notice hnotice => exact .notice hnotice

/-- What a move that does not break off does to each stage. -/
theorem RunState.follows_of_moves {setup : Setup} {state next : RunState} {move : Move}
    (hmoves : Moves setup state move next) (hreturns : move.breaksOff = false) {place : Nat}
    {after : Task StageNode StageWork StageResult}
    (hafter : next.stages.tasks[place]? = some after) :
    ∃ before, state.stages.tasks[place]? = some before ∧ before.node = after.node ∧
      after.node.Follows before.phase after.phase := by
  cases hmoves with
  | cancel => exact ⟨after, hafter, rfl, .rest _⟩
  | @stage index task work move turn htask hwork hmoves =>
      rw [Schedule.getElem?_setPhase, Option.map_eq_some_iff] at hafter
      obtain ⟨before, hplace, rfl⟩ := hafter
      by_cases hindex : index = place
      · subst hindex
        rw [htask, Option.some.injEq] at hplace
        subst hplace
        refine ⟨task, htask, by simp, ?_⟩
        simpa [hwork] using StageWork.follows_of_moves hmoves hreturns
      · exact ⟨before, hplace, by simp [hindex], by simpa [hindex] using .rest _⟩
  | @notice index stages result hnotice =>
      obtain ⟨before, hbefore, hcases⟩ := Schedule.getElem?_of_notice? hnotice hafter
      rcases hcases with rfl | ⟨hended, rfl⟩ | ⟨hwaiting, results, rfl⟩
      · exact ⟨after, hbefore, rfl, .rest _⟩
      · exact ⟨before, hbefore, rfl, .close hended⟩
      · exact ⟨before, hbefore, rfl, hwaiting ▸ .release results⟩

/-! ## Histories -/

namespace RunState

variable {setup : Setup} {states : List RunState}

/-- Whether the variables of the pipeline can be declared. -/
def Declares (setup : Setup) : Prop :=
  ((Environment.ofTable setup.vars).declare setup.context setup.graph.vars).2 = none

theorem stages_start (hdeclares : Declares setup) :
    (RunState.start setup).stages =
      (⟨setup.graph.stages.map stageTask, []⟩ : StageSchedule).release StageWork.released := by
  unfold start
  split
  next environment error hdeclared =>
    rw [Declares, hdeclared] at hdeclares
    obtain rfl : error = none := hdeclares
    rfl

theorem stages_start_of_not_declares (hrefused : ¬ Declares setup) :
    ∃ error, (RunState.start setup).stages = refused setup.graph.stages error := by
  unfold start
  split
  next environment error hdeclared =>
    cases error with
    | none =>
        refine absurd ?_ hrefused
        rw [Declares, hdeclared]
    | some error => exact ⟨error.message, rfl⟩

/-- A run whose variables cannot be declared starts with everything over. -/
theorem closed_of_not_declares (hrefused : ¬ Declares setup) :
    ∀ task ∈ (RunState.start setup).stages.tasks, task.phase = .closed := by
  obtain ⟨error, hstages⟩ := stages_start_of_not_declares hrefused
  rw [hstages]
  intro task htask
  obtain ⟨node, -, rfl⟩ := List.mem_map.mp htask
  rfl

/-- It has a result for every stage from the start. -/
theorem exists_result_of_not_declares (hrefused : ¬ Declares setup) :
    ∀ task ∈ (RunState.start setup).stages.tasks,
      ∃ result, (RunState.start setup).stages.finished.get? task.name = some result := by
  obtain ⟨error, hstages⟩ := stages_start_of_not_declares hrefused
  rw [hstages]
  intro task htask
  obtain ⟨node, hnode, rfl⟩ := List.mem_map.mp htask
  refine Table.exists_get?_ofList ?_
  rw [List.map_map]
  exact List.mem_map_of_mem (f := fun node : StageNode => node.name) hnode

/-- The stages of a run depend on one another as the graph has it. -/
theorem precedence_of_plan {state : RunState}
    (hplan : state.stages.plan = setup.graph.stages.map stageTask) :
    state.stages.precedence = setup.graph.precedence := by
  rw [Schedule.precedence, hplan, List.map_map]
  rfl

/-- Nothing moves in a run whose variables cannot be declared. -/
theorem stages_of_not_declares {setup : Setup} {allowed : RunState → Move → Prop}
    {states : List RunState} (hrefused : ¬ Declares setup)
    (hhistory : History setup allowed states) :
    ∀ state ∈ states, state.stages = (RunState.start setup).stages := by
  have hclosed := closed_of_not_declares hrefused
  induction hhistory with
  | start => exact List.forall_mem_singleton.mpr rfl
  | @step state next earlier move _ hstep _ ih =>
      have hstages := ih state List.mem_cons_self
      refine List.forall_mem_cons.mpr ⟨?_, ih⟩
      cases moves_of_step? hstep with
      | cancel => exact hstages
      | stage htask hwork hmoves =>
          rw [hstages] at htask
          rw [hclosed _ (List.mem_of_getElem? htask)] at hwork
          cases hwork
      | @notice index stages result hnotice =>
          obtain ⟨task, htask, hended, -⟩ := Schedule.notice?_cases hnotice
          rw [hstages] at htask
          rw [hclosed _ (List.mem_of_getElem? htask)] at hended
          cases result <;> cases hended

/-- The schedules of the stages form a way. -/
theorem trace_stages (hdeclares : Declares setup)
    (hhistory : History setup (fun _ move => move.breaksOff = false) states) :
    Schedule.Trace StageWork.released (setup.graph.stages.map stageTask)
      (states.map (·.stages)) := by
  induction hhistory with
  | start =>
      rw [List.map_singleton, stages_start hdeclares]
      exact .opened
  | step move hreturns hstep _ ih =>
      have hkeeps := Move.losesStage_of_returns hreturns
      exact .next (next_stages_of_moves (moves_of_step? hstep) hkeeps) ih

/-- The schedules of the jobs of a stage that is not running have been left alone. -/
theorem traced_start (hdeclares : Declares setup) {index : Nat}
    {task : Task StageNode StageWork StageResult}
    (htask : (RunState.start setup).stages.tasks[index]? = some task) :
    task.node.Traced task.phase [] ∧ task.phase.jobs? = none := by
  rw [stages_start hdeclares, Schedule.getElem?_release, List.getElem?_map] at htask
  obtain ⟨planned, hplanned, rfl⟩ := Option.map_eq_some_iff.mp htask
  obtain ⟨node, -, rfl⟩ := Option.map_eq_some_iff.mp hplanned
  unfold Schedule.releaseTask
  split <;> exact ⟨rfl, rfl⟩

/-- The schedules of the jobs of every stage are as the latest phase of the stage has it. -/
theorem traced_jobs (hdeclares : Declares setup) {latest : RunState} {earlier : List RunState}
    (hhistory : History setup (fun _ move => move.breaksOff = false) (latest :: earlier))
    {index : Nat} {task : Task StageNode StageWork StageResult}
    (htask : latest.stages.tasks[index]? = some task) :
    task.node.Traced task.phase ((latest :: earlier).filterMap (·.jobs? index)) := by
  generalize hstates : latest :: earlier = states at hhistory
  -- The induction is on the moves.  Of each only what it does to this one stage counts.
  induction hhistory generalizing latest earlier task with
  | start =>
      cases hstates
      obtain ⟨htraced, hidle⟩ := traced_start hdeclares htask
      have hjobs : (RunState.start setup).jobs? index = none := by
        rw [jobs?, htask, Option.bind_some, hidle]
      simp only [List.filterMap_cons, List.filterMap_nil, hjobs]
      exact htraced
  | @step state next before move hreturns hstep _ ih =>
      cases hstates
      obtain ⟨old, hold, hnode, hphase⟩ :=
        follows_of_moves (moves_of_step? hstep) hreturns htask
      have htraced := ih hold rfl
      rw [hnode] at htraced
      have hjobs : next.jobs? index = task.phase.jobs? := by
        rw [jobs?, htask, Option.bind_some]
      have hextended := htraced.follows hphase
      rw [List.filterMap_cons, hjobs]
      cases hcurrent : task.phase.jobs? with
      | none => simpa [hcurrent] using hextended
      | some jobs => simpa [hcurrent] using hextended

end RunState

/-- The jobs of a traced stage go an orderly way, which is over when the stage is not running. -/
theorem StageNode.Traced.orderly {node : StageNode} {phase : Phase StageWork StageResult}
    {schedules : List JobSchedule} (htraced : node.Traced phase schedules)
    (hnames : (node.jobs.map (·.name)).Nodup) (hsound : (JobNode.precedence node.jobs).Sound) :
    Schedule.Orderly (node.jobs.map JobNode.task) schedules ∧
      (phase.jobs? = none → ∀ latest ∈ schedules.head?, latest.isSettled = true) := by
  have htrace : Schedule.Trace JobWork.released (node.jobs.map JobNode.task) schedules →
      Schedule.Orderly (node.jobs.map JobNode.task) schedules := by
    refine Schedule.Trace.orderly ?_ JobNode.phase_of_mem_tasks ?_
    · rw [JobNode.names_tasks]
      exact hnames
    · rw [List.map_map]
      exact hsound
  have hended : schedules = [] ∨
      Schedule.Trace JobWork.released (node.jobs.map JobNode.task) schedules ∧
        (phase.jobs? = none → ∀ latest ∈ schedules.head?, latest.isSettled = true) := by
    cases phase with
    | waiting => exact Or.inl htraced
    | active work =>
        cases work with
        | released dependencies => exact Or.inl htraced
        | running run => exact Or.inr ⟨htraced.1, fun hidle => by cases hidle⟩
    | returned result => exact htraced.imp_right fun hway => ⟨hway.1, fun _ => hway.2⟩
    | died => exact htraced.imp_right fun hway => ⟨hway.1, fun _ => hway.2⟩
    | closed => exact htraced.imp_right fun hway => ⟨hway.1, fun _ => hway.2⟩
  rcases hended with rfl | ⟨hway, hover⟩
  · exact ⟨Schedule.orderly_nil _, fun _ latest hlatest => by cases hlatest⟩
  · exact ⟨htrace hway, hover⟩

/-- In every run in which no task breaks off, each stage is started exactly once, when everything it
depends on has finished; when the run is complete no stage waits, and the results that are given out
are the noticed ones.  The same holds of the jobs of every stage that was running: their last
schedule is settled as soon as the stage is not running any more. -/
theorem schedules_are_orderly {pipeline : Pipeline} {setup : Setup} {states : List RunState}
    (hgraph : Graph.ofPipeline pipeline = .ok setup.graph) (hdistinct : setup.graph.DistinctNames)
    (hdeclares : RunState.Declares setup)
    (hhistory : RunState.History setup (fun _ move => move.breaksOff = false) states) :
    Schedule.Orderly (setup.graph.stages.map RunState.stageTask) (states.map (·.stages)) ∧
      ∀ (index : Nat) (node : StageNode), setup.graph.stages[index]? = some node →
        Schedule.Orderly (node.jobs.map JobNode.task) (states.filterMap (·.jobs? index)) ∧
          ∀ state earlier, states = state :: earlier → state.jobs? index = none →
            ∀ latest ∈ (states.filterMap (·.jobs? index)).head?, latest.isSettled = true := by
  have hsound := Graph.sound_of_ofPipeline hgraph
  constructor
  · refine (RunState.trace_stages hdeclares hhistory).orderly ?_
      RunState.phase_of_mem_stageTasks ?_
    · rw [RunState.names_stageTasks]
      exact hdistinct.stages
    · rw [List.map_map]
      exact hsound.stages
  · intro index node hnode
    obtain ⟨latest, earlier, rfl⟩ := hhistory.exists_cons
    have hreachable := hhistory.reachable latest List.mem_cons_self
    obtain ⟨task, htask, rfl⟩ := (RunState.sound_of_reachable hreachable).exists_task hnode
    have hmem := List.mem_of_getElem? hnode
    obtain ⟨horderly, hover⟩ := (RunState.traced_jobs hdeclares hhistory htask).orderly
      (hdistinct.jobs task.node hmem) (hsound.jobs task.node hmem)
    refine ⟨horderly, fun state rest hstates hidle => ?_⟩
    obtain ⟨rfl, rfl⟩ := List.cons.inj hstates
    rw [RunState.jobs?, htask, Option.bind_some] at hidle
    exact hover hidle

/-- Two stages run side by side, a masked failure lets the third one start, and all is orderly. -/
theorem schedules_are_orderly_delivery :
    Graph.ofPipeline Delivery.pipeline = .ok Delivery.setup.graph ∧
      Delivery.setup.graph.DistinctNames ∧ RunState.Declares Delivery.setup ∧
      ∃ latest earlier,
        RunState.History Delivery.setup (fun _ move => move.breaksOff = false)
          (latest :: earlier) ∧
        latest.isComplete = true ∧
        Schedule.Orderly (Delivery.setup.graph.stages.map RunState.stageTask)
          ((latest :: earlier).map (·.stages)) ∧
        Schedule.Orderly
          ([⟨"compile", Delivery.compile, []⟩, ⟨"pack", Delivery.pack, ["compile"]⟩].map
            JobNode.task)
          ((latest :: earlier).filterMap (·.jobs? 0)) := by
  obtain ⟨latest, earlier, hhistory, hcomplete⟩ :=
    RunState.exists_history_of_replay Delivery.setup (fun _ move => !move.breaksOff)
      RunState.isComplete
      ([.stage 0 .start, .stage 1 .start] ++
        Delivery.jobMoves 0 0 [some {}, none] ++ Delivery.jobMoves 1 0 [some (.succeeded "")] ++
        [.stage 1 .finish] ++ Delivery.jobMoves 0 1 [some (.succeeded "")] ++
        [.stage 0 .finish, .notice 1, .notice 0] ++
        Delivery.stageMoves 2 (Delivery.jobMoves 2 0 [some {}]))
      (by decide +kernel)
  have hreturns : RunState.History Delivery.setup (fun _ move => move.breaksOff = false)
      (latest :: earlier) :=
    hhistory.mono fun _ move hmove => by simpa using hmove
  have hdeclares : RunState.Declares Delivery.setup := rfl
  obtain ⟨hstages, hjobs⟩ := schedules_are_orderly Delivery.ofPipeline_pipeline
    Delivery.distinctNames_graph hdeclares hreturns
  exact ⟨Delivery.ofPipeline_pipeline, Delivery.distinctNames_graph, hdeclares, latest, earlier,
    hreturns, hcomplete, hstages, (hjobs 0 _ rfl).1⟩

end BuildPipeline
