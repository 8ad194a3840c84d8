import BuildPipeline.Proofs.Run.Agents
import BuildPipeline.Proofs.Run.StageCourse

/-!
# Runs do not get stuck

A job takes its agent only after everything it depends on has ended, and while it holds the agent it
waits for nothing but the answer to its own call.  So a run can always go on until it is complete,
however few agents there are.

* `RunState.CanGoOn` is what is shown: some task makes a move on its own, or a job waits for a call
  and goes on with whatever the call returns.
* `JobWork.canGoOn` is the case of one job.  A job in the queue is the only one that can be held up,
  and it is held up by jobs that run (`RunState.canGoOn_of_job`).
* `RunState.canGoOn_of_incomplete` draws the conclusion for every state that a run can come to.
* `RunState.lossless_of_history` adds that nothing is left over at the end: unless a stage breaks
  off, a complete run has a result for each of its stages.

Jobs may break off at any time, the run may be cancelled, and names may repeat.
-/

namespace BuildPipeline

/-! ## Moves that a task makes on its own -/

def JobMove.isOwn : JobMove → Bool
  | .start | .takeAgent | .withdraw | .advance => true
  | .answer _ | .die => false

def StageMove.isOwn : StageMove → Bool
  | .start | .notice _ | .finish => true
  | .job _ move => move.isOwn
  | .die => false

/-- Whether a move needs nothing from the outside: no request to cancel, no answer, no accident. -/
def Move.isOwn : Move → Bool
  | .cancel => false
  | .stage _ move => move.isOwn
  | .notice _ => true

/-- The replies with which a call can return. -/
inductive Call.Returns : Call → Reply → Prop
  | attempt (invocation : Invocation) (number : Nat) (outcome : Outcome) :
      Returns (.attempt invocation number) (.outcome outcome)
  | publish (artifact source : String) (result : Except ArtifactError Unit) :
      Returns (.publish artifact source) (.stored result)
  | download (artifact target : String) (result : Except ArtifactError Unit) :
      Returns (.download artifact target) (.stored result)

/-- The call that a job waits for. -/
def JobWork.call? : JobWork → Option Call
  | .running run => run.ongoing.map (·.call)
  | _ => none

/-- The call that the job at a place waits for. -/
def RunState.call? (state : RunState) (stage job : Nat) : Option Call :=
  ((state.work? stage).bind (·.job? job)).bind (·.call?)

/-- Some task of the run can take a step, if every call returns. -/
inductive RunState.CanGoOn (setup : Setup) (state : RunState) : Prop
  | own {move : Move} {next : RunState} (hown : move.isOwn = true)
      (hstep : state.step? setup move = some next)
  | answered {stage job : Nat} {call : Call} (hcall : state.call? stage job = some call)
      (hreturns : ∀ reply, call.Returns reply →
        ∃ next, state.step? setup (.stage stage (.job job (.answer reply))) = some next)

/-- The same for one job. -/
inductive JobWork.CanGoOn (setup : Setup) (place : Place) (environment : Environment)
    (shared : Shared) (node : JobNode) (work : JobWork) : Prop
  | own {move : JobMove} {turn : JobTurn} (hown : move.isOwn = true)
      (hstep : work.step? setup place environment shared node move = some turn)
  | answered {call : Call} (hcall : work.call? = some call)
      (hreturns : ∀ reply, call.Returns reply →
        ∃ turn, work.step? setup place environment shared node (.answer reply) = some turn)

/-! ## Calls belong to steps -/

/-- A job that waits for an answer has a step that the answer is for. -/
def JobNode.Answerable (node : JobNode) : Phase JobWork JobResult → Prop
  | .active (.running run) => run.ongoing.isSome = true →
      ∃ declared, node.job.steps[run.results.length]? = some declared
  | _ => True

namespace JobNode

variable {node : JobNode} {setup : Setup} {place : Place} {environment : Environment}
  {shared : Shared}

/-- A job that waits for nothing. -/
theorem answerable_of_idle {run : JobRun} (hidle : run.ongoing = none) :
    node.Answerable (.active (.running run)) := by
  intro hongoing
  rw [hidle] at hongoing
  cases hongoing

theorem answerable_of_moves {work : JobWork} {move : JobMove} {turn : JobTurn}
    (hmoves : work.Moves setup place environment shared node move turn) :
    node.Answerable turn.phase := by
  cases hmoves with
  | start dependencies =>
      generalize hstart : JobWork.start setup environment shared node dependencies = turn
      cases JobWork.starts_of_start hstart <;> exact trivial
  | takeAgent context =>
      generalize htake : JobWork.takeAgent environment shared node context = turn
      cases JobWork.takesAgent_of_takeAgent htake with
      | refused => exact trivial
      | running => exact answerable_of_idle rfl
  | advance run =>
      generalize hadvance : JobWork.advance setup place shared node run = turn
      cases JobWork.advances_of_advance hadvance with
      | ended => exact trivial
      | canceled | skipped | refused | immediate => exact answerable_of_idle rfl
      | @calling step call after hdeclared => exact fun _ => ⟨step, hdeclared⟩
  | @answer run ongoing declared reply turn hongoing hdeclared hanswer =>
      rcases JobWork.answer_phase hanswer with ⟨outcome, hphase⟩ | ⟨invocation, number, -, hphase⟩
      · rw [hphase]
        exact answerable_of_idle rfl
      · rw [hphase]
        exact fun _ => ⟨declared, hdeclared⟩
  | withdraw | die => exact trivial

end JobNode

/-- What is known of the jobs of a stage that is running. -/
def StageNode.Answerable (_node : StageNode) : Phase StageWork StageResult → Prop
  | .active (.running run) => run.jobs.Keeps JobNode.Answerable
  | _ => True

theorem StageNode.answerable_of_moves {node : StageNode} {setup : Setup}
    {environment : Environment} {shared : Shared} {work : StageWork} {move : StageMove}
    {turn : StageTurn} (hmoves : work.Moves setup environment shared node move turn)
    (hbefore : node.Answerable (.active work)) : node.Answerable turn.phase := by
  cases hmoves with
  | start dependencies =>
      generalize hstart : StageWork.start setup environment shared node dependencies = turn
      cases StageWork.starts_of_start hstart with
      | canceled | skipped | failed | refused => exact trivial
      | running =>
          refine JobSchedule.keeps_ofNodes ?_ ?_ node.jobs
          · exact fun _ => trivial
          · exact fun _ _ => trivial
  | job htask hwork hmoves =>
      have hkeeps : Schedule.Keeps JobNode.Answerable _ := hbefore
      exact hkeeps.setPhase htask (JobNode.answerable_of_moves hmoves)
  | notice hnotice =>
      have hkeeps : Schedule.Keeps JobNode.Answerable _ := hbefore
      refine hkeeps.notice ?_ ?_ hnotice
      · exact fun _ => trivial
      · exact fun _ _ => trivial
  | finish | die => exact trivial

theorem RunState.answerable_of_reachable {setup : Setup} {state : RunState}
    (hreachable : Reachable setup state) : state.stages.Keeps StageNode.Answerable := by
  induction hreachable with
  | start =>
      refine keeps_start setup ?_ ?_ ?_ ?_
      · exact fun _ => trivial
      · exact fun _ => trivial
      · exact fun _ _ => trivial
      · exact fun _ _ => trivial
  | step move _ hstep ih =>
      refine keeps_of_moves (moves_of_step? hstep) ih ?_ ?_ StageNode.answerable_of_moves
      · exact fun _ => trivial
      · exact fun _ _ => trivial

/-! ## One job -/

/-- What a call returns with is an answer to it. -/
theorem JobWork.exists_answer {ongoing : Ongoing} {reply : Reply} (setup : Setup) (shared : Shared)
    (run : JobRun) (declared : Step) (hreply : ongoing.call.Returns reply) :
    ∃ turn, answer setup shared run declared ongoing reply = some turn := by
  rw [← Option.isSome_iff_exists]
  cases hcall : ongoing.call <;> rw [hcall] at hreply <;> cases hreply
  case attempt => simp [answer, hcall]
  case publish result => cases result <;> simp [answer, hcall]
  case download result => cases result <;> simp [answer, hcall]

/-- A job can go on, unless it stands in the queue and no agent is free. -/
theorem JobWork.canGoOn {setup : Setup} {place : Place} {environment : Environment}
    {shared : Shared} {node : JobNode} {work : JobWork}
    (hanswerable : node.Answerable (.active work))
    (hagent : ∀ context, work = .queued context → 0 < shared.freeAgents) :
    work.CanGoOn setup place environment shared node := by
  cases work with
  | released dependencies =>
      have hstep : (JobWork.released dependencies).step? setup place environment shared node
        .start = some (start setup environment shared node dependencies) := rfl
      exact .own rfl hstep
  | queued context =>
      have hstep : (JobWork.queued context).step? setup place environment shared node
          .takeAgent = some (takeAgent environment shared node context) :=
        if_pos (hagent context rfl)
      exact .own rfl hstep
  | running run =>
      cases hongoing : run.ongoing with
      | none =>
          have hstep : (JobWork.running run).step? setup place environment shared node .advance =
              some (advance setup place shared node run) := by
            simp [step?, hongoing]
          exact .own rfl hstep
      | some ongoing =>
          obtain ⟨declared, hdeclared⟩ := hanswerable (by rw [hongoing]; rfl)
          have hcall : (JobWork.running run).call? = some ongoing.call := by
            rw [call?, hongoing, Option.map_some]
          refine .answered hcall fun reply hreply => ?_
          obtain ⟨turn, hanswer⟩ := exists_answer setup shared run declared hreply
          exact ⟨turn, by simp [step?, hongoing, hdeclared, hanswer]⟩

/-! ## Schedules -/

/-- Ended and noticed. -/
def Phase.isClosed {α ρ : Type} : Phase α ρ → Bool
  | .closed => true
  | _ => false

/-- A schedule in which something is under way has a node at work or one to notice. -/
theorem Schedule.exists_active_or_notice {ν α ρ : Type} (begin : List ρ → α)
    {schedule : Schedule ν α ρ} (hopen : schedule.isSettled = false) :
    (∃ (index : Nat) (task : Task ν α ρ) (work : α),
        schedule.tasks[index]? = some task ∧ task.phase = .active work) ∨
      ∃ index next, schedule.notice? begin index = some next := by
  obtain ⟨task, htask, hphase⟩ := List.all_eq_false.mp hopen
  obtain ⟨index, hindex⟩ := List.mem_iff_getElem?.mp htask
  cases hcases : task.phase with
  | active work => exact Or.inl ⟨index, task, work, hindex, hcases⟩
  | returned result =>
      refine Or.inr ⟨index, Option.isSome_iff_exists.mp ?_⟩
      simp [notice?, hindex, hcases]
  | died =>
      refine Or.inr ⟨index, Option.isSome_iff_exists.mp ?_⟩
      simp [notice?, hindex, hcases]
  | waiting => simp [hcases, Phase.isSettled] at hphase
  | closed => simp [hcases, Phase.isSettled] at hphase

/-! ## Runs -/

namespace RunState

variable {setup : Setup} {state : RunState}

/-- A move of a stage is a move of the run. -/
theorem exists_step_of_stage {index : Nat} {task : Task StageNode StageWork StageResult}
    {work : StageWork} {move : StageMove} {turn : StageTurn}
    (htask : state.stages.tasks[index]? = some task) (hwork : task.phase = .active work)
    (hstep : work.step? setup state.environment state.shared task.node move = some turn) :
    ∃ next, state.step? setup (.stage index move) = some next := by
  rw [← Option.isSome_iff_exists]
  simp [step?, moveStage, htask, hwork, hstep]

theorem canGoOn_of_stage {index : Nat} {task : Task StageNode StageWork StageResult}
    {work : StageWork} {move : StageMove} {turn : StageTurn}
    (htask : state.stages.tasks[index]? = some task) (hwork : task.phase = .active work)
    (hown : move.isOwn = true)
    (hstep : work.step? setup state.environment state.shared task.node move = some turn) :
    state.CanGoOn setup := by
  obtain ⟨next, hnext⟩ := exists_step_of_stage htask hwork hstep
  have hmove : (Move.stage index move).isOwn = true := hown
  exact .own hmove hnext

section Jobs

variable {index place : Nat} {task : Task StageNode StageWork StageResult} {run : StageRun}
  {job : Task JobNode JobWork JobResult} {work : JobWork}

/-- A run goes on with any of its jobs. -/
theorem canGoOn_of_job (htask : state.stages.tasks[index]? = some task)
    (hrun : task.phase = .active (.running run)) (hjob : run.jobs.tasks[place]? = some job)
    (hwork : job.phase = .active work)
    (hgoes : work.CanGoOn setup (StageWork.placeOf setup task.node run job.name) run.environment
      state.shared job.node) : state.CanGoOn setup := by
  have hstage : ∀ {move : JobMove} {turn : JobTurn},
      work.step? setup (StageWork.placeOf setup task.node run job.name) run.environment
        state.shared job.node move = some turn →
      ∃ turn, (StageWork.running run).step? setup state.environment state.shared task.node
        (.job place move) = some turn := by
    intro move turn hstep
    rw [StageWork.placeOf] at hstep
    rw [← Option.isSome_iff_exists]
    simp [StageWork.step?, StageWork.moveJob, hjob, hwork, hstep]
  cases hgoes with
  | @own move _ hown hstep =>
      obtain ⟨turn, hturn⟩ := hstage hstep
      have hmove : (StageMove.job place move).isOwn = true := hown
      exact canGoOn_of_stage htask hrun hmove hturn
  | @answered call hcall hreturns =>
      have hfound : state.call? index place = some call := by
        simp [call?, work?, StageWork.job?, htask, hrun, hjob, hwork, Phase.work?, hcall]
      refine .answered hfound fun reply hreply => ?_
      obtain ⟨jobTurn, hstep⟩ := hreturns reply hreply
      obtain ⟨turn, hturn⟩ := hstage hstep
      exact exists_step_of_stage htask hrun hturn

theorem answerable_of_job (hreachable : Reachable setup state)
    (htask : state.stages.tasks[index]? = some task) (hrun : task.phase = .active (.running run))
    (hjob : run.jobs.tasks[place]? = some job) (hwork : job.phase = .active work) :
    job.node.Answerable (.active work) := by
  have hstage :=
    (answerable_of_reachable hreachable).tasks task (List.mem_of_getElem? htask)
  rw [hrun] at hstage
  have hkeeps : run.jobs.Keeps JobNode.Answerable := hstage
  exact hwork ▸ hkeeps.tasks job (List.mem_of_getElem? hjob)

/-- A job at work lets the run go on.  If it stands in the queue and no agent is free, then because
another job is running, and that one goes on. -/
theorem canGoOn_of_active_job (hreachable : Reachable setup state)
    (htask : state.stages.tasks[index]? = some task) (hrun : task.phase = .active (.running run))
    (hjob : run.jobs.tasks[place]? = some job) (hwork : job.phase = .active work) :
    state.CanGoOn setup := by
  by_cases hfree : 0 < state.shared.freeAgents
  · have hanswerable := answerable_of_job hreachable htask hrun hjob hwork
    exact canGoOn_of_job htask hrun hjob hwork (JobWork.canGoOn hanswerable fun _ _ => hfree)
  · have hagents := agents_of_reachable hreachable
    have hheld : 0 < state.holders.length := by omega
    obtain ⟨holder, hholder⟩ := List.exists_mem_of_length_pos hheld
    obtain ⟨other, hother, otherRun, hotherRun, held, hheldJob, heldRun, hheldWork, -⟩ :=
      exists_running_of_mem_holders hholder
    obtain ⟨otherIndex, hotherIndex⟩ := List.mem_iff_getElem?.mp hother
    obtain ⟨heldPlace, hheldPlace⟩ := List.mem_iff_getElem?.mp hheldJob
    have hanswerable :=
      answerable_of_job hreachable hotherIndex hotherRun hheldPlace hheldWork
    refine canGoOn_of_job hotherIndex hotherRun hheldPlace hheldWork ?_
    exact JobWork.canGoOn hanswerable fun _ hqueued => by cases hqueued

end Jobs

/-- As long as a run is not complete, it can go on. -/
theorem canGoOn_of_incomplete (hreachable : Reachable setup state)
    (hincomplete : state.isComplete = false) : state.CanGoOn setup := by
  rcases Schedule.exists_active_or_notice StageWork.released hincomplete with
    ⟨index, task, work, htask, hwork⟩ | ⟨index, ⟨stages, result⟩, hnotice⟩
  · cases work with
    | released dependencies =>
        have hstep : (StageWork.released dependencies).step? setup state.environment state.shared
            task.node .start =
              some (StageWork.start setup state.environment state.shared task.node
                dependencies) := rfl
        exact canGoOn_of_stage htask hwork rfl hstep
    | running run =>
        cases hsettled : run.jobs.isSettled with
        | true =>
            have hstep : ∃ turn, (StageWork.running run).step? setup state.environment
                state.shared task.node .finish = some turn :=
              ⟨_, if_pos hsettled⟩
            obtain ⟨turn, hturn⟩ := hstep
            exact canGoOn_of_stage htask hwork rfl hturn
        | false =>
            rcases Schedule.exists_active_or_notice JobWork.released hsettled with
              ⟨place, job, jobWork, hjob, hjobWork⟩ | ⟨place, ⟨jobs, result⟩, hnotice⟩
            · exact canGoOn_of_active_job hreachable htask hwork hjob hjobWork
            · have hstep : ∃ turn, (StageWork.running run).step? setup state.environment
                  state.shared task.node (.notice place) = some turn := by
                rw [← Option.isSome_iff_exists]
                simp [StageWork.step?, StageWork.noticeJob, hnotice]
              obtain ⟨turn, hturn⟩ := hstep
              exact canGoOn_of_stage htask hwork rfl hturn
  · have hstep : state.step? setup (.notice index) = some { state with stages } := by
      simp only [step?, hnotice, Option.bind_eq_bind, Option.bind_some]
      rfl
    exact .own rfl hstep

/-! ## Results of all stages -/

/-- Whether some stage has no result yet: its end was not noticed, or nothing stands under its
name. -/
def lacksResult (state : RunState) : Bool :=
  state.stages.tasks.any fun task =>
    !task.phase.isClosed || !state.stages.finished.contains task.name

theorem lossless_start (setup : Setup) : (RunState.start setup).stages.Lossless := by
  by_cases hdeclares : Declares setup
  · rw [stages_start hdeclares]
    exact .opened StageWork.released phase_of_mem_stageTasks
  · have hclosed := closed_of_not_declares hdeclares
    refine ⟨fun task htask hwaiting => ?_, fun task htask _ => ?_, ?_⟩
    · rw [hclosed task htask] at hwaiting
      cases hwaiting
    · exact exists_result_of_not_declares hdeclares task htask
    · refine keeps_start setup ?_ ?_ ?_ ?_
      · exact fun _ hdied => by cases hdied
      · exact fun _ hdied => by cases hdied
      · exact fun _ _ hdied => by cases hdied
      · exact fun _ _ hdied => by cases hdied

/-- Nothing is lost in a run, unless a stage breaks off. -/
theorem lossless_of_history {states : List RunState}
    (hhistory : History setup (fun _ move => move.losesStage = false) states) :
    ∀ state ∈ states, state.stages.Lossless := by
  induction hhistory with
  | start => exact List.forall_mem_singleton.mpr (lossless_start setup)
  | step move hkeeps hstep _ ih =>
      have hnext := next_stages_of_moves (moves_of_step? hstep) hkeeps
      exact List.forall_mem_cons.mpr ⟨(ih _ List.mem_cons_self).next hnext, ih⟩

/-- As long as some stage of an accepted graph has no result, the run can go on. -/
theorem canGoOn_of_lacksResult {pipeline : Pipeline} {earlier : List RunState}
    (hgraph : Graph.ofPipeline pipeline = .ok setup.graph)
    (hhistory : History setup (fun _ move => move.losesStage = false) (state :: earlier))
    (hlacks : state.lacksResult = true) : state.CanGoOn setup := by
  have hreachable := hhistory.reachable state List.mem_cons_self
  cases hcomplete : state.isComplete with
  | false => exact canGoOn_of_incomplete hreachable hcomplete
  | true =>
      -- A complete run of an accepted graph has noticed the results of all stages.
      have hlossless := lossless_of_history hhistory state List.mem_cons_self
      have hsound := (Graph.sound_of_ofPipeline hgraph).stages
      rw [← precedence_of_plan (sound_of_reachable hreachable).plan] at hsound
      obtain ⟨task, htask, hlacking⟩ := List.any_eq_true.mp hlacks
      obtain ⟨hclosed, result, hresult⟩ :=
        hlossless.closed_of_settled hcomplete hsound task htask
      simp [hclosed, Phase.isClosed, Table.contains, hresult] at hlacking

end RunState

/-- In every state that a run can come to, no more jobs hold an agent than there are agents, of
which there is at least one; the others are free, so that a job has given its agent back however it
ended, and in a complete run all are free.  No such state is stuck: as long as the run is not
complete, some task can take a step, if every call returns.  For an accepted graph it is complete
only when all stages have results, unless a whole stage breaks off. -/
theorem agents_are_bounded_and_no_run_is_stuck {setup : Setup} {state : RunState}
    (hreachable : RunState.Reachable setup state) :
    state.holders.length ≤ max setup.agents 1 ∧
      state.holders.length + state.shared.freeAgents = max setup.agents 1 ∧
      (state.isComplete = true → state.shared.freeAgents = max setup.agents 1) ∧
      (state.isComplete = false → state.CanGoOn setup) ∧
      ∀ (pipeline : Pipeline) (earlier : List RunState),
        Graph.ofPipeline pipeline = .ok setup.graph →
        RunState.History setup (fun _ move => move.losesStage = false) (state :: earlier) →
        state.lacksResult = true → state.CanGoOn setup := by
  have hagents := RunState.agents_of_reachable hreachable
  refine ⟨by omega, hagents, fun hcomplete => ?_, ?_, ?_⟩
  · rw [RunState.holders_of_complete hcomplete, List.length_nil] at hagents
    omega
  · exact RunState.canGoOn_of_incomplete hreachable
  · exact fun _ _ hgraph hhistory => RunState.canGoOn_of_lacksResult hgraph hhistory

/-- There is one agent, although none was asked for.  A job of the build holds it and waits for its
first attempt, and a job of the documentation stands in the queue. -/
theorem agents_are_bounded_and_no_run_is_stuck_delivery :
    ∃ state earlier,
      RunState.Reachable { Delivery.setup with agents := 0 } state ∧
      Graph.ofPipeline Delivery.pipeline = .ok Delivery.graph ∧
      RunState.History { Delivery.setup with agents := 0 }
        (fun _ move => move.losesStage = false) (state :: earlier) ∧
      state.holders = [("build", "compile")] ∧ state.shared.freeAgents = 0 ∧
      state.isComplete = false ∧ state.lacksResult = true ∧
      state.holders.length ≤ 1 ∧ state.CanGoOn { Delivery.setup with agents := 0 } := by
  let setup : Setup := { Delivery.setup with agents := 0 }
  let check (state : RunState) : Bool :=
    state.holders == [("build", "compile")] && state.shared.freeAgents == 0 &&
      !state.isComplete && state.lacksResult
  obtain ⟨state, earlier, hhistory, hcheck⟩ :=
    RunState.exists_history_of_replay setup (fun _ move => !move.losesStage) check
      [.stage 0 .start, .stage 0 (.job 0 .start), .stage 0 (.job 0 .takeAgent),
        .stage 0 (.job 0 .advance), .stage 1 .start, .stage 1 (.job 0 .start)]
      (by decide +kernel)
  have hkeeps : RunState.History setup (fun _ move => move.losesStage = false)
      (state :: earlier) :=
    hhistory.mono fun _ move hmove => by simpa using hmove
  have hreachable := hkeeps.reachable state List.mem_cons_self
  simp only [check, Bool.and_eq_true, beq_iff_eq, Bool.not_eq_true'] at hcheck
  obtain ⟨⟨⟨hholders, hfree⟩, hincomplete⟩, hlacks⟩ := hcheck
  obtain ⟨hbound, -, -, hgoes, hresults⟩ := agents_are_bounded_and_no_run_is_stuck hreachable
  have hgraph : Graph.ofPipeline Delivery.pipeline = .ok setup.graph :=
    Delivery.ofPipeline_pipeline
  exact ⟨state, earlier, hreachable, hgraph, hkeeps, hholders, hfree, hincomplete, hlacks, hbound,
    hresults Delivery.pipeline earlier hgraph hkeeps hlacks⟩

end BuildPipeline
