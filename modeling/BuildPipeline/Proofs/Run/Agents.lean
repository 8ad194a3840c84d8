import BuildPipeline.Proofs.Run.ResultTree

/-!
# Where the agents of a run are

A run has a fixed number of agents, at least one.  A job takes one of them when it begins to run and
gives it back when it ends, and also when it breaks off or its stage does.

* `StageWork.holders` and `RunState.holders` list the jobs that hold an agent.
* `JobWork.agents_of_moves`: a move of a job exchanges agents between the job and the run and loses
  none.  It goes through all ways in which a job can end.  `StageWork.agents_of_moves` and
  `RunState.agents_of_moves` carry this up.
* `RunState.agents_of_reachable`: the held agents and the free ones are all agents, in every state
  that a run can come to.

Jobs are counted by their place, so names may repeat.
-/

namespace BuildPipeline

/-! ## Holders -/

/-- The agent of a job, under the name of the job, if it holds one. -/
def JobWork.holder (node : JobNode) (work : JobWork) : List String :=
  if work.holdsAgent then [node.name] else []

/-- The jobs of a stage that hold an agent. -/
def StageWork.holders : StageWork → List String
  | .released _ => []
  | .running run => run.jobs.gather JobWork.holder

/-- The jobs of a run that hold an agent, each with its stage. -/
def RunState.holders (state : RunState) : List (String × String) :=
  state.stages.gather fun node work => work.holders.map (node.name, ·)

/-- The number of jobs that give an agent back when their stage breaks off. -/
theorem StageWork.heldAgents_eq (work : StageWork) : work.heldAgents = work.holders.length := by
  cases work with
  | released dependencies => rfl
  | running run =>
      simp only [heldAgents, holders, Schedule.gather]
      induction run.jobs.tasks with
      | nil => rfl
      | cons task rest ih =>
          rw [List.countP_cons, List.flatMap_cons, List.length_append, ih, Nat.add_comm]
          congr 1
          cases task.phase with
          | active work =>
              rw [Phase.gather_active, JobWork.holder]
              cases hholds : work.holdsAgent <;> simp [hholds]
          | _ => rfl

/-! ## Moves -/

namespace JobWork

variable {setup : Setup} {place : Place} {environment : Environment} {shared : Shared}
  {node : JobNode} {turn : JobTurn}

/-- A job that goes on running keeps its agent. -/
theorem Advances.agents {run : JobRun} (hadvances : Advances setup place shared node run turn) :
    (turn.phase.gather (holder node)).length + turn.shared.freeAgents = shared.freeAgents + 1 := by
  cases hadvances with
  | ended => exact Nat.zero_add _
  | canceled | skipped | refused | immediate | calling => exact Nat.add_comm _ _

theorem Answers.agents {run : JobRun} {declared : Step} {ongoing : Ongoing} {reply : Reply}
    (hanswers : Answers shared run declared ongoing reply turn) :
    (turn.phase.gather (holder node)).length + turn.shared.freeAgents = shared.freeAgents + 1 := by
  cases hanswers with
  | @attempt invocation number _ outcome hcall =>
      unfold takeOutcome
      split <;> exact Nat.add_comm _ _
  | published | refused | download => exact Nat.add_comm _ _

/-- A move of a job loses no agent and makes none. -/
theorem agents_of_moves {work : JobWork} {move : JobMove}
    (hmoves : work.Moves setup place environment shared node move turn) :
    (turn.phase.gather (holder node)).length + turn.shared.freeAgents =
      (work.holder node).length + shared.freeAgents := by
  cases hmoves with
  | start dependencies =>
      generalize hstart : start setup environment shared node dependencies = turn
      cases starts_of_start hstart <;> rfl
  | takeAgent context hfree =>
      generalize htake : takeAgent environment shared node context = turn
      cases takesAgent_of_takeAgent htake with
      | refused => rfl
      | running =>
          have hone : 1 + (shared.freeAgents - 1) = shared.freeAgents := by omega
          exact hone.trans (Nat.zero_add _).symm
  | withdraw => rfl
  | advance run hidle =>
      have hadvances : Advances setup place shared node run
          (advance setup place shared node run) := advances_of_advance rfl
      exact hadvances.agents.trans (Nat.add_comm _ _)
  | answer hongoing hdeclared hanswer =>
      exact (answers_of_answer hanswer).agents.trans (Nat.add_comm _ _)
  | die work =>
      unfold die
      dsimp only
      cases hholds : work.holdsAgent <;> simp [Phase.gather, holder, hholds]
      omega

end JobWork

/-- A move of a stage loses no agent and makes none. -/
theorem StageWork.agents_of_moves {setup : Setup} {environment : Environment} {shared : Shared}
    {node : StageNode} {work : StageWork} {move : StageMove} {turn : StageTurn}
    (hmoves : work.Moves setup environment shared node move turn) :
    (turn.phase.gather StageWork.holders).length + turn.shared.freeAgents =
      work.holders.length + shared.freeAgents := by
  cases hmoves with
  | start dependencies =>
      generalize hstart : StageWork.start setup environment shared node dependencies = turn
      cases StageWork.starts_of_start hstart with
      | canceled | skipped | failed | refused => rfl
      | running =>
          have hnone : (JobSchedule.ofNodes node.jobs).gather JobWork.holder = [] :=
            JobSchedule.gather_ofNodes (fun _ _ => rfl) node.jobs
          simp only [Phase.gather_active, holders, hnone]
  | @job run index task work move turn htask hwork hmoves =>
      have hjob := JobWork.agents_of_moves hmoves
      have hexchange := (Schedule.perm_gather_setPhase JobWork.holder turn.phase htask).length_eq
      rw [hwork, List.length_append, List.length_append] at hexchange
      simp only [Phase.gather_active, holders] at hexchange ⊢
      omega
  | @notice run index jobs result hnotice =>
      have hsame := (Schedule.perm_gather_notice? JobWork.holder (fun _ _ => rfl)
        hnotice).length_eq
      simp only [Phase.gather_active, holders, hsame]
  | finish run hsettled =>
      have hnone : run.jobs.gather JobWork.holder = [] := Schedule.gather_of_settled hsettled
      simp only [Phase.gather, holders, hnone]
  | die work =>
      -- The jobs of the stage break off with it, and each gives its agent back.
      change 0 + (shared.freeAgents + work.heldAgents) = _
      rw [work.heldAgents_eq]
      omega

namespace RunState

variable {setup : Setup} {state : RunState}

/-- A move of a run loses no agent and makes none. -/
theorem agents_of_moves {next : RunState} {move : Move} (hmoves : Moves setup state move next) :
    next.holders.length + next.shared.freeAgents =
      state.holders.length + state.shared.freeAgents := by
  cases hmoves with
  | cancel => rfl
  | @stage index task work move turn htask hwork hmoves =>
      have hstage := StageWork.agents_of_moves hmoves
      have hexchange := (Schedule.perm_gather_setPhase
        (fun (node : StageNode) (work : StageWork) => work.holders.map (node.name, ·)) turn.phase
        htask).length_eq
      have hphase : (turn.phase.gather fun work : StageWork =>
          work.holders.map (task.node.name, ·)).length =
            (turn.phase.gather StageWork.holders).length := by
        cases turn.phase <;> simp [Phase.gather]
      rw [hwork, List.length_append, List.length_append, hphase] at hexchange
      simp only [Phase.gather_active, List.length_map] at hexchange
      simp only [holders]
      omega
  | notice hnotice =>
      have hsame := (Schedule.perm_gather_notice?
        (fun (node : StageNode) (work : StageWork) => work.holders.map (node.name, ·))
        (fun _ _ => rfl) hnotice).length_eq
      simp only [holders, hsame]

theorem agents_start (setup : Setup) :
    (RunState.start setup).holders = [] ∧
      (RunState.start setup).shared.freeAgents = max setup.agents 1 := by
  refine ⟨gather_start (fun _ _ => rfl) setup, ?_⟩
  unfold start
  rfl

/-- The held agents and the free ones are all agents. -/
theorem agents_of_reachable (hreachable : Reachable setup state) :
    state.holders.length + state.shared.freeAgents = max setup.agents 1 := by
  induction hreachable with
  | start =>
      obtain ⟨hholders, hfree⟩ := agents_start setup
      rw [hholders, hfree]
      exact Nat.zero_add _
  | step move _ hstep ih => exact (agents_of_moves (moves_of_step? hstep)).trans ih

/-- When a run is complete, every agent was given back. -/
theorem holders_of_complete (hcomplete : state.isComplete = true) : state.holders = [] :=
  Schedule.gather_of_settled hcomplete

/-- A job that holds an agent is running, in a stage that is running. -/
theorem exists_running_of_mem_holders {holder : String × String}
    (hholder : holder ∈ state.holders) :
    ∃ stage ∈ state.stages.tasks, ∃ run, stage.phase = .active (.running run) ∧
      ∃ job ∈ run.jobs.tasks, ∃ jobRun, job.phase = .active (.running jobRun) ∧
        holder = (stage.node.name, job.node.name) := by
  obtain ⟨stage, hstage, work, hwork, hmem⟩ := Schedule.mem_gather.mp hholder
  obtain ⟨name, hname, rfl⟩ := List.mem_map.mp hmem
  cases work with
  | released dependencies => cases hname
  | running run =>
      obtain ⟨job, hjob, work, hjobWork, hheld⟩ := Schedule.mem_gather.mp hname
      refine ⟨stage, hstage, run, hwork, job, hjob, ?_⟩
      cases work with
      | running jobRun =>
          obtain rfl : name = job.node.name := List.mem_singleton.mp hheld
          exact ⟨jobRun, hjobWork, rfl⟩
      | released dependencies => cases hheld
      | queued context => cases hheld

end RunState
end BuildPipeline
