import BuildPipeline.Proofs.Run.ResultTree

/-!
# What every job keeps

An invariant of a job is shown move by move, without a word about the run that the job is part of.
What it says of the results that jobs return then holds at every place of the result tree.

* `JobNode.Invariant` collects what is to be shown of a property of phases.
* `StageNode.JobsKeep` carries it through a stage, `RunState.jobsKeep_of_reachable` through a run.
* `RunState.forall₂_jobs_of_invariant` reads it off the tree, where the names are distinct.
-/

namespace BuildPipeline

/-- A property of the phases of jobs that no move leaves, and that holds of the results that stand
for jobs without a result of their own. -/
structure JobNode.Invariant (ok : JobNode → Phase JobWork JobResult → Prop) : Prop where
  waiting : ∀ node, ok node .waiting
  closed : ∀ node, ok node .closed
  released : ∀ node dependencies, ok node (.active (.released dependencies))
  /-- A job whose stage did not start shares the stage's fate. -/
  unstarted : ∀ node status, status = .skipped ∨ status = .canceled →
    ok node (.returned (.notRun node status status none))
  lost : ∀ node, ok node (.returned (StageRun.lostJob node))
  moves : ∀ {setup : Setup} {place : Place} {environment : Environment} {shared : Shared}
    {node : JobNode} {work : JobWork} {move : JobMove} {turn : JobTurn},
    work.Moves setup place environment shared node move turn →
      ok node (.active work) → ok node turn.phase

variable {ok : JobNode → Phase JobWork JobResult → Prop}

/-- What a stage in its phase owes to a property of its jobs. -/
def StageNode.JobsKeep (ok : JobNode → Phase JobWork JobResult → Prop) (node : StageNode) :
    Phase StageWork StageResult → Prop
  | .active (.running run) => run.jobs.plan = node.jobs.map JobNode.task ∧ run.jobs.Keeps ok
  | .returned result =>
    List.Forall₂ (fun job result =>
        ∃ other ∈ node.jobs, other.name = job.name ∧ ok other (.returned result))
      node.jobs result.jobs
  | _ => True

namespace StageNode

variable {node : StageNode} {setup : Setup} {environment : Environment} {shared : Shared}

theorem jobsKeep_notRun (hinvariant : JobNode.Invariant ok) (node : StageNode) (status : Status)
    {jobs : Status} (error : Option String) (hjobs : jobs = .skipped ∨ jobs = .canceled) :
    node.JobsKeep ok (.returned (.notRun node status jobs error)) := by
  refine List.forall₂_map_right_iff.mpr (List.forall₂_same.mpr fun job hjob => ?_)
  exact ⟨job, hjob, rfl, hinvariant.unstarted job jobs hjobs⟩

theorem jobsKeep_of_moves (hinvariant : JobNode.Invariant ok) {work : StageWork}
    {move : StageMove} {turn : StageTurn}
    (hmoves : work.Moves setup environment shared node move turn)
    (hbefore : node.JobsKeep ok (.active work)) : node.JobsKeep ok turn.phase := by
  cases hmoves with
  | start dependencies =>
      generalize hstart : StageWork.start setup environment shared node dependencies = turn
      cases StageWork.starts_of_start hstart with
      | canceled => exact jobsKeep_notRun hinvariant node _ _ (.inr rfl)
      | skipped => exact jobsKeep_notRun hinvariant node _ _ (.inl rfl)
      | failed => exact jobsKeep_notRun hinvariant node _ _ (.inl rfl)
      | refused => exact jobsKeep_notRun hinvariant node _ _ (.inl rfl)
      | running =>
          exact ⟨JobSchedule.plan_ofNodes node.jobs,
            JobSchedule.keeps_ofNodes hinvariant.waiting hinvariant.released node.jobs⟩
  | @job run index task work move turn htask hwork hmoves =>
      obtain ⟨hplan, hkeeps⟩ := hbefore
      have hjob := hkeeps.tasks task (List.mem_of_getElem? htask)
      rw [hwork] at hjob
      exact ⟨(Schedule.plan_setPhase run.jobs index turn.phase).trans hplan,
        hkeeps.setPhase htask (hinvariant.moves hmoves hjob)⟩
  | notice hnotice =>
      obtain ⟨hplan, hkeeps⟩ := hbefore
      exact ⟨(Schedule.plan_notice? hnotice).trans hplan,
        hkeeps.notice hinvariant.closed hinvariant.released hnotice⟩
  | finish run =>
      obtain ⟨hplan, hkeeps⟩ := hbefore
      exact hkeeps.forall₂_collect_nodes hplan (fun _ => rfl) hinvariant.lost
        (fun job => hinvariant.unstarted job .skipped (.inl rfl))
  | die => exact trivial

end StageNode

namespace RunState

variable {setup : Setup} {state : RunState}

theorem jobsKeep_of_reachable (hinvariant : JobNode.Invariant ok)
    (hreachable : Reachable setup state) : state.stages.Keeps (StageNode.JobsKeep ok) := by
  induction hreachable with
  | start =>
      refine keeps_start setup (fun _ => trivial) (fun _ => trivial) (fun _ _ => trivial) ?_
      exact fun node _ => StageNode.jobsKeep_notRun hinvariant node _ _ (.inl rfl)
  | step move _ hstep ih =>
      exact keeps_of_moves (moves_of_step? hstep) ih (fun _ => trivial) (fun _ _ => trivial)
        (StageNode.jobsKeep_of_moves hinvariant)

/-- What every job keeps holds of the result at its place in the tree. -/
theorem forall₂_jobs_of_invariant (hinvariant : JobNode.Invariant ok)
    (hdistinct : setup.graph.DistinctNames) (hreachable : Reachable setup state) :
    List.Forall₂ (fun node stage =>
        List.Forall₂ (fun job result => ok job (.returned result)) node.jobs stage.jobs)
      setup.graph.stages (state.result setup).stages := by
  have hstages : List.Forall₂ (fun node stage => ∃ other ∈ setup.graph.stages,
        other.name = node.name ∧ other.JobsKeep ok (.returned stage))
      setup.graph.stages (state.result setup).stages :=
    (jobsKeep_of_reachable hinvariant hreachable).forall₂_collect_nodes
      (sound_of_reachable hreachable).plan (fun _ => rfl)
      (fun node => StageNode.jobsKeep_notRun hinvariant node _ _ (.inl rfl))
      (fun node => StageNode.jobsKeep_notRun hinvariant node _ _ (.inl rfl))
  refine (Schedule.forall₂_of_names hdistinct.stages hstages).imp
    fun node stage ⟨hnode, hjobs⟩ => ?_
  exact (Schedule.forall₂_of_names (hdistinct.jobs node hnode) hjobs).imp
    fun job result ⟨_, hok⟩ => hok

end RunState

end BuildPipeline
