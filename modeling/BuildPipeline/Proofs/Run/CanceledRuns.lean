import BuildPipeline.CommandLine.Program
import BuildPipeline.Proofs.Run.ResultTree

/-!
# Runs with cancelled nodes

A cancelled node shows in the status of the whole run, because a cancellation or a failure is never
lost where the statuses of children are put together.  There is one exception: a job that masks
its failure counts as a success with issues even if the steps after the failure were cancelled.

* `masked_job_hides_cancellation` is the exception at work: a step of the run is cancelled, and the
  run ends with issues and the exit code of success.
* `status_of_canceled_node`: any other cancelled node makes the run a cancelled or a failed one.  A
  step of a job that masks its failure makes it at least one with issues.

Nothing is assumed of the names of a graph, of the moves of a run or of the moment of cancellation.
-/

namespace BuildPipeline

/-- Whether a job counts as a success although a step of it has failed. -/
def JobResult.Masked (result : JobResult) : Prop :=
  result.status = .succeededWithIssues ∧ ∃ step ∈ result.steps, step.status = .failed

instance (result : JobResult) : Decidable result.Masked :=
  inferInstanceAs (Decidable (_ ∧ _))

/-- Whether some node is cancelled that no masked job hides. -/
inductive PipelineResult.ShowsCancellation (result : PipelineResult) : Prop
  | stage {stage : StageResult} (hstage : stage ∈ result.stages)
      (hcanceled : stage.status = .canceled)
  | job {stage : StageResult} {job : JobResult} (hstage : stage ∈ result.stages)
      (hjob : job ∈ stage.jobs) (hcanceled : job.status = .canceled)
  | step {stage : StageResult} {job : JobResult} {step : StepResult}
      (hstage : stage ∈ result.stages) (hjob : job ∈ stage.jobs) (hstep : step ∈ job.steps)
      (hcanceled : step.status = .canceled) (hvisible : ¬ job.Masked)

/-! ## From steps to jobs -/

namespace JobNode.Ends

variable {node : JobNode} {result : JobResult}

/-- A cancelled step shows in its job, unless the job masks a failure. -/
theorem status_of_canceled_step (hends : node.Ends result) {step : StepResult}
    (hstep : step ∈ result.steps) (hcanceled : step.status = .canceled) :
    result.status = .canceled ∨ result.status = .failed ∨ result.Masked := by
  cases hends with
  | @unstarted status steps error hunstarted =>
      obtain ⟨declared, -, rfl⟩ := List.mem_map.mp hstep
      change steps = .canceled at hcanceled
      subst hcanceled
      cases hunstarted
      exact Or.inl rfl
  | @ran run hsound hover =>
      have hmem : Status.canceled ∈ run.results.map (·.status) := by
        rw [← hcanceled]
        exact List.mem_map_of_mem hstep
      -- The flag of a job masks a failure, but not a cancellation.
      by_cases hfailed : Status.failed ∈ run.results.map (·.status)
      · have haggregate := Status.aggregateAll_eq_failed_of_mem hfailed
        obtain ⟨failing, hfailing, hstatus⟩ := List.mem_map.mp hfailed
        cases hmasks : run.masksFailure with
        | false =>
            refine Or.inr (Or.inl ?_)
            simp [JobRun.result, haggregate, hmasks]
        | true =>
            refine Or.inr (Or.inr ⟨?_, failing, hfailing, hstatus⟩)
            simp [JobRun.result, haggregate, hmasks]
      · have haggregate := Status.aggregateAll_of_canceled_mem hmem
        rw [if_neg hfailed] at haggregate
        refine Or.inl ?_
        simp [JobRun.result, haggregate]

/-- Only a job with a flag for it masks a failure. -/
theorem continueOnError_of_masked (hends : node.Ends result) (hmasked : result.Masked) :
    node.job.continueOnError ≠ .fixed false := by
  obtain ⟨hissues, failing, hfailing, hfailed⟩ := hmasked
  cases hends with
  | @unstarted status steps error hunstarted =>
      change status = .succeededWithIssues at hissues
      subst hissues
      cases hunstarted
  | @ran run hsound hover =>
      have hmem : Status.failed ∈ run.results.map (·.status) := by
        rw [← hfailed]
        exact List.mem_map_of_mem hfailing
      have haggregate := Status.aggregateAll_eq_failed_of_mem hmem
      cases hmasks : run.masksFailure with
      | true => exact hsound.masks hmasks
      | false => simp [JobRun.result, haggregate, hmasks] at hissues

end JobNode.Ends

/-! ## From jobs to stages -/

namespace StageNode.Ends

variable {node : StageNode} {result : StageResult} {job : JobResult}

/-- A cancelled or failed job shows in its stage. -/
theorem status_of_canceled_or_failed_job (hends : node.Ends result) (hjob : job ∈ result.jobs)
    (hstatus : job.status = .canceled ∨ job.status = .failed) :
    result.status = .canceled ∨ result.status = .failed := by
  cases hends with
  | @unstarted status jobs error hunstarted =>
      obtain ⟨declared, -, rfl⟩ := List.mem_map.mp hjob
      change jobs = .canceled ∨ jobs = .failed at hstatus
      cases hunstarted with
      | canceled => exact Or.inl rfl
      | skipped => simp at hstatus
      | failed => simp at hstatus
  | @ran run hsound =>
      apply Status.aggregateAll_canceled_or_failed
      have hmem : job.status ∈ (run.result node).jobs.map (·.status) := List.mem_map_of_mem hjob
      rcases hstatus with hcanceled | hfailed
      · exact Or.inl (hcanceled ▸ hmem)
      · exact Or.inr (hfailed ▸ hmem)

/-- A job with issues leaves at least issues in its stage. -/
theorem status_of_job_with_issues (hends : node.Ends result) (hjob : job ∈ result.jobs)
    (hissues : job.status = .succeededWithIssues) :
    result.status = .canceled ∨ result.status = .failed ∨
      result.status = .succeededWithIssues := by
  cases hends with
  | @unstarted status jobs error hunstarted =>
      obtain ⟨declared, -, rfl⟩ := List.mem_map.mp hjob
      change jobs = .succeededWithIssues at hissues
      subst hissues
      cases hunstarted
  | @ran run hsound =>
      have hmem : Status.succeededWithIssues ∈ (run.result node).jobs.map (·.status) := by
        rw [← hissues]
        exact List.mem_map_of_mem hjob
      exact Status.aggregateAll_canceled_failed_or_issues hmem

end StageNode.Ends

/-! ## From stages to the run -/

/-- A masked job hides what was cancelled in it: nothing else is wrong with this run. -/
theorem masked_job_hides_cancellation :
    Graph.ofPipeline Delivery.compilation = .ok Delivery.compilationSetup.graph ∧
    ∃ state, RunState.Reachable Delivery.compilationSetup state ∧ state.isComplete = true ∧
      (∃ step ∈ (state.result Delivery.compilationSetup).steps, step.status = .canceled) ∧
      (state.result Delivery.compilationSetup).status = .succeededWithIssues ∧
      (CommandLine.ExitCode.ofStatus (state.result Delivery.compilationSetup).status).toNat = 0 := by
  let check (state : RunState) : Bool :=
    state.isComplete && (state.result Delivery.compilationSetup).steps.any (·.status == .canceled) &&
      (state.result Delivery.compilationSetup).status == .succeededWithIssues
  obtain ⟨state, hreachable, hcheck⟩ :=
    RunState.exists_reachable_of_replay Delivery.compilationSetup check
      [.stage 0 .start, .stage 0 (.job 0 .start), .stage 0 (.job 0 .takeAgent),
        .stage 0 (.job 0 .advance), .cancel, .stage 0 (.job 0 (.answer (.outcome {}))),
        .stage 0 (.job 0 .advance), .stage 0 (.job 0 .advance), .stage 0 (.notice 0),
        .stage 0 .finish, .notice 0]
      (by decide +kernel)
  obtain ⟨hrest, hstatus⟩ := Bool.and_eq_true_iff.mp hcheck
  obtain ⟨hcomplete, hcanceled⟩ := Bool.and_eq_true_iff.mp hrest
  obtain ⟨step, hstep, hstepCanceled⟩ := List.any_eq_true.mp hcanceled
  refine ⟨Delivery.ofPipeline_compilation, state, hreachable, hcomplete, ?_, ?_, ?_⟩
  · exact ⟨step, hstep, beq_iff_eq.mp hstepCanceled⟩
  · exact beq_iff_eq.mp hstatus
  · rw [beq_iff_eq.mp hstatus]
    rfl

namespace RunState

variable {setup : Setup} {state : RunState} {stage : StageResult}

/-- A cancelled or failed stage shows in the run. -/
theorem status_of_canceled_or_failed_stage (hstage : stage ∈ (state.result setup).stages)
    (hstatus : stage.status = .canceled ∨ stage.status = .failed) :
    (state.result setup).status = .canceled ∨ (state.result setup).status = .failed := by
  apply Status.aggregateAll_canceled_or_failed
  have hmem : stage.status ∈ (state.result setup).stages.map (·.status) :=
    List.mem_map_of_mem hstage
  rcases hstatus with hcanceled | hfailed
  · exact Or.inl (hcanceled ▸ hmem)
  · exact Or.inr (hfailed ▸ hmem)

/-- A stage with issues leaves at least issues in the run. -/
theorem status_of_stage_with_issues (hstage : stage ∈ (state.result setup).stages)
    (hissues : stage.status = .succeededWithIssues) :
    (state.result setup).status = .canceled ∨ (state.result setup).status = .failed ∨
      (state.result setup).status = .succeededWithIssues := by
  have hmem : Status.succeededWithIssues ∈ (state.result setup).stages.map (·.status) := by
    rw [← hissues]
    exact List.mem_map_of_mem hstage
  exact Status.aggregateAll_canceled_failed_or_issues hmem

/-- The two ways in which a cancelled step shows in its stage. -/
theorem status_of_stage_of_canceled_step (hsound : state.Sound setup) {job : JobResult}
    {step : StepResult} (hstage : stage ∈ (state.result setup).stages) (hjob : job ∈ stage.jobs)
    (hstep : step ∈ job.steps) (hcanceled : step.status = .canceled) :
    (stage.status = .canceled ∨ stage.status = .failed) ∨
      job.Masked ∧ stage.status = .succeededWithIssues := by
  obtain ⟨stageNode, -, hstageEnds⟩ := hsound.exists_ends_of_mem_stages hstage
  obtain ⟨jobNode, -, hjobEnds⟩ := hstageEnds.exists_ends_of_mem_jobs hjob
  rcases hjobEnds.status_of_canceled_step hstep hcanceled with hjobStatus | hjobStatus | hmasked
  · exact Or.inl (hstageEnds.status_of_canceled_or_failed_job hjob (Or.inl hjobStatus))
  · exact Or.inl (hstageEnds.status_of_canceled_or_failed_job hjob (Or.inr hjobStatus))
  · rcases hstageEnds.status_of_job_with_issues hjob hmasked.1 with hstatus | hstatus | hstatus
    · exact Or.inl (Or.inl hstatus)
    · exact Or.inl (Or.inr hstatus)
    · exact Or.inr ⟨hmasked, hstatus⟩

theorem status_of_showsCancellation (hsound : state.Sound setup)
    (hshows : (state.result setup).ShowsCancellation) :
    (state.result setup).status = .canceled ∨ (state.result setup).status = .failed := by
  cases hshows with
  | stage hstage hcanceled => exact status_of_canceled_or_failed_stage hstage (Or.inl hcanceled)
  | job hstage hjob hcanceled =>
      obtain ⟨stageNode, -, hends⟩ := hsound.exists_ends_of_mem_stages hstage
      apply status_of_canceled_or_failed_stage hstage
      exact hends.status_of_canceled_or_failed_job hjob (Or.inl hcanceled)
  | step hstage hjob hstep hcanceled hvisible =>
      rcases status_of_stage_of_canceled_step hsound hstage hjob hstep hcanceled with
        hstatus | hmasked
      · exact status_of_canceled_or_failed_stage hstage hstatus
      · exact absurd hmasked.1 hvisible

end RunState

/-- Every other cancelled node makes the run a cancelled or a failed one, which is no success for
the caller.  A hidden one leaves at least issues, and its job has the flag that masks failures. -/
theorem status_of_canceled_node {setup : Setup} {state : RunState}
    (hreachable : RunState.Reachable setup state) :
    ((state.result setup).ShowsCancellation →
      ((state.result setup).status = .canceled ∨ (state.result setup).status = .failed) ∧
        (CommandLine.ExitCode.ofStatus (state.result setup).status).toNat ≠ 0) ∧
    ((∃ step ∈ (state.result setup).steps, step.status = .canceled) →
      (state.result setup).status = .canceled ∨ (state.result setup).status = .failed ∨
        (state.result setup).status = .succeededWithIssues) ∧
    ∀ stage ∈ (state.result setup).stages, ∀ job ∈ stage.jobs, job.Masked →
      ∃ stageNode ∈ setup.graph.stages, ∃ jobNode ∈ stageNode.jobs,
        jobNode.Ends job ∧ jobNode.job.continueOnError ≠ .fixed false := by
  have hsound := RunState.sound_of_reachable hreachable
  refine ⟨fun hshows => ?_, fun hstep => ?_, fun stage hstage job hjob hmasked => ?_⟩
  · have hstatus := RunState.status_of_showsCancellation hsound hshows
    refine ⟨hstatus, ?_⟩
    rcases hstatus with hcanceled | hfailed
    · simp [hcanceled, CommandLine.ExitCode.ofStatus, CommandLine.ExitCode.toNat]
    · simp [hfailed, CommandLine.ExitCode.ofStatus, CommandLine.ExitCode.toNat]
  · obtain ⟨step, hstep, hcanceled⟩ := hstep
    obtain ⟨stage, hstage, hsteps⟩ := List.mem_flatMap.mp hstep
    obtain ⟨job, hjob, hstep⟩ := List.mem_flatMap.mp hsteps
    rcases RunState.status_of_stage_of_canceled_step hsound hstage hjob hstep hcanceled with
      hstatus | hmasked
    · have hrun := RunState.status_of_canceled_or_failed_stage hstage hstatus
      exact hrun.imp_right Or.inl
    · exact RunState.status_of_stage_with_issues hstage hmasked.2
  · obtain ⟨stageNode, hstageNode, hstageEnds⟩ := hsound.exists_ends_of_mem_stages hstage
    obtain ⟨jobNode, hjobNode, hjobEnds⟩ := hstageEnds.exists_ends_of_mem_jobs hjob
    refine ⟨stageNode, hstageNode, jobNode, hjobNode, hjobEnds, ?_⟩
    exact hjobEnds.continueOnError_of_masked hmasked

/-- The cancellation comes while a step of a job that masks failures is under way.  The job hides
its last step, and the job after it shows. -/
theorem status_of_canceled_node_delivery :
    ∃ state, RunState.Reachable Delivery.setup state ∧
      (state.result Delivery.setup).ShowsCancellation ∧
      (∃ stage ∈ (state.result Delivery.setup).stages, ∃ job ∈ stage.jobs, job.Masked) ∧
      ((state.result Delivery.setup).status = .canceled ∨
        (state.result Delivery.setup).status = .failed) ∧
      (CommandLine.ExitCode.ofStatus (state.result Delivery.setup).status).toNat ≠ 0 ∧
      ∃ stageNode ∈ Delivery.setup.graph.stages, ∃ jobNode ∈ stageNode.jobs,
        jobNode.job.continueOnError ≠ .fixed false := by
  let check (state : RunState) : Bool :=
    decide ((∃ stage ∈ (state.result Delivery.setup).stages, stage.status = .canceled) ∧
      ∃ stage ∈ (state.result Delivery.setup).stages, ∃ job ∈ stage.jobs, job.Masked)
  obtain ⟨state, hreachable, hcheck⟩ :=
    RunState.exists_reachable_of_replay Delivery.setup check
      [.stage 0 .start, .stage 0 (.job 0 .start), .stage 0 (.job 0 .takeAgent),
        .stage 0 (.job 0 .advance), .cancel, .stage 0 (.job 0 (.answer (.outcome {}))),
        .stage 0 (.job 0 .advance), .stage 0 (.job 0 .advance), .stage 0 (.notice 0),
        .stage 0 (.job 1 .start), .stage 0 (.notice 1), .stage 0 .finish, .notice 0,
        .stage 1 .start, .stage 2 .start, .notice 2, .notice 1]
      (by decide +kernel)
  obtain ⟨⟨stage, hstage, hcanceled⟩, hmasked⟩ := of_decide_eq_true hcheck
  have hshows : (state.result Delivery.setup).ShowsCancellation := .stage hstage hcanceled
  obtain ⟨hstatus, -, hflags⟩ := status_of_canceled_node hreachable
  refine ⟨state, hreachable, hshows, hmasked, (hstatus hshows).1, (hstatus hshows).2, ?_⟩
  obtain ⟨maskedStage, hmaskedStage, job, hjob, hjobMasked⟩ := hmasked
  obtain ⟨stageNode, hstageNode, jobNode, hjobNode, -, hflag⟩ :=
    hflags maskedStage hmaskedStage job hjob hjobMasked
  exact ⟨stageNode, hstageNode, jobNode, hjobNode, hflag⟩

end BuildPipeline
