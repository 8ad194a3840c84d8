import BuildPipeline.Proofs.Run.DefaultCondition
import BuildPipeline.Proofs.Run.JobInvariants
import BuildPipeline.Proofs.Run.RunRecord
import BuildPipeline.Proofs.Run.TruthfulStatus

/-!
# Masked failures

A step or a job whose flag is fixed to true is not to fail: its failure counts as issues.  For a
step this is so on every way in which it can end.  A job decides on its flag when it opens its
scope, and what goes wrong before that is not masked: a condition without a value, and a variable
without one.

* `JobNode.CannotOpen` names these two ways.
* `JobRun.KeepsFlags` is the invariant of a running job, and `JobNode.KeepsFlag` what it leaves in
  the result: `keepsFlag_invariant` shows all moves to keep them.
* `fixed_flag_masks_failures` reads the result tree.
* `flagged_job_fails` has a job that is flagged and fails all the same.
-/

namespace BuildPipeline

/-- A step that has not failed, if its flag is fixed to true. -/
def Step.KeepsFlag (step : Step) (result : StepResult) : Prop :=
  step.continueOnError = .fixed true → result.status ≠ .failed

/-- A job that fails before its scope is open, with the message: its condition has no value, or one
of its variables has none. -/
inductive JobNode.CannotOpen (node : JobNode) : String → Prop
  | condition {text : String} {context : Expression.Context} {error : Expression.EvalError}
      (htext : node.job.condition = some text)
      (hfails : Expression.evaluateCondition context text = .error error) :
      CannotOpen node error.message
  | variable {name value : String} {readonly : Bool} {context : Expression.Context}
      {error : Expression.EvalError} (hmem : .definition name value readonly ∈ node.job.vars)
      (hfails : Expression.substituteRuntime context value = .error error) :
      CannotOpen node error.message

/-- What the flags of a job and of its steps do to their results. -/
structure JobNode.KeepsFlag (node : JobNode) (result : JobResult) : Prop where
  steps : List.Forall₂ Step.KeepsFlag node.job.steps result.steps
  /-- The job does not fail, unless it broke off or could not open. -/
  job : node.job.continueOnError = .fixed true → result.status = .failed →
    result = StageRun.lostJob node ∨ ∃ error, node.CannotOpen error ∧
      result = .notRun node .failed .skipped (some error)
  /-- The steps do not make the job fail, if all their flags are fixed to true. -/
  above : (∀ step ∈ node.job.steps, step.continueOnError = .fixed true) →
    result.status = .failed → result.error ≠ none

/-! ## Steps -/

namespace Step

variable {step : Step}

theorem failureStatus_ne_failed (context : Expression.Context)
    (hflag : step.continueOnError = .fixed true) : step.failureStatus context ≠ .failed := by
  simp [failureStatus, hflag, Flag.holds, Flag.resolve, Except.toOption]

theorem keepsFlag_ofStep {status : Status} (hstatus : status ≠ .failed) :
    step.KeepsFlag (.ofStep step status) :=
  fun _ => hstatus

/-- A started step ends as a success or with the status of its failures. -/
theorem keepsFlag_settle (started : Step) (outcome : Outcome) (environment : Environment)
    (index : Nat) {failure : Status}
    (hfailure : step.continueOnError = .fixed true → failure ≠ .failed) :
    step.KeepsFlag (outcome.settle environment index started failure).result := by
  intro hflag
  change (if outcome.success then Status.succeeded else failure) ≠ .failed
  split
  · exact Status.noConfusion
  · exact hfailure hflag

end Step

/-! ## Jobs -/

/-- What holds of the flags while a job runs. -/
structure JobRun.KeepsFlags (node : JobNode) (run : JobRun) : Prop where
  steps : List.Forall₂ Step.KeepsFlag (node.job.steps.take run.results.length) run.results
  masks : node.job.continueOnError = .fixed true → run.masksFailure = true
  /-- The step under way knows what its failure counts as. -/
  ongoing : ∀ ongoing, run.ongoing = some ongoing →
    ∀ declared, node.job.steps[run.results.length]? = some declared →
      declared.continueOnError = .fixed true → ongoing.failure ≠ .failed

namespace JobRun.KeepsFlags

variable {node : JobNode} {run : JobRun}

theorem record {declared : Step} {result : StepResult} (hkeeps : run.KeepsFlags node)
    (hdeclared : node.job.steps[run.results.length]? = some declared)
    (hresult : declared.KeepsFlag result) : (run.record declared result).KeepsFlags node := by
  refine ⟨?_, hkeeps.masks, fun _ hongoing => by cases hongoing⟩
  change List.Forall₂ Step.KeepsFlag (node.job.steps.take (run.results ++ [result]).length)
    (run.results ++ [result])
  rw [List.length_append, List.length_singleton, List.take_add_one, hdeclared]
  exact List.rel_append hkeeps.steps (.cons hresult .nil)

theorem concluded {declared : Step} {failure : Status} (hkeeps : run.KeepsFlags node)
    (hdeclared : node.job.steps[run.results.length]? = some declared)
    (hfailure : declared.continueOnError = .fixed true → failure ≠ .failed) (started : Step)
    (outcome : Outcome) : (run.concluded declared started failure outcome).KeepsFlags node := by
  let ending := outcome.settle run.environment run.results.length started failure
  have hopen : ({ run with environment := ending.environment } : JobRun).KeepsFlags node :=
    ⟨hkeeps.steps, hkeeps.masks, hkeeps.ongoing⟩
  exact hopen.record hdeclared (Step.keepsFlag_settle started outcome _ _ hfailure)

/-- A job that runs to its end does not fail if it masks its failures, nor if its steps do. -/
theorem keepsFlag_result (hkeeps : run.KeepsFlags node)
    (hover : node.job.steps[run.results.length]? = none) : node.KeepsFlag (run.result node) := by
  have hsteps : List.Forall₂ Step.KeepsFlag node.job.steps run.results := by
    have htaken := hkeeps.steps
    rwa [List.take_of_length_le (List.getElem?_eq_none_iff.mp hover)] at htaken
  have hcause : (run.result node).status = .failed →
      Status.aggregateAll (run.results.map (·.status)) = .failed ∧ run.masksFailure = false := by
    intro hfailed
    change (if _ then Status.succeededWithIssues else _) = .failed at hfailed
    split at hfailed
    · cases hfailed
    · next hunmasked => exact ⟨hfailed, by simpa [hfailed] using hunmasked⟩
  refine ⟨hsteps, fun hflag hfailed => ?_, fun hall hfailed => ?_⟩
  · have hmasks := hkeeps.masks hflag
    rw [(hcause hfailed).2] at hmasks
    cases hmasks
  · have hmem := Status.mem_of_aggregateAll (hcause hfailed).1 (Or.inr rfl)
    obtain ⟨step, hstep, hstatus⟩ := List.mem_map.mp hmem
    obtain ⟨declared, hdeclared, hflag⟩ := exists_node_of_mem hsteps hstep
    exact absurd hstatus (hflag (hall declared hdeclared))

end JobRun.KeepsFlags

namespace JobNode

variable {node : JobNode}

/-- Declarations fail on one of them. -/
theorem exists_of_declare {base : Expression.Context} {environment scope : Environment}
    {vars : List Variable} {error : Expression.EvalError}
    (hdeclare : environment.declare base vars = (scope, some error)) :
    ∃ name value readonly context, .definition name value readonly ∈ vars ∧
      Expression.substituteRuntime context value = .error error := by
  fun_induction Environment.declare base environment vars with
  | case1 => cases hdeclare
  | case2 _ _ _ _ ih =>
      obtain ⟨name, value, readonly, context, hmem, hfails⟩ := ih hdeclare
      exact ⟨name, value, readonly, context, List.mem_cons_of_mem _ hmem, hfails⟩
  | case3 environment name value readonly rest found hfails =>
      cases hdeclare
      exact ⟨name, value, readonly, _, List.mem_cons_self, hfails⟩
  | case4 _ _ _ _ _ _ _ ih =>
      obtain ⟨name, value, readonly, context, hmem, hfails⟩ := ih hdeclare
      exact ⟨name, value, readonly, context, List.mem_cons_of_mem _ hmem, hfails⟩

theorem forall₂_keepsFlag_notRun (node : JobNode) {status : Status} (hstatus : status ≠ .failed) :
    List.Forall₂ Step.KeepsFlag node.job.steps
      (node.job.steps.map (StepResult.ofStep · status)) :=
  List.forall₂_map_right_iff.mpr (List.forall₂_same.mpr fun _ _ => Step.keepsFlag_ofStep hstatus)

/-- A job that was not to run has not failed. -/
theorem keepsFlag_notRun (node : JobNode) {status : Status} (hstatus : status ≠ .failed) :
    node.KeepsFlag (.notRun node status status none) :=
  ⟨forall₂_keepsFlag_notRun node hstatus, fun _ hfailed => absurd hfailed hstatus,
    fun _ hfailed => absurd hfailed hstatus⟩

theorem keepsFlag_lostJob (node : JobNode) : node.KeepsFlag (StageRun.lostJob node) :=
  ⟨forall₂_keepsFlag_notRun node Status.noConfusion, fun _ _ => .inl rfl,
    fun _ _ => Option.some_ne_none _⟩

/-- A job that could not open has failed, whatever its flag says. -/
theorem CannotOpen.keepsFlag {error : String} (hclosed : node.CannotOpen error) :
    node.KeepsFlag (.notRun node .failed .skipped (some error)) :=
  ⟨forall₂_keepsFlag_notRun node Status.noConfusion, fun _ _ => .inr ⟨error, hclosed, rfl⟩,
    fun _ _ => Option.some_ne_none error⟩

/-- What is known of the flags of a job in its phase. -/
def PhaseKeepsFlag (node : JobNode) : Phase JobWork JobResult → Prop
  | .active (.running run) => run.KeepsFlags node
  | .returned result => node.KeepsFlag result
  | _ => True

variable {setup : Setup} {place : Place} {environment : Environment} {shared : Shared}

theorem keepsFlag_of_advances {run : JobRun} {turn : JobTurn}
    (hadvances : JobWork.Advances setup place shared node run turn)
    (hkeeps : run.KeepsFlags node) : node.PhaseKeepsFlag turn.phase := by
  cases hadvances with
  | ended hover => exact hkeeps.keepsFlag_result hover
  | canceled hdeclared => exact hkeeps.record hdeclared (Step.keepsFlag_ofStep Status.noConfusion)
  | skipped hdeclared => exact hkeeps.record hdeclared (Step.keepsFlag_ofStep Status.noConfusion)
  | refused hdeclared =>
      exact hkeeps.record hdeclared (Step.failureStatus_ne_failed run.stepContext)
  | immediate hdeclared =>
      exact hkeeps.concluded hdeclared (Step.failureStatus_ne_failed run.stepContext) _ _
  | @calling step call after hdeclared =>
      refine ⟨hkeeps.steps, hkeeps.masks, fun ongoing hongoing declared hother => ?_⟩
      cases hongoing
      obtain rfl : step = declared := Option.some.inj (hdeclared.symm.trans hother)
      exact step.failureStatus_ne_failed run.stepContext

/-- All moves keep what the flags promise. -/
theorem keepsFlag_of_moves {work : JobWork} {move : JobMove} {turn : JobTurn}
    (hmoves : work.Moves setup place environment shared node move turn)
    (hkeeps : node.PhaseKeepsFlag (.active work)) : node.PhaseKeepsFlag turn.phase := by
  cases hmoves with
  | start dependencies =>
      generalize hstart : JobWork.start setup environment shared node dependencies = turn
      cases JobWork.starts_of_start hstart with
      | queued => exact trivial
      | canceled => exact keepsFlag_notRun node Status.noConfusion
      | skipped => exact keepsFlag_notRun node Status.noConfusion
      | failed hlive hcondition =>
          -- the default condition has a value, so the job states one of its own
          cases htext : node.job.condition with
          | none =>
              rw [JobWork.decision_default htext] at hcondition
              cases hcondition
          | some text =>
              rw [JobWork.decision, htext] at hcondition
              exact (CannotOpen.condition htext hcondition).keepsFlag
  | takeAgent context =>
      generalize htake : JobWork.takeAgent environment shared node context = turn
      cases JobWork.takesAgent_of_takeAgent htake with
      | refused hdeclare =>
          obtain ⟨name, value, readonly, seen, hmem, hfails⟩ := exists_of_declare hdeclare
          exact (CannotOpen.variable hmem hfails).keepsFlag
      | running =>
          refine ⟨.nil, fun hflag => ?_, fun _ hongoing => by cases hongoing⟩
          simp [hflag, Flag.holds, Flag.resolve, Except.toOption]
  | withdraw => exact keepsFlag_notRun node Status.noConfusion
  | advance run => exact keepsFlag_of_advances (JobWork.advances_of_advance rfl) hkeeps
  | @answer run ongoing declared reply turn hongoing hdeclared hanswer =>
      have hrun : run.KeepsFlags node := hkeeps
      have hfailure := hrun.ongoing ongoing hongoing declared hdeclared
      rcases JobWork.answer_phase hanswer with ⟨outcome, hphase⟩ | ⟨invocation, number, -, hphase⟩
      · rw [hphase]
        exact hrun.concluded hdeclared hfailure _ outcome
      · rw [hphase]
        refine ⟨hrun.steps, hrun.masks, fun other hother => ?_⟩
        cases hother
        exact hrun.ongoing ongoing hongoing
  | die => exact trivial

theorem keepsFlag_invariant : JobNode.Invariant PhaseKeepsFlag where
  waiting _ := trivial
  closed _ := trivial
  released _ _ := trivial
  unstarted node status hstatus := by
    have hnotFailed : status ≠ .failed := by
      rintro rfl
      rcases hstatus with hstatus | hstatus <;> cases hstatus
    exact keepsFlag_notRun node hnotFailed
  lost := keepsFlag_lostJob
  moves := keepsFlag_of_moves

end JobNode

/-- A flag that is fixed to true masks failures, whatever the graph, the outcomes and the order of
the moves.  A step with such a flag never ends as a failure.  A job with such a flag ends as one
only if it broke off, or if it could not open because its condition or one of its variables has no
value; it has run no step then.  And a job whose steps all have such flags fails for a reason of its
own only. -/
theorem fixed_flag_masks_failures {setup : Setup} {state : RunState}
    (hdistinct : setup.graph.DistinctNames) (hreachable : RunState.Reachable setup state) :
    List.Forall₂ (fun node stage => List.Forall₂ JobNode.KeepsFlag node.jobs stage.jobs)
      setup.graph.stages (state.result setup).stages :=
  RunState.forall₂_jobs_of_invariant JobNode.keepsFlag_invariant hdistinct hreachable

/-- The compilation fails on its first step and is flagged, so it ends with issues. -/
theorem fixed_flag_masks_failures_delivery :
    Delivery.setup.graph.DistinctNames ∧
    ∃ state, RunState.Reachable Delivery.setup state ∧ state.isComplete = true ∧
      (state.result Delivery.setup).steps.any (·.status == .failed) = true ∧
      (state.result Delivery.setup).status = .succeededWithIssues ∧
      List.Forall₂ (fun node stage => List.Forall₂ JobNode.KeepsFlag node.jobs stage.jobs)
        Delivery.setup.graph.stages (state.result Delivery.setup).stages := by
  let check (state : RunState) : Bool :=
    state.isComplete && ((state.result Delivery.setup).steps.any (·.status == .failed) &&
      (state.result Delivery.setup).status == .succeededWithIssues)
  obtain ⟨state, hreachable, hcheck⟩ :=
    RunState.exists_reachable_of_replay Delivery.setup check
      (Delivery.stageMoves 0 (Delivery.jobMoves 0 0 [some {}, none] ++
          Delivery.jobMoves 0 1 [some (.succeeded "")]) ++
        Delivery.stageMoves 1 (Delivery.jobMoves 1 0 [some (.succeeded "")]) ++
        Delivery.stageMoves 2 (Delivery.jobMoves 2 0 [some (.succeeded "")]))
      (by decide +kernel)
  obtain ⟨hcomplete, hrest⟩ := Bool.and_eq_true_iff.mp hcheck
  obtain ⟨hfailed, hissues⟩ := Bool.and_eq_true_iff.mp hrest
  exact ⟨Delivery.distinctNames_graph, state, hreachable, hcomplete, hfailed,
    beq_iff_eq.mp hissues, fixed_flag_masks_failures Delivery.distinctNames_graph hreachable⟩

namespace Delivery

/-- The compilation with a condition that is cut off. -/
def unasked : Job :=
  { compile with condition := some "eq(" }

/-- The compilation with a variable that is cut off. -/
def unset : Job :=
  { compile with job := some "pack", vars := [.definition "target" "$[eq(]" false] }

def flagged : Pipeline :=
  { stages := [{ build with jobs := [unasked, unset] }] }

def flaggedSetup : Setup where
  name := "flagged"
  graph := ⟨[⟨"build", { build with jobs := [unasked, unset] }, [],
    [⟨"compile", unasked, []⟩, ⟨"pack", unset, []⟩]⟩], []⟩

theorem ofPipeline_flagged : Graph.ofPipeline flagged = .ok flaggedSetup.graph := by
  simp [Graph.ofPipeline, flagged, flaggedSetup, build, unasked, unset, compile, stageNodes,
    Stage.jobNodes, jobNodes, nodeName, Stage.dependencyNames, DependsOn.names,
    DependsOn.isImplicit, Graph.precedence, JobNode.precedence, checkPrecedence,
    Precedence.dangling?, Precedence.cycle?, Precedence.visit, Precedence.before,
    Precedence.names, List.lookup_cons, List.findSome?_cons, bind, Except.bind, pure, Except.pure]

end Delivery

/-- Two jobs have flags that are fixed to true, and both fail: one on its condition, the other on
its variable.  Their stage fails with them. -/
theorem flagged_job_fails :
    Graph.ofPipeline Delivery.flagged = .ok Delivery.flaggedSetup.graph ∧
    Delivery.unasked.continueOnError = .fixed true ∧ Delivery.unset.continueOnError = .fixed true ∧
    ∃ state earlier,
      RunState.History Delivery.flaggedSetup (fun state move => state.admits false move = true)
        (state :: earlier) ∧
      state.isComplete = true ∧
      (state.result Delivery.flaggedSetup).stages.map (fun stage =>
        (stage.status, stage.jobs.map (·.status))) = [(.failed, [.failed, .failed])] := by
  let check (state : RunState) : Bool :=
    state.isComplete && (state.result Delivery.flaggedSetup).stages.map (fun stage =>
      (stage.status, stage.jobs.map (·.status))) == [(.failed, [.failed, .failed])]
  obtain ⟨state, earlier, hhistory, hcheck⟩ :=
    RunState.exists_history_of_replay Delivery.flaggedSetup (RunState.admits false) check
      (Delivery.stageMoves 0
        [.stage 0 (.job 0 .start), .stage 0 (.notice 0), .stage 0 (.job 1 .start),
          .stage 0 (.job 1 .takeAgent), .stage 0 (.notice 1)])
      (by decide +kernel)
  obtain ⟨hcomplete, hstatuses⟩ := Bool.and_eq_true_iff.mp hcheck
  exact ⟨Delivery.ofPipeline_flagged, rfl, rfl, state, earlier, hhistory, hcomplete,
    beq_iff_eq.mp hstatuses⟩

end BuildPipeline
