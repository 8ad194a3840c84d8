import BuildPipeline.Proofs.Run.StageCourse
import BuildPipeline.Proofs.Run.TruthfulStatus

/-!
# Where a cancellation cuts a job

A cancellation is asked about before every step of a job, and once it has come it stays.  So the
steps of a job fall into two parts: first those that were decided on without it, and then those that
it has cancelled.

* `Status.CutOff` is the shape of such a list, and `Status.Shows` is what a cancelled child owes to
  its parent.
* `JobRun.CutOff` is what holds of a job while it runs: after a cancelled step the run is cancelled
  and no step is under way.  The next step is cancelled too, then.
* `cutOff_of_moves` are the step lemmas, and `RunState.keeps_cutOff_of_reachable` is the invariant
  of a run.  It holds whatever the names, the moves and the moment of cancellation.
-/

namespace BuildPipeline

/-! ## Statuses -/

namespace Status

/-- Cancelled from some place on, and not before it. -/
def CutOff (statuses : List Status) : Prop :=
  ∃ kept count, statuses = kept ++ List.replicate count canceled ∧ canceled ∉ kept

/-- Where a child is cancelled and none has failed, the parent is cancelled. -/
def Shows (status : Status) (children : List Status) : Prop :=
  canceled ∈ children → failed ∉ children → status = canceled

theorem cutOff_of_notMem {statuses : List Status} (hlive : canceled ∉ statuses) :
    CutOff statuses :=
  ⟨statuses, 0, (List.append_nil statuses).symm, hlive⟩

theorem cutOff_of_forall_eq {statuses : List Status} {status : Status}
    (hall : ∀ other ∈ statuses, other = status) : CutOff statuses := by
  by_cases hcanceled : status = canceled
  · subst hcanceled
    exact ⟨[], statuses.length, List.eq_replicate_of_mem hall, List.not_mem_nil⟩
  · exact cutOff_of_notMem fun hmem => hcanceled (hall canceled hmem).symm

theorem CutOff.append_canceled {statuses : List Status} (hcut : CutOff statuses) :
    CutOff (statuses ++ [canceled]) := by
  obtain ⟨kept, count, rfl, hkept⟩ := hcut
  exact ⟨kept, count + 1, by rw [List.append_assoc, List.replicate_succ'], hkept⟩

theorem shows_aggregateAll (children : List Status) : (aggregateAll children).Shows children := by
  intro hcanceled hfailed
  rw [aggregateAll_of_canceled_mem hcanceled, if_neg hfailed]

end Status

theorem Declined.shows {status below : Status} {error : Option String}
    (hdeclined : Declined status below error) {children : List Status}
    (hchildren : ∀ child ∈ children, child = below) : status.Shows children := by
  intro hcanceled _
  have heq := hchildren _ hcanceled
  cases hdeclined <;> cases heq
  rfl

theorem Step.failureStatus_ne_canceled (context : Expression.Context) (step : Step) :
    step.failureStatus context ≠ .canceled := by
  unfold failureStatus
  split <;> exact fun heq => nomatch heq

/-- A step that was started does not end cancelled. -/
theorem Outcome.status_settle_ne_canceled (outcome : Outcome) (environment : Environment)
    (index : Nat) (step : Step) {failure : Status} (hfailure : failure ≠ .canceled) :
    (outcome.settle environment index step failure).result.status ≠ .canceled := by
  change (if outcome.success then Status.succeeded else failure) ≠ .canceled
  split
  · exact fun heq => nomatch heq
  · exact hfailure

/-! ## Jobs -/

/-- A job whose steps are cut off at one place, and whose status shows it. -/
structure JobResult.CutOff (job : JobResult) : Prop where
  steps : Status.CutOff (job.steps.map (·.status))
  shows : job.status.Shows (job.steps.map (·.status))

theorem JobResult.cutOff_notRun (node : JobNode) {status steps : Status} {error : Option String}
    (hdeclined : Declined status steps error) : (notRun node status steps error).CutOff := by
  have hall := statuses_notRun_job node status steps error
  exact ⟨Status.cutOff_of_forall_eq hall, hdeclined.shows hall⟩

/-- What holds of a job while it runs; `canceled` says whether the run is cancelled. -/
structure JobRun.CutOff (canceled : Bool) (run : JobRun) : Prop where
  steps : Status.CutOff (run.results.map (·.status))
  /-- Nothing goes on after a cancelled step. -/
  after : .canceled ∈ run.results.map (·.status) → canceled = true ∧ run.ongoing = none
  failure : ∀ ongoing, run.ongoing = some ongoing → ongoing.failure ≠ .canceled

/-- What holds of a job in its phase. -/
def JobNode.PhaseCutOff (canceled : Bool) (_node : JobNode) : Phase JobWork JobResult → Prop
  | .active (.running run) => run.CutOff canceled
  | .returned result => result.CutOff
  | _ => True

namespace JobRun.CutOff

variable {canceled : Bool} {run : JobRun}

/-- As long as the run is not cancelled, no step is. -/
theorem notMem_of_live (hcut : run.CutOff canceled) (hlive : canceled = false) :
    .canceled ∉ run.results.map (·.status) := by
  intro hmem
  rw [(hcut.after hmem).1] at hlive
  cases hlive

/-- While a step is under way, none before it is cancelled. -/
theorem notMem_of_ongoing {ongoing : Ongoing} (hcut : run.CutOff canceled)
    (hongoing : run.ongoing = some ongoing) : .canceled ∉ run.results.map (·.status) := by
  intro hmem
  rw [(hcut.after hmem).2] at hongoing
  cases hongoing

theorem record (hlive : .canceled ∉ run.results.map (·.status)) (declared : Step)
    {result : StepResult} (hstatus : result.status ≠ .canceled) :
    (run.record declared result).CutOff canceled := by
  have hnotMem : .canceled ∉ (run.results ++ [result]).map (·.status) := by
    rw [List.map_append, List.mem_append]
    rintro (hold | hnew)
    · exact hlive hold
    · exact hstatus (List.mem_singleton.mp hnew).symm
  exact ⟨Status.cutOff_of_notMem hnotMem, fun hmem => absurd hmem hnotMem,
    fun _ hongoing => nomatch hongoing⟩

theorem record_canceled (hcut : run.CutOff true) (declared : Step) {result : StepResult}
    (hstatus : result.status = .canceled) : (run.record declared result).CutOff true := by
  refine ⟨?_, fun _ => ⟨rfl, rfl⟩, fun _ hongoing => nomatch hongoing⟩
  change Status.CutOff ((run.results ++ [result]).map (·.status))
  rw [List.map_append, List.map_singleton, hstatus]
  exact hcut.steps.append_canceled

theorem concluded (hlive : .canceled ∉ run.results.map (·.status)) (declared started : Step)
    {failure : Status} (hfailure : failure ≠ .canceled) (outcome : Outcome) :
    (run.concluded declared started failure outcome).CutOff canceled :=
  let ending := outcome.settle run.environment run.results.length started failure
  let passed : JobRun := { run with environment := ending.environment }
  have hpassed : .canceled ∉ passed.results.map (·.status) := hlive
  record hpassed declared
    (outcome.status_settle_ne_canceled run.environment run.results.length started hfailure)

/-- A call is made while no step is cancelled. -/
theorem calling (hlive : .canceled ∉ run.results.map (·.status)) {ongoing : Ongoing}
    (hfailure : ongoing.failure ≠ .canceled) :
    JobRun.CutOff canceled { run with ongoing := some ongoing } := by
  refine ⟨Status.cutOff_of_notMem hlive, fun hmem => absurd hmem hlive, fun other hother => ?_⟩
  cases hother
  exact hfailure

/-- The flag of a job masks a failure, but no cancellation. -/
theorem result (hcut : run.CutOff canceled) (node : JobNode) : (run.result node).CutOff := by
  refine ⟨hcut.steps, fun hcanceled hfailed => ?_⟩
  have hstatus := Status.shows_aggregateAll (run.results.map (·.status)) hcanceled hfailed
  simp [JobRun.result, hstatus]

theorem mono (hcut : run.CutOff canceled) {later : Bool} (hlater : canceled = true → later = true) :
    run.CutOff later :=
  ⟨hcut.steps, fun hmem => (hcut.after hmem).imp_left hlater, hcut.failure⟩

end JobRun.CutOff

namespace JobNode

variable {node : JobNode} {setup : Setup} {place : Place} {environment : Environment}
  {shared : Shared}

theorem PhaseCutOff.mono {canceled later : Bool} {phase : Phase JobWork JobResult}
    (hcut : node.PhaseCutOff canceled phase) (hlater : canceled = true → later = true) :
    node.PhaseCutOff later phase := by
  cases phase with
  | active work =>
      cases work with
      | running run => exact JobRun.CutOff.mono hcut hlater
      | _ => exact trivial
  | returned result => exact hcut
  | _ => exact trivial

theorem cutOff_of_advances {run : JobRun} {turn : JobTurn}
    (hadvances : JobWork.Advances setup place shared node run turn)
    (hcut : run.CutOff shared.canceled) : node.PhaseCutOff shared.canceled turn.phase := by
  cases hadvances with
  | ended => exact hcut.result node
  | @canceled step _ hcanceled =>
      rw [hcanceled] at hcut ⊢
      exact hcut.record_canceled step rfl
  | @skipped step _ _ hlive =>
      exact JobRun.CutOff.record (hcut.notMem_of_live hlive) step (by simp [StepResult.ofStep])
  | @refused step _ _ hlive =>
      exact JobRun.CutOff.record (hcut.notMem_of_live hlive) step
        (step.failureStatus_ne_canceled run.stepContext)
  | @immediate step outcome _ hlive =>
      exact JobRun.CutOff.concluded (hcut.notMem_of_live hlive) step _
        (step.failureStatus_ne_canceled run.stepContext) outcome
  | @calling step _ _ _ hlive =>
      exact JobRun.CutOff.calling (hcut.notMem_of_live hlive)
        (step.failureStatus_ne_canceled run.stepContext)

theorem cutOff_of_moves {work : JobWork} {move : JobMove} {turn : JobTurn}
    (hmoves : work.Moves setup place environment shared node move turn)
    (hcut : node.PhaseCutOff shared.canceled (.active work)) :
    node.PhaseCutOff shared.canceled turn.phase := by
  cases hmoves with
  | start dependencies =>
      generalize hstart : JobWork.start setup environment shared node dependencies = turn
      cases JobWork.starts_of_start hstart with
      | canceled => exact JobResult.cutOff_notRun node .canceled
      | queued => exact trivial
      | skipped => exact JobResult.cutOff_notRun node .skipped
      | failed => exact JobResult.cutOff_notRun node (.failed _)
  | takeAgent context =>
      generalize htake : JobWork.takeAgent environment shared node context = turn
      cases JobWork.takesAgent_of_takeAgent htake with
      | refused => exact JobResult.cutOff_notRun node (.failed _)
      | running =>
          have hlive : Status.canceled ∉ ([] : List StepResult).map (·.status) := List.not_mem_nil
          exact ⟨Status.cutOff_of_notMem hlive, fun hmem => absurd hmem hlive,
            fun _ hongoing => nomatch hongoing⟩
  | withdraw => exact JobResult.cutOff_notRun node .canceled
  | advance run => exact cutOff_of_advances (JobWork.advances_of_advance rfl) hcut
  | @answer run ongoing declared reply turn hongoing _ hanswer =>
      have hrun : run.CutOff shared.canceled := hcut
      have hlive := hrun.notMem_of_ongoing hongoing
      have hfailure := hrun.failure ongoing hongoing
      rcases JobWork.answer_phase hanswer with ⟨outcome, hphase⟩ | ⟨invocation, number, -, hphase⟩
      · rw [hphase]
        exact JobRun.CutOff.concluded hlive declared ongoing.step hfailure outcome
      · rw [hphase]
        exact JobRun.CutOff.calling hlive hfailure
  | die => exact trivial

end JobNode

/-! ## Stages -/

/-- A stage whose jobs are cut off, and whose status shows it. -/
structure StageResult.CutOff (stage : StageResult) : Prop where
  jobs : ∀ job ∈ stage.jobs, job.CutOff
  shows : stage.status.Shows (stage.jobs.map (·.status))

theorem StageResult.cutOff_notRun (node : StageNode) {status jobs : Status} {error : Option String}
    (hdeclined : Declined status jobs error) : (notRun node status jobs error).CutOff := by
  constructor
  · intro job hjob
    obtain ⟨jobNode, -, rfl⟩ := List.mem_map.mp hjob
    exact JobResult.cutOff_notRun jobNode hdeclined.children
  · refine hdeclined.shows fun child hchild => ?_
    obtain ⟨job, hjob, rfl⟩ := List.mem_map.mp hchild
    obtain ⟨jobNode, -, rfl⟩ := List.mem_map.mp hjob
    rfl

/-- What holds of a stage in its phase. -/
def StageNode.PhaseCutOff (canceled : Bool) (_node : StageNode) :
    Phase StageWork StageResult → Prop
  | .active (.running run) => run.jobs.Keeps (JobNode.PhaseCutOff canceled)
  | .returned result => result.CutOff
  | _ => True

/-- A property may be weakened. -/
theorem Schedule.Keeps.imp {ν α ρ : Type} {ok more : ν → Phase α ρ → Prop}
    {schedule : Schedule ν α ρ} (hkeeps : schedule.Keeps ok)
    (hmore : ∀ node phase, ok node phase → more node phase) : schedule.Keeps more where
  tasks := fun task htask => hmore task.node task.phase (hkeeps.tasks task htask)
  finished := fun name result hfound => by
    obtain ⟨task, htask, hname, hok⟩ := hkeeps.finished name result hfound
    exact ⟨task, htask, hname, hmore task.node _ hok⟩

namespace StageNode

variable {node : StageNode} {setup : Setup} {environment : Environment} {shared : Shared}

theorem PhaseCutOff.mono {canceled later : Bool} {phase : Phase StageWork StageResult}
    (hcut : node.PhaseCutOff canceled phase) (hlater : canceled = true → later = true) :
    node.PhaseCutOff later phase := by
  cases phase with
  | active work =>
      cases work with
      | running run => exact Schedule.Keeps.imp hcut fun _ _ hjob => hjob.mono hlater
      | _ => exact trivial
  | returned result => exact hcut
  | _ => exact trivial

/-- The result of a stage has the results of its jobs, lost and unreleased ones included. -/
theorem cutOff_result {canceled : Bool} {run : StageRun}
    (hkeeps : run.jobs.Keeps (JobNode.PhaseCutOff canceled)) : (run.result node).CutOff := by
  refine ⟨fun job hjob => ?_, Status.shows_aggregateAll _⟩
  obtain ⟨_, hcut⟩ := hkeeps.exists_of_mem_collect
    (fun job => JobResult.cutOff_notRun job (.failed _))
    (fun job => JobResult.cutOff_notRun job .skipped) hjob
  exact hcut

theorem cutOff_of_moves {work : StageWork} {move : StageMove} {turn : StageTurn}
    (hmoves : work.Moves setup environment shared node move turn)
    (hcut : node.PhaseCutOff shared.canceled (.active work)) :
    node.PhaseCutOff shared.canceled turn.phase := by
  cases hmoves with
  | start dependencies =>
      generalize hstart : StageWork.start setup environment shared node dependencies = turn
      cases StageWork.starts_of_start hstart with
      | canceled => exact StageResult.cutOff_notRun node .canceled
      | skipped => exact StageResult.cutOff_notRun node .skipped
      | failed => exact StageResult.cutOff_notRun node (.failed _)
      | refused => exact StageResult.cutOff_notRun node (.failed _)
      | running => exact JobSchedule.keeps_ofNodes (fun _ => trivial) (fun _ _ => trivial) node.jobs
  | @job run index task work move turn htask hwork hmoves =>
      have hkeeps : run.jobs.Keeps (JobNode.PhaseCutOff shared.canceled) := hcut
      have hjob := hkeeps.tasks task (List.mem_of_getElem? htask)
      rw [hwork] at hjob
      exact hkeeps.setPhase htask (JobNode.cutOff_of_moves hmoves hjob)
  | notice hnotice =>
      have hkeeps : Schedule.Keeps (JobNode.PhaseCutOff shared.canceled) _ := hcut
      refine hkeeps.notice (fun _ => trivial) ?_ hnotice
      exact fun _ _ => trivial
  | finish run => exact cutOff_result hcut
  | die => exact trivial

end StageNode

/-! ## Runs -/

namespace RunState

variable {setup : Setup} {state next : RunState} {move : Move}

/-- A cancelled run stays cancelled. -/
theorem canceled_of_moves (hmoves : Moves setup state move next)
    (hcanceled : state.shared.canceled = true) : next.shared.canceled = true := by
  cases hmoves with
  | cancel => rfl
  | stage _ _ hmoves => exact (StageWork.canceled_of_moves hmoves).trans hcanceled
  | notice => exact hcanceled

theorem keeps_cutOff_start (setup : Setup) :
    (RunState.start setup).stages.Keeps
      (StageNode.PhaseCutOff (RunState.start setup).shared.canceled) := by
  refine keeps_start setup ?_ ?_ ?_ ?_
  · exact fun _ => trivial
  · exact fun _ => trivial
  · exact fun _ _ => trivial
  · exact fun node _ => StageResult.cutOff_notRun node (.failed _)

theorem keeps_cutOff_of_moves (hmoves : Moves setup state move next)
    (hkeeps : state.stages.Keeps (StageNode.PhaseCutOff state.shared.canceled)) :
    next.stages.Keeps (StageNode.PhaseCutOff next.shared.canceled) := by
  have hsame : next.stages.Keeps (StageNode.PhaseCutOff state.shared.canceled) :=
    keeps_of_moves hmoves hkeeps (fun _ => trivial) (fun _ _ => trivial) StageNode.cutOff_of_moves
  exact hsame.imp fun _ _ hstage => hstage.mono (canceled_of_moves hmoves)

theorem keeps_cutOff_of_reachable (hreachable : Reachable setup state) :
    state.stages.Keeps (StageNode.PhaseCutOff state.shared.canceled) := by
  induction hreachable with
  | start => exact keeps_cutOff_start setup
  | step move _ hstep ih => exact keeps_cutOff_of_moves (moves_of_step? hstep) ih

theorem cutOff_of_mem_stages (hreachable : Reachable setup state) {stage : StageResult}
    (hstage : stage ∈ (state.result setup).stages) : stage.CutOff := by
  obtain ⟨_, hcut⟩ := (keeps_cutOff_of_reachable hreachable).exists_of_mem_collect
    (fun node => StageResult.cutOff_notRun node (.failed _))
    (fun node => StageResult.cutOff_notRun node .skipped) hstage
  exact hcut

end RunState
end BuildPipeline
