import BuildPipeline.Proofs.Run.ResultTree

/-!
# What the status of a run says

A status is a summary, and a summary can lie: a failure may get lost between a step and the whole
run, or a run may be called a failure for no reason that its tree shows.  Neither happens.

* `Status.Truthful` is what one level owes to the level below it: a clean status has clean children
  and no error, issues and failures have a cause.  `truthful_aggregateAll` and `Declined.truthful`
  show it for the two ways in which a status comes about.
* `JobNode.Returns` and `StageNode.Returns` are the results that moves return.  They refine
  `JobNode.Ends` and `StageNode.Ends` by the error: a node that did not start carries one exactly
  if it failed.
* `status_is_truthful` puts the three levels together.

A cancelled run promises nothing here; what a cancellation shows is the subject of
`status_of_canceled_node`.
-/

namespace BuildPipeline

/-! ## One level above another -/

/-- A status that calls nothing wrong. -/
def Status.IsClean (status : Status) : Prop :=
  status = .succeeded ∨ status = .skipped

/-- What the status and the error of a node say of the statuses of its children. -/
structure Status.Truthful (status : Status) (error : Option String) (children : List Status) :
    Prop where
  terminal : status.isTerminal = true
  /-- A clean node has clean children only. -/
  clean : status.IsClean → error = none ∧ ∀ child ∈ children, child.IsClean
  /-- Issues come from a child, which may be one whose failure is masked. -/
  issues : status = .succeededWithIssues →
    error = none ∧ (failed ∈ children ∨ succeededWithIssues ∈ children)
  /-- A failure comes from a child, or the node says why it failed. -/
  failed : status = .failed → error ≠ none ∨ failed ∈ children

namespace Status

/-- A child that is not clean shows in the aggregate. -/
theorem isClean_of_aggregateAll {children : List Status} {child : Status}
    (hclean : (aggregateAll children).IsClean) (hchild : child ∈ children)
    (hterminal : child.isTerminal = true) : child.IsClean := by
  have hnotFailed : aggregateAll children ≠ .failed := by
    intro hfailed
    rw [IsClean, hfailed] at hclean
    simp at hclean
  have hnotCanceled : aggregateAll children ≠ .canceled := by
    intro hcanceled
    rw [IsClean, hcanceled] at hclean
    simp at hclean
  cases child with
  | succeeded => exact Or.inl rfl
  | skipped => exact Or.inr rfl
  | failed => exact absurd (aggregateAll_eq_failed_of_mem hchild) hnotFailed
  | canceled =>
      rcases aggregateAll_canceled_or_failed (Or.inl hchild) with hcanceled | hfailed
      · exact absurd hcanceled hnotCanceled
      · exact absurd hfailed hnotFailed
  | succeededWithIssues =>
      rcases aggregateAll_canceled_failed_or_issues hchild with hcanceled | hfailed | hissues
      · exact absurd hcanceled hnotCanceled
      · exact absurd hfailed hnotFailed
      · rw [IsClean, hissues] at hclean
        simp at hclean
  | pending => cases hterminal
  | running => cases hterminal

/-- The aggregate invents neither issues nor failures. -/
theorem mem_of_aggregateAll {children : List Status} {status : Status}
    (hstatus : aggregateAll children = status)
    (hbad : status = .succeededWithIssues ∨ status = .failed) : status ∈ children := by
  rw [aggregateAll_eq] at hstatus
  unfold dominant at hstatus
  split at hstatus
  · subst hstatus
    simp at hbad
  · -- The dominant status is the first of the three bad ones that occurs.
    split at hstatus
    · next hmem => exact hstatus ▸ hmem
    · split at hstatus
      · next hmem => exact hstatus ▸ hmem
      · split at hstatus
        · next hmem => exact hstatus ▸ hmem
        · subst hstatus
          simp at hbad

/-- A node that is put together from its children is truthful about them. -/
theorem truthful_aggregateAll {children : List Status}
    (hterminal : ∀ child ∈ children, child.isTerminal = true) :
    (aggregateAll children).Truthful none children where
  terminal := isTerminal_aggregateAll children
  clean := fun hclean =>
    ⟨rfl, fun child hchild => isClean_of_aggregateAll hclean hchild (hterminal child hchild)⟩
  issues := fun hissues => ⟨rfl, Or.inr (mem_of_aggregateAll hissues (Or.inl rfl))⟩
  failed := fun hfailed => Or.inr (mem_of_aggregateAll hfailed (Or.inr rfl))

/-- Masking turns a failure into issues, which is still the truth. -/
theorem Truthful.masked {children : List Status} (hfailed : .failed ∈ children) :
    Truthful .succeededWithIssues none children where
  terminal := rfl
  clean := fun hclean => by simp [IsClean] at hclean
  issues := fun _ => ⟨rfl, Or.inl hfailed⟩
  failed := fun hstatus => by cases hstatus

end Status

/-- The statuses and the error of a node that did not start, and the statuses below it. -/
inductive Declined : Status → Status → Option String → Prop
  | canceled : Declined .canceled .canceled none
  | skipped : Declined .skipped .skipped none
  | failed (error : String) : Declined .failed .skipped (some error)

namespace Declined

variable {status below : Status} {error : Option String}

/-- What stands below a node that did not start has not started either, and for no error. -/
theorem children (hdeclined : Declined status below error) : Declined below below none := by
  cases hdeclined with
  | canceled => exact .canceled
  | skipped => exact .skipped
  | failed => exact .skipped

theorem truthful (hdeclined : Declined status below error) {children : List Status}
    (hchildren : ∀ child ∈ children, child = below) : status.Truthful error children := by
  cases hdeclined with
  | canceled =>
      refine ⟨rfl, fun hclean => ?_, fun hissues => ?_, fun hfailed => ?_⟩
      · simp [Status.IsClean] at hclean
      · cases hissues
      · cases hfailed
  | skipped =>
      refine ⟨rfl, fun _ => ⟨rfl, fun child hchild => ?_⟩, fun hissues => ?_, fun hfailed => ?_⟩
      · exact Or.inr (hchildren child hchild)
      · cases hissues
      · cases hfailed
  | failed error =>
      refine ⟨rfl, fun hclean => ?_, fun hissues => ?_, fun _ => Or.inl ?_⟩
      · simp [Status.IsClean] at hclean
      · cases hissues
      · exact Option.some_ne_none error

theorem failed_notMem (hdeclined : Declined status below error) {children : List Status}
    (hchildren : ∀ child ∈ children, child = below) : .failed ∉ children := by
  intro hfailed
  have heq := hchildren _ hfailed
  cases hdeclined <;> cases heq

end Declined

/-- Every result that is given out is fine for some node. -/
theorem Schedule.Keeps.exists_of_mem_collect {ν α ρ : Type} {schedule : Schedule ν α ρ}
    {ok : ν → Phase α ρ → Prop} {lost unreleased : ν → ρ} {result : ρ} (hkeeps : schedule.Keeps ok)
    (hlost : ∀ node, ok node (.returned (lost node)))
    (hunreleased : ∀ node, ok node (.returned (unreleased node)))
    (hresult : result ∈ schedule.collect lost unreleased) :
    ∃ node, ok node (.returned result) := by
  have hcollect := hkeeps.forall₂_collect hlost hunreleased
  obtain ⟨task, -, other, -, -, hok⟩ := exists_node_of_mem hcollect hresult
  exact ⟨other.node, hok⟩

/-! ## Jobs -/

/-- A job that tells the truth about its steps. -/
def JobResult.Truthful (job : JobResult) : Prop :=
  job.status.Truthful job.error (job.steps.map (·.status))

/-- The results that a job returns. -/
inductive JobNode.Returns (node : JobNode) : JobResult → Prop
  | declined {status steps : Status} {error : Option String}
      (hdeclined : Declined status steps error) : Returns node (.notRun node status steps error)
  | ran {run : JobRun} (hsound : run.Sound node) : Returns node (run.result node)

/-- What is known of a job in its phase. -/
def JobNode.PhaseReturns (node : JobNode) : Phase JobWork JobResult → Prop
  | .active (.running run) => run.Sound node
  | .returned result => node.Returns result
  | _ => True

theorem statuses_notRun_job (node : JobNode) (status steps : Status) (error : Option String) :
    ∀ child ∈ (JobResult.notRun node status steps error).steps.map (·.status), child = steps := by
  intro child hchild
  obtain ⟨result, hresult, rfl⟩ := List.mem_map.mp hchild
  obtain ⟨step, -, rfl⟩ := List.mem_map.mp hresult
  rfl

namespace JobNode

variable {node : JobNode} {setup : Setup} {place : Place} {environment : Environment}
  {shared : Shared}

theorem Returns.truthful {result : JobResult} (hreturns : node.Returns result) :
    result.Truthful := by
  cases hreturns with
  | declined hdeclined => exact hdeclined.truthful (statuses_notRun_job node _ _ _)
  | @ran run hsound =>
      have hterminal : ∀ child ∈ run.results.map (·.status), child.isTerminal = true := by
        intro child hchild
        obtain ⟨result, hresult, rfl⟩ := List.mem_map.mp hchild
        obtain ⟨step, -, hreported⟩ := exists_node_of_mem hsound.steps hresult
        exact hreported.terminal
      show Status.Truthful (if _ then _ else _) none (run.results.map (·.status))
      split
      · next hmasked =>
          rw [Bool.and_eq_true, decide_eq_true_eq] at hmasked
          exact .masked (Status.mem_of_aggregateAll hmasked.1 (Or.inr rfl))
      · exact Status.truthful_aggregateAll hterminal

/-- What a job returns in a move is one of the two kinds of results. -/
theorem returns_of_moves {work : JobWork} {move : JobMove} {turn : JobTurn} {result : JobResult}
    (hmoves : work.Moves setup place environment shared node move turn)
    (hsound : node.PhaseSound (.active work)) (hphase : turn.phase = .returned result) :
    node.Returns result := by
  cases hmoves with
  | start dependencies =>
      generalize hstart : JobWork.start setup environment shared node dependencies = turn at hphase
      cases JobWork.starts_of_start hstart with
      | queued => cases hphase
      | canceled =>
          cases hphase
          exact .declined .canceled
      | skipped =>
          cases hphase
          exact .declined .skipped
      | failed =>
          cases hphase
          exact .declined (.failed _)
  | takeAgent context =>
      generalize htake : JobWork.takeAgent environment shared node context = turn at hphase
      cases JobWork.takesAgent_of_takeAgent htake with
      | running => cases hphase
      | refused =>
          cases hphase
          exact .declined (.failed _)
  | withdraw =>
      cases hphase
      exact .declined .canceled
  | advance run =>
      -- A job with a step to take does not return in this move.
      generalize hadvance : JobWork.advance setup place shared node run = turn at hphase
      cases JobWork.advances_of_advance hadvance with
      | ended =>
          cases hphase
          exact .ran hsound
      | _ => cases hphase
  | answer hongoing hdeclared hanswer =>
      rcases JobWork.answer_phase hanswer with ⟨outcome, hnext⟩ | ⟨invocation, number, -, hnext⟩
      · rw [hnext] at hphase
        cases hphase
      · rw [hnext] at hphase
        cases hphase
  | die => cases hphase

theorem phaseReturns_of_moves {work : JobWork} {move : JobMove} {turn : JobTurn}
    (hmoves : work.Moves setup place environment shared node move turn)
    (hbefore : node.PhaseReturns (.active work)) : node.PhaseReturns turn.phase := by
  have hsound : node.PhaseSound (.active work) := by
    cases work <;> exact hbefore
  have hafter := phaseSound_of_moves hmoves hsound
  cases hphase : turn.phase with
  | active next =>
      rw [hphase] at hafter
      cases next <;> exact hafter
  | returned result => exact returns_of_moves hmoves hsound hphase
  | _ => exact trivial

end JobNode

/-! ## Stages -/

/-- A stage that tells the truth about its jobs, as they do about their steps.  It masks nothing. -/
structure StageResult.Truthful (stage : StageResult) : Prop where
  status : stage.status.Truthful stage.error (stage.jobs.map (·.status))
  unmasked : .failed ∈ stage.jobs.map (·.status) → stage.status = .failed
  jobs : ∀ job ∈ stage.jobs, job.Truthful

/-- The results that a stage returns. -/
inductive StageNode.Returns (node : StageNode) : StageResult → Prop
  | declined {status jobs : Status} {error : Option String}
      (hdeclined : Declined status jobs error) : Returns node (.notRun node status jobs error)
  | ran {run : StageRun} (hkeeps : run.jobs.Keeps JobNode.PhaseReturns) :
      Returns node (run.result node)

/-- What is known of a stage in its phase. -/
def StageNode.PhaseReturns (node : StageNode) : Phase StageWork StageResult → Prop
  | .active (.running run) => run.jobs.Keeps JobNode.PhaseReturns
  | .returned result => node.Returns result
  | _ => True

namespace StageNode

variable {node : StageNode} {setup : Setup} {environment : Environment} {shared : Shared}

/-- The jobs of a stage that was running have results of the two kinds, lost and unreleased ones
included. -/
theorem truthful_of_mem_collect {run : StageRun} (hkeeps : run.jobs.Keeps JobNode.PhaseReturns)
    {job : JobResult} (hjob : job ∈ run.jobs.collect StageRun.lostJob StageRun.unreleasedJob) :
    job.Truthful := by
  obtain ⟨task, hreturns⟩ := hkeeps.exists_of_mem_collect (fun _ => .declined (.failed _))
    (fun _ => .declined .skipped) hjob
  exact JobNode.Returns.truthful hreturns

theorem Returns.truthful {result : StageResult} (hreturns : node.Returns result) :
    result.Truthful := by
  cases hreturns with
  | @declined status jobs error hdeclined =>
      have hchildren : ∀ child ∈
          (StageResult.notRun node status jobs error).jobs.map (·.status), child = jobs := by
        intro child hchild
        obtain ⟨result, hresult, rfl⟩ := List.mem_map.mp hchild
        obtain ⟨job, -, rfl⟩ := List.mem_map.mp hresult
        rfl
      refine ⟨hdeclined.truthful hchildren, fun hfailed => ?_, fun job hjob => ?_⟩
      · exact absurd hfailed (hdeclined.failed_notMem hchildren)
      · obtain ⟨jobNode, -, rfl⟩ := List.mem_map.mp hjob
        exact hdeclined.children.truthful (statuses_notRun_job jobNode _ _ _)
  | @ran run hkeeps =>
      have hjobs : ∀ job ∈ (run.result node).jobs, job.Truthful :=
        fun job hjob => truthful_of_mem_collect hkeeps hjob
      refine ⟨Status.truthful_aggregateAll fun child hchild => ?_, fun hfailed => ?_, hjobs⟩
      · obtain ⟨job, hjob, rfl⟩ := List.mem_map.mp hchild
        exact (hjobs job hjob).terminal
      · exact Status.aggregateAll_eq_failed_of_mem hfailed

theorem phaseReturns_of_moves {work : StageWork} {move : StageMove} {turn : StageTurn}
    (hmoves : work.Moves setup environment shared node move turn)
    (hbefore : node.PhaseReturns (.active work)) : node.PhaseReturns turn.phase := by
  cases hmoves with
  | start dependencies =>
      generalize hstart : StageWork.start setup environment shared node dependencies = turn
      cases StageWork.starts_of_start hstart with
      | canceled => exact .declined .canceled
      | skipped => exact .declined .skipped
      | failed => exact .declined (.failed _)
      | refused => exact .declined (.failed _)
      | running => exact JobSchedule.keeps_ofNodes (fun _ => trivial) (fun _ _ => trivial) node.jobs
  | @job run index task work move turn htask hwork hmoves =>
      have hkeeps : run.jobs.Keeps JobNode.PhaseReturns := hbefore
      have hjob := hkeeps.tasks task (List.mem_of_getElem? htask)
      rw [hwork] at hjob
      exact hkeeps.setPhase htask (JobNode.phaseReturns_of_moves hmoves hjob)
  | notice hnotice =>
      have hkeeps : Schedule.Keeps JobNode.PhaseReturns _ := hbefore
      refine hkeeps.notice (fun _ => trivial) ?_ hnotice
      exact fun _ _ => trivial
  | finish run hsettled => exact .ran hbefore
  | die => exact trivial

end StageNode

/-! ## Runs -/

namespace RunState

variable {setup : Setup} {state : RunState}

theorem keeps_returns_start (setup : Setup) :
    (RunState.start setup).stages.Keeps StageNode.PhaseReturns := by
  refine keeps_start setup ?_ ?_ ?_ ?_
  · exact fun _ => trivial
  · exact fun _ => trivial
  · exact fun _ _ => trivial
  · exact fun _ _ => .declined (.failed _)

theorem keeps_returns_of_moves {next : RunState} {move : Move}
    (hmoves : Moves setup state move next)
    (hkeeps : state.stages.Keeps StageNode.PhaseReturns) :
    next.stages.Keeps StageNode.PhaseReturns := by
  refine keeps_of_moves hmoves hkeeps ?_ ?_ StageNode.phaseReturns_of_moves
  · exact fun _ => trivial
  · exact fun _ _ => trivial

theorem keeps_returns_of_reachable (hreachable : Reachable setup state) :
    state.stages.Keeps StageNode.PhaseReturns := by
  induction hreachable with
  | start => exact keeps_returns_start setup
  | step move _ hstep ih => exact keeps_returns_of_moves (moves_of_step? hstep) ih

/-- Every stage of the result tree tells the truth. -/
theorem truthful_of_mem_stages (hreachable : Reachable setup state) {stage : StageResult}
    (hstage : stage ∈ (state.result setup).stages) : stage.Truthful := by
  obtain ⟨task, hreturns⟩ := (keeps_returns_of_reachable hreachable).exists_of_mem_collect
    (fun _ => .declined (.failed _)) (fun _ => .declined .skipped) hstage
  exact StageNode.Returns.truthful hreturns

end RunState

/-! ## The whole tree -/

/-- A tree whose statuses are truthful on every level. -/
structure PipelineResult.Truthful (result : PipelineResult) : Prop where
  status : result.status.Truthful none (result.stages.map (·.status))
  unmasked : .failed ∈ result.stages.map (·.status) → result.status = .failed
  stages : ∀ stage ∈ result.stages, stage.Truthful

theorem RunState.truthful_result {setup : Setup} {state : RunState}
    (hreachable : Reachable setup state) : (state.result setup).Truthful := by
  have hstages : ∀ stage ∈ (state.result setup).stages, stage.Truthful :=
    fun stage hstage => truthful_of_mem_stages hreachable hstage
  refine ⟨Status.truthful_aggregateAll fun child hchild => ?_, fun hfailed => ?_, hstages⟩
  · obtain ⟨stage, hstage, rfl⟩ := List.mem_map.mp hchild
    exact (hstages stage hstage).status.terminal
  · exact Status.aggregateAll_eq_failed_of_mem hfailed

namespace PipelineResult.Truthful

variable {result : PipelineResult} {stage : StageResult} {job : JobResult} {step : StepResult}

theorem mem_steps (hstage : stage ∈ result.stages) (hjob : job ∈ stage.jobs)
    (hstep : step ∈ job.steps) : step ∈ result.steps :=
  List.mem_flatMap.mpr ⟨stage, hstage, List.mem_flatMap.mpr ⟨job, hjob, hstep⟩⟩

/-- Below a clean run every stage and every job is clean. -/
theorem clean_stage (htruthful : result.Truthful) (hclean : result.status.IsClean)
    (hstage : stage ∈ result.stages) :
    stage.error = none ∧ ∀ job ∈ stage.jobs, job.status.IsClean := by
  have hstageClean := (htruthful.status.clean hclean).2 _ (List.mem_map_of_mem hstage)
  obtain ⟨herror, hjobs⟩ := (htruthful.stages stage hstage).status.clean hstageClean
  exact ⟨herror, fun job hjob => hjobs _ (List.mem_map_of_mem hjob)⟩

theorem clean_job (htruthful : result.Truthful) (hclean : result.status.IsClean)
    (hstage : stage ∈ result.stages) (hjob : job ∈ stage.jobs) :
    job.error = none ∧ ∀ step ∈ job.steps, step.status.IsClean := by
  have hjobClean := (htruthful.clean_stage hclean hstage).2 job hjob
  obtain ⟨herror, hsteps⟩ := ((htruthful.stages stage hstage).jobs job hjob).clean hjobClean
  exact ⟨herror, fun step hstep => hsteps _ (List.mem_map_of_mem hstep)⟩

/-- Issues of a run go back to a job with issues, and nothing above the steps has failed. -/
theorem issues_stage (htruthful : result.Truthful)
    (hissues : result.status = .succeededWithIssues) :
    (∀ stage ∈ result.stages, stage.status ≠ .failed) ∧
      ∃ stage ∈ result.stages, stage.status = .succeededWithIssues := by
  have hnotFailed : .failed ∉ result.stages.map (·.status) := by
    intro hfailed
    rw [htruthful.unmasked hfailed] at hissues
    cases hissues
  refine ⟨fun stage hstage hfailed => hnotFailed ?_, ?_⟩
  · exact List.mem_map.mpr ⟨stage, hstage, hfailed⟩
  · exact List.mem_map.mp ((htruthful.status.issues hissues).2.resolve_left hnotFailed)

theorem issues_job (htruthful : result.Truthful) (hstage : stage ∈ result.stages)
    (hissues : stage.status = .succeededWithIssues) :
    ∃ job ∈ stage.jobs, job.status = .succeededWithIssues := by
  have hstageTruthful := htruthful.stages stage hstage
  have hnotFailed : .failed ∉ stage.jobs.map (·.status) := by
    intro hfailed
    rw [hstageTruthful.unmasked hfailed] at hissues
    cases hissues
  exact List.mem_map.mp ((hstageTruthful.status.issues hissues).2.resolve_left hnotFailed)

/-- No job has failed in a stage that has not failed. -/
theorem status_job_ne_failed (htruthful : result.Truthful) (hstage : stage ∈ result.stages)
    (hstatus : stage.status ≠ .failed) (hjob : job ∈ stage.jobs) : job.status ≠ .failed := by
  intro hfailed
  refine hstatus ((htruthful.stages stage hstage).unmasked ?_)
  exact List.mem_map.mpr ⟨job, hjob, hfailed⟩

/-- A failure is explained by an error or goes back to a child that failed, level by level. -/
theorem exists_cause (htruthful : result.Truthful) (hfailed : result.status = .failed) :
    (∃ stage ∈ result.stages, stage.error ≠ none ∨ ∃ job ∈ stage.jobs, job.error ≠ none) ∨
      ∃ step ∈ result.steps, step.status = .failed := by
  have hbelow : .failed ∈ result.stages.map (·.status) :=
    (htruthful.status.failed hfailed).resolve_left fun herror => herror rfl
  obtain ⟨stage, hstage, hstageFailed⟩ := List.mem_map.mp hbelow
  have hstageTruthful := htruthful.stages stage hstage
  rcases hstageTruthful.status.failed hstageFailed with herror | hjobs
  · exact Or.inl ⟨stage, hstage, Or.inl herror⟩
  · obtain ⟨job, hjob, hjobFailed⟩ := List.mem_map.mp hjobs
    rcases (hstageTruthful.jobs job hjob).failed hjobFailed with herror | hsteps
    · exact Or.inl ⟨stage, hstage, Or.inr ⟨job, hjob, herror⟩⟩
    · obtain ⟨step, hstep, hstepFailed⟩ := List.mem_map.mp hsteps
      exact Or.inr ⟨step, mem_steps hstage hjob hstep, hstepFailed⟩

end PipelineResult.Truthful

/-- The overall status of a run is truthful, whatever the graph, the outcomes and the order of the
moves.  A clean one hides neither a bad step nor an error.  Issues mean that nothing failed above
the steps and that some step did not succeed.  A failure has a step that failed, or a stage or a job
that says why. -/
theorem status_is_truthful {setup : Setup} {state : RunState}
    (hreachable : RunState.Reachable setup state) :
    ((state.result setup).status = .succeeded ∨ (state.result setup).status = .skipped →
      (∀ step ∈ (state.result setup).steps, step.status = .succeeded ∨ step.status = .skipped) ∧
        ∀ stage ∈ (state.result setup).stages,
          stage.error = none ∧ ∀ job ∈ stage.jobs, job.error = none) ∧
    ((state.result setup).status = .succeededWithIssues →
      (∀ stage ∈ (state.result setup).stages,
        stage.status ≠ .failed ∧ ∀ job ∈ stage.jobs, job.status ≠ .failed) ∧
        ∃ step ∈ (state.result setup).steps,
          step.status = .failed ∨ step.status = .succeededWithIssues) ∧
    ((state.result setup).status = .failed →
      (∃ stage ∈ (state.result setup).stages,
        stage.error ≠ none ∨ ∃ job ∈ stage.jobs, job.error ≠ none) ∨
        ∃ step ∈ (state.result setup).steps, step.status = .failed) := by
  have htruthful := RunState.truthful_result hreachable
  refine ⟨fun hclean => ⟨fun step hstep => ?_, fun stage hstage => ?_⟩, fun hissues => ?_,
    htruthful.exists_cause⟩
  · obtain ⟨stage, hstage, hsteps⟩ := List.mem_flatMap.mp hstep
    obtain ⟨job, hjob, hstep⟩ := List.mem_flatMap.mp hsteps
    exact (htruthful.clean_job hclean hstage hjob).2 step hstep
  · refine ⟨(htruthful.clean_stage hclean hstage).1, fun job hjob => ?_⟩
    exact (htruthful.clean_job hclean hstage hjob).1
  · obtain ⟨hnotFailed, stage, hstage, hstageIssues⟩ := htruthful.issues_stage hissues
    refine ⟨fun other hother => ⟨hnotFailed other hother, fun job hjob => ?_⟩, ?_⟩
    · exact htruthful.status_job_ne_failed hother (hnotFailed other hother) hjob
    · -- The step that did not succeed may have failed: its job masks failures then.
      obtain ⟨job, hjob, hjobIssues⟩ := htruthful.issues_job hstage hstageIssues
      have hjobTruthful := (htruthful.stages stage hstage).jobs job hjob
      rcases (hjobTruthful.issues hjobIssues).2 with hfailed | hstepIssues
      · obtain ⟨step, hstep, hstatus⟩ := List.mem_map.mp hfailed
        exact ⟨step, PipelineResult.Truthful.mem_steps hstage hjob hstep, Or.inl hstatus⟩
      · obtain ⟨step, hstep, hstatus⟩ := List.mem_map.mp hstepIssues
        exact ⟨step, PipelineResult.Truthful.mem_steps hstage hjob hstep, Or.inr hstatus⟩

/-- One run on each side: a stage breaks off before it has taken a step, so that only its error
explains the failure, and a masked failure is found behind the issues of the other run. -/
theorem status_is_truthful_delivery :
    (∃ state, RunState.Reachable Delivery.setup state ∧ state.isComplete = true ∧
      (state.result Delivery.setup).status = .failed ∧
      (∀ step ∈ (state.result Delivery.setup).steps, step.status ≠ .failed) ∧
      ∃ stage ∈ (state.result Delivery.setup).stages,
        stage.error ≠ none ∨ ∃ job ∈ stage.jobs, job.error ≠ none) ∧
    ∃ state, RunState.Reachable Delivery.setup state ∧ state.isComplete = true ∧
      (state.result Delivery.setup).status = .succeededWithIssues ∧
      (∀ stage ∈ (state.result Delivery.setup).stages,
        stage.status ≠ .failed ∧ ∀ job ∈ stage.jobs, job.status ≠ .failed) ∧
      ∃ step ∈ (state.result Delivery.setup).steps,
        step.status = .failed ∨ step.status = .succeededWithIssues := by
  constructor
  · let check (state : RunState) : Bool :=
      state.isComplete && decide ((state.result Delivery.setup).status = .failed ∧
        ∀ step ∈ (state.result Delivery.setup).steps, step.status ≠ .failed)
    obtain ⟨state, hreachable, hcheck⟩ :=
      RunState.exists_reachable_of_replay Delivery.setup check
        ([.stage 1 .die, .notice 1, .stage 0 .start] ++
          Delivery.jobMoves 0 0 [some (.succeeded ""), some (.succeeded "")] ++
          Delivery.jobMoves 0 1 [some (.succeeded "")] ++ [.stage 0 .finish, .notice 0] ++
          Delivery.stageMoves 2 (Delivery.jobMoves 2 0 [some (.succeeded "")]))
        (by decide +kernel)
    obtain ⟨hcomplete, hrest⟩ := Bool.and_eq_true_iff.mp hcheck
    obtain ⟨hstatus, hsteps⟩ := of_decide_eq_true hrest
    refine ⟨state, hreachable, hcomplete, hstatus, hsteps, ?_⟩
    refine ((status_is_truthful hreachable).2.2 hstatus).resolve_right ?_
    rintro ⟨step, hstep, hfailed⟩
    exact hsteps step hstep hfailed
  · let check (state : RunState) : Bool :=
      state.isComplete && (state.result Delivery.setup).status == .succeededWithIssues
    obtain ⟨state, hreachable, hcheck⟩ :=
      RunState.exists_reachable_of_replay Delivery.setup check
        (Delivery.stageMoves 0 (Delivery.jobMoves 0 0 [some {}, none] ++
            Delivery.jobMoves 0 1 [some (.succeeded "")]) ++
          Delivery.stageMoves 1 (Delivery.jobMoves 1 0 [some (.succeeded "")]) ++
          Delivery.stageMoves 2 (Delivery.jobMoves 2 0 [some (.succeeded "")]))
        (by decide +kernel)
    obtain ⟨hcomplete, hissues⟩ := Bool.and_eq_true_iff.mp hcheck
    have hstatus := beq_iff_eq.mp hissues
    obtain ⟨hnotFailed, hstep⟩ := (status_is_truthful hreachable).2.1 hstatus
    exact ⟨state, hreachable, hcomplete, hstatus, hnotFailed, hstep⟩

end BuildPipeline
