import BuildPipeline.Proofs.Run.ProgressStream

/-!
# How steps end in the progress of their job

Every step of a job that has started ends with one event, which says what became of it.  There is
one exception: a step whose condition cannot be evaluated fails without a word.

* `JobEvent.endings` picks the ends of a step out of the progress of its job.
* `Step.EndsWith` says which they may be, next to the result of the step.
* `steps_end_in_progress` is the result, for complete runs that are never cancelled.  Jobs that
  break off are left out: the step under way has no end, and the result tree forgets the others.
* `refused_step_is_silent` is the exception at work.
-/

namespace BuildPipeline

/-! ## Ends of steps -/

/-- The number of the step that ends with an event. -/
def JobEvent.endedStep? : JobEvent → Option Nat
  | .stepCompleted index .. => some index
  | .stepSkipped index _ => some index
  | _ => none

/-- The ends of a step among some events. -/
def JobEvent.endings (index : Nat) (events : List JobEvent) : List JobEvent :=
  events.filter (·.endedStep? == some index)

/-- How a step with a result ends in the progress of its job. -/
inductive Step.EndsWith (step : Step) (index : Nat) (result : StepResult) : List JobEvent → Prop
  | skipped {reason : String} (hstatus : result.status = .skipped) :
      EndsWith step index result [.stepSkipped index reason]
  | completed (hstatus : result.status ≠ .skipped) :
      EndsWith step index result [.stepCompleted index result.status result.exitCode]
  | refused (hrefused : step.IsRefused result) : EndsWith step index result []

/-- Every step of a job that has started and has not broken off ends as its result says. -/
def JobNode.EndsSteps (node : JobNode) (result : JobResult) (events : List JobEvent) : Prop :=
  events.any JobEvent.isStart = true → result ≠ StageRun.lostJob node →
    ∀ (index : Nat) (step : Step), node.job.steps[index]? = some step →
      ∃ stepResult, result.steps[index]? = some stepResult ∧
        step.EndsWith index stepResult (JobEvent.endings index events)

namespace JobEvent

theorem endings_append (index : Nat) (events more : List JobEvent) :
    endings index (events ++ more) = endings index events ++ endings index more :=
  List.filter_append ..

theorem endings_of_reports {index : Nat} {reports : List JobEvent}
    (hreports : ∀ event ∈ reports, event.Reports index) (other : Nat) :
    endings other reports = [] := by
  refine List.filter_eq_nil_iff.mpr fun event hevent => ?_
  cases hreports event hevent <;> simp [endedStep?]

end JobEvent

namespace StepGroup

variable {index : Nat} {result : StepResult} {events : List JobEvent}

/-- The group of a step ends with the one event that says what became of the step. -/
theorem endsWith (hgroup : StepGroup index result events) (step : Step) :
    step.EndsWith index result (JobEvent.endings index events) := by
  cases hgroup with
  | @skipped reason hstatus =>
      have hend : JobEvent.endings index [.stepSkipped index reason] =
          [.stepSkipped index reason] := by
        simp [JobEvent.endings, JobEvent.endedStep?]
      rw [hend]
      exact .skipped hstatus
  | @ran label reports hstatus hreports =>
      have hend : JobEvent.endings index (.stepStarted index label :: reports ++
            [.stepCompleted index result.status result.exitCode]) =
          [.stepCompleted index result.status result.exitCode] := by
        rw [JobEvent.endings_append, ← List.singleton_append, JobEvent.endings_append,
          JobEvent.endings_of_reports hreports]
        simp [JobEvent.endings, JobEvent.endedStep?]
      rw [hend]
      exact .completed hstatus

/-- The group of a step is not the end of another one. -/
theorem endings_of_ne (hgroup : StepGroup index result events) {other : Nat}
    (hne : index ≠ other) : JobEvent.endings other events = [] := by
  cases hgroup with
  | skipped => simp [JobEvent.endings, JobEvent.endedStep?, hne]
  | ran hstatus hreports =>
      rw [JobEvent.endings_append, ← List.singleton_append, JobEvent.endings_append,
        JobEvent.endings_of_reports hreports]
      simp [JobEvent.endings, JobEvent.endedStep?, hne]

end StepGroup

namespace Step.Tells

variable {step : Step} {index : Nat} {result : StepResult} {events : List JobEvent}

theorem endsWith (htells : step.Tells false index result events) :
    step.EndsWith index result (JobEvent.endings index events) := by
  cases htells with
  | canceled hcancel => cases hcancel
  | refused hrefused => exact .refused hrefused
  | group hgroup => exact hgroup.endsWith step

theorem endings_of_ne (htells : step.Tells false index result events) {other : Nat}
    (hne : index ≠ other) : JobEvent.endings other events = [] := by
  cases htells with
  | canceled => rfl
  | refused => rfl
  | group hgroup => exact hgroup.endings_of_ne hne

end Step.Tells

/-! ## Jobs -/

namespace JobNode

variable {node : JobNode}

/-- The steps that have a result have ended, and no other has. -/
theorem StepsTell.endsWith {results : List StepResult} {told : List JobEvent}
    (hsteps : node.StepsTell false results told) :
    (∀ index, results.length ≤ index → JobEvent.endings index told = []) ∧
      ∀ index result, results[index]? = some result → ∃ step : Step,
        node.job.steps[index]? = some step ∧
          step.EndsWith index result (JobEvent.endings index told) := by
  induction hsteps with
  | nil => exact ⟨fun _ _ => rfl, fun _ _ hresult => by cases hresult⟩
  | @snoc results told events step result _ hstep htells ih =>
      obtain ⟨hlater, hended⟩ := ih
      constructor
      · intro index hindex
        rw [List.length_append, List.length_singleton] at hindex
        have hne : results.length ≠ index := by omega
        rw [JobEvent.endings_append, hlater index (by omega), htells.endings_of_ne hne]
        rfl
      · intro index found hfound
        rw [JobEvent.endings_append]
        rcases Nat.lt_trichotomy index results.length with hlt | rfl | hgt
        · -- The events of the new step are no end of an earlier one.
          rw [List.getElem?_append_left hlt] at hfound
          rw [htells.endings_of_ne (Nat.ne_of_gt hlt), List.append_nil]
          exact hended index found hfound
        · rw [List.getElem?_concat_length, Option.some.injEq] at hfound
          subst hfound
          rw [hlater results.length (Nat.le_refl _), List.nil_append]
          exact ⟨step, hstep, htells.endsWith⟩
        · rw [List.getElem?_eq_none (by simp; omega)] at hfound
          cases hfound

/-- The start and the end of a job are no ends of steps. -/
theorem endings_of_brackets (status : Status) (index : Nat) (told : List JobEvent) :
    JobEvent.endings index (node.startEvent :: told ++ [.completed status]) =
      JobEvent.endings index told := by
  rw [JobEvent.endings_append, ← List.singleton_append, JobEvent.endings_append]
  simp [JobEvent.endings, JobEvent.endedStep?, startEvent]

theorem Story.endsSteps {dependencies : List JobResult} {result : JobResult}
    {events : List JobEvent} (hstory : node.Story false dependencies result events) :
    node.EndsSteps result events := by
  intro hstart _ index step hstep
  cases hstory with
  | canceled hcancel => cases hcancel
  | skipped reason => cases hstart
  | failed => cases hstart
  | @ran result told hopens hname hsteps hover =>
      rw [endings_of_brackets]
      have hlength : index < result.steps.length := by
        have hinside := (List.getElem?_eq_some_iff.mp hstep).1
        have houtside := List.getElem?_eq_none_iff.mp hover
        omega
      have hfound := List.getElem?_eq_getElem hlength
      obtain ⟨declared, hdeclared, hends⟩ := hsteps.endsWith.2 index _ hfound
      obtain rfl : declared = step := Option.some.inj (hdeclared.symm.trans hstep)
      exact ⟨_, hfound, hends⟩

theorem endsSteps_of_silent (node : JobNode) (result : JobResult) : node.EndsSteps result [] :=
  fun hstart => nomatch hstart

theorem endsSteps_of_settles {finished : Table JobResult}
    {task : Task JobNode JobWork JobResult} {events : List JobEvent} {result : JobResult}
    (hsettles : Schedule.Settles (JobNode.Records false) StageRun.lostJob
      StageRun.unreleasedJob finished task events result) : task.node.EndsSteps result events := by
  cases hsettles with
  | returned hready hnoticed hcourse => exact hcourse.endsSteps
  | died => exact fun _ hkept => absurd rfl hkept
  | unreleased hblocked hunnoticed hquiet =>
      subst hquiet
      exact endsSteps_of_silent task.node _

end JobNode

/-! ## Stages and runs -/

theorem StageNode.endsSteps_of_settles {finished : Table StageResult}
    {task : Task StageNode StageWork StageResult} {events : List StageEvent} {result : StageResult}
    (hsettles : Schedule.Settles (StageNode.Records false) RunState.lostStage
      RunState.unreleasedStage finished task events result) :
    List.Forall₂
      (fun job jobResult => job.EndsSteps jobResult (StageEvent.voice.heard job.name events))
      task.node.jobs result.jobs := by
  have hunstarted : ∀ {events : List StageEvent} (status jobs : Status) (error : Option String),
      (∀ name, StageEvent.voice.heard name events = []) →
      List.Forall₂
        (fun job jobResult => job.EndsSteps jobResult (StageEvent.voice.heard job.name events))
        task.node.jobs (StageResult.notRun task.node status jobs error).jobs := by
    intro events status jobs error hsilent
    refine List.forall₂_map_right_iff.mpr (List.forall₂_same.mpr fun job _ => ?_)
    rw [hsilent job.name]
    exact job.endsSteps_of_silent _
  cases hsettles with
  | died _ _ hcourse => exact hcourse.elim
  | unreleased _ _ hquiet =>
      subst hquiet
      exact hunstarted .skipped .skipped none fun _ => rfl
  | returned _ _ hcourse =>
      cases hcourse with
      | canceled hcancel => cases hcancel
      | skipped reason => exact hunstarted .skipped .skipped none fun _ => rfl
      | failed error => exact hunstarted .failed .skipped (some error) fun _ => rfl
      | @ran run told hopens hrecords hsettled =>
          refine (hrecords.forall₂_jobs hsettled).imp fun job jobResult hjob => ?_
          have hbetween : StageEvent.voice.heard job.name (task.node.startEvent :: told ++
                [.completed (run.result task.node).status]) =
              StageEvent.voice.heard job.name told := by
            rw [StageEvent.voice.heard_append]
            exact List.append_nil _
          rw [hbetween]
          exact JobNode.endsSteps_of_settles hjob

namespace RunState

variable {setup : Setup} {state : RunState}

/-- The start and the end of a run are heard of no stage. -/
theorem progressOf_eq {told : List Event}
    (hlog : state.log = .started setup.name setup.graph.stages.length :: told)
    (stage job : String) :
    state.progressOf setup stage job =
      StageEvent.voice.heard job (Event.voice.heard stage told) := by
  have hbetween : Event.voice.heard stage (state.progress setup) =
      (Event.voice.heard stage told).filter StageEvent.isTold := by
    rw [progress_eq hlog, Event.voice.heard_append, ← Event.heard_filter_isTold]
    exact List.append_nil _
  rw [progressOf, hbetween, StageEvent.heard_filter_isTold]

end RunState

/-- In every complete run that is never cancelled, every step of a job that has started ends with
exactly one event, which carries the status of the result tree, if the job has not broken off and
the condition of the step could be evaluated.  Where it could not, no such event is promised. -/
theorem steps_end_in_progress {setup : Setup} {state : RunState} {earlier : List RunState}
    (hdistinct : setup.graph.DistinctNames)
    (hhistory : RunState.History setup (fun state move => state.admits false move = true)
      (state :: earlier))
    (hcomplete : state.isComplete = true) :
    List.Forall₂
      (fun node stage => List.Forall₂
        (fun job jobResult => job.EndsSteps jobResult (state.progressOf setup node.name job.name))
        node.jobs stage.jobs)
      setup.graph.stages (state.result setup).stages := by
  by_cases hdeclares : RunState.Declares setup
  · obtain ⟨told, hrecords⟩ :=
      RunState.records_of_history hhistory hdeclares hdistinct state List.mem_cons_self
    refine (hrecords.forall₂_stages hcomplete).imp fun node stage hstage => ?_
    simp only [RunState.progressOf_eq hrecords.log]
    exact StageNode.endsSteps_of_settles hstage
  · -- Nothing was started, so nothing is told of any job.
    have hlog := RunState.log_of_not_declares hdeclares hhistory state List.mem_cons_self
    have hunstarted := RunState.forall₂_unstarted_of_not_declares hdeclares hdistinct hhistory
    refine hunstarted.imp fun node stage hstage => ?_
    obtain ⟨status, error, rfl⟩ := hstage
    refine List.forall₂_map_right_iff.mpr (List.forall₂_same.mpr fun job _ => ?_)
    rw [RunState.progressOf_eq hlog]
    exact job.endsSteps_of_silent _

/-- The first step fails and the second one is skipped; both are told. -/
theorem steps_end_in_progress_delivery :
    Delivery.setup.graph.DistinctNames ∧ ∃ state earlier,
      RunState.History Delivery.setup (fun state move => state.admits false move = true)
        (state :: earlier) ∧
      state.isComplete = true ∧
      ((state.progressOf Delivery.setup "build" "compile").any JobEvent.isStart = true ∧
        (state.progressOf Delivery.setup "build" "compile").countP
          (·.endedStep?.isSome) = 2) ∧
      List.Forall₂
        (fun node stage => List.Forall₂
          (fun job jobResult =>
            job.EndsSteps jobResult (state.progressOf Delivery.setup node.name job.name))
          node.jobs stage.jobs)
        Delivery.setup.graph.stages (state.result Delivery.setup).stages := by
  let check (state : RunState) : Bool :=
    state.isComplete &&
      ((state.progressOf Delivery.setup "build" "compile").any JobEvent.isStart &&
        (state.progressOf Delivery.setup "build" "compile").countP (·.endedStep?.isSome) == 2)
  obtain ⟨state, earlier, hhistory, hcheck⟩ :=
    RunState.exists_history_of_replay Delivery.setup (RunState.admits false) check
      (Delivery.stageMoves 0
          (Delivery.jobMoves 0 0 [some {}, none] ++
            Delivery.jobMoves 0 1 [some (.succeeded "")]) ++
        Delivery.stageMoves 1 (Delivery.jobMoves 1 0 [some (.succeeded "")]) ++
        Delivery.stageMoves 2 (Delivery.jobMoves 2 0 [some (.succeeded "")]))
      (by decide +kernel)
  obtain ⟨hcomplete, htold⟩ := Bool.and_eq_true_iff.mp hcheck
  obtain ⟨hstart, hcount⟩ := Bool.and_eq_true_iff.mp htold
  refine ⟨Delivery.distinctNames_graph, state, earlier, hhistory, hcomplete, ?_, ?_⟩
  · exact ⟨hstart, beq_iff_eq.mp hcount⟩
  · exact steps_end_in_progress Delivery.distinctNames_graph hhistory hcomplete

namespace Delivery

/-- A step whose condition is cut off. -/
def garbled : Job :=
  { job := some "compile", steps := [{ step "make" with condition := some "eq(" }] }

def garbledPipeline : Pipeline :=
  { stages := [{ build with jobs := [garbled] }] }

def garbledSetup : Setup where
  name := "garbled"
  graph := ⟨[⟨"build", { build with jobs := [garbled] }, [], [⟨"compile", garbled, []⟩]⟩], []⟩

theorem ofPipeline_garbled : Graph.ofPipeline garbledPipeline = .ok garbledSetup.graph := by
  simp [Graph.ofPipeline, garbledPipeline, garbledSetup, build, garbled, stageNodes,
    Stage.jobNodes, jobNodes, nodeName, Stage.dependencyNames, DependsOn.names,
    DependsOn.isImplicit, Graph.precedence, JobNode.precedence, checkPrecedence,
    Precedence.dangling?, Precedence.cycle?, Precedence.visit, Precedence.before,
    Precedence.names, List.findSome?_cons, bind, Except.bind, pure, Except.pure]

end Delivery

/-- The one step of a job fails on its condition.  The job is told to start and to fail, and of the
step nothing is told at all. -/
theorem refused_step_is_silent :
    Graph.ofPipeline Delivery.garbledPipeline = .ok Delivery.garbledSetup.graph ∧
    Delivery.garbledSetup.graph.DistinctNames ∧ ∃ state earlier,
      RunState.History Delivery.garbledSetup (fun state move => state.admits false move = true)
        (state :: earlier) ∧
      state.isComplete = true ∧
      (state.progressOf Delivery.garbledSetup "build" "compile").any JobEvent.isStart = true ∧
      (state.result Delivery.garbledSetup).steps.map (·.status) = [.failed] ∧
      JobEvent.endings 0 (state.progressOf Delivery.garbledSetup "build" "compile") = [] := by
  let check (state : RunState) : Bool :=
    state.isComplete &&
      ((state.progressOf Delivery.garbledSetup "build" "compile").any JobEvent.isStart &&
        ((state.result Delivery.garbledSetup).steps.map (·.status) == [.failed] &&
          (JobEvent.endings 0
            (state.progressOf Delivery.garbledSetup "build" "compile")).isEmpty))
  obtain ⟨state, earlier, hhistory, hcheck⟩ :=
    RunState.exists_history_of_replay Delivery.garbledSetup (RunState.admits false) check
      (Delivery.stageMoves 0 (Delivery.jobMoves 0 0 [none]))
      (by decide +kernel)
  obtain ⟨hcomplete, htold⟩ := Bool.and_eq_true_iff.mp hcheck
  obtain ⟨hstart, hrest⟩ := Bool.and_eq_true_iff.mp htold
  obtain ⟨hstatuses, hsilent⟩ := Bool.and_eq_true_iff.mp hrest
  exact ⟨Delivery.ofPipeline_garbled, ⟨by decide, by decide⟩, state, earlier, hhistory, hcomplete,
    hstart, beq_iff_eq.mp hstatuses, List.isEmpty_iff.mp hsilent⟩

end BuildPipeline
