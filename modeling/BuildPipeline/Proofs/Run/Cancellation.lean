import BuildPipeline.Proofs.Run.CutOff
import BuildPipeline.Proofs.Run.JobRecord

/-!
# What a cancelled run hands over

Everything that a run hands over to the executor or to the store is an entry of its log, and it is
the job at some place that adds the entry.  A cancelled run adds none any more, and a step that was
handed over before does not end cancelled.

* `Schedule.HoldsAt` follows the node at one place through a schedule, up to the result that is
  given out for it.  It needs distinct names for the last part only: names may repeat, but then
  results are given out for the wrong nodes.
* `JobNode.handedOver_of_called` is the beginning: a call means that the run is not cancelled and
  that the step is under way.  `JobNode.handedOver_of_moves` is the step lemma.
* `cancellation_cuts_runs` puts this together with the shape of the result tree.
-/

namespace BuildPipeline

/-! ## One place of a schedule -/

namespace Schedule

variable {ν α ρ : Type} {begin : List ρ → α} {index place : Nat} {schedule next : Schedule ν α ρ}
  {ok : ν → Phase α ρ → Prop}

/-- With distinct names, only the result of a closed node was noticed. -/
def NoticesClosed (schedule : Schedule ν α ρ) : Prop :=
  (schedule.tasks.map (·.name)).Nodup → ∀ task ∈ schedule.tasks,
    ∀ result, schedule.finished.get? task.name = some result → task.phase = .closed

theorem names_setPhase (schedule : Schedule ν α ρ) (index : Nat) (phase : Phase α ρ) :
    (schedule.setPhase index phase).tasks.map (·.name) = schedule.tasks.map (·.name) := by
  rw [← map_name_plan, plan_setPhase, map_name_plan]

theorem names_notice? {result : Option ρ}
    (hnotice : schedule.notice? begin index = some (next, result)) :
    next.tasks.map (·.name) = schedule.tasks.map (·.name) := by
  rw [← map_name_plan, plan_notice? hnotice, map_name_plan]

theorem noticesClosed_of_unnoticed (tasks : List (Task ν α ρ)) :
    (⟨tasks, []⟩ : Schedule ν α ρ).NoticesClosed :=
  fun _ _ _ _ hfound => nomatch hfound

namespace NoticesClosed

theorem release (hcloses : schedule.NoticesClosed) :
    (schedule.release begin).NoticesClosed := by
  intro hnames task htask result hfound
  rw [← map_name_plan, plan_release, map_name_plan] at hnames
  obtain ⟨old, hold, rfl⟩ := List.mem_map.mp htask
  have hname : (releaseTask begin schedule.finished old).reset.name = old.reset.name := by
    rw [reset_releaseTask]
  rw [release_finished] at hfound
  rw [Task.reset_name, Task.reset_name] at hname
  rw [hname] at hfound
  have hclosed := hcloses hnames old hold result hfound
  -- What is closed does not wait, so it is not released once more.
  rw [releaseTask, hclosed, if_neg (by simp [Phase.isWaiting])]
  exact hclosed

theorem setPhase {task : Task ν α ρ} {work : α} (hcloses : schedule.NoticesClosed)
    (htask : schedule.tasks[index]? = some task) (hwork : task.phase = .active work)
    (phase : Phase α ρ) : (schedule.setPhase index phase).NoticesClosed := by
  intro hnames changed hchanged result hfound
  rw [names_setPhase] at hnames
  rcases mem_setPhase hchanged with ⟨other, -, hother⟩ | ⟨old, hold, rfl⟩
  · exact hcloses hnames changed (List.mem_of_getElem? hother) result hfound
  · obtain rfl := Option.some.inj (htask.symm.trans hold)
    have hclosed := hcloses hnames task (List.mem_of_getElem? htask) result hfound
    rw [hwork] at hclosed
    cases hclosed

theorem notice {result : Option ρ} (hcloses : schedule.NoticesClosed)
    (hnotice : schedule.notice? begin index = some (next, result)) : next.NoticesClosed := by
  obtain ⟨task, htask, -, rfl⟩ := notice?_cases hnotice
  refine release fun hnames changed hchanged value hfound => ?_
  have hnames' : (schedule.tasks.map (·.name)).Nodup := by
    rw [← names_setPhase schedule index .closed]
    exact hnames
  rcases mem_setPhase hchanged with ⟨other, hplace, hother⟩ | ⟨old, -, rfl⟩
  · -- The new result stands under the name of the noticed node, which no other node has.
    refine hcloses hnames' changed (List.mem_of_getElem? hother) value ?_
    cases result with
    | none => exact hfound
    | some noticed =>
        change (schedule.finished.insert task.name noticed).get? changed.name = some value at hfound
        rwa [Table.get?_insert, if_neg (name_ne_of_place_ne hnames' hplace htask hother)] at hfound
  · rfl

end NoticesClosed

/-- Something holds of the node at a place and, with distinct names, of what was noticed of it. -/
def HoldsAt (ok : ν → Phase α ρ → Prop) (place : Nat) (schedule : Schedule ν α ρ) : Prop :=
  ∃ task, schedule.tasks[place]? = some task ∧ ok task.node task.phase ∧
    ((schedule.tasks.map (·.name)).Nodup →
      ∀ result, schedule.finished.get? task.name = some result → ok task.node (.returned result))

/-- A node that is at work was not noticed before. -/
theorem holdsAt_setPhase {task : Task ν α ρ} {work : α} {phase : Phase α ρ}
    (hcloses : schedule.NoticesClosed) (htask : schedule.tasks[index]? = some task)
    (hwork : task.phase = .active work) (hphase : ok task.node phase) :
    (schedule.setPhase index phase).HoldsAt ok index := by
  refine ⟨{ task with phase }, ?_, hphase, fun hnames result hfound => ?_⟩
  · simp [getElem?_setPhase, htask]
  · rw [names_setPhase] at hnames
    have hclosed := hcloses hnames task (List.mem_of_getElem? htask) result hfound
    rw [hwork] at hclosed
    cases hclosed

namespace HoldsAt

theorem setPhase {task : Task ν α ρ} {phase : Phase α ρ} (hholds : schedule.HoldsAt ok place)
    (htask : schedule.tasks[index]? = some task)
    (hphase : ok task.node task.phase → ok task.node phase) :
    (schedule.setPhase index phase).HoldsAt ok place := by
  obtain ⟨held, hheld, hok, hnoticed⟩ := hholds
  rw [← names_setPhase schedule index phase] at hnoticed
  by_cases hplace : index = place
  · subst hplace
    obtain rfl := Option.some.inj (htask.symm.trans hheld)
    exact ⟨{ task with phase }, by simp [getElem?_setPhase, htask], hphase hok, hnoticed⟩
  · exact ⟨held, by simp [getElem?_setPhase, hheld, hplace], hok, hnoticed⟩

theorem notice {result : Option ρ} (hholds : schedule.HoldsAt ok place)
    (hwaiting : ∀ node, ¬ ok node .waiting)
    (hclosed : ∀ node phase, ok node phase → ok node .closed)
    (hnotice : schedule.notice? begin index = some (next, result)) : next.HoldsAt ok place := by
  have hnames := names_notice? hnotice
  obtain ⟨held, hheld, hok, hnoticed⟩ := hholds
  obtain ⟨task, htask, hended, rfl⟩ := notice?_cases hnotice
  have hrelease : ∀ other : Task ν α ρ, ok other.node other.phase →
      releaseTask begin (schedule.closed index task.name result).finished other = other := by
    intro other hother
    rw [releaseTask, if_neg]
    intro hready
    cases hphase : other.phase with
    | waiting => exact hwaiting other.node (hphase ▸ hother)
    | _ => simp [hphase, Phase.isWaiting] at hready
  have hget : ((schedule.closed index task.name result).release begin).tasks[place]? =
      ((schedule.setPhase index .closed).tasks[place]?).map
        (releaseTask begin (schedule.closed index task.name result).finished) :=
    getElem?_release begin _ place
  rw [getElem?_setPhase, hheld, Option.map_some, Option.map_some] at hget
  by_cases hplace : index = place
  · subst hplace
    obtain rfl := Option.some.inj (htask.symm.trans hheld)
    have hafter := hclosed task.node task.phase hok
    rw [if_pos rfl, hrelease _ hafter] at hget
    refine ⟨_, hget, hafter, fun hdistinct value hfound => ?_⟩
    rw [hnames] at hdistinct
    cases result with
    | none => exact hnoticed hdistinct value hfound
    | some noticed =>
        change (schedule.finished.insert task.name noticed).get? task.name = some value at hfound
        rw [Table.get?_insert, if_pos rfl, Option.some.injEq] at hfound
        rw [hended, hfound] at hok
        exact hok
  · rw [if_neg hplace, hrelease _ hok] at hget
    refine ⟨held, hget, hok, fun hdistinct value hfound => ?_⟩
    rw [hnames] at hdistinct
    cases result with
    | none => exact hnoticed hdistinct value hfound
    | some noticed =>
        change (schedule.finished.insert task.name noticed).get? held.name = some value at hfound
        rw [Table.get?_insert,
          if_neg (name_ne_of_place_ne hdistinct (Ne.symm hplace) htask hheld)] at hfound
        exact hnoticed hdistinct value hfound

/-- With distinct names it holds of the result that is given out at the place. -/
theorem exists_collect {lost unreleased : ν → ρ} (hholds : schedule.HoldsAt ok place)
    (hnames : (schedule.tasks.map (·.name)).Nodup)
    (hlost : ∀ node phase, ok node phase → ok node (.returned (lost node)))
    (hunreleased : ∀ node phase, ok node phase → ok node (.returned (unreleased node))) :
    ∃ task result, schedule.tasks[place]? = some task ∧
      (schedule.collect lost unreleased)[place]? = some result ∧
      ok task.node (.returned result) := by
  obtain ⟨task, htask, hok, hnoticed⟩ := hholds
  rw [collect_eq_map lost unreleased hnames]
  refine ⟨task, _, htask, by rw [List.getElem?_map, htask, Option.map_some], ?_⟩
  cases hfound : schedule.finished.get? task.name with
  | some result => exact hnoticed hnames result hfound
  | none =>
      rw [Option.getD_none]
      split
      · exact hunreleased task.node task.phase hok
      · exact hlost task.node task.phase hok

end HoldsAt
end Schedule

/-! ## Jobs -/

/-- The step with a number has a result, and that is not a cancelled one. -/
def JobResult.Spares (number : Nat) (job : JobResult) : Prop :=
  ∃ step, job.steps[number]? = some step ∧ step.status ≠ .canceled

/-- A step is under way, or it has ended and was not cancelled. -/
def JobRun.HandedOver (number : Nat) (run : JobRun) : Prop :=
  (∃ result, run.results[number]? = some result ∧ result.status ≠ .canceled) ∨
    number = run.results.length ∧ ∃ ongoing, run.ongoing = some ongoing

/-- A step of the job was handed over, and it does not end cancelled. -/
def JobNode.HandedOver (number : Nat) (node : JobNode) (phase : Phase JobWork JobResult) : Prop :=
  number < node.job.steps.length ∧
    match phase with
    | .active (.running run) => run.HandedOver number
    | .returned result => result.Spares number
    | .died | .closed => True
    | _ => False

theorem JobResult.spares_notRun {node : JobNode} {number : Nat}
    (hnumber : number < node.job.steps.length) (status : Status) (error : Option String) :
    (notRun node status .skipped error).Spares number := by
  refine ⟨.ofStep node.job.steps[number] .skipped, ?_, fun heq => nomatch heq⟩
  simp [notRun, List.getElem?_eq_getElem hnumber]

namespace JobRun.HandedOver

variable {number : Nat} {run : JobRun}

theorem record {result : StepResult}
    (hdone : ∃ result, run.results[number]? = some result ∧ result.status ≠ .canceled)
    (declared : Step) : (run.record declared result).HandedOver number := by
  obtain ⟨done, hfound, hstatus⟩ := hdone
  refine Or.inl ⟨done, ?_, hstatus⟩
  change (run.results ++ [result])[number]? = some done
  rwa [List.getElem?_append_left (List.getElem?_eq_some_iff.mp hfound).1]

theorem concluded (hhanded : run.HandedOver number) (declared started : Step) {failure : Status}
    (hfailure : failure ≠ .canceled) (outcome : Outcome) :
    (run.concluded declared started failure outcome).HandedOver number := by
  let ending := outcome.settle run.environment run.results.length started failure
  let passed : JobRun := { run with environment := ending.environment }
  rcases hhanded with hdone | ⟨rfl, -⟩
  · have hpassed : ∃ result, passed.results[number]? = some result ∧ result.status ≠ .canceled :=
      hdone
    exact record hpassed declared
  · have hstatus :=
      outcome.status_settle_ne_canceled run.environment run.results.length started hfailure
    exact Or.inl ⟨_, List.getElem?_concat_length, hstatus⟩

theorem callAgain {ongoing : Ongoing} (hhanded : run.HandedOver number) :
    JobRun.HandedOver number { run with ongoing := some ongoing } :=
  hhanded.imp_right fun hongoing => ⟨hongoing.1, ongoing, rfl⟩

/-- While no step is under way, the step has ended. -/
theorem done_of_idle (hhanded : run.HandedOver number) (hidle : run.ongoing = none) :
    ∃ result, run.results[number]? = some result ∧ result.status ≠ .canceled := by
  refine hhanded.resolve_right ?_
  rintro ⟨-, ongoing, hongoing⟩
  rw [hidle] at hongoing
  cases hongoing

end JobRun.HandedOver

/-- The end of a step holds no call. -/
theorem Outcome.called_notMem_settle (outcome : Outcome) (environment : Environment) (index : Nat)
    (step : Step) (failure : Status) {number : Nat} {call : Call} :
    .called number call ∉ (outcome.settle environment index step failure).events := by
  obtain ⟨reports, hreports, hevents⟩ := outcome.events_settle environment index step failure
  rw [hevents]
  intro hmem
  rcases List.mem_append.mp hmem with hreport | hend
  · cases hreports _ hreport
  · cases List.mem_singleton.mp hend

namespace JobNode

variable {node : JobNode} {setup : Setup} {place : Place} {environment : Environment}
  {shared : Shared} {number : Nat} {call : Call}

theorem not_handedOver_waiting (node : JobNode) : ¬ node.HandedOver number .waiting :=
  fun hhanded => hhanded.2

theorem HandedOver.closed {phase : Phase JobWork JobResult}
    (hhanded : node.HandedOver number phase) : node.HandedOver number .closed :=
  ⟨hhanded.1, trivial⟩

theorem HandedOver.notRun {phase : Phase JobWork JobResult}
    (hhanded : node.HandedOver number phase) (status : Status) (error : Option String) :
    node.HandedOver number (.returned (.notRun node status .skipped error)) :=
  ⟨hhanded.1, JobResult.spares_notRun hhanded.1 status error⟩

theorem handedOver_of_calling {run : JobRun} {declared : Step} {ongoing : Ongoing}
    (hdeclared : node.job.steps[run.results.length]? = some declared) :
    node.HandedOver run.results.length
      (.active (.running { run with ongoing := some ongoing })) :=
  ⟨(List.getElem?_eq_some_iff.mp hdeclared).1, Or.inr ⟨rfl, ongoing, rfl⟩⟩

theorem handedOver_of_called_advances {run : JobRun} {turn : JobTurn}
    (hadvances : JobWork.Advances setup place shared node run turn)
    (hcalled : .called number call ∈ turn.events) :
    shared.canceled = false ∧ node.HandedOver number turn.phase := by
  cases hadvances with
  | ended => cases List.mem_singleton.mp hcalled
  | canceled => cases hcalled
  | skipped => cases List.mem_singleton.mp hcalled
  | refused => cases hcalled
  | @immediate step outcome =>
      rcases List.mem_cons.mp hcalled with hstart | hend
      · cases hstart
      · exact absurd hend (outcome.called_notMem_settle _ _ _ _)
  | calling hdeclared hlive =>
      rcases List.mem_cons.mp hcalled with hstart | hcall
      · cases hstart
      · cases List.mem_singleton.mp hcall
        exact ⟨hlive, handedOver_of_calling hdeclared⟩

/-- What a job calls for is a step that it has under way, and then the run is not cancelled. -/
theorem handedOver_of_called {work : JobWork} {move : JobMove} {turn : JobTurn}
    (hmoves : work.Moves setup place environment shared node move turn)
    (hcalled : .called number call ∈ turn.events) :
    shared.canceled = false ∧ node.HandedOver number turn.phase := by
  cases hmoves with
  | start dependencies =>
      generalize hstart : JobWork.start setup environment shared node dependencies = turn at hcalled
      cases JobWork.starts_of_start hstart with
      | skipped => cases List.mem_singleton.mp hcalled
      | _ => cases hcalled
  | takeAgent context =>
      generalize htake : JobWork.takeAgent environment shared node context = turn at hcalled
      cases JobWork.takesAgent_of_takeAgent htake with
      | refused => cases hcalled
      | running => cases List.mem_singleton.mp hcalled
  | withdraw => cases hcalled
  | advance run => exact handedOver_of_called_advances (JobWork.advances_of_advance rfl) hcalled
  | @answer run ongoing declared reply turn hongoing hdeclared hanswer =>
      have hended : ∀ {outcome : Outcome},
          .called number call ∉ (outcome.settle run.environment run.results.length ongoing.step
            ongoing.failure).events := fun {outcome} => outcome.called_notMem_settle _ _ _ _
      cases JobWork.answers_of_answer hanswer with
      | @attempt invocation attempt _ outcome =>
          unfold JobWork.takeOutcome at hcalled ⊢
          split at hcalled
          · exact absurd hcalled hended
          · next hagain =>
              -- An attempt is made again only if the run is not cancelled.
              rw [if_neg hagain]
              simp only [Bool.or_eq_true, not_or, Bool.not_eq_true] at hagain
              cases List.mem_singleton.mp hcalled
              exact ⟨hagain.1.2, handedOver_of_calling hdeclared⟩
      | published =>
          rcases List.mem_cons.mp hcalled with hreport | hend
          · cases hreport
          · exact absurd hend hended
      | refused => exact absurd hcalled hended
      | download => exact absurd hcalled hended
  | die => cases hcalled

/-- A step that was handed over stays so until it ends, and it does not end cancelled. -/
theorem handedOver_of_moves {work : JobWork} {move : JobMove} {turn : JobTurn}
    (hmoves : work.Moves setup place environment shared node move turn)
    (hcut : node.PhaseCutOff shared.canceled (.active work))
    (hhanded : node.HandedOver number (.active work)) : node.HandedOver number turn.phase := by
  obtain ⟨hnumber, hwork⟩ := hhanded
  refine ⟨hnumber, ?_⟩
  cases hmoves with
  | start => exact hwork.elim
  | takeAgent => exact hwork.elim
  | withdraw => exact hwork.elim
  | advance run hidle =>
      have hdone := JobRun.HandedOver.done_of_idle hwork hidle
      generalize hadvance : JobWork.advance setup place shared node run = turn
      cases JobWork.advances_of_advance hadvance with
      | ended => exact hdone
      | @canceled step => exact JobRun.HandedOver.record hdone step
      | @skipped step => exact JobRun.HandedOver.record hdone step
      | @refused step => exact JobRun.HandedOver.record hdone step
      | @immediate step outcome =>
          exact JobRun.HandedOver.concluded hwork step _
            (step.failureStatus_ne_canceled run.stepContext) outcome
      | calling => exact JobRun.HandedOver.callAgain hwork
  | @answer run ongoing declared reply turn hongoing _ hanswer =>
      have hfailure := JobRun.CutOff.failure hcut ongoing hongoing
      rcases JobWork.answer_phase hanswer with ⟨outcome, hphase⟩ | ⟨invocation, again, -, hphase⟩
      · rw [hphase]
        exact JobRun.HandedOver.concluded hwork declared ongoing.step hfailure outcome
      · rw [hphase]
        exact JobRun.HandedOver.callAgain hwork
  | die => exact trivial

end JobNode

/-! ## Stages -/

/-- The step with a number of the job at a place has a result, and that is not a cancelled one. -/
def StageResult.Spares (job number : Nat) (stage : StageResult) : Prop :=
  ∃ result, stage.jobs[job]? = some result ∧ result.Spares number

/-- A step of the job at a place was handed over, and it does not end cancelled. -/
def StageNode.HandedOver (job number : Nat) (node : StageNode)
    (phase : Phase StageWork StageResult) : Prop :=
  (∃ declared, node.jobs[job]? = some declared ∧ number < declared.job.steps.length) ∧
    match phase with
    | .active (.running run) =>
      run.jobs.plan = node.jobs.map JobNode.task ∧
        run.jobs.HoldsAt (JobNode.HandedOver number) job
    | .returned result => (node.jobs.map (·.name)).Nodup → result.Spares job number
    | .died | .closed => True
    | _ => False

/-- In a stage that is running, only the results of closed jobs were noticed. -/
def StageNode.PhaseNotices (_node : StageNode) : Phase StageWork StageResult → Prop
  | .active (.running run) => run.jobs.NoticesClosed
  | _ => True

theorem StageRun.names_jobs {node : StageNode} {run : StageRun}
    (hplan : run.jobs.plan = node.jobs.map JobNode.task) :
    run.jobs.tasks.map (·.name) = node.jobs.map (·.name) := by
  rw [← Schedule.map_name_plan, hplan, JobNode.names_tasks]

theorem StageRun.getElem?_jobs {node : StageNode} {run : StageRun} {index : Nat}
    {task : Task JobNode JobWork JobResult} (hplan : run.jobs.plan = node.jobs.map JobNode.task)
    (htask : run.jobs.tasks[index]? = some task) : node.jobs[index]? = some task.node := by
  have hplanned : run.jobs.plan[index]? = some task.reset := by
    rw [Schedule.plan, List.getElem?_map, htask, Option.map_some]
  rw [hplan, List.getElem?_map, Option.map_eq_some_iff] at hplanned
  obtain ⟨declared, hdeclared, heq⟩ := hplanned
  rw [hdeclared]
  exact congrArg (some ∘ Task.node) heq

namespace StageNode

variable {node : StageNode} {setup : Setup} {environment : Environment} {shared : Shared}
  {job number : Nat} {call : Call}

theorem not_handedOver_waiting (node : StageNode) : ¬ node.HandedOver job number .waiting :=
  fun hhanded => hhanded.2

theorem HandedOver.closed {phase : Phase StageWork StageResult}
    (hhanded : node.HandedOver job number phase) : node.HandedOver job number .closed :=
  ⟨hhanded.1, trivial⟩

theorem HandedOver.notRun {phase : Phase StageWork StageResult}
    (hhanded : node.HandedOver job number phase) (status : Status) (error : Option String) :
    node.HandedOver job number (.returned (.notRun node status .skipped error)) := by
  refine ⟨hhanded.1, fun _ => ?_⟩
  obtain ⟨declared, hdeclared, hnumber⟩ := hhanded.1
  refine ⟨.notRun declared .skipped .skipped none, ?_, JobResult.spares_notRun hnumber _ _⟩
  simp [StageResult.notRun, hdeclared]

theorem phaseNotices_of_moves {work : StageWork} {move : StageMove} {turn : StageTurn}
    (hmoves : work.Moves setup environment shared node move turn)
    (hnotices : node.PhaseNotices (.active work)) : node.PhaseNotices turn.phase := by
  cases hmoves with
  | start dependencies =>
      generalize hstart : StageWork.start setup environment shared node dependencies = turn
      cases StageWork.starts_of_start hstart with
      | running => exact (Schedule.noticesClosed_of_unnoticed _).release
      | _ => exact trivial
  | job htask hwork => exact Schedule.NoticesClosed.setPhase hnotices htask hwork _
  | notice hnotice => exact Schedule.NoticesClosed.notice hnotices hnotice
  | finish => exact trivial
  | die => exact trivial

/-- A call comes from a job that makes a move. -/
theorem handedOver_of_called {work : StageWork} {move : StageMove} {turn : StageTurn}
    {name : String} (hmoves : work.Moves setup environment shared node move turn)
    (hsound : node.PhaseSound (.active work)) (hnotices : node.PhaseNotices (.active work))
    (hcalled : .job name (.called number call) ∈ turn.events) :
    shared.canceled = false ∧ ∃ job jobMove, move = .job job jobMove ∧
      node.HandedOver job number turn.phase := by
  cases hmoves with
  | start dependencies =>
      generalize hstart : StageWork.start setup environment shared node dependencies = turn
        at hcalled
      cases StageWork.starts_of_start hstart with
      | skipped | running => cases List.mem_singleton.mp hcalled
      | _ => cases hcalled
  | @job run index task work move turn htask hwork hmoves =>
      obtain ⟨event, hevent, heq⟩ := List.mem_map.mp hcalled
      obtain ⟨rfl, rfl⟩ := StageEvent.job.inj heq
      obtain ⟨hlive, hhanded⟩ := JobNode.handedOver_of_called hmoves hevent
      obtain ⟨hplan, -⟩ : run.Sound node := hsound
      refine ⟨hlive, index, move, rfl, ⟨task.node, ?_, hhanded.1⟩, ?_, ?_⟩
      · exact StageRun.getElem?_jobs hplan htask
      · exact (Schedule.plan_setPhase run.jobs index turn.phase).trans hplan
      · exact Schedule.holdsAt_setPhase hnotices htask hwork hhanded
  | notice => cases hcalled
  | finish => cases List.mem_singleton.mp hcalled
  | die => cases hcalled

theorem handedOver_of_moves {work : StageWork} {move : StageMove} {turn : StageTurn}
    (hmoves : work.Moves setup environment shared node move turn)
    (hcut : node.PhaseCutOff shared.canceled (.active work))
    (hhanded : node.HandedOver job number (.active work)) :
    node.HandedOver job number turn.phase := by
  obtain ⟨hdeclared, hwork⟩ := hhanded
  refine ⟨hdeclared, ?_⟩
  cases hmoves with
  | start => exact hwork.elim
  | @job run index task work move turn htask hactive hmoves =>
      obtain ⟨hplan, hholds⟩ := hwork
      refine ⟨(Schedule.plan_setPhase run.jobs index turn.phase).trans hplan, ?_⟩
      have hkeeps : run.jobs.Keeps (JobNode.PhaseCutOff shared.canceled) := hcut
      have hjob := hkeeps.tasks task (List.mem_of_getElem? htask)
      rw [hactive] at hjob
      refine hholds.setPhase htask fun hbefore => ?_
      rw [hactive] at hbefore
      exact JobNode.handedOver_of_moves hmoves hjob hbefore
  | notice hnotice =>
      obtain ⟨hplan, hholds⟩ := hwork
      refine ⟨(Schedule.plan_notice? hnotice).trans hplan, ?_⟩
      exact hholds.notice JobNode.not_handedOver_waiting (fun _ _ hjob => hjob.closed) hnotice
  | finish run =>
      obtain ⟨hplan, hholds⟩ := hwork
      intro hnames
      rw [← StageRun.names_jobs hplan] at hnames
      obtain ⟨task, result, -, hresult, hspares⟩ := hholds.exists_collect hnames
        (fun _ _ hjob => hjob.notRun .failed (some "job task did not complete"))
        (fun _ _ hjob => hjob.notRun .skipped none)
      exact ⟨result, hresult, hspares.2⟩
  | die => exact trivial

end StageNode

/-! ## Runs -/

/-- Whether an entry is a call to the outside. -/
def Event.isCall : Event → Bool
  | .stage _ (.job _ (.called ..)) => true
  | _ => false

namespace RunState

variable {setup : Setup} {state next later : RunState} {move : Move}

/-- Everything that was handed over so far, in order. -/
def calls (state : RunState) : List Event :=
  state.log.filter Event.isCall

/-- A run goes on, by any number of moves. -/
def LeadsTo (setup : Setup) : RunState → RunState → Prop :=
  Relation.ReflTransGen fun state next => ∃ move, state.step? setup move = some next

/-- A move that fits adds an entry to the log. -/
def Adds (setup : Setup) (state : RunState) (move : Move) (entry : Event) (next : RunState) :
    Prop :=
  state.step? setup move = some next ∧ ∃ told, next.log = state.log ++ told ∧ entry ∈ told

theorem leadsTo_of_replay {allowed : RunState → Move → Bool} {moves : List Move}
    (hreplay : state.replay setup allowed moves = some later) : state.LeadsTo setup later := by
  induction moves generalizing state with
  | nil =>
      cases hreplay
      exact .refl
  | cons move moves ih =>
      rw [replay, Option.ite_none_right_eq_some] at hreplay
      obtain ⟨next, hstep, hrest⟩ := Option.bind_eq_some_iff.mp hreplay.2
      exact .head ⟨move, hstep⟩ (ih hrest)

/-- The phase of the job at a place, in a stage that is running. -/
def jobPhase? (state : RunState) (stage job : Nat) : Option (Phase JobWork JobResult) :=
  match state.work? stage with
  | some (.running run) => run.jobs.tasks[job]?.map (·.phase)
  | _ => none

/-- The step with a number of the job at a place does not end cancelled: not in what the job
returns, and not in the result tree if names are distinct. -/
structure Spares (setup : Setup) (state : RunState) (stage job number : Nat) : Prop where
  returned : ∀ result, state.jobPhase? stage job = some (.returned result) → result.Spares number
  result : setup.graph.DistinctNames →
    ∃ node, (state.result setup).stages[stage]? = some node ∧ node.Spares job number

theorem LeadsTo.reachable (hleads : state.LeadsTo setup later)
    (hreachable : Reachable setup state) : Reachable setup later := by
  induction hleads with
  | refl => exact hreachable
  | tail _ hstep ih =>
      obtain ⟨move, hstep⟩ := hstep
      exact .step move ih hstep

/-- The stages of a run were noticed only when they were closed, and so were the jobs in them. -/
structure NoticesClosed (state : RunState) : Prop where
  stages : state.stages.NoticesClosed
  jobs : state.stages.Keeps StageNode.PhaseNotices

theorem noticesClosed_start (setup : Setup) : (RunState.start setup).NoticesClosed := by
  constructor
  · unfold start
    split
    next environment error hdeclared =>
      cases error with
      | some error =>
          intro _ task htask _ _
          obtain ⟨node, -, rfl⟩ := List.mem_map.mp htask
          rfl
      | none => exact (Schedule.noticesClosed_of_unnoticed _).release
  · refine keeps_start setup ?_ ?_ ?_ ?_
    · exact fun _ => trivial
    · exact fun _ => trivial
    · exact fun _ _ => trivial
    · exact fun _ _ => trivial

theorem noticesClosed_of_moves (hmoves : Moves setup state move next)
    (hnotices : state.NoticesClosed) : next.NoticesClosed := by
  constructor
  · cases hmoves with
    | cancel => exact hnotices.stages
    | stage htask hwork => exact hnotices.stages.setPhase htask hwork _
    | notice hnotice => exact hnotices.stages.notice hnotice
  · exact keeps_of_moves hmoves hnotices.jobs (fun _ => trivial) (fun _ _ => trivial)
      StageNode.phaseNotices_of_moves

theorem noticesClosed_of_reachable (hreachable : Reachable setup state) : state.NoticesClosed := by
  induction hreachable with
  | start => exact noticesClosed_start setup
  | step move _ hstep ih => exact noticesClosed_of_moves (moves_of_step? hstep) ih

/-- A call comes from the job at some place, and then the run is not cancelled. -/
theorem handedOver_of_adds {stageName jobName : String} {number : Nat} {call : Call}
    (hreachable : Reachable setup state)
    (hadds : state.Adds setup move (.stage stageName (.job jobName (.called number call))) next) :
    state.shared.canceled = false ∧ ∃ stage job jobMove, move = .stage stage (.job job jobMove) ∧
      next.stages.HoldsAt (StageNode.HandedOver job number) stage := by
  obtain ⟨hstep, told, hlog, hcalled⟩ := hadds
  have hsound := sound_of_reachable hreachable
  have hnotices := noticesClosed_of_reachable hreachable
  cases moves_of_step? hstep with
  | cancel => simp_all
  | notice => simp_all
  | @stage index task work move turn htask hwork hmoves =>
      obtain rfl := List.append_cancel_left hlog
      obtain ⟨event, hevent, heq⟩ := List.mem_map.mp hcalled
      obtain ⟨rfl, rfl⟩ := Event.stage.inj heq
      have hmem := List.mem_of_getElem? htask
      have hphase := hsound.keeps.tasks task hmem
      have hjobs := hnotices.jobs.tasks task hmem
      rw [hwork] at hphase hjobs
      obtain ⟨hlive, job, jobMove, rfl, hhanded⟩ :=
        StageNode.handedOver_of_called hmoves hphase hjobs hevent
      exact ⟨hlive, index, job, jobMove, rfl,
        Schedule.holdsAt_setPhase hnotices.stages htask hwork hhanded⟩

theorem holdsAt_of_moves {stage job number : Nat} (hmoves : Moves setup state move next)
    (hreachable : Reachable setup state)
    (hholds : state.stages.HoldsAt (StageNode.HandedOver job number) stage) :
    next.stages.HoldsAt (StageNode.HandedOver job number) stage := by
  have hkeeps := keeps_cutOff_of_reachable hreachable
  cases hmoves with
  | cancel => exact hholds
  | @stage index task work move turn htask hwork hmoves =>
      have hcut := hkeeps.tasks task (List.mem_of_getElem? htask)
      rw [hwork] at hcut
      refine hholds.setPhase htask fun hbefore => ?_
      rw [hwork] at hbefore
      exact StageNode.handedOver_of_moves hmoves hcut hbefore
  | notice hnotice =>
      exact hholds.notice StageNode.not_handedOver_waiting (fun _ _ hstage => hstage.closed) hnotice

theorem holdsAt_of_leadsTo {stage job number : Nat} (hleads : state.LeadsTo setup later)
    (hreachable : Reachable setup state)
    (hholds : state.stages.HoldsAt (StageNode.HandedOver job number) stage) :
    later.stages.HoldsAt (StageNode.HandedOver job number) stage := by
  induction hleads with
  | refl => exact hholds
  | @tail middle last hmiddle hstep ih =>
      obtain ⟨move, hstep⟩ := hstep
      exact holdsAt_of_moves (moves_of_step? hstep) (LeadsTo.reachable hmiddle hreachable) ih

theorem spares_of_holdsAt {stage job number : Nat} (hreachable : Reachable setup state)
    (hholds : state.stages.HoldsAt (StageNode.HandedOver job number) stage) :
    state.Spares setup stage job number := by
  have hplan := (sound_of_reachable hreachable).plan
  constructor
  · intro result hreturned
    obtain ⟨task, htask, hhanded, -⟩ := hholds
    obtain ⟨-, hphase⟩ := hhanded
    unfold jobPhase? work? at hreturned
    rw [htask] at hreturned
    cases hwork : task.phase with
    | active work =>
        cases work with
        | released => simp [hwork, Phase.work?] at hreturned
        | running run =>
            rw [hwork] at hphase
            obtain ⟨-, jobTask, hjobTask, hjob, -⟩ := hphase
            simp only [hwork, Phase.work?, Option.bind_some, hjobTask, Option.map_some,
              Option.some.injEq] at hreturned
            rw [hreturned] at hjob
            exact hjob.2
    | _ => simp [hwork, Phase.work?] at hreturned
  · intro hdistinct
    have hnames : (state.stages.tasks.map (·.name)).Nodup := by
      rw [← Schedule.map_name_plan, hplan, names_stageTasks]
      exact hdistinct.stages
    obtain ⟨task, result, htask, hresult, hspares⟩ := hholds.exists_collect hnames
      (fun _ _ hstage => hstage.notRun .failed (some "stage task did not complete"))
      (fun _ _ hstage => hstage.notRun .skipped none)
    have hnode : task.node ∈ setup.graph.stages := by
      have hplanned := Schedule.mem_plan_of_mem (List.mem_of_getElem? htask)
      rw [hplan] at hplanned
      obtain ⟨node, hnode, heq⟩ := List.mem_map.mp hplanned
      obtain rfl : node = task.node := congrArg Task.node heq
      exact hnode
    exact ⟨result, hresult, hspares.2 (hdistinct.jobs task.node hnode)⟩

/-- A move only adds to the log. -/
theorem exists_told_of_moves (hmoves : Moves setup state move next) :
    ∃ told, next.log = state.log ++ told := by
  cases hmoves with
  | cancel => exact ⟨[], (List.append_nil _).symm⟩
  | stage => exact ⟨_, rfl⟩
  | notice => exact ⟨[], (List.append_nil _).symm⟩

theorem calls_of_moves (hreachable : Reachable setup state)
    (hstep : state.step? setup move = some next) (hcanceled : state.shared.canceled = true) :
    next.calls = state.calls := by
  obtain ⟨told, hlog⟩ := exists_told_of_moves (moves_of_step? hstep)
  have hnone : told.filter Event.isCall = [] := by
    refine List.filter_eq_nil_iff.mpr fun entry hentry hcall => ?_
    unfold Event.isCall at hcall
    split at hcall
    · obtain ⟨hlive, -⟩ := handedOver_of_adds hreachable ⟨hstep, told, hlog, hentry⟩
      rw [hcanceled] at hlive
      cases hlive
    · cases hcall
  rw [calls, hlog, List.filter_append, hnone, List.append_nil]
  rfl

theorem calls_of_leadsTo (hleads : state.LeadsTo setup later) (hreachable : Reachable setup state)
    (hcanceled : state.shared.canceled = true) :
    later.shared.canceled = true ∧ later.calls = state.calls := by
  induction hleads with
  | refl => exact ⟨hcanceled, rfl⟩
  | @tail middle last hmiddle hstep ih =>
      obtain ⟨move, hstep⟩ := hstep
      obtain ⟨hbefore, hcalls⟩ := ih
      refine ⟨canceled_of_moves (moves_of_step? hstep) hbefore, ?_⟩
      rw [calls_of_moves (LeadsTo.reachable hmiddle hreachable) hstep hbefore, hcalls]

/-- Whatever stands in the log beside the start of the run was added by a move. -/
theorem exists_adds_of_mem_log {entry : Event} (hreachable : Reachable setup state)
    (hentry : entry ∈ state.log) (hcall : entry.isCall = true) :
    ∃ before move next, Reachable setup before ∧ before.Adds setup move entry next ∧
      next.LeadsTo setup state := by
  induction hreachable with
  | start =>
      have hstart : entry ∈ [Event.started setup.name setup.graph.stages.length] := by
        have hlog : (RunState.start setup).log =
            [Event.started setup.name setup.graph.stages.length] := by
          unfold start
          split
          rfl
        rwa [hlog] at hentry
      rw [List.mem_singleton.mp hstart] at hcall
      cases hcall
  | @step state next move hreachable hstep ih =>
      obtain ⟨told, hlog⟩ := exists_told_of_moves (moves_of_step? hstep)
      rw [hlog] at hentry
      rcases List.mem_append.mp hentry with hold | hnew
      · obtain ⟨before, earlier, after, hbefore, hadds, hleads⟩ := ih hold
        exact ⟨before, earlier, after, hbefore, hadds, hleads.tail ⟨move, hstep⟩⟩
      · exact ⟨state, move, next, hreachable, ⟨hstep, told, hlog, hnew⟩, .refl⟩

end RunState

/-- A cancellation, whenever it comes, cuts every run at one point.

* The steps of every job are some that are not cancelled and then only cancelled ones.  A job with a
  cancelled step, or a stage with a cancelled job, is cancelled unless one of them has failed.
* Once the run is cancelled, nothing is handed over any more: no step and no further attempt.
* A step that was handed over is not cancelled, as long as the run goes on.
* Whatever the log says was handed over, the job at some place has handed it over. -/
theorem cancellation_cuts_runs {setup : Setup} {state : RunState}
    (hreachable : RunState.Reachable setup state) :
    (∀ stage ∈ (state.result setup).stages,
      (∀ job ∈ stage.jobs, Status.CutOff (job.steps.map (·.status)) ∧
        (.canceled ∈ job.steps.map (·.status) → .failed ∉ job.steps.map (·.status) →
          job.status = .canceled)) ∧
      (.canceled ∈ stage.jobs.map (·.status) → .failed ∉ stage.jobs.map (·.status) →
        stage.status = .canceled)) ∧
    (state.shared.canceled = true → ∀ later, state.LeadsTo setup later →
      later.shared.canceled = true ∧ later.calls = state.calls) ∧
    (∀ stage job move next stageName jobName number call,
      state.Adds setup (.stage stage (.job job move))
        (.stage stageName (.job jobName (.called number call))) next →
      state.shared.canceled = false ∧
        ∀ later, next.LeadsTo setup later → later.Spares setup stage job number) ∧
    (∀ stageName jobName number call,
      .stage stageName (.job jobName (.called number call)) ∈ state.log →
      ∃ before stage job move next, RunState.Reachable setup before ∧
        before.Adds setup (.stage stage (.job job move))
          (.stage stageName (.job jobName (.called number call))) next ∧
        next.LeadsTo setup state) := by
  refine ⟨fun stage hstage => ?_, fun hcanceled later hleads => ?_, ?_, ?_⟩
  · have hcut := RunState.cutOff_of_mem_stages hreachable hstage
    exact ⟨fun job hjob => ⟨(hcut.jobs job hjob).steps, (hcut.jobs job hjob).shows⟩, hcut.shows⟩
  · exact RunState.calls_of_leadsTo hleads hreachable hcanceled
  · intro stage job move next stageName jobName number call hadds
    obtain ⟨hlive, stage', job', move', heq, hholds⟩ :=
      RunState.handedOver_of_adds hreachable hadds
    cases heq
    refine ⟨hlive, fun later hleads => ?_⟩
    have hnext : RunState.Reachable setup next := .step _ hreachable hadds.1
    exact RunState.spares_of_holdsAt (hleads.reachable hnext)
      (RunState.holdsAt_of_leadsTo hleads hnext hholds)
  · intro stageName jobName number call hentry
    obtain ⟨before, move, next, hbefore, hadds, hleads⟩ :=
      RunState.exists_adds_of_mem_log hreachable hentry rfl
    obtain ⟨-, stage, job, jobMove, rfl, -⟩ := RunState.handedOver_of_adds hbefore hadds
    exact ⟨before, stage, job, jobMove, next, hbefore, hadds, hleads⟩

namespace Delivery

/-- The first step of this job is attempted three times. -/
def stubborn : Job :=
  { job := some "compile", steps := [{ step "fetch" with retries := some 2 }, step "make"] }

def stubbornSetup : Setup where
  name := "stubborn"
  graph := ⟨[⟨"build", { build with jobs := [stubborn] }, [], [⟨"compile", stubborn, []⟩]⟩], []⟩

end Delivery

/-- The run is cancelled during the second attempt at a step.  The attempt fails and there is no
third one, and the other step is cancelled. -/
theorem cancellation_cuts_runs_stubborn :
    ∃ state later, RunState.Reachable Delivery.stubbornSetup state ∧
      state.shared.canceled = true ∧ state.calls.length = 2 ∧
      state.LeadsTo Delivery.stubbornSetup later ∧ later.isComplete = true ∧
      (later.result Delivery.stubbornSetup).steps.map (·.status) = [.failed, .canceled] ∧
      later.calls = state.calls ∧
      (∀ stage ∈ (later.result Delivery.stubbornSetup).stages, ∀ job ∈ stage.jobs,
        Status.CutOff (job.steps.map (·.status))) ∧
      ∃ stage job number, later.Spares Delivery.stubbornSetup stage job number := by
  let attempts : List Move :=
    [.stage 0 .start, .stage 0 (.job 0 .start), .stage 0 (.job 0 .takeAgent),
      .stage 0 (.job 0 .advance), .stage 0 (.job 0 (.answer (.outcome {}))), .cancel]
  let rest : List Move :=
    [.stage 0 (.job 0 (.answer (.outcome {}))), .stage 0 (.job 0 .advance),
      .stage 0 (.job 0 .advance), .stage 0 (.notice 0), .stage 0 .finish, .notice 0]
  let check (state : RunState) : Bool :=
    state.shared.canceled && state.calls.length == 2 &&
      (state.replay Delivery.stubbornSetup (fun _ _ => true) rest).any fun later =>
        later.isComplete &&
          (later.result Delivery.stubbornSetup).steps.map (·.status) == [.failed, .canceled]
  obtain ⟨state, hreachable, hcheck⟩ :=
    RunState.exists_reachable_of_replay Delivery.stubbornSetup check attempts (by decide +kernel)
  obtain ⟨hstate, hlater⟩ := Bool.and_eq_true_iff.mp hcheck
  obtain ⟨hcanceled, hcount⟩ := Bool.and_eq_true_iff.mp hstate
  obtain ⟨later, hreplay, hend⟩ := (Option.any_eq_true _ _).mp hlater
  obtain ⟨hcomplete, hstatuses⟩ := Bool.and_eq_true_iff.mp hend
  have hleads := RunState.leadsTo_of_replay hreplay
  have hlength := beq_iff_eq.mp hcount
  obtain ⟨-, hsilent, -, hadded⟩ := cancellation_cuts_runs hreachable
  obtain ⟨hcut, -⟩ := cancellation_cuts_runs (hleads.reachable hreachable)
  have hcalls := (hsilent hcanceled later hleads).2
  refine ⟨state, later, hreachable, hcanceled, hlength, hleads, hcomplete,
    beq_iff_eq.mp hstatuses, hcalls,
    fun stage hstage job hjob => ((hcut stage hstage).1 job hjob).1, ?_⟩
  obtain ⟨entry, hentry⟩ := List.exists_mem_of_length_pos (by rw [hlength]; decide)
  obtain ⟨hlog, hcall⟩ := List.mem_filter.mp hentry
  unfold Event.isCall at hcall
  split at hcall
  · obtain ⟨before, stage, job, move, next, hbefore, hadds, hnext⟩ := hadded _ _ _ _ hlog
    obtain ⟨-, -, hspared, -⟩ := cancellation_cuts_runs hbefore
    exact ⟨stage, job, _, (hspared _ _ _ _ _ _ _ _ hadds).2 later (hnext.trans hleads)⟩
  · cases hcall

end BuildPipeline
