import BuildPipeline.Proofs.Run.Interleaving
import BuildPipeline.Proofs.Run.StepMoves

/-!
# Publications after a failure

A publication without a condition is only made while no job of its stage is known to have failed.
What a stage knows lags behind: a job has failed some time before that is noticed.  But a job starts
only after everything that it depends on was noticed, and so it starts behind the flag.

* `Step.begin_of_isGated` is the gate.  `JobEvent.OnlySkips` says of a step that no more is told of
  it than that it was skipped; then the ledger was left alone.
* `JobNode.Withholds` says of a job that its gated publications were not made, and
  `JobNode.Withholds.moves` is the step lemma: behind the flag no move makes one.
* `StageRun.Dooms` are the jobs behind one that has failed, as far as the stage can know.  A job
  that was not noticed counts here as well, so that nobody joins them later: a notice only frees
  jobs.
* `StageRun.Gated` is the invariant of a stage.
* `failed_jobs_withhold_publications` is the result, for all complete runs.
-/

namespace BuildPipeline

/-! ## The gate -/

/-- An enabled publication without a condition. -/
structure Step.IsGated (step : Step) : Prop where
  enabled : step.enabled = true
  condition : step.condition = none
  action : ∃ path artifact, step.action = .publish path artifact

theorem Step.begin_of_isGated {step : Step} {setup : Setup} {place : Place} {ledger : Ledger}
    {environment : Environment} {context : Expression.Context} {index : Nat}
    (hgated : step.IsGated) (hfailed : place.stageFailed = true) :
    step.begin setup place ledger environment context index =
      .skipped "stage already has a failed job" := by
  obtain ⟨path, artifact, haction⟩ := hgated.action
  simp [Step.begin, hgated.enabled, hgated.condition, haction, hfailed]

/-- A job passes over a gated publication behind the flag, and leaves what is shared as it is. -/
theorem JobWork.advance_of_isGated {setup : Setup} {place : Place} {shared : Shared}
    {node : JobNode} {run : JobRun} {step : Step}
    (hdeclared : node.job.steps[run.results.length]? = some step) (hgated : step.IsGated)
    (hfailed : place.stageFailed = true) :
    JobWork.advance setup place shared node run =
      if shared.canceled then passOver shared run step (.ofStep step .canceled) []
      else passOver shared run step (.ofStep step .skipped)
        [.stepSkipped run.results.length "stage already has a failed job"] := by
  simp only [JobWork.advance, hdeclared, step.begin_of_isGated hgated hfailed]

/-! ## Steps that are skipped -/

/-- All that some entries tell of a step is that it was skipped. -/
def JobEvent.OnlySkips (index : Nat) (events : List JobEvent) : Prop :=
  ∀ event ∈ events, event.step? = some index → ∃ reason, event = .stepSkipped index reason

/-- A move that tells no more of its step than that it was skipped leaves the ledger as it is. -/
theorem JobRun.ledger_of_onlySkips {setup : Setup} {place : Place} {environment : Environment}
    {shared : Shared} {node : JobNode} {run : JobRun} {move : JobMove} {turn : JobTurn}
    (hmoves : (JobWork.running run).Moves setup place environment shared node move turn)
    (hskips : JobEvent.OnlySkips run.results.length turn.events) :
    turn.shared.ledger = shared.ledger := by
  cases hmoves with
  | advance =>
      generalize hadvance : JobWork.advance setup place shared node run = turn at hskips ⊢
      cases JobWork.advances_of_advance hadvance with
      | calling =>
          obtain ⟨reason, hreason⟩ := hskips _ List.mem_cons_self rfl
          cases hreason
      | _ => rfl
  | @answer _ ongoing _ _ _ _ _ hanswer =>
      cases JobWork.answers_of_answer hanswer with
      | attempt =>
          unfold JobWork.takeOutcome
          split <;> rfl
      | @refused artifact source error =>
          -- A publication that the store refuses is told as completed.
          obtain ⟨reports, -, hevents⟩ := (Outcome.failed error.message).events_settle
            run.environment run.results.length ongoing.step ongoing.failure
          change JobEvent.OnlySkips run.results.length
            ((Outcome.failed error.message).settle run.environment run.results.length ongoing.step
              ongoing.failure).events at hskips
          rw [hevents] at hskips
          obtain ⟨reason, hreason⟩ := hskips _ (List.mem_append_right _ List.mem_cons_self) rfl
          cases hreason
      | published => rfl
      | download => rfl
  | die =>
      show (JobWork.die shared (.running run)).shared.ledger = _
      simp [JobWork.die, JobWork.holdsAgent]

/-! ## Jobs -/

namespace JobNode

variable {node : JobNode} {results : List StepResult} {events more : List JobEvent}

/-- The gated publications among the steps with a result were passed over, and nothing else is
logged of any. -/
def PassesOver (node : JobNode) (results : List StepResult) (events : List JobEvent) : Prop :=
  ∀ (index : Nat) (step : Step), node.job.steps[index]? = some step → step.IsGated →
    (∀ result, results[index]? = some result →
      result.status = .skipped ∨ result.status = .canceled) ∧
    JobEvent.OnlySkips index events

/-- Every gated publication of a job that has ended was passed over. -/
def WithholdsPublications (node : JobNode) (result : JobResult) (events : List JobEvent) : Prop :=
  ∀ (index : Nat) (step : Step), node.job.steps[index]? = some step → step.IsGated →
    (∃ stepResult, result.steps[index]? = some stepResult ∧
      (stepResult.status = .skipped ∨ stepResult.status = .canceled)) ∧
    JobEvent.OnlySkips index events

/-- No gated publication of a job was made so far, and none is under way. -/
def Withholds (node : JobNode) : Phase JobWork JobResult → List JobEvent → Prop
  | .active (.running run), events => node.PassesOver run.results events ∧
      (run.ongoing.isSome = true → ∀ step, node.job.steps[run.results.length]? = some step →
        ¬ step.IsGated)
  | .returned result, events => node.WithholdsPublications result events
  | _, events => node.PassesOver [] events

theorem passesOver_of_silent (hsilent : ∀ event ∈ events, event.step? = none) :
    node.PassesOver [] events := by
  refine fun index step _ _ => ⟨fun result hresult => by simp at hresult, ?_⟩
  intro event hevent habout
  rw [hsilent event hevent] at habout
  cases habout

namespace PassesOver

variable (hpasses : node.PassesOver results events)

include hpasses

/-- More entries do not matter, as far as they are about no gated publication or say that it was
skipped. -/
theorem append (hmore : ∀ event ∈ more, ∀ index ∈ event.step?, ∀ step,
      node.job.steps[index]? = some step → step.IsGated →
        ∃ reason, event = .stepSkipped index reason) :
    node.PassesOver results (events ++ more) := by
  intro index step hdeclared hgated
  obtain ⟨hresults, hlogged⟩ := hpasses index step hdeclared hgated
  refine ⟨hresults, fun event hevent hstep => ?_⟩
  rcases List.mem_append.mp hevent with hold | hnew
  · exact hlogged event hold hstep
  · exact hmore event hnew index hstep step hdeclared hgated

theorem append_of_silent (hsilent : ∀ event ∈ more, event.step? = none) :
    node.PassesOver results (events ++ more) := by
  refine hpasses.append fun event hevent index hstep => ?_
  rw [hsilent event hevent] at hstep
  cases hstep

/-- The entries of a step that is no gated publication do not matter. -/
theorem append_of_not (habout : JobEvent.AreAbout results.length more)
    (hnot : ∀ step, node.job.steps[results.length]? = some step → ¬ step.IsGated) :
    node.PassesOver results (events ++ more) := by
  refine hpasses.append fun event hevent index hstep step hdeclared hgated => ?_
  obtain rfl := habout event hevent index hstep
  exact absurd hgated (hnot step hdeclared)

/-- One more result: that of a gated publication has to be one of a step that was passed over. -/
theorem concat {result : StepResult}
    (hresult : ∀ step, node.job.steps[results.length]? = some step → step.IsGated →
      result.status = .skipped ∨ result.status = .canceled) :
    node.PassesOver (results ++ [result]) events := by
  intro index step hdeclared hgated
  obtain ⟨hresults, hlogged⟩ := hpasses index step hdeclared hgated
  refine ⟨fun found hfound => ?_, hlogged⟩
  rcases Nat.lt_trichotomy index results.length with hlt | rfl | hgt
  · rw [List.getElem?_append_left hlt] at hfound
    exact hresults found hfound
  · rw [List.getElem?_concat_length, Option.some.injEq] at hfound
    exact hfound ▸ hresult step hdeclared hgated
  · rw [List.getElem?_eq_none (by simp; omega)] at hfound
    cases hfound

/-- The entries stay, also if the results are lost. -/
theorem forget : node.PassesOver [] events :=
  fun index step hdeclared hgated =>
    ⟨fun _ hresult => by simp at hresult, (hpasses index step hdeclared hgated).2⟩

/-- After the last step everything was passed over. -/
theorem withholdsPublications {run : JobRun} (hresults : results = run.results)
    (hover : node.job.steps[run.results.length]? = none) :
    node.WithholdsPublications (run.result node) events := by
  subst hresults
  intro index step hdeclared hgated
  obtain ⟨hpassed, hlogged⟩ := hpasses index step hdeclared hgated
  have hlt : index < run.results.length := by
    have hinside := (List.getElem?_eq_some_iff.mp hdeclared).1
    have houtside := List.getElem?_eq_none_iff.mp hover
    omega
  have hfound := List.getElem?_eq_getElem hlt
  exact ⟨⟨_, hfound, hpassed _ hfound⟩, hlogged⟩

end PassesOver

/-- A job that did not run has passed over all its steps. -/
theorem withholdsPublications_notRun (node : JobNode) (status : Status) {steps : Status}
    (error : Option String) (hsteps : steps = .skipped ∨ steps = .canceled)
    (hpasses : node.PassesOver [] events) :
    node.WithholdsPublications (.notRun node status steps error) events := by
  intro index step hdeclared hgated
  refine ⟨⟨.ofStep step steps, ?_, hsteps⟩, (hpasses index step hdeclared hgated).2⟩
  simp [JobResult.notRun, hdeclared]

/-! ## Moves -/

section Moves

variable {setup : Setup} {place : Place} {environment : Environment} {shared : Shared}
  {run : JobRun} {turn : JobTurn}

theorem withholds_of_starts {dependencies : List JobResult}
    (hstarts : JobWork.Starts setup environment shared node dependencies turn)
    (hpasses : node.PassesOver [] events) : node.Withholds turn.phase (events ++ turn.events) := by
  cases hstarts with
  | canceled =>
      exact withholdsPublications_notRun node _ _ (.inr rfl)
        (hpasses.append_of_silent (List.forall_mem_nil _))
  | queued => exact hpasses.append_of_silent (List.forall_mem_nil _)
  | skipped =>
      exact withholdsPublications_notRun node _ _ (.inl rfl)
        (hpasses.append_of_silent (List.forall_mem_singleton.mpr rfl))
  | failed =>
      exact withholdsPublications_notRun node _ _ (.inl rfl)
        (hpasses.append_of_silent (List.forall_mem_nil _))

theorem withholds_of_takesAgent {context : Expression.Context}
    (htakes : JobWork.TakesAgent environment shared node context turn)
    (hpasses : node.PassesOver [] events) : node.Withholds turn.phase (events ++ turn.events) := by
  cases htakes with
  | refused =>
      exact withholdsPublications_notRun node _ _ (.inl rfl)
        (hpasses.append_of_silent (List.forall_mem_nil _))
  | running =>
      exact ⟨hpasses.append_of_silent (List.forall_mem_singleton.mpr rfl),
        fun hcalling => by cases hcalling⟩

/-- At a step that is no gated publication a job may do anything. -/
theorem withholds_of_proceeds {phase : Phase JobWork JobResult}
    (hproceeds : run.Proceeds node phase) (hpasses : node.PassesOver run.results events)
    (habout : JobEvent.AreAbout run.results.length more)
    (hnot : ∀ step, node.job.steps[run.results.length]? = some step → ¬ step.IsGated) :
    node.Withholds phase (events ++ more) := by
  have hnext := hpasses.append_of_not habout hnot
  cases hproceeds with
  | @calls next hresults hcalling =>
      rw [Withholds, hresults]
      exact ⟨hnext, fun _ => hnot⟩
  | @takes next result hresults hidle =>
      rw [Withholds, hresults, hidle]
      refine ⟨hnext.concat fun step hdeclared hgated => ?_, fun hcalling => by cases hcalling⟩
      exact absurd hgated (hnot step hdeclared)
  | ends hover => exact hnext.withholdsPublications rfl hover
  | dies => exact hnext.forget

/-- At a gated publication a job can only pass over it, if the flag is set. -/
theorem withholds_of_advance {step : Step} (hpasses : node.PassesOver run.results events)
    (hdeclared : node.job.steps[run.results.length]? = some step) (hgated : step.IsGated)
    (hfailed : place.stageFailed = true) :
    node.Withholds (JobWork.advance setup place shared node run).phase
      (events ++ (JobWork.advance setup place shared node run).events) := by
  rw [JobWork.advance_of_isGated hdeclared hgated hfailed]
  have hpassed : ∀ (status : Status) (reports : List JobEvent),
      status = .skipped ∨ status = .canceled →
      (∀ event ∈ reports, ∃ reason, event = .stepSkipped run.results.length reason) →
      node.Withholds (JobWork.passOver shared run step (.ofStep step status) reports).phase
        (events ++ reports) := by
    intro status reports hstatus hreports
    refine ⟨PassesOver.concat (hpasses.append ?_) fun _ _ _ => hstatus,
      fun hcalling => by cases hcalling⟩
    intro event hevent index hstep _ _ _
    obtain ⟨reason, rfl⟩ := hreports event hevent
    obtain rfl := Option.some.inj hstep
    exact ⟨reason, rfl⟩
  split
  · exact hpassed .canceled [] (.inr rfl) (List.forall_mem_nil _)
  · exact hpassed .skipped _ (.inl rfl) (List.forall_mem_singleton.mpr ⟨_, rfl⟩)

/-- Behind the flag no move of a job makes a gated publication. -/
theorem Withholds.moves {work : JobWork} {move : JobMove}
    (hwithholds : node.Withholds (.active work) events)
    (hmoves : work.Moves setup place environment shared node move turn)
    (hfailed : place.stageFailed = true) : node.Withholds turn.phase (events ++ turn.events) := by
  cases work with
  | released dependencies =>
      cases hmoves with
      | start => exact withholds_of_starts (JobWork.starts_of_start rfl) hwithholds
      | die => exact PassesOver.append_of_silent hwithholds (List.forall_mem_nil _)
  | queued context =>
      cases hmoves with
      | takeAgent => exact withholds_of_takesAgent (JobWork.takesAgent_of_takeAgent rfl) hwithholds
      | withdraw =>
          exact withholdsPublications_notRun node _ _ (.inr rfl)
            (PassesOver.append_of_silent hwithholds (List.forall_mem_nil _))
      | die => exact PassesOver.append_of_silent hwithholds (List.forall_mem_nil _)
  | running run =>
      obtain ⟨hpasses, hcalling⟩ := hwithholds
      obtain ⟨hproceeds, habout⟩ := JobRun.proceeds_of_moves hmoves
      by_cases hgate : ∃ step, node.job.steps[run.results.length]? = some step ∧ step.IsGated
      · obtain ⟨step, hdeclared, hgated⟩ := hgate
        cases hmoves with
        | advance => exact withholds_of_advance hpasses hdeclared hgated hfailed
        | answer hongoing =>
            exact absurd hgated (hcalling (by rw [hongoing]; rfl) step hdeclared)
        | die => exact (hpasses.append_of_silent (List.forall_mem_nil _)).forget
      · refine withholds_of_proceeds hproceeds hpasses habout fun step hdeclared hgated => ?_
        exact hgate ⟨step, hdeclared, hgated⟩

end Moves

end JobNode

/-! ## Stages -/

/-- As far as a stage has noticed, the job with a name may have failed. -/
def StageRun.MayHaveFailed (run : StageRun) (name : String) : Prop :=
  ∀ result, run.jobs.finished.get? name = some result → result.status = .failed

/-- A job depends, directly or through others, on one that may have failed. -/
def StageRun.Dooms (node : StageNode) (run : StageRun) (name : String) : Prop :=
  ∃ other, Relation.TransGen (JobNode.precedence node.jobs).Precedes other name ∧
    run.MayHaveFailed other

/-- Jobs that are doomed withhold their publications. -/
def JobNode.GatedCourse (doomed : String → Prop) : JobNode.Course :=
  fun _ _ node _ phase events => doomed node.name → node.Withholds phase events

/-- What a running stage has made of its publications. -/
structure StageRun.Gated (node : StageNode) (run : StageRun) (told : List StageEvent) : Prop where
  follows : run.JobsFollow (JobNode.GatedCourse (run.Dooms node)) node told
  flag : ∀ name result, run.jobs.finished.get? name = some result → result.status = .failed →
    run.failed = true

/-- Whatever depends on a failed job of a stage has withheld its publications. -/
def StageNode.WithholdsPublications (node : StageNode) (stage : StageResult)
    (log : String → List JobEvent) : Prop :=
  ∀ (first second : Nat) (failed dependent : JobNode) (failure result : JobResult),
    node.jobs[first]? = some failed → stage.jobs[first]? = some failure →
    node.jobs[second]? = some dependent → stage.jobs[second]? = some result →
    Relation.TransGen (JobNode.precedence node.jobs).Precedes failed.name dependent.name →
    failure.status = .failed → dependent.WithholdsPublications result (log dependent.name)

/-- A stage in its phase, with what it has told. -/
def StageNode.GatedCourse (node : StageNode) (_dependencies : List StageResult) :
    Phase StageWork StageResult → List StageEvent → Prop
  | .active (.released _), events => events = []
  | .active (.running run), events => ∃ told, run.Gated node told ∧ events = node.startEvent :: told
  | .returned result, events =>
    node.WithholdsPublications result (StageEvent.jobVoice.heard · events)
  | .died, _ => True
  | _, _ => False

namespace StageRun.Gated

variable {node : StageNode} {run : StageRun} {told : List StageEvent}

theorem start (scope : Environment) (hnames : (node.jobs.map (·.name)).Nodup) :
    StageRun.Gated node { environment := scope, jobs := .ofNodes node.jobs } [] :=
  ⟨.start (fun _ _ _ => JobNode.passesOver_of_silent (List.forall_mem_nil _)) hnames,
    fun _ _ hfound => by cases hfound⟩

/-- A doomed job that has started is behind the flag: the failed job was noticed before. -/
theorem failed_of_dooms (hgated : run.Gated node told)
    {task : Task JobNode JobWork JobResult} {work : JobWork} (htask : task ∈ run.jobs.tasks)
    (hwork : task.phase = .active work) (hdoomed : run.Dooms node task.name) :
    run.failed = true := by
  obtain ⟨other, hother, hfailed⟩ := hdoomed
  rw [← precedence_of_plan hgated.follows.plan] at hother
  obtain ⟨result, hresult⟩ :=
    hgated.follows.jobs.exists_get?_of_transGen htask (by rw [hwork]; rfl) hother
  exact hgated.flag other result hresult (hfailed result hresult)

theorem job (hgated : run.Gated node told) {setup : Setup} {shared : Shared} {index : Nat}
    {task : Task JobNode JobWork JobResult} {work : JobWork} {move : JobMove} {turn : JobTurn}
    (htask : run.jobs.tasks[index]? = some task) (hwork : task.phase = .active work)
    (hmoves : work.Moves setup (StageWork.placeOf setup node run task.name) run.environment shared
      task.node move turn) :
    StageRun.Gated node { run with jobs := run.jobs.setPhase index turn.phase }
      (told ++ turn.events.map (.job task.name ·)) := by
  have hmem := List.mem_of_getElem? htask
  have hname := hgated.follows.jobs.name_eq hmem
  refine ⟨hgated.follows.job htask hwork hmoves fun hnow hdoomed => ?_, hgated.flag⟩
  exact (hnow hdoomed).moves hmoves (hgated.failed_of_dooms hmem hwork (hname ▸ hdoomed))

/-- A notice sets the flag after a failure, and dooms nobody. -/
theorem notice (hgated : run.Gated node told) {index : Nat} {jobs : JobSchedule}
    {result : Option JobResult}
    (hnotice : run.jobs.notice? JobWork.released index = some (jobs, result)) :
    StageRun.Gated node
      { run with jobs, failed := run.failed || StageWork.noticedFailure result } told := by
  have hfewer : ∀ name, StageRun.Dooms node
      { run with jobs, failed := run.failed || StageWork.noticedFailure result } name →
      run.Dooms node name := by
    rintro name ⟨other, hother, hfailed⟩
    refine ⟨other, hother, fun found hfound => hfailed found ?_⟩
    exact hgated.follows.jobs.coherent.get?_of_notice? hnotice hfound
  constructor
  · have hfollows : run.JobsFollow (JobNode.GatedCourse (StageRun.Dooms node
        { run with jobs, failed := run.failed || StageWork.noticedFailure result })) node told :=
      ⟨hgated.follows.plan, hgated.follows.jobs.mono fun _ _ _ _ hcourse hdoomed =>
        hcourse (hfewer _ hdoomed)⟩
    exact hfollows.notice
      (fun _ _ _ => JobNode.passesOver_of_silent (List.forall_mem_nil _)) hnotice
  · intro name found hfound hfailed
    rcases Schedule.get?_or_eq_of_notice? hnotice hfound with hold | rfl
    · simp [hgated.flag name found hold hfailed]
    · simp [StageWork.noticedFailure, hfailed]

/-- A stage that is over has made no publication behind a failed job. -/
theorem withholdsPublications (hgated : run.Gated node told)
    (hsettled : run.jobs.isSettled = true) :
    node.WithholdsPublications (run.result node) (StageEvent.jobVoice.heard · told) := by
  intro first second failed dependent failure result hfailed hfailure hdependent hresult hbefore
    hstatus
  have hsettles := hgated.follows.jobs.forall₂_settles hsettled lostJob unreleasedJob
  rw [hgated.follows.plan, List.forall₂_map_left_iff] at hsettles
  have hdoomed : run.Dooms node dependent.name := by
    refine ⟨failed.name, hbefore, fun found hfound => ?_⟩
    obtain ⟨given, hgiven, hends⟩ := exists_getElem?_of_forall₂ hsettles hfailed
    obtain rfl : given = failure := Option.some.inj (hgiven.symm.trans hfailure)
    cases hends with
    | returned _ hnoticed =>
        obtain rfl : found = given := Option.some.inj (hfound.symm.trans hnoticed)
        exact hstatus
    | died _ hlost => cases hfound.symm.trans hlost
    | unreleased => cases hstatus
  show dependent.WithholdsPublications result (StageEvent.jobVoice.heard dependent.name told)
  obtain ⟨given, hgiven, hends⟩ := exists_getElem?_of_forall₂ hsettles hdependent
  obtain rfl : given = result := Option.some.inj (hgiven.symm.trans hresult)
  cases hends with
  | returned _ _ hcourse => exact hcourse hdoomed
  | died _ _ hcourse =>
      exact JobNode.withholdsPublications_notRun dependent _ _ (.inl rfl) (hcourse hdoomed)
  | unreleased _ _ hquiet =>
      change StageEvent.jobVoice.heard dependent.name told = [] at hquiet
      rw [hquiet]
      exact JobNode.withholdsPublications_notRun dependent _ _ (.inl rfl)
        (JobNode.passesOver_of_silent (List.forall_mem_nil _))

end StageRun.Gated

namespace StageNode

variable {setup : Setup} {environment : Environment} {shared : Shared} {node : StageNode}

/-- In a stage that did not start no job has failed. -/
theorem withholdsPublications_notRun (node : StageNode) (status : Status) {jobs : Status}
    (error : Option String) (hjobs : jobs = .skipped ∨ jobs = .canceled)
    (log : String → List JobEvent) :
    node.WithholdsPublications (.notRun node status jobs error) log := by
  intro first second failed dependent failure result hfailed hfailure _ _ _ hstatus
  simp only [StageResult.notRun, List.getElem?_map, hfailed, Option.map_some,
    Option.some.injEq] at hfailure
  obtain rfl : jobs = .failed := by
    rw [← hstatus, ← hfailure]
    rfl
  simp at hjobs

theorem gatedCourse_of_starts {given dependencies : List StageResult} {turn : StageTurn}
    (hstarts : StageWork.Starts setup environment shared node given turn)
    (hnames : (node.jobs.map (·.name)).Nodup) :
    GatedCourse node dependencies turn.phase turn.events := by
  have hunstarted : ∀ (status jobs : Status) (error : Option String) (events : List StageEvent),
      jobs = .skipped ∨ jobs = .canceled →
        GatedCourse node dependencies (.returned (.notRun node status jobs error)) events := by
    intro status jobs error events hjobs
    unfold GatedCourse
    exact withholdsPublications_notRun node status error hjobs _
  cases hstarts with
  | canceled => exact hunstarted _ _ _ _ (.inr rfl)
  | skipped => exact hunstarted _ _ _ _ (.inl rfl)
  | failed => exact hunstarted _ _ _ _ (.inl rfl)
  | refused => exact hunstarted _ _ _ _ (.inl rfl)
  | @running scope => exact ⟨[], .start scope hnames, rfl⟩

/-- No move of a stage leaves the course. -/
theorem isCourseUnder_gatedCourse (setup : Setup) :
    IsCourseUnder setup (fun _ _ _ => True) GatedCourse where
  start _ _ := rfl
  moves {_ _ node _ _ _ _ events} hcourse hmoves _ hnames := by
    cases hmoves with
    | start given =>
        obtain rfl : events = [] := hcourse
        exact gatedCourse_of_starts (StageWork.starts_of_start rfl) hnames
    | job htask hwork hmoves =>
        obtain ⟨told, hgated, rfl⟩ := hcourse
        exact ⟨_, hgated.job htask hwork hmoves, rfl⟩
    | notice hnotice =>
        obtain ⟨told, hgated, rfl⟩ := hcourse
        exact ⟨told, hgated.notice hnotice, List.append_nil _⟩
    | finish run hsettled =>
        obtain ⟨told, hgated, rfl⟩ := hcourse
        simp only [GatedCourse, heard_brackets]
        exact hgated.withholdsPublications hsettled
    | die => trivial

end StageNode

/-! ## Runs -/

/-- Every state that a run can come to has a history. -/
theorem RunState.Reachable.exists_history {setup : Setup} {state : RunState}
    (hreachable : Reachable setup state) :
    ∃ earlier, History setup (fun _ _ => True) (state :: earlier) := by
  induction hreachable with
  | start => exact ⟨[], .start⟩
  | step move _ hstep ih =>
      obtain ⟨earlier, hhistory⟩ := ih
      exact ⟨_, .step move trivial hstep hhistory⟩

/-- In every complete run, whatever the interleaving, also one that is cancelled or in which jobs
and stages break off, a job that depends on a failed one, directly or through others, passes over
each enabled publication without a condition: its result is skipped or cancelled, and all that the
log has of it is that it was skipped.  So it has not started and has called for nothing, and since a
move that tells no more than that leaves the ledger as it is, it has not touched the ledger either.
It does not matter what the conditions and flags of the jobs are, and how the other steps end. -/
theorem failed_jobs_withhold_publications {setup : Setup} {state : RunState}
    (hdistinct : setup.graph.DistinctNames) (hreachable : RunState.Reachable setup state)
    (hcomplete : state.isComplete = true) :
    List.Forall₂ (fun node stage => node.WithholdsPublications stage (state.logOf node.name ·))
        setup.graph.stages (state.result setup).stages ∧
      ∀ (place : Place) (environment : Environment) (shared : Shared) (node : JobNode)
        (run : JobRun) (move : JobMove) (turn : JobTurn),
        (JobWork.running run).Moves setup place environment shared node move turn →
        JobEvent.OnlySkips run.results.length turn.events →
          turn.shared.ledger = shared.ledger := by
  refine ⟨?_, fun _ _ _ _ _ _ _ hmoves hskips => JobRun.ledger_of_onlySkips hmoves hskips⟩
  obtain ⟨earlier, hhistory⟩ := hreachable.exists_history
  have hmeets : RunState.History setup
      (fun state move => state.Meets (fun _ _ _ => True) move) (state :: earlier) := by
    refine hhistory.mono fun _ move _ => ?_
    cases move <;> simp [RunState.Meets]
  have hstages := RunState.forall₂_stages_of_course
    (StageNode.isCourseUnder_gatedCourse setup) hdistinct hmeets hcomplete
  refine hstages.imp fun node stage hends => ?_
  show node.WithholdsPublications stage
    (StageEvent.jobVoice.heard · (Event.voice.heard node.name state.log))
  generalize Event.voice.heard node.name state.log = events at hends
  cases hends with
  | returned hcourse => exact hcourse
  | lost => exact StageNode.withholdsPublications_notRun node _ _ (.inl rfl) _
  | silent => exact StageNode.withholdsPublications_notRun node _ _ (.inl rfl) _

namespace Delivery

/-- Two jobs run in any case after a compilation that can fail, and the last one publishes. -/
def releaseJobs : List JobNode :=
  [⟨"compile", { job := some "compile", steps := [step "make"] }, []⟩,
    ⟨"pack", { pack with condition := some "always()" }, ["compile"]⟩,
    ⟨"upload",
      { job := some "upload"
        dependsOn := .single "pack"
        condition := some "always()"
        steps := [step "sign", { action := .publish "dist" none }] },
      ["pack"]⟩]

def releaseSetup : Setup where
  name := "release"
  graph := ⟨[⟨"build", { build with jobs := releaseJobs.map (·.job) }, [], releaseJobs⟩], []⟩

theorem transGen_release :
    Relation.TransGen (JobNode.precedence releaseJobs).Precedes "compile" "upload" := by
  have hpack : (JobNode.precedence releaseJobs).Precedes "compile" "pack" := by
    simp [Precedence.Precedes, Precedence.before, JobNode.precedence, releaseJobs,
      List.lookup_cons]
  have hupload : (JobNode.precedence releaseJobs).Precedes "pack" "upload" := by
    simp [Precedence.Precedes, Precedence.before, JobNode.precedence, releaseJobs]
  exact .tail (.single hpack) hupload

end Delivery

/-- The compilation fails, and what comes after it succeeds; nothing is published. -/
theorem failed_jobs_withhold_publications_release :
    Delivery.releaseSetup.graph.DistinctNames ∧ ∃ state,
      RunState.Reachable Delivery.releaseSetup state ∧ state.isComplete = true ∧
      (state.result Delivery.releaseSetup).stages.map (·.jobs.map (·.status)) =
        [[.failed, .succeeded, .succeeded]] ∧
      (state.result Delivery.releaseSetup).steps.map (·.status) =
        [.failed, .succeeded, .succeeded, .skipped] ∧
      Relation.TransGen (JobNode.precedence Delivery.releaseJobs).Precedes "compile" "upload" ∧
      List.Forall₂ (fun node stage => node.WithholdsPublications stage (state.logOf node.name ·))
        Delivery.releaseSetup.graph.stages (state.result Delivery.releaseSetup).stages := by
  let check (state : RunState) : Bool :=
    state.isComplete &&
      ((state.result Delivery.releaseSetup).stages.map (·.jobs.map (·.status)) ==
          [[.failed, .succeeded, .succeeded]] &&
        (state.result Delivery.releaseSetup).steps.map (·.status) ==
          [.failed, .succeeded, .succeeded, .skipped])
  obtain ⟨state, hreachable, hcheck⟩ :=
    RunState.exists_reachable_of_replay Delivery.releaseSetup check
      (Delivery.stageMoves 0
        (Delivery.jobMoves 0 0 [some {}] ++ Delivery.jobMoves 0 1 [some (.succeeded "")] ++
          Delivery.jobMoves 0 2 [some (.succeeded ""), none]))
      (by decide +kernel)
  obtain ⟨hcomplete, hrest⟩ := Bool.and_eq_true_iff.mp hcheck
  obtain ⟨hjobs, hsteps⟩ := Bool.and_eq_true_iff.mp hrest
  have hdistinct : Delivery.releaseSetup.graph.DistinctNames := ⟨by decide, by decide⟩
  exact ⟨hdistinct, state, hreachable, hcomplete, beq_iff_eq.mp hjobs, beq_iff_eq.mp hsteps,
    Delivery.transGen_release,
    (failed_jobs_withhold_publications hdistinct hreachable hcomplete).1⟩

end BuildPipeline
