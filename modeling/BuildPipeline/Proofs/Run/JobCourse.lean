import BuildPipeline.Proofs.Run.Listings
import BuildPipeline.Proofs.Schedule.Results
import Mathlib.Logic.Relation

/-!
# The course of a job

A job that publishes and downloads nothing, in a run that is not cancelled, has no choice: what it
does next follows from the results it was released with, from the variables of its stage and from
what the executor answers to its attempts.

* `JobWork.next` computes the next phase of such a job, without the agents, the ledger and the state
  of the other jobs, which a real move can see.
* `JobWork.next_of_moves`: every move that obeys the executor leads to that phase.
* `JobCourse` collects the phases on the way, and `JobCourse.end_unique` says that it ends in one
  way at most.  `JobCourse.congr`: only answers to attempts of the job itself matter, and how its
  variables are listed.

A step that publishes depends on the other jobs of the stage and on the ledger, and one that
downloads on the ledger.  They are left out here.
-/

namespace BuildPipeline

/-- What an executor answers to an attempt with a number; nothing if the job breaks off with it. -/
abbrev Executor := Invocation → Nat → Option Reply

/-- Whether a job publishes and downloads nothing. -/
def JobNode.NoArtifacts (node : JobNode) : Prop :=
  ∀ step ∈ node.job.steps, step.action.artifact? = none

/-! ## Moves that an executor determines -/

/-- The attempt that a job waits for. -/
def JobWork.attempt? : JobWork → Option (Invocation × Nat)
  | .running run => do
    match (← run.ongoing).call with
    | .attempt invocation number => some (invocation, number)
    | _ => none
  | _ => none

deriving instance DecidableEq for Reply

/-- Whether a job is answered by an executor, and breaks off only with one of its attempts. -/
def JobWork.Obeys (executor : Executor) (work : JobWork) : JobMove → Prop
  | .answer reply => ∃ attempt ∈ work.attempt?, executor attempt.1 attempt.2 = some reply
  | .die => ∃ attempt ∈ work.attempt?, executor attempt.1 attempt.2 = none
  | _ => True

instance (executor : Executor) (work : JobWork) (move : JobMove) :
    Decidable (work.Obeys executor move) :=
  match move with
  | .answer reply =>
    inferInstanceAs (Decidable (∃ attempt ∈ work.attempt?,
      executor attempt.1 attempt.2 = some reply))
  | .die =>
    inferInstanceAs (Decidable (∃ attempt ∈ work.attempt?, executor attempt.1 attempt.2 = none))
  | .start | .takeAgent | .withdraw | .advance => .isTrue trivial

/-! ## The next phase -/

/-- What is shared in a run that was not cancelled, as far as jobs without artifacts care. -/
def Shared.calm : Shared :=
  { freeAgents := 0 }

/-- The place of a job, as far as jobs without artifacts care. -/
def Place.plain (stage job : String) : Place :=
  ⟨stage, job, [], false⟩

namespace JobWork

variable {executor : Executor} {setup : Setup} {place : Place} {environment : Environment}
  {shared : Shared} {node : JobNode}

/-- The phase that an answer leads to, if the executor gives one. -/
def answered (executor : Executor) (setup : Setup) (node : JobNode) (run : JobRun)
    (ongoing : Ongoing) : Option (Phase JobWork JobResult) :=
  match ongoing.call with
  | .attempt invocation number =>
    match executor invocation number with
    | none => some .died
    | some reply =>
      node.job.steps[run.results.length]?.bind fun declared =>
        (answer setup Shared.calm run declared ongoing reply).map (·.phase)
  | _ => none

/-- The phase after the next move of a job. -/
def next (executor : Executor) (setup : Setup) (stage : String) (environment : Environment)
    (node : JobNode) : Phase JobWork JobResult → Option (Phase JobWork JobResult)
  | .active (.released dependencies) =>
    some (start setup environment Shared.calm node dependencies).phase
  | .active (.queued context) => some (takeAgent environment Shared.calm node context).phase
  | .active (.running run) =>
    match run.ongoing with
    | none => some (advance setup (.plain stage node.name) Shared.calm node run).phase
    | some ongoing => answered executor setup node run ongoing
  | _ => none

/-! ## Moves lead to the next phase -/

theorem start_phase_calm (hcalm : shared.canceled = false) (dependencies : List JobResult) :
    (start setup environment shared node dependencies).phase =
      (start setup environment Shared.calm node dependencies).phase := by
  have hcalm' : Shared.calm.canceled = false := rfl
  unfold start
  rw [hcalm, hcalm', if_neg Bool.false_ne_true, if_neg Bool.false_ne_true]
  dsimp only
  split <;> rfl

theorem takeAgent_phase_calm (context : Expression.Context) :
    (takeAgent environment shared node context).phase =
      (takeAgent environment Shared.calm node context).phase := by
  unfold takeAgent
  split <;> rfl

end JobWork

/-- A beginning with another ledger. -/
def Beginning.withLedger (ledger : Ledger) : Beginning → Beginning
  | .calling ongoing _ => .calling ongoing ledger
  | beginning => beginning

/-- What an action without artifacts calls for, whatever the ledger is. -/
theorem Action.call_withLedger {action : Action} {setup : Setup} {place other : Place}
    {ledger after : Ledger} {invocation : Invocation} (hartifact : action.artifact? = none) :
    action.call setup place ledger invocation =
      (action.call setup other after invocation).map fun (call, _) => (call, ledger) := by
  cases action with
  | publish path artifact => cases hartifact
  | download source artifact path => cases hartifact
  | template path parameters => rfl
  | shell kind body workingDirectory =>
      simp only [Action.call]
      split <;> rfl
  | task name inputs =>
      simp only [Action.call]
      split <;> rfl

theorem Action.artifact?_substitute {action : Action} (replace : String → String)
    (hartifact : action.artifact? = none) : (action.substitute replace).artifact? = none := by
  cases action with
  | publish path artifact => cases hartifact
  | download source artifact path => cases hartifact
  | _ => rfl

/-- The place and the ledger matter only for steps with artifacts. -/
theorem Step.begin_withLedger {step : Step} {setup : Setup} {place other : Place}
    {ledger after : Ledger} {environment : Environment} {context : Expression.Context}
    {index : Nat} (hartifact : step.action.artifact? = none) (hstage : place.stage = other.stage)
    (hjob : place.job = other.job) :
    step.begin setup place ledger environment context index =
      (step.begin setup other after environment context index).withLedger ledger := by
  have hinvocation : ∀ started : Step, started.invocation setup place environment index =
      started.invocation setup other environment index := by
    intro started
    rw [Step.invocation, hstage, hjob]
    rfl
  have hcall : ∀ invocation,
      (step.substitute (Expression.substituteVariables context)).action.call setup place ledger
          invocation =
        ((step.substitute (Expression.substituteVariables context)).action.call setup other after
          invocation).map fun (call, _) => (call, ledger) :=
    fun _ => Action.call_withLedger (Action.artifact?_substitute _ hartifact)
  cases haction : step.action
  case publish path artifact => simp [haction, Action.artifact?] at hartifact
  case download source artifact path => simp [haction, Action.artifact?] at hartifact
  all_goals
    simp only [Step.begin, haction, hinvocation, hcall, if_neg Bool.false_ne_true]
    split
    · rfl
    · split
      · rfl
      · rfl
      · cases Action.call setup other after _ _ <;> rfl

namespace JobWork

variable {executor : Executor} {setup : Setup} {place : Place} {environment : Environment}
  {shared : Shared} {node : JobNode}

theorem advance_phase_calm (hcalm : shared.canceled = false) (hartifacts : node.NoArtifacts)
    (hjob : place.job = node.name) (run : JobRun) :
    (advance setup place shared node run).phase =
      (advance setup (.plain place.stage node.name) Shared.calm node run).phase := by
  have hcalm' : Shared.calm.canceled = false := rfl
  cases hdeclared : node.job.steps[run.results.length]? with
  | none => simp only [advance, hdeclared]
  | some step =>
      have hartifact := hartifacts step (List.mem_of_getElem? hdeclared)
      have hbegin : step.begin setup place shared.ledger run.environment run.stepContext
            run.results.length =
          (step.begin setup (.plain place.stage node.name) Shared.calm.ledger run.environment
            run.stepContext run.results.length).withLedger shared.ledger :=
        Step.begin_withLedger hartifact rfl hjob
      simp only [advance, hdeclared, hcalm, hcalm', hbegin, if_neg Bool.false_ne_true]
      cases Step.begin setup (.plain place.stage node.name) Shared.calm.ledger run.environment
        run.stepContext run.results.length step <;> rfl

theorem takeOutcome_phase_calm (hcalm : shared.canceled = false) (run : JobRun) (declared : Step)
    (ongoing : Ongoing) (invocation : Invocation) (number : Nat) (outcome : Outcome) :
    (takeOutcome shared run declared ongoing invocation number outcome).phase =
      (takeOutcome Shared.calm run declared ongoing invocation number outcome).phase := by
  have hcalm' : Shared.calm.canceled = false := rfl
  unfold takeOutcome
  rw [hcalm, hcalm']
  split <;> rfl

theorem answer_phase_calm (hcalm : shared.canceled = false) (run : JobRun) (declared : Step)
    (ongoing : Ongoing) (reply : Reply) :
    (answer setup shared run declared ongoing reply).map (·.phase) =
      (answer setup Shared.calm run declared ongoing reply).map (·.phase) := by
  cases reply with
  | outcome outcome =>
      cases hcall : ongoing.call <;>
        simp [answer, hcall, takeOutcome_phase_calm hcalm]
  | timedOut =>
      cases hcall : ongoing.call <;> cases hlimit : ongoing.step.limit? setup <;>
        simp [answer, hcall, hlimit, takeOutcome_phase_calm hcalm]
  | stored result =>
      cases hcall : ongoing.call <;> cases result <;> simp [answer, hcall]

theorem attempt?_eq_some {work : JobWork} {invocation : Invocation} {number : Nat}
    (hattempt : work.attempt? = some (invocation, number)) :
    ∃ run ongoing, work = .running run ∧ run.ongoing = some ongoing ∧
      ongoing.call = .attempt invocation number := by
  cases work with
  | released dependencies => cases hattempt
  | queued context => cases hattempt
  | running run =>
      cases hongoing : run.ongoing with
      | none => simp [attempt?, hongoing] at hattempt
      | some ongoing =>
          refine ⟨run, ongoing, rfl, hongoing, ?_⟩
          cases hcall : ongoing.call <;> simp_all [attempt?]

/-- A move that obeys the executor leads to the next phase, whatever else is going on. -/
theorem next_of_moves {work : JobWork} {move : JobMove} {turn : JobTurn}
    (hmoves : work.Moves setup place environment shared node move turn)
    (hobeys : work.Obeys executor move) (hcalm : shared.canceled = false)
    (hartifacts : node.NoArtifacts) (hjob : place.job = node.name) :
    next executor setup place.stage environment node (.active work) = some turn.phase := by
  cases hmoves with
  | start dependencies => exact congrArg some (start_phase_calm hcalm dependencies).symm
  | takeAgent context => exact congrArg some (takeAgent_phase_calm context).symm
  | withdraw context hcanceled =>
      -- Jobs are withdrawn in cancelled runs only.
      rw [hcalm] at hcanceled
      cases hcanceled
  | advance run hidle =>
      rw [next, hidle]
      exact congrArg some (advance_phase_calm hcalm hartifacts hjob run).symm
  | @answer run ongoing declared reply turn hongoing hdeclared hanswer =>
      obtain ⟨⟨invocation, number⟩, hattempt, hreply⟩ := hobeys
      obtain ⟨run', ongoing', hwork, hongoing', hcall⟩ := attempt?_eq_some hattempt
      obtain rfl : run = run' := JobWork.running.inj hwork
      obtain rfl : ongoing = ongoing' := Option.some.inj (hongoing.symm.trans hongoing')
      have hphase := congrArg (Option.map (·.phase)) hanswer
      rw [answer_phase_calm hcalm] at hphase
      simp only [next, hongoing, answered, hcall, hreply, hdeclared]
      exact hphase
  | die work =>
      obtain ⟨⟨invocation, number⟩, hattempt, hbreaks⟩ := hobeys
      obtain ⟨run, ongoing, rfl, hongoing, hcall⟩ := attempt?_eq_some hattempt
      simp only [next, hongoing, answered, hcall, hbreaks]
      rfl

end JobWork

/-! ## Courses -/

/-- The phases that a job of a stage goes through after it was released with some results. -/
def JobCourse (executor : Executor) (setup : Setup) (stage : String) (environment : Environment)
    (node : JobNode) (results : List JobResult) (phase : Phase JobWork JobResult) : Prop :=
  Relation.ReflTransGen
    (fun before after => JobWork.next executor setup stage environment node before = some after)
    (.active (.released results)) phase

/-- Whether an attempt under way is one of a job. -/
def Phase.BelongsTo (stage job : String) (phase : Phase JobWork JobResult) : Prop :=
  ∀ work, phase = .active work → ∀ invocation number,
    work.attempt? = some (invocation, number) → invocation.stage = stage ∧ invocation.job = job

namespace JobCourse

variable {executor : Executor} {setup : Setup} {stage : String} {environment : Environment}
  {node : JobNode} {results : List JobResult} {phase : Phase JobWork JobResult}

theorem start (executor : Executor) (setup : Setup) (stage : String) (environment : Environment)
    (node : JobNode) (results : List JobResult) :
    JobCourse executor setup stage environment node results (.active (.released results)) :=
  .refl

/-- A job ends in one way at most. -/
theorem end_unique {end₁ end₂ : Option JobResult}
    (hfirst : JobCourse executor setup stage environment node results (.ended end₁))
    (hsecond : JobCourse executor setup stage environment node results (.ended end₂)) :
    end₁ = end₂ := by
  -- There is nothing after an end, and of two ways from one start one goes on where the other is.
  have hover : ∀ (ended : Option JobResult) (phase : Phase JobWork JobResult),
      Relation.ReflTransGen
        (fun before after =>
          JobWork.next executor setup stage environment node before = some after)
        (.ended ended) phase → phase = .ended ended := by
    intro ended phase hreach
    rcases hreach.cases_head with heq | ⟨after, hnext, -⟩
    · exact heq.symm
    · cases ended <;> cases hnext
  have hunique : Relator.RightUnique fun before after =>
      JobWork.next executor setup stage environment node before = some after :=
    fun _ _ _ hleft hright => Option.some.inj (hleft.symm.trans hright)
  rcases hfirst.total_of_right_unique hunique hsecond with hreach | hreach
  · exact (Phase.ended_injective (hover end₁ _ hreach)).symm
  · exact Phase.ended_injective (hover end₂ _ hreach)

end JobCourse

/-! ## Attempts of a job -/

namespace Phase

variable {stage job : String}

theorem belongsTo_of_attempt?_eq_none {work : JobWork} (hnone : work.attempt? = none) :
    (Phase.active work : Phase JobWork JobResult).BelongsTo stage job := by
  intro other hother invocation number hattempt
  obtain rfl : work = other := Phase.active.inj hother
  rw [hnone] at hattempt
  cases hattempt

theorem belongsTo_returned (result : JobResult) :
    (Phase.returned result : Phase JobWork JobResult).BelongsTo stage job :=
  fun _ hactive => by cases hactive

end Phase

theorem JobWork.attempt?_of_idle {run : JobRun} (hidle : run.ongoing = none) :
    (JobWork.running run).attempt? = none := by
  rw [attempt?, hidle]
  rfl

theorem JobWork.attempt?_of_ongoing {run : JobRun} {ongoing : Ongoing} {invocation : Invocation}
    {number : Nat} (hongoing : run.ongoing = some ongoing)
    (hcall : ongoing.call = .attempt invocation number) :
    (JobWork.running run).attempt? = some (invocation, number) := by
  rw [attempt?, hongoing]
  change (match ongoing.call with
    | .attempt invocation number => some (invocation, number)
    | _ => none) = _
  rw [hcall]

namespace JobCourse

variable {executor other : Executor} {setup : Setup} {listing : Listing} {stage : String}
  {environment : Environment} {node : JobNode} {results : List JobResult}
  {phase before after : Phase JobWork JobResult}

theorem belongsTo_of_advances {place : Place} {shared : Shared} {run : JobRun} {turn : JobTurn}
    (hadvances : JobWork.Advances setup place shared node run turn) :
    turn.phase.BelongsTo place.stage place.job := by
  cases hadvances with
  | ended => exact Phase.belongsTo_returned _
  | canceled | skipped | refused | immediate =>
      exact Phase.belongsTo_of_attempt?_eq_none (JobWork.attempt?_of_idle rfl)
  | calling hdeclared hlive hcalls =>
      intro work hwork invocation number hattempt
      obtain rfl := Phase.active.inj hwork
      obtain ⟨_, _, hrun, hongoing, hcall⟩ := JobWork.attempt?_eq_some hattempt
      obtain rfl := JobWork.running.inj hrun
      obtain rfl := Option.some.inj hongoing
      -- An action attempts the invocation that it is given, and that is one of its place.
      change _ = Call.attempt invocation number at hcall
      subst hcall
      generalize (Step.started run.stepContext _).action = action at hcalls
      cases hcalls <;> exact ⟨rfl, rfl⟩

/-- An answered attempt breaks the job off, ends the step or is made again. -/
theorem belongsTo_answered {run : JobRun} {ongoing : Ongoing}
    (hbelongs : (Phase.active (.running run)).BelongsTo stage node.name)
    (hongoing : run.ongoing = some ongoing)
    (hanswered : JobWork.answered executor setup node run ongoing = some after) :
    after.BelongsTo stage node.name := by
  unfold JobWork.answered at hanswered
  cases hcall : ongoing.call with
  | publish artifact source => simp [hcall] at hanswered
  | download artifact target => simp [hcall] at hanswered
  | attempt invocation number =>
      simp only [hcall] at hanswered
      split at hanswered
      · obtain rfl := Option.some.inj hanswered
        exact fun _ hactive => by cases hactive
      · obtain ⟨declared, -, hmap⟩ := Option.bind_eq_some_iff.mp hanswered
        obtain ⟨turn, hanswer, rfl⟩ := Option.map_eq_some_iff.mp hmap
        rcases JobWork.answer_phase hanswer with ⟨outcome, hphase⟩ | ⟨again, count, hcall', hphase⟩
        · rw [hphase]
          exact Phase.belongsTo_of_attempt?_eq_none (JobWork.attempt?_of_idle rfl)
        · rw [hphase]
          intro work hwork attempted times hattempt
          obtain rfl := Phase.active.inj hwork
          rw [JobWork.attempt?_of_ongoing rfl rfl] at hattempt
          obtain ⟨rfl, -⟩ := Prod.mk.inj (Option.some.inj hattempt)
          exact hbelongs _ rfl again count (JobWork.attempt?_of_ongoing hongoing hcall')

/-- On its course a job waits for its own attempts only. -/
theorem belongsTo_next (hbelongs : before.BelongsTo stage node.name)
    (hnext : JobWork.next executor setup stage environment node before = some after) :
    after.BelongsTo stage node.name := by
  cases before with
  | active work =>
      cases work with
      | released dependencies =>
          obtain rfl := Option.some.inj hnext
          generalize hstart : JobWork.start setup environment Shared.calm node dependencies = turn
          cases JobWork.starts_of_start hstart with
          | canceled | skipped | failed => exact Phase.belongsTo_returned _
          | queued => exact Phase.belongsTo_of_attempt?_eq_none rfl
      | queued context =>
          obtain rfl := Option.some.inj hnext
          generalize htake : JobWork.takeAgent environment Shared.calm node context = turn
          cases JobWork.takesAgent_of_takeAgent htake with
          | refused => exact Phase.belongsTo_returned _
          | running => exact Phase.belongsTo_of_attempt?_eq_none (JobWork.attempt?_of_idle rfl)
      | running run =>
          cases hongoing : run.ongoing with
          | none =>
              simp only [JobWork.next, hongoing] at hnext
              obtain rfl := Option.some.inj hnext
              exact belongsTo_of_advances (JobWork.advances_of_advance rfl)
          | some ongoing =>
              simp only [JobWork.next, hongoing] at hnext
              exact belongsTo_answered hbelongs hongoing hnext
  | _ => cases hnext

/-- Executors that agree on the attempts of a job take it the same way, if its variables are listed
alike. -/
theorem next_congr (hbelongs : before.BelongsTo stage node.name)
    (hagree : ∀ invocation number, invocation.stage = stage → invocation.job = node.name →
      executor invocation number = other invocation number)
    (hlisting : setup.listing.list stage node.name = listing.list stage node.name) :
    JobWork.next executor setup stage environment node before =
      JobWork.next other { setup with listing } stage environment node before := by
  cases before with
  | active work =>
      cases work with
      | running run =>
          cases hongoing : run.ongoing with
          | none =>
              have hadvance : JobWork.advance { setup with listing } (.plain stage node.name)
                    Shared.calm node run =
                  JobWork.advance setup (.plain stage node.name) Shared.calm node run :=
                JobWork.advance_listing (Listing.process_eq_of_list hlisting _ _)
              simp only [JobWork.next, hongoing, hadvance]
          | some ongoing =>
              simp only [JobWork.next, hongoing, JobWork.answered, JobWork.answer_listing]
              cases hcall : ongoing.call with
              | attempt invocation number =>
                  obtain ⟨hstage, hjob⟩ := hbelongs _ rfl invocation number
                    (JobWork.attempt?_of_ongoing hongoing hcall)
                  simp only [hagree invocation number hstage hjob]
              | _ => rfl
      | _ => rfl
  | _ => rfl

theorem belongsTo (hcourse : JobCourse executor setup stage environment node results phase) :
    phase.BelongsTo stage node.name := by
  induction hcourse with
  | refl => exact Phase.belongsTo_of_attempt?_eq_none rfl
  | tail _ hnext ih => exact belongsTo_next ih hnext

/-- Only what an executor answers to the attempts of the job itself matters, and how the variables
of its steps are listed. -/
theorem congr (hcourse : JobCourse executor setup stage environment node results phase)
    (hagree : ∀ invocation number, invocation.stage = stage → invocation.job = node.name →
      executor invocation number = other invocation number)
    (hlisting : setup.listing.list stage node.name = listing.list stage node.name) :
    JobCourse other { setup with listing } stage environment node results phase := by
  induction hcourse with
  | refl => exact .refl
  | tail hearlier hnext ih =>
      rw [next_congr (belongsTo hearlier) hagree hlisting] at hnext
      exact ih.tail hnext

end JobCourse

end BuildPipeline
