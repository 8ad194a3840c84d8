import BuildPipeline.Proofs.Run.StepMoves
import BuildPipeline.Run.Script

/-!
# Attempts at a step

A command is handed to the executor again after a failure, as long as it may be and the run goes on.
This module says how attempts end and how many there are; the jobs that make them come later.

* `AttemptEnd.IsFirstStop` is the end after which no other attempt is made, and
  `AttemptEnd.IsCount` how many are made if there are some retries.
* `JobEvent.attempts` are the attempts at a step in the log of its job.
* `JobWork.Plays` says of a move that attempts end as laid down beforehand, and
  `JobWork.answer_of_plays` what a job makes of such an end.
* `Script.Rehearses` says that a scripted executor answers the attempts.  One that is set up to fail
  at first succeeds as soon as it has failed that often: `Script.Rehearses.success_iff`.
-/

namespace BuildPipeline

/-! ## How attempts end -/

/-- The outcome of an attempt, and whether the run is cancelled by then. -/
structure AttemptEnd where
  outcome : Outcome
  canceled : Bool

namespace AttemptEnd

/-- After a success or in a cancelled run there is no other attempt. -/
def stops (ended : AttemptEnd) : Bool :=
  ended.outcome.success || ended.canceled

/-- No attempt before the one with a number stops.  Attempts are counted from one. -/
def GoOn (ends : Nat → AttemptEnd) (number : Nat) : Prop :=
  ∀ earlier, 1 ≤ earlier → earlier < number → (ends earlier).stops = false

/-- The first attempt that stops. -/
structure IsFirstStop (ends : Nat → AttemptEnd) (number : Nat) : Prop where
  positive : 1 ≤ number
  stops : (ends number).stops = true
  first : GoOn ends number

/-- How many attempts there are with some retries: as many as it takes until one stops, but never
more than the retries and one. -/
structure IsCount (ends : Nat → AttemptEnd) (retries count : Nat) : Prop where
  stopped : ∀ number, IsFirstStop ends number → count = min number (retries + 1)
  unstopped : (∀ number, ¬ IsFirstStop ends number) → count = retries + 1

variable {ends : Nat → AttemptEnd} {number retries count : Nat}

theorem goOn_one (ends : Nat → AttemptEnd) : GoOn ends 1 :=
  fun earlier hpositive hearlier => by omega

theorem GoOn.succ (hgoOn : GoOn ends number) (hstops : (ends number).stops = false) :
    GoOn ends (number + 1) := by
  intro earlier hpositive hearlier
  by_cases hlast : earlier = number
  · rw [hlast, hstops]
  · exact hgoOn earlier hpositive (by omega)

/-- Attempts that end with one that stops, or with the last one that there may be, are as many as
there are to be. -/
theorem isCount_of_goOn (hgoOn : GoOn ends count) (hpositive : 1 ≤ count)
    (hbound : count ≤ retries + 1)
    (hover : (ends count).stops = true ∨ retries + 1 ≤ count) : IsCount ends retries count := by
  -- The first attempt that stops cannot be before the last one that was made, and if that one
  -- stops it cannot be after it.
  constructor
  · intro number hfirst
    have hleast : count ≤ number := by
      by_contra hless
      have hon := hgoOn number hfirst.positive (by omega)
      simp [hfirst.stops] at hon
    rcases hover with hstops | hlast
    · have hmost : number ≤ count := by
        by_contra hless
        have hon := hfirst.first count hpositive (by omega)
        simp [hstops] at hon
      omega
    · omega
  · intro hnone
    rcases hover with hstops | hlast
    · exact absurd ⟨hpositive, hstops, hgoOn⟩ (hnone count)
    · omega

end AttemptEnd

/-! ## Attempts in a log -/

/-- The first attempts at an invocation. -/
def Invocation.attempts (invocation : Invocation) (count : Nat) : List (Invocation × Nat) :=
  (List.range' 1 count).map (invocation, ·)

theorem Invocation.attempts_succ (invocation : Invocation) (count : Nat) :
    invocation.attempts (count + 1) = invocation.attempts count ++ [(invocation, count + 1)] := by
  simp [attempts, List.range'_concat, Nat.add_comm]

namespace JobEvent

/-- The attempt that an entry is about, if it is one at the step with a number. -/
def attempt? (index : Nat) : JobEvent → Option (Invocation × Nat)
  | .called other (.attempt invocation number) =>
    if other = index then some (invocation, number) else none
  | _ => none

/-- The attempts at a step in the log of its job, in order. -/
def attempts (index : Nat) (log : List JobEvent) : List (Invocation × Nat) :=
  log.filterMap (attempt? index)

variable {index number : Nat} {log more : List JobEvent}

@[simp]
theorem attempts_nil (index : Nat) : attempts index [] = [] := rfl

theorem attempts_cons (index : Nat) (event : JobEvent) (log : List JobEvent) :
    attempts index (event :: log) = (event.attempt? index).toList ++ attempts index log := by
  cases hattempt : event.attempt? index <;> simp [attempts, hattempt]

@[simp]
theorem attempts_append (index : Nat) (log more : List JobEvent) :
    attempts index (log ++ more) = attempts index log ++ attempts index more :=
  List.filterMap_append

theorem step?_of_attempt? {event : JobEvent} (hsome : (event.attempt? index).isSome = true) :
    event.step? = some index := by
  cases event with
  | called other call =>
      cases call <;> simp_all [attempt?, step?]
  | _ => simp [attempt?] at hsome

/-- Entries about other steps are no attempts at this one. -/
theorem attempts_eq_nil (hother : ∀ event ∈ log, event.step? ≠ some index) :
    attempts index log = [] := by
  refine List.filterMap_eq_nil_iff.mpr fun event hevent => ?_
  by_contra hsome
  exact hother event hevent (step?_of_attempt? (Option.isSome_iff_ne_none.mpr hsome))

theorem attempts_settle (outcome : Outcome) (environment : Environment) (step : Step)
    (failure : Status) (index : Nat) :
    attempts index (outcome.settle environment index step failure).events = [] := by
  obtain ⟨reports, hreports, hevents⟩ := outcome.events_settle environment index step failure
  have hnone : attempts index reports = [] := by
    refine List.filterMap_eq_nil_iff.mpr fun event hevent => ?_
    cases hreports event hevent <;> rfl
  rw [hevents, attempts_append, hnone]
  rfl

/-- The end of a step is no attempt at it. -/
theorem attempts_append_settle {reports : List JobEvent} (outcome : Outcome)
    (environment : Environment) (step : Step) (failure : Status)
    (hreports : attempts index reports = []) :
    attempts index (log ++ (reports ++
      (outcome.settle environment index step failure).events)) = attempts index log := by
  simp [hreports, attempts_settle]

/-- Some entries are about steps before the one with a number. -/
def Precede (number : Nat) (log : List JobEvent) : Prop :=
  ∀ event ∈ log, ∀ index ∈ event.step?, index < number

theorem precede_of_silent (number : Nat) (hsilent : ∀ event ∈ log, event.step? = none) :
    Precede number log := by
  intro event hevent index hindex
  rw [hsilent event hevent] at hindex
  cases hindex

theorem Precede.mono {later : Nat} (hprecede : Precede number log) (hle : number ≤ later) :
    Precede later log :=
  fun event hevent index hindex => lt_of_lt_of_le (hprecede event hevent index hindex) hle

theorem Precede.append (hprecede : Precede number log) (hmore : Precede number more) :
    Precede number (log ++ more) :=
  List.forall_mem_append.mpr ⟨hprecede, hmore⟩

theorem AreAbout.precede (habout : AreAbout index log) : Precede (index + 1) log := by
  intro event hevent number hnumber
  rw [habout event hevent number hnumber]
  exact Nat.lt_succ_self index

/-- Entries about earlier steps are not about this one. -/
theorem Precede.step?_ne (hprecede : Precede number log) (hle : number ≤ index) :
    ∀ event ∈ log, event.step? ≠ some index := by
  intro event hevent hindex
  have hless := hprecede event hevent index hindex
  omega

theorem AreAbout.step?_ne (habout : AreAbout number log) (hother : index ≠ number) :
    ∀ event ∈ log, event.step? ≠ some index :=
  fun event hevent hindex => hother (habout event hevent index hindex)

end JobEvent

/-! ## Answers to attempts -/

/-- The outcome of an attempt that is answered; none if the answer does not fit. -/
def Reply.outcome? (setup : Setup) (step : Step) : Reply → Option Outcome
  | .outcome given => some given
  | .timedOut => (step.limit? setup).map .timedOut
  | .stored _ => none

/-- If a job is answered, its attempt ends as laid down.  An attempt that runs into its limit has an
outcome like any other. -/
def JobWork.Plays (setup : Setup) (ends : Invocation → Nat → AttemptEnd) (shared : Shared)
    (work : JobWork) : JobMove → Prop
  | .answer reply => ∀ attempt ∈ work.attempt?,
      reply.outcome? setup attempt.1.step = some (ends attempt.1 attempt.2).outcome ∧
        shared.canceled = (ends attempt.1 attempt.2).canceled
  | _ => True

instance (setup : Setup) (ends : Invocation → Nat → AttemptEnd) (shared : Shared) (work : JobWork)
    (move : JobMove) : Decidable (JobWork.Plays setup ends shared work move) :=
  match move with
  | .answer reply =>
    inferInstanceAs (Decidable (∀ attempt ∈ work.attempt?,
      reply.outcome? setup attempt.1.step = some (ends attempt.1 attempt.2).outcome ∧
        shared.canceled = (ends attempt.1 attempt.2).canceled))
  | .start | .takeAgent | .withdraw | .advance | .die => .isTrue trivial

/-- Whether an action is handed to the executor. -/
def Action.isCommand : Action → Bool
  | .shell .. | .task .. => true
  | _ => false

theorem Step.isCommand_started (context : Expression.Context) (step : Step) :
    (step.started context).action.isCommand = step.action.isCommand := by
  rw [Step.started, Step.substitute]
  cases step.action <;> rfl

/-- What is over at once is no command or has no attempts, and sets no variables. -/
theorem Action.vars_of_call_eq_error {action : Action} {setup : Setup} {place : Place}
    {ledger : Ledger} {invocation : Invocation} {outcome : Outcome}
    (hcall : action.call setup place ledger invocation = .error outcome) :
    (action.isCommand = false ∨ invocation.step.attempts = 0) ∧ outcome.vars = [] := by
  cases action with
  | shell kind body workingDirectory =>
      simp only [call] at hcall
      split at hcall <;> cases hcall
      next hattempts => exact ⟨.inr hattempts, rfl⟩
  | task name inputs =>
      simp only [call] at hcall
      split at hcall <;> cases hcall
      next hattempts => exact ⟨.inr hattempts, rfl⟩
  | template path parameters =>
      cases hcall
      exact ⟨.inl rfl, rfl⟩
  | publish path artifact =>
      refine ⟨.inl rfl, ?_⟩
      simp only [call] at hcall
      split at hcall <;> cases hcall
      rfl
  | download source artifact path =>
      refine ⟨.inl rfl, ?_⟩
      simp only [call] at hcall
      split at hcall
      · cases hcall
        rfl
      · split at hcall <;> cases hcall
        rfl

namespace JobWork

variable {setup : Setup} {ends : Invocation → Nat → AttemptEnd} {shared : Shared} {run : JobRun}
  {declared : Step} {ongoing : Ongoing} {reply : Reply} {turn : JobTurn}

/-- An attempt that ends as laid down is followed by another one, or ends the step. -/
theorem answer_of_plays {invocation : Invocation} {number : Nat}
    (hanswer : answer setup shared run declared ongoing reply = some turn)
    (hongoing : run.ongoing = some ongoing) (hcall : ongoing.call = .attempt invocation number)
    (hstep : invocation.step = ongoing.step)
    (hplays : Plays setup ends shared (.running run) (.answer reply)) :
    turn =
      if (ends invocation number).stops = true ∨ ongoing.step.attempts.toNat ≤ number then
        conclude shared run declared ongoing.step ongoing.failure
          (ends invocation number).outcome []
      else
        { phase := .active (.running { run with
            ongoing := some { ongoing with call := .attempt invocation (number + 1) } })
          shared
          events := [.called run.results.length (.attempt invocation (number + 1))] } := by
  obtain ⟨houtcome, hcanceled⟩ :=
    hplays _ (Option.mem_def.mpr (attempt?_of_ongoing hongoing hcall))
  have htaken : takeOutcome shared run declared ongoing invocation number
      (ends invocation number).outcome = turn := by
    cases reply with
    | outcome outcome =>
        obtain rfl : outcome = (ends invocation number).outcome := Option.some.inj houtcome
        simpa [answer, hcall] using hanswer
    | timedOut =>
        rw [hstep] at houtcome
        cases hlimit : ongoing.step.limit? setup with
        | none => simp [Reply.outcome?, hlimit] at houtcome
        | some limit =>
            have hlimited : Outcome.timedOut limit = (ends invocation number).outcome := by
              simpa [Reply.outcome?, hlimit] using houtcome
            simpa [answer, hcall, hlimit, hlimited] using hanswer
    | stored result => cases houtcome
  rw [← htaken, takeOutcome, hcanceled]
  simp only [AttemptEnd.stops, Bool.or_eq_true, decide_eq_true_eq]

/-- The end of a call that is no attempt sets no variables. -/
theorem answer_of_stored (hanswer : answer setup shared run declared ongoing reply = some turn)
    (hcall : ∀ invocation number, ongoing.call ≠ .attempt invocation number) :
    ∃ outcome shared reports, outcome.vars = [] ∧
      JobEvent.AreAbout run.results.length reports ∧
      JobEvent.attempts run.results.length reports = [] ∧
      turn = conclude shared run declared ongoing.step ongoing.failure outcome reports := by
  have hsilent : ∀ artifact, JobEvent.AreAbout run.results.length [.artifactPublished artifact] :=
    fun _ => JobEvent.areAbout_singleton fun _ hnumber => by cases hnumber
  cases hreplied : ongoing.call with
  | attempt invocation number => exact absurd hreplied (hcall invocation number)
  | publish artifact source =>
      rcases reply with _ | _ | _ | _ <;> simp [answer, hreplied] at hanswer
      · exact ⟨_, _, _, rfl, JobEvent.areAbout_nil _, rfl, hanswer.symm⟩
      · exact ⟨_, _, _, rfl, hsilent artifact, rfl, hanswer.symm⟩
  | download artifact target =>
      rcases reply with _ | _ | _ | _ <;> simp [answer, hreplied] at hanswer
      · exact ⟨_, _, _, rfl, JobEvent.areAbout_nil _, rfl, hanswer.symm⟩
      · exact ⟨_, _, _, rfl, JobEvent.areAbout_nil _, rfl, hanswer.symm⟩

end JobWork

/-! ## Scripted executors -/

namespace Script

/-- A script is asked under other keys. -/
def Turns (key : String) : Script → Script → Prop :=
  Relation.ReflTransGen fun before after =>
    ∃ other, other ≠ key ∧ after = (before.finish other).2

/-- A step is set up to fail some more times and then to succeed. -/
structure IsFlaky (script : Script) (key : String) (failures : Nat) : Prop where
  failing : key ∉ script.failing
  flaky : (script.flaky.get? key).getD 0 = failures

/-- A scripted executor gives the outcomes of the first attempts at an invocation, one after the
other.  In between it is asked under other keys only. -/
def Rehearses (scripts : Nat → Script) (invocation : Invocation) (outcomes : Nat → Outcome)
    (count : Nat) : Prop :=
  ∀ number < count, ∃ script, Turns invocation.key (scripts number) script ∧
    script.finish invocation.key = (outcomes (number + 1), scripts (number + 1))

variable {script next : Script} {key : String} {failures : Nat}

theorem IsFlaky.finish_of_ne {other : String} (hflaky : script.IsFlaky key failures)
    (hother : other ≠ key) : (script.finish other).2.IsFlaky key failures := by
  unfold Script.finish
  split
  · exact hflaky
  · split
    · -- Only what is left under the other key is less now.
      refine ⟨hflaky.failing, ?_⟩
      rw [← hflaky.flaky]
      simp [Table.get?_insert, hother]
    · exact hflaky

theorem IsFlaky.turns (hflaky : script.IsFlaky key failures) (hturns : Turns key script next) :
    next.IsFlaky key failures := by
  induction hturns with
  | refl => exact hflaky
  | tail _ hstep ih =>
      obtain ⟨other, hother, rfl⟩ := hstep
      exact ih.finish_of_ne hother

/-- An attempt fails as long as there are failures left, and takes one of them. -/
theorem IsFlaky.finish {outcome : Outcome} (hflaky : script.IsFlaky key failures)
    (hfinish : script.finish key = (outcome, next)) :
    (outcome.success = true ↔ failures = 0) ∧ next.IsFlaky key (failures - 1) := by
  have hleft := hflaky.flaky
  rw [Script.finish, if_neg (by simpa using hflaky.failing)] at hfinish
  split at hfinish
  · next remaining hremaining =>
      obtain ⟨rfl, rfl⟩ := Prod.mk.inj hfinish
      obtain rfl : remaining + 1 = failures := by simpa [hremaining] using hleft
      refine ⟨by simp [failure, Outcome.failed], ?_⟩
      exact ⟨hflaky.failing, by simp [Table.get?_insert]⟩
  · next hnone =>
      obtain ⟨rfl, rfl⟩ := Prod.mk.inj hfinish
      obtain rfl : failures = 0 := by
        rcases hremaining : script.flaky.get? key with _ | _ | remaining
        · simpa [hremaining] using hleft.symm
        · simpa [hremaining] using hleft.symm
        · exact absurd hremaining (hnone remaining)
      exact ⟨by simp [success, Outcome.succeeded], hflaky⟩

/-- A step that is set up to fail at first succeeds with the next attempt after that. -/
theorem Rehearses.success_iff {scripts : Nat → Script} {invocation : Invocation}
    {outcomes : Nat → Outcome} {count : Nat}
    (hrehearses : Rehearses scripts invocation outcomes count)
    (hflaky : (scripts 0).IsFlaky invocation.key failures) :
    ∀ number < count, (outcomes (number + 1)).success = true ↔ failures ≤ number := by
  have hleft : ∀ number ≤ count, (scripts number).IsFlaky invocation.key (failures - number) := by
    intro number
    induction number with
    | zero => exact fun _ => hflaky
    | succ number ih =>
        intro hle
        obtain ⟨script, hturns, hfinish⟩ := hrehearses number (by omega)
        have hbefore := (ih (by omega)).turns hturns
        exact (hbefore.finish hfinish).2
  intro number hless
  obtain ⟨script, hturns, hfinish⟩ := hrehearses number hless
  have hbefore := (hleft number hless.le).turns hturns
  rw [(hbefore.finish hfinish).1]
  omega

end Script

end BuildPipeline
