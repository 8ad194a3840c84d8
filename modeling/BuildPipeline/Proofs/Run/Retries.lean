import BuildPipeline.Proofs.Run.Attempts

/-!
# Retries

How often a job hands each of its steps to the executor, and which of the outcomes it keeps.

* `JobRun.Retries` says of a step that its attempts were exactly those that it was to have, and that
  the job goes on with the outcome of the last one.  Nothing of the earlier outcomes is left.
* `JobNode.Takes` follows a job from state to state, one step after the other.
* `JobNode.TryCourse` is the whole course of a job, and `isCourseUnder_tryCourse` shows that no move
  leaves it.  The attempts that were made so far are its invariant: none of them has stopped.
* `retries_are_exact` is the result, for all complete runs.
-/

namespace BuildPipeline

/-! ## Steps -/

namespace JobRun

/-- What the next step of a job is attempted with. -/
def invocation (setup : Setup) (stage job : String) (run : JobRun) (step : Step) : Invocation :=
  (step.started run.stepContext).invocation setup (.plain stage job) run.environment
    run.results.length

/-- The attempts at the next step of a job are as many as there are to be, and the outcome of the
last one makes the next state. -/
structure Retries (ends : Nat → AttemptEnd) (invocation : Invocation) (run : JobRun) (step : Step)
    (count : Nat) (log : List JobEvent) (next : JobRun) : Prop where
  calls : JobEvent.attempts run.results.length log = invocation.attempts count
  exactly : AttemptEnd.IsCount ends (step.retries.getD 0).toNat count
  last : next = run.after step (.executed (ends count).outcome)
  /-- What the earlier outcomes would set is not set. -/
  environment : next.environment = (applyUpdates run.environment [] (ends count).outcome.vars).1
  /-- A step that is set up to fail at first is successful if there are enough retries. -/
  scripted : ∀ (scripts : Nat → Script) (failures : Nat),
    (scripts 0).IsFlaky invocation.key failures →
    Script.Rehearses scripts invocation (fun number => (ends number).outcome) count →
    (ends count).canceled = false →
      ((run.resultOf step (.executed (ends count).outcome)).status = .succeeded ↔
        failures ≤ (step.retries.getD 0).toNat)

section Steps

variable (setup : Setup) (ends : Invocation → Nat → AttemptEnd) (stage job : String) (run : JobRun)
  (step : Step)

/-- The next step of a job has a result.  It was attempted, or it is no command, is allowed no
attempt or has not started; then it leaves the variables as they are. -/
inductive TakesStep (log : List JobEvent) (next : JobRun) : Prop
  | passed {result : StepResult} (hresults : next.results = run.results ++ [result])
      (henvironment : next.environment = run.environment)
      (hquiet : JobEvent.attempts run.results.length log = [])
      (hreason : step.action.isCommand = false ∨ step.attempts = 0 ∨
        run.results.length ∉ JobEvent.starts log)
  | attempted {count : Nat}
      (hretries : run.Retries (ends (run.invocation setup stage job step))
        (run.invocation setup stage job step) step count log next) :
      TakesStep log next

/-- What a job waits for in its next step: the end of an attempt, none of which has stopped so far,
or the store. -/
inductive Awaits (log : List JobEvent) : Call → Prop
  | attempt {number : Nat} (hcommand : step.action.isCommand = true)
      (hattempts : step.attempts ≠ 0) (hpositive : 1 ≤ number)
      (hbound : number ≤ step.attempts.toNat)
      (hgoOn : AttemptEnd.GoOn (ends (run.invocation setup stage job step)) number)
      (hcalls : JobEvent.attempts run.results.length log =
        (run.invocation setup stage job step).attempts number) :
      Awaits log (.attempt (run.invocation setup stage job step) number)
  | store {call : Call} (hcommand : step.action.isCommand = false)
      (hcall : ∀ invocation number, call ≠ .attempt invocation number)
      (hquiet : JobEvent.attempts run.results.length log = []) :
      Awaits log call

end Steps

variable {setup : Setup} {ends : Invocation → Nat → AttemptEnd} {stage job : String}
  {run next : JobRun} {step : Step} {log more : List JobEvent}

theorem status_executed_iff (run : JobRun) (step : Step) (outcome : Outcome) :
    (run.resultOf step (.executed outcome)).status = .succeeded ↔ outcome.success = true := by
  rw [status_resultOf, StepFate.status, Step.failureStatus]
  by_cases hsuccess : outcome.success = true
  · simp [hsuccess]
  · rw [if_neg hsuccess]
    split <;> simp [hsuccess]

/-- The attempts of a step that ends are as many as there were to be. -/
theorem retries_of_goOn {ends : Nat → AttemptEnd} {invocation : Invocation} {count : Nat}
    (hcalls : JobEvent.attempts run.results.length log = invocation.attempts count)
    (hgoOn : AttemptEnd.GoOn ends count) (hattempts : step.attempts ≠ 0) (hpositive : 1 ≤ count)
    (hbound : count ≤ step.attempts.toNat)
    (hover : (ends count).stops = true ∨ step.attempts.toNat ≤ count) :
    run.Retries ends invocation step count log
      (run.after step (.executed (ends count).outcome)) := by
  rw [Step.toNat_attempts hattempts] at hbound hover
  refine ⟨hcalls, AttemptEnd.isCount_of_goOn hgoOn hpositive hbound hover, rfl, rfl, ?_⟩
  intro scripts failures hflaky hrehearses hlive
  have hlast := hrehearses.success_iff hflaky (count - 1) (by omega)
  rw [Nat.sub_add_cancel hpositive] at hlast
  rw [status_executed_iff, hlast]
  constructor
  · intro hle
    omega
  · intro hle
    rcases hover with hstops | hover
    · rw [← hlast]
      simpa [AttemptEnd.stops, hlive] using hstops
    · omega

/-- A step that is no command or is allowed no attempt can end without setting variables. -/
theorem takesStep_of_settled {outcome : Outcome}
    (hreason : step.action.isCommand = false ∨ step.attempts = 0) (hvars : outcome.vars = [])
    (hquiet : JobEvent.attempts run.results.length log = []) :
    run.TakesStep setup ends stage job step log (run.after step (.executed outcome)) := by
  have henvironment : (run.after step (.executed outcome)).environment = run.environment := by
    simp [after, concluded, record, Outcome.settle, hvars, applyUpdates]
  exact .passed (run.results_after step _) henvironment hquiet (hreason.imp_right .inl)

/-- A step that has just called waits for the end of its first attempt, or for the store. -/
theorem awaits_of_calls {place : Place} {ledger after : Ledger} {call : Call} (label : String)
    (hstage : place.stage = stage) (hjob : place.job = job)
    (hcalls : (step.started run.stepContext).action.Calls setup place ledger
      ((step.started run.stepContext).invocation setup place run.environment
        run.results.length) call after)
    (hquiet : JobEvent.attempts run.results.length log = []) :
    run.Awaits setup ends stage job step
      (log ++ [.stepStarted run.results.length label, .called run.results.length call]) call := by
  have hinvocation : (step.started run.stepContext).invocation setup place run.environment
      run.results.length = run.invocation setup stage job step := by
    subst hstage hjob
    rfl
  have hcommand := step.isCommand_started run.stepContext
  rw [hinvocation] at hcalls
  generalize (step.started run.stepContext).action = action at hcalls hcommand
  have hfirst : JobEvent.attempts run.results.length
      (log ++ [.stepStarted run.results.length label, .called run.results.length
        (.attempt (run.invocation setup stage job step) 1)]) =
      (run.invocation setup stage job step).attempts 1 := by
    simp [hquiet, JobEvent.attempts_cons, JobEvent.attempt?, Invocation.attempts]
  have hpositive : step.attempts ≠ 0 → 1 ≤ step.attempts.toNat := fun hattempts => by
    rw [Step.toNat_attempts hattempts]
    exact Nat.le_add_left 1 _
  cases hcalls with
  | shell hattempts =>
      exact .attempt hcommand.symm hattempts le_rfl (hpositive hattempts)
        (AttemptEnd.goOn_one _) hfirst
  | task hattempts =>
      exact .attempt hcommand.symm hattempts le_rfl (hpositive hattempts)
        (AttemptEnd.goOn_one _) hfirst
  | publish =>
      refine .store hcommand.symm (by simp) ?_
      simp [hquiet, JobEvent.attempts_cons, JobEvent.attempt?]
  | download =>
      refine .store hcommand.symm (by simp) ?_
      simp [hquiet, JobEvent.attempts_cons, JobEvent.attempt?]

/-- A step that is tried again waits for the end of one more attempt. -/
theorem awaits_again {number : Nat} (hcommand : step.action.isCommand = true)
    (hattempts : step.attempts ≠ 0) (hfewer : number < step.attempts.toNat)
    (hgoOn : AttemptEnd.GoOn (ends (run.invocation setup stage job step)) (number + 1))
    (hcalls : JobEvent.attempts run.results.length log =
      (run.invocation setup stage job step).attempts number) :
    run.Awaits setup ends stage job step
      (log ++ [.called run.results.length
        (.attempt (run.invocation setup stage job step) (number + 1))])
      (.attempt (run.invocation setup stage job step) (number + 1)) := by
  refine .attempt hcommand hattempts (by omega) hfewer hgoOn ?_
  simp [hcalls, Invocation.attempts_succ, JobEvent.attempts_cons, JobEvent.attempt?]

theorem TakesStep.length_eq (htakes : run.TakesStep setup ends stage job step log next) :
    next.results.length = run.results.length + 1 := by
  cases htakes with
  | passed hresults => simp [hresults]
  | attempted hretries => simp [hretries.last]

/-- Entries about other steps do not matter. -/
theorem TakesStep.append (htakes : run.TakesStep setup ends stage job step log next)
    (hother : ∀ event ∈ more, event.step? ≠ some run.results.length) :
    run.TakesStep setup ends stage job step (log ++ more) next := by
  have hattempts : JobEvent.attempts run.results.length (log ++ more) =
      JobEvent.attempts run.results.length log := by
    rw [JobEvent.attempts_append, JobEvent.attempts_eq_nil hother, List.append_nil]
  cases htakes with
  | passed hresults henvironment hquiet hreason =>
      refine .passed hresults henvironment (hattempts.trans hquiet)
        (hreason.imp_right (Or.imp_right ?_))
      intro hfresh hstart
      rw [JobEvent.starts_append, List.mem_append] at hstart
      rcases hstart with hold | hnew
      · exact hfresh hold
      · obtain ⟨event, hevent, habout⟩ := JobEvent.step?_of_starts hnew
        exact hother event hevent habout
  | attempted hretries => exact .attempted { hretries with calls := hattempts.trans hretries.calls }

end JobRun

/-! ## Jobs -/

namespace JobNode

section Jobs

variable (setup : Setup) (ends : Invocation → Nat → AttemptEnd) (stage : String) (node : JobNode)

/-- A job goes from state to state, one step after the other. -/
structure Takes (states : Nat → JobRun) (count : Nat) (log : List JobEvent) : Prop where
  length : ∀ index ≤ count, (states index).results.length = index
  steps : ∀ index < count, ∃ step, node.job.steps[index]? = some step ∧
    (states index).TakesStep setup ends stage node.name step log (states (index + 1))

/-- A job is between two steps. -/
structure Rests (states : Nat → JobRun) (count : Nat) (log : List JobEvent) : Prop where
  takes : node.Takes setup ends stage states count log
  precede : JobEvent.Precede count log
  idle : (states count).ongoing = none

/-- A job is between two steps, or waits in the middle of one. -/
inductive IsAt : JobRun → List JobEvent → Prop
  | between {states : Nat → JobRun} {count : Nat} {log : List JobEvent}
      (hrests : node.Rests setup ends stage states count log) : IsAt (states count) log
  | within {states : Nat → JobRun} {count : Nat} {log : List JobEvent} {step : Step} {call : Call}
      (htakes : node.Takes setup ends stage states count log)
      (hprecede : JobEvent.Precede (count + 1) log)
      (hdeclared : node.job.steps[count]? = some step)
      (hawaits : (states count).Awaits setup ends stage node.name step log call) :
      IsAt ((states count).calling step call) log

/-- The attempts in the log of a job are exact: it has not started, it has taken all its steps, or
it has broken off on the way. -/
inductive TriesExactly : JobResult → List JobEvent → Prop
  | unstarted {result : JobResult} {log : List JobEvent}
      (hsilent : log.any JobEvent.isStart = false)
      (hquiet : ∀ index, JobEvent.attempts index log = []) : TriesExactly result log
  | ended {states : Nat → JobRun} {log : List JobEvent}
      (hrests : node.Rests setup ends stage states node.job.steps.length log) :
      TriesExactly ((states node.job.steps.length).result node) log
  | brokeOff {result : JobResult} {run : JobRun} {log : List JobEvent}
      (hlost : result = StageRun.lostJob node ∨ result = StageRun.unreleasedJob node)
      (hat : node.IsAt setup ends stage run log) : TriesExactly result log

end Jobs

variable {setup : Setup} {ends : Invocation → Nat → AttemptEnd} {stage : String} {node : JobNode}
  {states : Nat → JobRun} {count : Nat} {log more : List JobEvent}

theorem Takes.append (htakes : node.Takes setup ends stage states count log)
    (hother : ∀ index < count, ∀ event ∈ more, event.step? ≠ some index) :
    node.Takes setup ends stage states count (log ++ more) := by
  refine ⟨htakes.length, fun index hindex => ?_⟩
  obtain ⟨step, hdeclared, hstep⟩ := htakes.steps index hindex
  refine ⟨step, hdeclared, hstep.append ?_⟩
  rw [htakes.length index hindex.le]
  exact hother index hindex

theorem Takes.count_le (htakes : node.Takes setup ends stage states count log) :
    count ≤ node.job.steps.length := by
  by_contra hmore
  obtain ⟨step, hdeclared, -⟩ := htakes.steps node.job.steps.length (by omega)
  simp at hdeclared

/-- One more step. -/
theorem Takes.concat {step : Step} {next : JobRun}
    (htakes : node.Takes setup ends stage states count log)
    (habout : JobEvent.AreAbout count more) (hdeclared : node.job.steps[count]? = some step)
    (hstep : (states count).TakesStep setup ends stage node.name step (log ++ more) next) :
    node.Takes setup ends stage (Function.update states (count + 1) next) (count + 1)
      (log ++ more) := by
  have hkept := htakes.append fun index hindex => habout.step?_ne hindex.ne
  constructor
  · intro index hindex
    by_cases hlast : index = count + 1
    · subst hlast
      rw [Function.update_self, hstep.length_eq, htakes.length count le_rfl]
    · rw [Function.update_of_ne hlast]
      exact htakes.length index (by omega)
  · intro index hindex
    by_cases hlast : index = count
    · subst hlast
      rw [Function.update_self, Function.update_of_ne (by omega)]
      exact ⟨step, hdeclared, hstep⟩
    · rw [Function.update_of_ne (by omega), Function.update_of_ne (by omega)]
      exact hkept.steps index (by omega)

/-- After one more step a job is at the next one. -/
theorem isAt_of_takesStep {step : Step} {next : JobRun}
    (htakes : node.Takes setup ends stage states count log)
    (hprecede : JobEvent.Precede (count + 1) log)
    (habout : JobEvent.AreAbout (states count).results.length more)
    (hdeclared : node.job.steps[(states count).results.length]? = some step)
    (hidle : next.ongoing = none)
    (hstep : (states count).TakesStep setup ends stage node.name step (log ++ more) next) :
    node.IsAt setup ends stage next (log ++ more) := by
  rw [htakes.length count le_rfl] at habout hdeclared
  have hrests : node.Rests setup ends stage (Function.update states (count + 1) next) (count + 1)
      (log ++ more) :=
    ⟨htakes.concat habout hdeclared hstep, hprecede.append habout.precede,
      by rw [Function.update_self, hidle]⟩
  simpa using IsAt.between hrests

/-- After a call a job is in the middle of its step. -/
theorem isAt_of_awaits {step : Step} {call : Call}
    (htakes : node.Takes setup ends stage states count log)
    (hprecede : JobEvent.Precede (count + 1) log)
    (habout : JobEvent.AreAbout (states count).results.length more)
    (hdeclared : node.job.steps[(states count).results.length]? = some step)
    (hawaits : (states count).Awaits setup ends stage node.name step (log ++ more) call) :
    node.IsAt setup ends stage ((states count).calling step call) (log ++ more) := by
  rw [htakes.length count le_rfl] at habout hdeclared
  have hkept := htakes.append fun index hindex => habout.step?_ne hindex.ne
  exact .within hkept (hprecede.append habout.precede) hdeclared hawaits

/-- More entries about nothing do not move a job. -/
theorem Rests.append_of_silent (hrests : node.Rests setup ends stage states count log)
    (hsilent : ∀ event ∈ more, event.step? = none) :
    node.Rests setup ends stage states count (log ++ more) := by
  refine ⟨hrests.takes.append ?_, hrests.precede.append (JobEvent.precede_of_silent _ hsilent),
    hrests.idle⟩
  intro index _ event hevent habout
  rw [hsilent event hevent] at habout
  cases habout

/-! ## Moves of a job -/

/-- What a job has told and called in its phase. -/
def TryCourse (setup : Setup) (ends : Invocation → Nat → AttemptEnd) : JobNode.Course :=
  fun stage _ node _ phase log =>
    match phase with
    | .active (.running run) => node.IsAt setup ends stage.name run log
    | .active _ => log = []
    | .returned result => node.TriesExactly setup ends stage.name result log
    | .died => log = [] ∨ ∃ run, node.IsAt setup ends stage.name run log
    | _ => False

section Moves

variable {stage : StageNode} {environment : Environment} {dependencies : List JobResult}
  {place : Place} {shared : Shared} {turn : JobTurn}

theorem tryCourse_of_starts {given : List JobResult}
    (hstarts : JobWork.Starts setup environment shared node given turn) :
    TryCourse setup ends stage environment node dependencies turn.phase turn.events := by
  cases hstarts with
  | queued => rfl
  | canceled => exact .unstarted rfl fun _ => rfl
  | skipped => exact .unstarted rfl fun _ => rfl
  | failed => exact .unstarted rfl fun _ => rfl

theorem tryCourse_of_takesAgent {context : Expression.Context}
    (htakes : JobWork.TakesAgent environment shared node context turn) :
    TryCourse setup ends stage environment node dependencies turn.phase turn.events := by
  cases htakes with
  | refused => exact .unstarted rfl fun _ => rfl
  | @running scope =>
      let opened : JobRun :=
        { environment := scope
          context := context.withVariables scope.flatten
          masksFailure := node.job.continueOnError.holds (context.withVariables scope.flatten) }
      have hrests : node.Rests setup ends stage.name (fun _ => opened) 0
          [.started node.job.displayName node.job.steps.length] := by
        refine ⟨⟨fun index hindex => ?_, fun index hindex => by omega⟩, ?_, rfl⟩
        · exact (Nat.le_zero.mp hindex).symm
        · exact JobEvent.precede_of_silent 0 (List.forall_mem_singleton.mpr rfl)
      exact IsAt.between hrests

/-- Between two steps a job takes the next one, or ends after the last one. -/
theorem Rests.advances (hrests : node.Rests setup ends stage.name states count log)
    (hadvances : JobWork.Advances setup place shared node (states count) turn)
    (hstage : place.stage = stage.name) (hjob : place.job = node.name) :
    TryCourse setup ends stage environment node dependencies turn.phase (log ++ turn.events) := by
  have hlength := hrests.takes.length count le_rfl
  have hunlogged := hrests.precede.step?_ne le_rfl
  rw [← hlength] at hunlogged
  have hquiet := JobEvent.attempts_eq_nil hunlogged
  have hlater := hrests.precede.mono (Nat.le_succ count)
  -- A step that is passed over has not started.
  have hpassed : ∀ {step : Step} {result : StepResult} {more : List JobEvent},
      node.job.steps[(states count).results.length]? = some step →
      JobEvent.AreAbout (states count).results.length more →
      JobEvent.attempts (states count).results.length more = [] → JobEvent.starts more = [] →
      node.IsAt setup ends stage.name ((states count).record step result) (log ++ more) := by
    intro step result more hdeclared habout hcalls hstarts
    refine isAt_of_takesStep hrests.takes hlater habout hdeclared rfl ?_
    refine .passed rfl rfl (by rw [JobEvent.attempts_append, hquiet, hcalls]; rfl) (.inr (.inr ?_))
    rw [JobEvent.starts_append, hstarts, List.append_nil]
    intro hstart
    obtain ⟨event, hevent, hindex⟩ := JobEvent.step?_of_starts hstart
    exact hunlogged event hevent hindex
  cases hadvances with
  | ended hover =>
      have hleast : node.job.steps.length ≤ count := hlength ▸ List.getElem?_eq_none_iff.mp hover
      obtain rfl : count = node.job.steps.length := le_antisymm hrests.takes.count_le hleast
      exact .ended (hrests.append_of_silent (List.forall_mem_singleton.mpr rfl))
  | canceled hdeclared => exact hpassed hdeclared (JobEvent.areAbout_nil _) rfl rfl
  | skipped hdeclared =>
      refine hpassed hdeclared (JobEvent.areAbout_singleton fun _ hnumber => ?_) rfl rfl
      exact (Option.some.inj hnumber).symm
  | refused hdeclared => exact hpassed hdeclared (JobEvent.areAbout_nil _) rfl rfl
  | @immediate step outcome hdeclared _ hcall =>
      obtain ⟨hreason, hvars⟩ := Action.vars_of_call_eq_error hcall
      rw [Step.isCommand_started] at hreason
      refine isAt_of_takesStep hrests.takes hlater ?_ hdeclared rfl
        (JobRun.takesStep_of_settled hreason hvars ?_)
      · exact (JobEvent.areAbout_stepStarted _ _).append (JobEvent.areAbout_settle _ _ _ _ _)
      · simp [hquiet, JobWork.conclude, JobEvent.attempts_cons, JobEvent.attempt?,
          JobEvent.attempts_settle]
  | @calling step call after hdeclared _ hcalls =>
      refine isAt_of_awaits hrests.takes hlater ?_ hdeclared
        (JobRun.awaits_of_calls _ hstage hjob hcalls hquiet)
      exact (JobEvent.areAbout_stepStarted _ _).append (JobEvent.areAbout_called _ _)

/-- In the middle of a step a job takes the end of it, or makes one more attempt. -/
theorem tryCourse_of_answer {step declared : Step} {call : Call} {ongoing : Ongoing} {reply : Reply}
    (htakes : node.Takes setup ends stage.name states count log)
    (hprecede : JobEvent.Precede (count + 1) log)
    (hstep : node.job.steps[count]? = some step)
    (hawaits : (states count).Awaits setup ends stage.name node.name step log call)
    (hongoing : ((states count).calling step call).ongoing = some ongoing)
    (hdeclared : node.job.steps[((states count).calling step call).results.length]? = some declared)
    (hanswer : JobWork.answer setup shared ((states count).calling step call) declared ongoing
      reply = some turn)
    (hplays : JobWork.Plays setup ends shared (.running ((states count).calling step call))
      (.answer reply)) :
    TryCourse setup ends stage environment node dependencies turn.phase (log ++ turn.events) := by
  have hlength := htakes.length count le_rfl
  change node.job.steps[(states count).results.length]? = some declared at hdeclared
  obtain rfl : declared = step := by
    rw [hlength, hstep] at hdeclared
    exact (Option.some.inj hdeclared).symm
  obtain rfl := Option.some.inj hongoing
  -- The end of the step is about no other one.
  have hsettle := fun outcome : Outcome =>
    JobEvent.areAbout_settle outcome (states count).environment (states count).results.length
      (declared.started (states count).stepContext)
      (declared.failureStatus (states count).stepContext)
  cases hawaits with
  | @attempt number hcommand hattempts hpositive hbound hgoOn hcalls =>
      -- No attempt before this one has stopped.  If it does not stop either, it is one more of them.
      have hturn := JobWork.answer_of_plays hanswer hongoing rfl rfl hplays
      split_ifs at hturn with hover
      · subst hturn
        refine isAt_of_takesStep htakes hprecede (hsettle _) hdeclared rfl
          (.attempted (JobRun.retries_of_goOn ?_ hgoOn hattempts hpositive hbound hover))
        exact (JobEvent.attempts_append_settle _ _ _ _ (JobEvent.attempts_nil _)).trans hcalls
      · subst hturn
        obtain ⟨hgoes, hfewer⟩ := not_or.mp hover
        rw [Bool.not_eq_true] at hgoes
        exact isAt_of_awaits htakes hprecede (JobEvent.areAbout_called _ _) hdeclared
          (JobRun.awaits_again hcommand hattempts (not_le.mp hfewer) (hgoOn.succ hgoes) hcalls)
  | store hcommand hcall hquiet =>
      obtain ⟨outcome, after, reports, hvars, habout, hreports, rfl⟩ :=
        JobWork.answer_of_stored hanswer hcall
      refine isAt_of_takesStep htakes hprecede (habout.append (hsettle outcome)) hdeclared rfl
        (JobRun.takesStep_of_settled (.inl hcommand) hvars ?_)
      exact (JobEvent.attempts_append_settle _ _ _ _ hreports).trans hquiet

/-- No move of a job leaves its course. -/
theorem isCourseUnder_tryCourse (setup : Setup) (ends : Invocation → Nat → AttemptEnd) :
    JobNode.IsCourseUnder setup (JobWork.Plays setup ends) (TryCourse setup ends) where
  start _ _ _ _ := rfl
  moves {_ _ _ _ _ work _ _ log} hcourse hmoves hplays := by
    cases hmoves with
    | start given =>
        obtain rfl : log = [] := hcourse
        exact tryCourse_of_starts (JobWork.starts_of_start rfl)
    | takeAgent context =>
        obtain rfl : log = [] := hcourse
        exact tryCourse_of_takesAgent (JobWork.takesAgent_of_takeAgent rfl)
    | withdraw context hcanceled =>
        obtain rfl : log = [] := hcourse
        exact .unstarted rfl fun _ => rfl
    | advance run hidle =>
        cases hcourse with
        | between hrests => exact hrests.advances (JobWork.advances_of_advance rfl) rfl rfl
        | within => cases hidle
    | answer hongoing hdeclared hanswer =>
        cases hcourse with
        | between hrests =>
            rw [hrests.idle] at hongoing
            cases hongoing
        | within htakes hprecede hstep hawaits =>
            exact tryCourse_of_answer htakes hprecede hstep hawaits hongoing hdeclared hanswer
              hplays
    | die =>
        rw [JobWork.die, List.append_nil]
        cases work with
        | running run => exact .inr ⟨run, hcourse⟩
        | released given => exact .inl hcourse
        | queued context => exact .inl hcourse

end Moves

/-- A job that is lost has tried exactly, wherever it was. -/
theorem triesExactly_of_lost {node : StageNode} {job : JobNode} {environment : Environment}
    {dependencies : List JobResult} {phase : Phase JobWork JobResult} {result : JobResult}
    {log : List JobEvent}
    (hcourse : TryCourse setup ends node environment job dependencies phase log)
    (hlost : result = StageRun.lostJob job ∨ result = StageRun.unreleasedJob job) :
    job.TriesExactly setup ends node.name result log := by
  cases phase with
  | waiting => cases hcourse
  | closed => cases hcourse
  | active work =>
      cases work with
      | running run => exact .brokeOff hlost hcourse
      | released given =>
          obtain rfl : log = [] := hcourse
          exact .unstarted rfl fun _ => rfl
      | queued context =>
          obtain rfl : log = [] := hcourse
          exact .unstarted rfl fun _ => rfl
  | returned given =>
      cases hcourse with
      | unstarted hsilent hquiet => exact .unstarted hsilent hquiet
      | ended hrests => exact .brokeOff hlost (.between hrests)
      | brokeOff _ hat => exact .brokeOff hlost hat
  | died =>
      rcases hcourse with rfl | ⟨run, hat⟩
      · exact .unstarted rfl fun _ => rfl
      · exact .brokeOff hlost hat

/-- A job that is on its course in the end has tried exactly. -/
theorem triesExactly_of_endsOn {node : StageNode} {job : JobNode} {result : JobResult}
    {log : List JobEvent}
    (hends : job.EndsOn (TryCourse setup ends) node result log ∨
      result = StageRun.unreleasedJob job ∧ job.StopsOn (TryCourse setup ends) node log) :
    job.TriesExactly setup ends node.name result log := by
  rcases hends with hends | ⟨rfl, hstops⟩
  · cases hends with
    | returned hcourse => exact hcourse
    | died hcourse => exact triesExactly_of_lost hcourse (.inl rfl)
    | silent => exact .unstarted rfl fun _ => rfl
  · cases hstops with
    | waiting => exact .unstarted rfl fun _ => rfl
    | onCourse hcourse => exact triesExactly_of_lost hcourse (.inr rfl)

end JobNode

/-- Retries are exact, in every complete run and for all ways in which the attempts of its steps can
end: a command that has started was handed to the executor until an attempt succeeded, the run was
cancelled after one, or all retries were used up, and not once more.  Its result and the variables
after it come from the last attempt alone.  So with a scripted executor that is set up to fail some
times a step is successful if there are as many retries, and only then. -/
theorem retries_are_exact {setup : Setup} {ends : Invocation → Nat → AttemptEnd} {state : RunState}
    {earlier : List RunState} (hdistinct : setup.graph.DistinctNames)
    (hhistory : RunState.History setup
      (fun state move => state.Meets (StageWork.Meets (JobWork.Plays setup ends)) move)
      (state :: earlier))
    (hcomplete : state.isComplete = true) :
    List.Forall₂ (fun node stage =>
        List.Forall₂ (fun job result =>
            job.TriesExactly setup ends node.name result (state.logOf node.name job.name))
          node.jobs stage.jobs)
      setup.graph.stages (state.result setup).stages := by
  have hjobs := RunState.forall₂_jobs_under (JobNode.isCourseUnder_tryCourse setup ends) hdistinct
    hhistory hcomplete
  exact hjobs.imp fun node stage hstage =>
    hstage.imp fun job result hends => JobNode.triesExactly_of_endsOn hends

namespace Delivery

/-- A job whose only step may be tried twice. -/
def upload : Job :=
  { job := some "upload", steps := [{ step "send" with retries := some 1 }] }

def uploadSetup : Setup where
  name := "upload"
  graph := ⟨[⟨"build", { build with jobs := [upload] }, [], [⟨"upload", upload, []⟩]⟩], []⟩

/-- A script whose step fails once, as it is after some attempts. -/
def uploadScripts : Nat → Script
  | 0 => { flaky := [("send", 1)] }
  | number + 1 => ((uploadScripts number).finish "send").2

/-- The attempts end as the script says. -/
def uploadEnds (invocation : Invocation) (number : Nat) : AttemptEnd :=
  ⟨((uploadScripts (number - 1)).finish invocation.key).1, false⟩

theorem rehearses_upload {invocation : Invocation} (hkey : invocation.key = "send") :
    Script.Rehearses uploadScripts invocation
      (fun number => (uploadEnds invocation number).outcome) 2 := by
  intro number hnumber
  refine ⟨uploadScripts number, .refl, ?_⟩
  simp only [uploadEnds, hkey]
  rcases number with _ | _ | number
  · rfl
  · rfl
  · omega

end Delivery

/-- The step fails once, and succeeds when it is tried again. -/
theorem retries_are_exact_upload :
    Delivery.uploadSetup.graph.DistinctNames ∧ ∃ state earlier,
      RunState.History Delivery.uploadSetup
        (fun state move => state.Meets
          (StageWork.Meets (JobWork.Plays Delivery.uploadSetup Delivery.uploadEnds)) move)
        (state :: earlier) ∧
      state.isComplete = true ∧
      (JobEvent.attempts 0 (state.logOf "build" "upload")).map
        (fun attempt => (attempt.1.key, attempt.2)) = [("send", 1), ("send", 2)] ∧
      (state.result Delivery.uploadSetup).steps.map (·.status) = [.succeeded] ∧
      (∀ invocation : Invocation, invocation.key = "send" →
        (Delivery.uploadScripts 0).IsFlaky invocation.key 1 ∧
          Script.Rehearses Delivery.uploadScripts invocation
            (fun number => (Delivery.uploadEnds invocation number).outcome) 2) ∧
      List.Forall₂ (fun node stage =>
          List.Forall₂ (fun job result =>
              job.TriesExactly Delivery.uploadSetup Delivery.uploadEnds node.name result
                (state.logOf node.name job.name))
            node.jobs stage.jobs)
        Delivery.uploadSetup.graph.stages (state.result Delivery.uploadSetup).stages := by
  let attempts (state : RunState) : List (String × Nat) :=
    (JobEvent.attempts 0 (state.logOf "build" "upload")).map fun attempt =>
      (attempt.1.key, attempt.2)
  let check (state : RunState) : Bool :=
    state.isComplete && (attempts state == [("send", 1), ("send", 2)] &&
      (state.result Delivery.uploadSetup).steps.map (·.status) == [.succeeded])
  obtain ⟨state, earlier, hhistory, hcheck⟩ :=
    RunState.exists_history_of_replay Delivery.uploadSetup
      (fun state move => decide (state.Meets
        (StageWork.Meets (JobWork.Plays Delivery.uploadSetup Delivery.uploadEnds)) move))
      check
      (Delivery.stageMoves 0 [.stage 0 (.job 0 .start), .stage 0 (.job 0 .takeAgent),
        .stage 0 (.job 0 .advance),
        .stage 0 (.job 0 (.answer (.outcome (Script.failure "send")))),
        .stage 0 (.job 0 (.answer (.outcome (Script.success {} "send")))),
        .stage 0 (.job 0 .advance), .stage 0 (.notice 0)])
      (by decide +kernel)
  obtain ⟨hcomplete, hrest⟩ := Bool.and_eq_true_iff.mp hcheck
  obtain ⟨hattempts, hstatuses⟩ := Bool.and_eq_true_iff.mp hrest
  have hplays := hhistory.mono fun _ _ hmove => of_decide_eq_true hmove
  have hdistinct : Delivery.uploadSetup.graph.DistinctNames := ⟨by decide, by decide⟩
  refine ⟨hdistinct, state, earlier, hplays, hcomplete, beq_iff_eq.mp hattempts,
    beq_iff_eq.mp hstatuses, fun invocation hkey => ⟨?_, Delivery.rehearses_upload hkey⟩,
    retries_are_exact hdistinct hplays hcomplete⟩
  rw [hkey]
  exact ⟨by decide, rfl⟩

end BuildPipeline
