import BuildPipeline.Proofs.Run.StepPlaces

/-!
# The step that a job is at

A running job is at the first step without a result.  Whatever it does, also in a cancelled run, it
does with this step: it calls for something, takes a result, ends because there is no such step, or
breaks off.

* `JobEvent.AreAbout` says of some entries of a log that they tell of no other step.
* `JobRun.Proceeds` are the ways to go on, and `JobRun.proceeds_of_moves` shows that there are no
  others.
-/

namespace BuildPipeline

/-! ## Entries about one step -/

namespace JobEvent

/-- Some entries tell of one step, or of none. -/
def AreAbout (index : Nat) (events : List JobEvent) : Prop :=
  ∀ event ∈ events, ∀ number ∈ event.step?, number = index

variable {index : Nat} {events more : List JobEvent}

theorem areAbout_nil (index : Nat) : AreAbout index [] :=
  List.forall_mem_nil _

theorem areAbout_singleton {event : JobEvent} (hevent : ∀ number ∈ event.step?, number = index) :
    AreAbout index [event] :=
  List.forall_mem_singleton.mpr hevent

theorem AreAbout.append (hevents : AreAbout index events) (hmore : AreAbout index more) :
    AreAbout index (events ++ more) :=
  List.forall_mem_append.mpr ⟨hevents, hmore⟩

theorem areAbout_stepStarted (index : Nat) (label : String) :
    AreAbout index [.stepStarted index label] :=
  areAbout_singleton fun _ hnumber => (Option.some.inj hnumber).symm

theorem areAbout_called (index : Nat) (call : Call) : AreAbout index [.called index call] :=
  areAbout_singleton fun _ hnumber => (Option.some.inj hnumber).symm

theorem areAbout_settle (outcome : Outcome) (environment : Environment) (index : Nat) (step : Step)
    (failure : Status) : AreAbout index (outcome.settle environment index step failure).events := by
  obtain ⟨reports, hreports, hevents⟩ := outcome.events_settle environment index step failure
  rw [hevents]
  refine AreAbout.append (fun event hevent => (hreports event hevent).step?_eq.2) ?_
  exact areAbout_singleton fun _ hnumber => (Option.some.inj hnumber).symm

end JobEvent

/-! ## Ways to go on -/

/-- What a move makes of a running job. -/
inductive JobRun.Proceeds (node : JobNode) (run : JobRun) : Phase JobWork JobResult → Prop
  | calls {next : JobRun} (hresults : next.results = run.results)
      (hcalling : next.ongoing.isSome = true) : Proceeds node run (.active (.running next))
  | takes {next : JobRun} {result : StepResult} (hresults : next.results = run.results ++ [result])
      (hidle : next.ongoing = none) : Proceeds node run (.active (.running next))
  | ends (hover : node.job.steps[run.results.length]? = none) :
      Proceeds node run (.returned (run.result node))
  | dies : Proceeds node run .died

namespace JobRun

variable {setup : Setup} {place : Place} {environment : Environment} {shared : Shared}
  {node : JobNode} {run : JobRun} {move : JobMove} {turn : JobTurn}

theorem proceeds_of_advances (hadvances : JobWork.Advances setup place shared node run turn) :
    run.Proceeds node turn.phase ∧ JobEvent.AreAbout run.results.length turn.events := by
  cases hadvances with
  | ended hover =>
      exact ⟨.ends hover, JobEvent.areAbout_singleton fun _ hnumber => by cases hnumber⟩
  | canceled => exact ⟨.takes rfl rfl, JobEvent.areAbout_nil _⟩
  | skipped =>
      refine ⟨.takes rfl rfl, JobEvent.areAbout_singleton fun _ hnumber => ?_⟩
      exact (Option.some.inj hnumber).symm
  | refused => exact ⟨.takes rfl rfl, JobEvent.areAbout_nil _⟩
  | immediate =>
      exact ⟨.takes rfl rfl,
        (JobEvent.areAbout_stepStarted _ _).append (JobEvent.areAbout_settle _ _ _ _ _)⟩
  | calling =>
      exact ⟨.calls rfl rfl,
        (JobEvent.areAbout_stepStarted _ _).append (JobEvent.areAbout_called _ _)⟩

theorem proceeds_of_answers {declared : Step} {ongoing : Ongoing} {reply : Reply}
    (hanswers : JobWork.Answers shared run declared ongoing reply turn) :
    run.Proceeds node turn.phase ∧ JobEvent.AreAbout run.results.length turn.events := by
  -- However the step has come to its outcome, the outcome ends it.
  have hended : ∀ (outcome : Outcome) (shared : Shared) (reports : List JobEvent),
      JobEvent.AreAbout run.results.length reports →
      run.Proceeds node (JobWork.conclude shared run declared ongoing.step ongoing.failure outcome
          reports).phase ∧
        JobEvent.AreAbout run.results.length (JobWork.conclude shared run declared ongoing.step
          ongoing.failure outcome reports).events :=
    fun outcome shared reports hreports =>
      ⟨.takes rfl rfl, hreports.append (JobEvent.areAbout_settle _ _ _ _ _)⟩
  cases hanswers with
  | attempt =>
      unfold JobWork.takeOutcome
      split
      · exact hended _ _ _ (JobEvent.areAbout_nil _)
      · exact ⟨.calls rfl rfl, JobEvent.areAbout_called _ _⟩
  | published =>
      exact hended _ _ _ (JobEvent.areAbout_singleton fun _ hnumber => by cases hnumber)
  | refused => exact hended _ _ _ (JobEvent.areAbout_nil _)
  | download => exact hended _ _ _ (JobEvent.areAbout_nil _)

/-- A running job goes on in one of these ways, and tells of the step that it is at. -/
theorem proceeds_of_moves
    (hmoves : (JobWork.running run).Moves setup place environment shared node move turn) :
    run.Proceeds node turn.phase ∧ JobEvent.AreAbout run.results.length turn.events := by
  cases hmoves with
  | advance => exact proceeds_of_advances (JobWork.advances_of_advance rfl)
  | answer _ _ hanswer => exact proceeds_of_answers (JobWork.answers_of_answer hanswer)
  | die => exact ⟨.dies, JobEvent.areAbout_nil _⟩

end JobRun

end BuildPipeline
