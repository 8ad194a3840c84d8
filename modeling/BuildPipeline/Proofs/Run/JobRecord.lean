import BuildPipeline.Proofs.Run.DefaultCondition

/-!
# What a job tells

The events of one job, in the order in which they are told, and how they belong to the phase and
the result of the job.

* `StepGroup` are the events about one step.  `Step.Tells` adds the two ways in which a step ends
  without a word: it is cancelled, or its condition cannot be evaluated.
* `JobNode.StepsTell` puts the groups of the steps one behind the other.
* `JobNode.Story` is the whole story of a job with a result; `JobNode.Records` says how far it has
  come in any phase, and `JobNode.Records.moves` is the step lemma.

A job without a condition opens only after successful dependencies (`JobNode.Opens`); this is
recorded along with the events.  A job may break off with a call that is not answered, but not at
any other time.  Whether the run may be cancelled is a parameter.
-/

namespace BuildPipeline

/-! ## Steps -/

/-- Whether an event belongs to the progress that is told. -/
def JobEvent.isTold : JobEvent → Bool
  | .called .. => false
  | _ => true

/-- The events that a step with a number reports while it runs. -/
inductive JobEvent.Reports (index : Nat) : JobEvent → Prop
  | output (line : String) : Reports index (.stepOutput index line)
  | variable (name value : String) (isOutput : Bool) :
      Reports index (.variableSet name value isOutput)
  | artifact (artifact : String) : Reports index (.artifactPublished artifact)

theorem JobEvent.Reports.isTold {index : Nat} {event : JobEvent}
    (hreports : event.Reports index) : event.isTold = true := by
  cases hreports <;> rfl

/-- The events about one step with a result: that it was skipped, or that it started, what it
reported, and that it was completed. -/
inductive StepGroup (index : Nat) (result : StepResult) : List JobEvent → Prop
  | skipped {reason : String} (hstatus : result.status = .skipped) :
      StepGroup index result [.stepSkipped index reason]
  | ran {label : String} {reports : List JobEvent} (hstatus : result.status ≠ .skipped)
      (hreports : ∀ event ∈ reports, event.Reports index) :
      StepGroup index result (.stepStarted index label :: reports ++
        [.stepCompleted index result.status result.exitCode])

/-- Whether a result is that of a step whose condition could not be evaluated. -/
def Step.IsRefused (step : Step) (result : StepResult) : Prop :=
  ∃ context error,
    Expression.evaluateCondition context (step.condition.getD defaultCondition) = .error error ∧
      result = { StepResult.ofStep step (step.failureStatus context) with
        error := some error.message }

/-- What a job tells of a step, with the result of the step. -/
inductive Step.Tells (mayCancel : Bool) (step : Step) (index : Nat) :
    StepResult → List JobEvent → Prop
  | canceled (hcancel : mayCancel = true) :
      Tells mayCancel step index (.ofStep step .canceled) []
  | refused {result : StepResult} (hrefused : step.IsRefused result) :
      Tells mayCancel step index result []
  | group {result : StepResult} {events : List JobEvent}
      (hgroup : StepGroup index result events) : Tells mayCancel step index result events

theorem Step.failureStatus_ne_skipped (context : Expression.Context) (step : Step) :
    step.failureStatus context ≠ .skipped := by
  unfold failureStatus
  split <;> exact fun heq => nomatch heq

/-- A step is refused on its condition only. -/
theorem Step.isRefused_of_begin {setup : Setup} {place : Place} {ledger : Ledger}
    {environment : Environment} {context : Expression.Context} {index : Nat} {step : Step}
    {failure : Status} {error : String}
    (hbegin : step.begin setup place ledger environment context index = .refused failure error) :
    step.IsRefused
      { StepResult.ofStep step (step.failureStatus context) with error := some error } := by
  have hdecides := step.decides_of_begin setup place ledger environment context index
  rw [hbegin] at hdecides
  cases hdecides with
  | refused hcondition => exact ⟨context, _, hcondition, rfl⟩

theorem reports_of_mem_applyUpdates (index : Nat) {environment : Environment}
    {outputs : Table String} {updates : List VariableUpdate} :
    ∀ event ∈ (applyUpdates environment outputs updates).2.2, event.Reports index := by
  induction updates generalizing environment outputs with
  | nil => exact fun _ hevent => nomatch hevent
  | cons update rest ih =>
      unfold applyUpdates
      split
      · exact ih
      · exact List.forall_mem_cons.mpr ⟨.variable _ _ _, ih⟩

/-- The end of a step is its reports and the news of its completion. -/
theorem Outcome.events_settle (outcome : Outcome) (environment : Environment) (index : Nat)
    (step : Step) (failure : Status) :
    ∃ reports, (∀ event ∈ reports, event.Reports index) ∧
      (outcome.settle environment index step failure).events = reports ++
        [.stepCompleted index (outcome.settle environment index step failure).result.status
          (outcome.settle environment index step failure).result.exitCode] := by
  refine ⟨(Text.lines outcome.output).map (.stepOutput index ·) ++
    (applyUpdates environment [] outcome.vars).2.2, fun event hevent => ?_, rfl⟩
  rcases List.mem_append.mp hevent with hline | hupdate
  · obtain ⟨line, -, rfl⟩ := List.mem_map.mp hline
    exact .output line
  · exact reports_of_mem_applyUpdates index event hupdate

theorem Outcome.status_settle_ne_skipped (outcome : Outcome) (environment : Environment)
    (index : Nat) (step : Step) {failure : Status} (hfailure : failure ≠ .skipped) :
    (outcome.settle environment index step failure).result.status ≠ .skipped := by
  change (if outcome.success then Status.succeeded else failure) ≠ .skipped
  split
  · exact fun heq => nomatch heq
  · exact hfailure

/-! ## The story of a job -/

namespace JobNode

/-- What a job tells of its first steps, one after the other. -/
inductive StepsTell (mayCancel : Bool) (node : JobNode) : List StepResult → List JobEvent → Prop
  | nil : StepsTell mayCancel node [] []
  | snoc {results : List StepResult} {told events : List JobEvent} {step : Step}
      {result : StepResult} (hbefore : StepsTell mayCancel node results told)
      (hstep : node.job.steps[results.length]? = some step)
      (htells : step.Tells mayCancel results.length result events) :
      StepsTell mayCancel node (results ++ [result]) (told ++ events)

/-- A job without a condition opens only if its dependencies were successful. -/
def Opens (node : JobNode) (dependencies : List JobResult) : Prop :=
  node.job.condition = none → ∀ dependency ∈ dependencies, dependency.status.isSuccess = true

/-- The news that a job has started. -/
def startEvent (node : JobNode) : JobEvent :=
  .started node.job.displayName node.job.steps.length

/-- The whole story of a job with a result. -/
inductive Story (mayCancel : Bool) (node : JobNode) (dependencies : List JobResult) :
    JobResult → List JobEvent → Prop
  | canceled (hcancel : mayCancel = true) :
      Story mayCancel node dependencies (.notRun node .canceled .canceled none) []
  | skipped (reason : String) :
      Story mayCancel node dependencies (.notRun node .skipped .skipped none) [.skipped reason]
  | failed (error : String) (hopens : node.Opens dependencies) :
      Story mayCancel node dependencies (.notRun node .failed .skipped (some error)) []
  | ran {result : JobResult} {told : List JobEvent} (hopens : node.Opens dependencies)
      (hname : result.name = node.name) (hsteps : node.StepsTell mayCancel result.steps told)
      (hover : node.job.steps[result.steps.length]? = none) :
      Story mayCancel node dependencies result
        (node.startEvent :: told ++ [.completed result.status])

/-- What a running job has told so far. -/
inductive Running (mayCancel : Bool) (node : JobNode) (run : JobRun) : List JobEvent → Prop
  | idle {told : List JobEvent} (hidle : run.ongoing = none)
      (hsteps : node.StepsTell mayCancel run.results told) :
      Running mayCancel node run (node.startEvent :: told)
  | calling {ongoing : Ongoing} {told : List JobEvent} (label : String)
      (hongoing : run.ongoing = some ongoing) (hfailure : ongoing.failure ≠ .skipped)
      (hsteps : node.StepsTell mayCancel run.results told) :
      Running mayCancel node run
        (node.startEvent :: told ++ [.stepStarted run.results.length label])

/-- What a job has told that broke off with a call. -/
inductive BreaksOff (mayCancel : Bool) (node : JobNode) : List JobEvent → Prop
  | calling {results : List StepResult} {told : List JobEvent} (label : String)
      (hsteps : node.StepsTell mayCancel results told) :
      BreaksOff mayCancel node
        (node.startEvent :: told ++ [.stepStarted results.length label])

/-- What a job has told in its phase, if it was released with the results of some dependencies. -/
def Records (mayCancel : Bool) (node : JobNode) (dependencies : List JobResult) :
    Phase JobWork JobResult → List JobEvent → Prop
  | .active (.released given), events => given = dependencies ∧ events = []
  | .active (.queued _), events => node.Opens dependencies ∧ events = []
  | .active (.running run), events => node.Opens dependencies ∧ node.Running mayCancel run events
  | .returned result, events => node.Story mayCancel dependencies result events
  | .died, events => node.Opens dependencies ∧ node.BreaksOff mayCancel events
  | _, _ => False

variable {mayCancel : Bool} {node : JobNode} {dependencies : List JobResult} {setup : Setup}
  {place : Place} {environment : Environment} {shared : Shared}

theorem Records.start (mayCancel : Bool) (node : JobNode) (dependencies : List JobResult) :
    node.Records mayCancel dependencies (.active (.released dependencies)) [] :=
  ⟨rfl, rfl⟩

/-- A job that is not skipped on its condition opens. -/
theorem opens_of_decision {answer : Except Expression.EvalError Bool}
    (hcondition : JobWork.decision setup environment shared node dependencies = answer)
    (hanswer : answer ≠ .ok false) : node.Opens dependencies := by
  intro hdefault
  rw [← hcondition, JobWork.decision_default hdefault] at hanswer
  exact forall_isSuccess_of_ne_ok_false hanswer

end JobNode

/-! ## Moves of a job -/

/-- Whether a job waits for an answer. -/
def JobWork.isCalling : JobWork → Bool
  | .running run => run.ongoing.isSome
  | _ => false

/-- A job breaks off only with a call. -/
def JobWork.admits (work : JobWork) : JobMove → Bool
  | .die => work.isCalling
  | _ => true

namespace JobNode

variable {mayCancel : Bool} {node : JobNode} {dependencies : List JobResult} {setup : Setup}
  {place : Place} {environment : Environment} {shared : Shared}

/-- A started step that ends adds its group to what was told before. -/
theorem Running.concluded {run : JobRun} {told reports : List JobEvent} {declared : Step}
    {failure : Status} (started : Step) (label : String) (outcome : Outcome)
    (hsteps : node.StepsTell mayCancel run.results told)
    (hdeclared : node.job.steps[run.results.length]? = some declared)
    (hfailure : failure ≠ .skipped)
    (hreports : ∀ event ∈ reports, event.Reports run.results.length) :
    node.Running mayCancel (run.concluded declared started failure outcome)
      (node.startEvent :: told ++ (.stepStarted run.results.length label ::
        (reports ++
          (outcome.settle run.environment run.results.length started failure).events).filter
            JobEvent.isTold)) := by
  obtain ⟨more, hmore, hevents⟩ :=
    outcome.events_settle run.environment run.results.length started failure
  have hstatus := outcome.status_settle_ne_skipped run.environment run.results.length started
    hfailure
  have hall : ∀ event ∈ reports ++ more, event.Reports run.results.length := by
    intro event hevent
    exact (List.mem_append.mp hevent).elim (hreports event) (hmore event)
  have htold : (reports ++ more).filter JobEvent.isTold = reports ++ more :=
    List.filter_eq_self.mpr fun event hevent => (hall event hevent).isTold
  rw [hevents, ← List.append_assoc, List.filter_append, htold]
  exact .idle rfl (.snoc hsteps hdeclared (.group (.ran hstatus hall)))

theorem records_of_starts {turn : JobTurn}
    (hstarts : JobWork.Starts setup environment shared node dependencies turn)
    (hcancel : shared.canceled = true → mayCancel = true) :
    node.Records mayCancel dependencies turn.phase (turn.events.filter JobEvent.isTold) := by
  cases hstarts with
  | canceled hcanceled => exact .canceled (hcancel hcanceled)
  | queued hlive hcondition => exact ⟨opens_of_decision hcondition (by simp), rfl⟩
  | skipped => exact .skipped _
  | failed hlive hcondition => exact .failed _ (opens_of_decision hcondition (by simp))

theorem records_of_takesAgent {context : Expression.Context} {turn : JobTurn}
    (htakes : JobWork.TakesAgent environment shared node context turn)
    (hopens : node.Opens dependencies) :
    node.Records mayCancel dependencies turn.phase (turn.events.filter JobEvent.isTold) := by
  cases htakes with
  | refused => exact .failed _ hopens
  | running => exact ⟨hopens, .idle rfl .nil⟩

theorem records_of_advances {run : JobRun} {told : List JobEvent} {turn : JobTurn}
    (hadvances : JobWork.Advances setup place shared node run turn)
    (hopens : node.Opens dependencies) (hsteps : node.StepsTell mayCancel run.results told)
    (hcancel : shared.canceled = true → mayCancel = true) :
    node.Records mayCancel dependencies turn.phase
      (node.startEvent :: told ++ turn.events.filter JobEvent.isTold) := by
  -- A step that is over at once is taken with its group, and the job is idle again.
  have hpassed : ∀ {step : Step} {result : StepResult} {events : List JobEvent},
      node.job.steps[run.results.length]? = some step →
      step.Tells mayCancel run.results.length result (events.filter JobEvent.isTold) →
      node.Records mayCancel dependencies
        (JobWork.passOver shared run step result events).phase
        (node.startEvent :: told ++ events.filter JobEvent.isTold) :=
    fun hdeclared htells => ⟨hopens, .idle rfl (.snoc hsteps hdeclared htells)⟩
  cases hadvances with
  | ended hover => exact .ran hopens rfl hsteps hover
  | canceled hdeclared hcanceled => exact hpassed hdeclared (.canceled (hcancel hcanceled))
  | skipped hdeclared _ _ => exact hpassed hdeclared (.group (.skipped rfl))
  | refused hdeclared _ hbegin =>
      exact hpassed hdeclared (.refused (Step.isRefused_of_begin hbegin))
  | @immediate step outcome hdeclared =>
      have hfailure := step.failureStatus_ne_skipped run.stepContext
      exact ⟨hopens, Running.concluded (step.started run.stepContext) _ outcome hsteps hdeclared
        hfailure fun _ hevent => nomatch hevent⟩
  | @calling step =>
      have hfailure := step.failureStatus_ne_skipped run.stepContext
      exact ⟨hopens, .calling _ rfl hfailure hsteps⟩

theorem records_of_answers {run : JobRun} {ongoing : Ongoing} {declared : Step} {reply : Reply}
    {told : List JobEvent} {turn : JobTurn} (label : String)
    (hanswers : JobWork.Answers shared run declared ongoing reply turn)
    (hopens : node.Opens dependencies)
    (hsteps : node.StepsTell mayCancel run.results told)
    (hdeclared : node.job.steps[run.results.length]? = some declared)
    (hfailure : ongoing.failure ≠ .skipped) :
    node.Records mayCancel dependencies turn.phase
      (node.startEvent :: told ++ [.stepStarted run.results.length label] ++
        turn.events.filter JobEvent.isTold) := by
  -- Most answers end the step that was started, perhaps with a report of their own.
  have hconcluded : ∀ (shared : Shared) (outcome : Outcome) (reports : List JobEvent),
      (∀ event ∈ reports, event.Reports run.results.length) →
      node.Records mayCancel dependencies
        (JobWork.conclude shared run declared ongoing.step ongoing.failure outcome reports).phase
        (node.startEvent :: told ++ [.stepStarted run.results.length label] ++
          (JobWork.conclude shared run declared ongoing.step ongoing.failure outcome
            reports).events.filter JobEvent.isTold) := by
    intro shared outcome reports hreports
    rw [List.append_assoc]
    exact ⟨hopens, Running.concluded ongoing.step label outcome hsteps hdeclared hfailure hreports⟩
  have hnothing : ∀ event ∈ ([] : List JobEvent), event.Reports run.results.length :=
    fun _ hevent => nomatch hevent
  cases hanswers with
  | @attempt invocation number _ outcome hcall =>
      unfold JobWork.takeOutcome
      split
      · exact hconcluded shared outcome [] hnothing
      · -- The step is attempted again, which is not told.
        rw [List.filter_cons_of_neg (by simp [JobEvent.isTold]), List.filter_nil, List.append_nil]
        exact ⟨hopens, .calling label rfl hfailure hsteps⟩
  | published =>
      refine hconcluded shared _ _ fun event hevent => ?_
      rw [List.mem_singleton] at hevent
      subst hevent
      exact .artifact _
  | refused => exact hconcluded _ _ [] hnothing
  | download => exact hconcluded shared _ [] hnothing

/-- A job goes on with its story, if it breaks off with a call only. -/
theorem Records.moves {work : JobWork} {move : JobMove} {turn : JobTurn} {events : List JobEvent}
    (hrecords : node.Records mayCancel dependencies (.active work) events)
    (hmoves : work.Moves setup place environment shared node move turn)
    (hadmits : work.admits move = true) (hcancel : shared.canceled = true → mayCancel = true) :
    node.Records mayCancel dependencies turn.phase
      (events ++ turn.events.filter JobEvent.isTold) := by
  cases hmoves with
  | start given =>
      obtain ⟨rfl, rfl⟩ := hrecords
      exact records_of_starts (JobWork.starts_of_start rfl) hcancel
  | takeAgent context =>
      obtain ⟨hopens, rfl⟩ := hrecords
      exact records_of_takesAgent (JobWork.takesAgent_of_takeAgent rfl) hopens
  | withdraw context hcanceled =>
      obtain ⟨-, rfl⟩ := hrecords
      exact .canceled (hcancel hcanceled)
  | advance run hidle =>
      obtain ⟨hopens, hrunning⟩ := hrecords
      cases hrunning with
      | idle _ hsteps =>
          exact records_of_advances (JobWork.advances_of_advance rfl) hopens hsteps hcancel
      | calling label hongoing =>
          rw [hidle] at hongoing
          cases hongoing
  | @answer run ongoing declared reply turn hongoing hdeclared hanswer =>
      obtain ⟨hopens, hrunning⟩ := hrecords
      cases hrunning with
      | idle hidle =>
          rw [hidle] at hongoing
          cases hongoing
      | calling label hcall hfailure hsteps =>
          obtain rfl := Option.some.inj (hongoing.symm.trans hcall)
          exact records_of_answers label (JobWork.answers_of_answer hanswer) hopens hsteps
            hdeclared hfailure
  | die work =>
      -- Only a running job waits for an answer, and its last event is the start of a step.
      cases work with
      | released given => cases hadmits
      | queued context => cases hadmits
      | running run =>
          obtain ⟨hopens, hrunning⟩ := hrecords
          change run.ongoing.isSome = true at hadmits
          cases hrunning with
          | idle hidle =>
              rw [hidle] at hadmits
              cases hadmits
          | calling label hongoing hfailure hsteps =>
              rw [show (JobWork.die shared (.running run)).events = [] from rfl, List.filter_nil,
                List.append_nil]
              exact ⟨hopens, .calling label hsteps⟩

end JobNode
end BuildPipeline
