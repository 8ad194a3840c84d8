import BuildPipeline.Proofs.Graph.Acyclicity
import BuildPipeline.Run.State

/-!
# The moves of a run, one by one

The functions that make a move are turned into relations here, once, so that a later induction over
a run can ask which move was made and finds everything that made it fit.

* `JobWork.Moves`, `StageWork.Moves` and `RunState.Moves` have one constructor for each move; they
  are what `step?` computes on the three levels (`moves_of_step?`).
* `Step.decides_of_begin` does the same for the four ways in which a step can begin, with what was
  decided on it, and `Action.calls_of_call` for what a step that has begun calls for.
* `JobWork.Starts`, `JobWork.TakesAgent` and `JobWork.Advances` do it for the moves that a job makes
  on its own, and `StageWork.Starts` for the decision on a stage.
* `JobWork.Answers` and `answers_of_answer` do it for the answers to a call, and `answer_phase` says
  what they have in common: the step ends, or its call is made again.
-/

namespace BuildPipeline

/-! ## Steps -/

/-- The status of a step that fails. -/
def Step.failureStatus (context : Expression.Context) (step : Step) : Status :=
  if step.continueOnError.holds context then .succeededWithIssues else .failed

/-- A step with the variables of a context replaced. -/
def Step.started (context : Expression.Context) (step : Step) : Step :=
  step.substitute (Expression.substituteVariables context)

/-- The reasons for which a step is skipped. -/
inductive Step.IsSkipped (context : Expression.Context) (step : Step) : Prop
  | disabled (hdisabled : step.enabled = false)
  | blocked {path : String} {artifact : Option String}
      (haction : step.action = .publish path artifact) (hdefault : step.condition = none)
  | unmet (hcondition : Expression.evaluateCondition context
      (step.condition.getD defaultCondition) = .ok false)

structure Step.Runs (context : Expression.Context) (step : Step) : Prop where
  enabled : step.enabled = true
  condition : Expression.evaluateCondition context (step.condition.getD defaultCondition) = .ok true

/-- What is decided on a step, and how it begins then. -/
inductive Step.Decides (setup : Setup) (place : Place) (ledger : Ledger)
    (environment : Environment) (context : Expression.Context) (index : Nat) (step : Step) :
    Beginning → Prop
  | skipped {reason : String} (hskipped : step.IsSkipped context) :
      Decides setup place ledger environment context index step (.skipped reason)
  | refused {error : Expression.EvalError}
      (hcondition : Expression.evaluateCondition context (step.condition.getD defaultCondition) =
        .error error) :
      Decides setup place ledger environment context index step
        (.refused (step.failureStatus context) error.message)
  | immediate {outcome : Outcome} (hruns : step.Runs context)
      (hcall : (step.started context).action.call setup place ledger
        ((step.started context).invocation setup place environment index) = .error outcome) :
      Decides setup place ledger environment context index step
        (.immediate (step.started context) (step.failureStatus context) outcome)
  | calling {call : Call} {after : Ledger} (hruns : step.Runs context)
      (hcall : (step.started context).action.call setup place ledger
        ((step.started context).invocation setup place environment index) = .ok (call, after)) :
      Decides setup place ledger environment context index step
        (.calling ⟨step.started context, step.failureStatus context, call⟩ after)

theorem Step.decides_of_begin (setup : Setup) (place : Place) (ledger : Ledger)
    (environment : Environment) (context : Expression.Context) (index : Nat) (step : Step) :
    step.Decides setup place ledger environment context index
      (step.begin setup place ledger environment context index) := by
  unfold Step.begin
  split
  · next hdisabled => exact .skipped (.disabled (by simpa using hdisabled))
  · next henabled =>
    have henabled : step.enabled = true := by simpa using henabled
    extract_lets failure blocked condition
    split
    · next hblocked =>
        -- only a publication without a condition asks for the stage
        unfold blocked at hblocked
        split at hblocked
        · next haction hdefault => exact .skipped (.blocked haction hdefault)
        · cases hblocked
    · split
      · next hcondition => exact .refused hcondition
      · next hcondition => exact .skipped (.unmet hcondition)
      · next hcondition =>
          split
          · next hcall => exact .immediate ⟨henabled, hcondition⟩ hcall
          · next hcall => exact .calling ⟨henabled, hcondition⟩ hcall

/-- What an action calls for, and the ledger after that.  An action with an artifact calls for what
the ledger grants. -/
inductive Action.Calls (setup : Setup) (place : Place) (ledger : Ledger)
    (invocation : Invocation) : Action → Call → Ledger → Prop
  | shell {kind : Shell} {body : String} {workingDirectory : Option String}
      (hattempts : invocation.step.attempts ≠ 0) :
      Calls setup place ledger invocation (.shell kind body workingDirectory)
        (.attempt invocation 1) ledger
  | task {name : String} {inputs : Table String} (hattempts : invocation.step.attempts ≠ 0) :
      Calls setup place ledger invocation (.task name inputs) (.attempt invocation 1) ledger
  | publish {path : String} {artifact : Option String} {after : Ledger}
      (hreserve : ledger.reserve (artifact.getD "drop") place.stage = .ok after) :
      Calls setup place ledger invocation (.publish path artifact)
        (.publish (artifact.getD "drop") (Path.join setup.workingDirectory path)) after
  | download {source : String} {artifact path : Option String} (hsource : source ≠ "none")
      (hcheck : ledger.checkDownload (artifact.getD source) place.stage place.ancestors = .ok ()) :
      Calls setup place ledger invocation (.download source artifact path)
        (.download (artifact.getD source)
          (Path.join setup.workingDirectory (path.getD (artifact.getD source)))) ledger

theorem Action.calls_of_call {setup : Setup} {place : Place} {ledger after : Ledger}
    {invocation : Invocation} {action : Action} {call : Call}
    (hcall : action.call setup place ledger invocation = .ok (call, after)) :
    action.Calls setup place ledger invocation call after := by
  cases action with
  | shell kind body workingDirectory =>
      simp only [Action.call] at hcall
      split at hcall
      · cases hcall
      · next hattempts =>
          cases hcall
          exact .shell hattempts
  | task name inputs =>
      simp only [Action.call] at hcall
      split at hcall
      · cases hcall
      · next hattempts =>
          cases hcall
          exact .task hattempts
  | publish path artifact =>
      simp only [Action.call] at hcall
      split at hcall
      · cases hcall
      · next hreserve =>
          cases hcall
          exact .publish hreserve
  | download source artifact path =>
      simp only [Action.call] at hcall
      split at hcall
      · cases hcall
      · next hsource =>
          split at hcall
          · cases hcall
          · next hcheck =>
              cases hcall
              exact .download hsource hcheck
  | template path parameters => cases hcall

/-- What the condition of a node sees when it is released. -/
def Setup.startContext (setup : Setup) (environment : Environment) (canceled : Bool)
    (dependencies : List (String × Status × Table String)) : Expression.Context :=
  (setup.contextAfter canceled dependencies).withVariables environment.flatten

/-! ## Jobs -/

/-- A job after the end of a step that was started. -/
def JobRun.concluded (run : JobRun) (declared started : Step) (failure : Status)
    (outcome : Outcome) : JobRun :=
  let ending := outcome.settle run.environment run.results.length started failure
  { run with environment := ending.environment }.record declared ending.result

namespace JobWork

@[simp] theorem conclude_phase (shared : Shared) (run : JobRun) (declared started : Step)
    (failure : Status) (outcome : Outcome) (events : List JobEvent) :
    (conclude shared run declared started failure outcome events).phase =
      .active (.running (run.concluded declared started failure outcome)) := rfl

/-- What the condition of a released job sees. -/
def startContext (setup : Setup) (environment : Environment) (shared : Shared)
    (dependencies : List JobResult) : Expression.Context :=
  setup.startContext environment shared.canceled
    (dependencies.map fun result => (result.name, result.status, result.outputs))

/-- What the condition of a released job comes to. -/
def decision (setup : Setup) (environment : Environment) (shared : Shared) (node : JobNode)
    (dependencies : List JobResult) : Except Expression.EvalError Bool :=
  Expression.evaluateCondition (startContext setup environment shared dependencies)
    (node.job.condition.getD defaultCondition)

/-- The decisions on a released job. -/
inductive Starts (setup : Setup) (environment : Environment) (shared : Shared) (node : JobNode)
    (dependencies : List JobResult) : JobTurn → Prop
  | canceled (hcanceled : shared.canceled = true) :
      Starts setup environment shared node dependencies
        { phase := .returned (.notRun node .canceled .canceled none), shared }
  | queued (hlive : shared.canceled = false)
      (hcondition : decision setup environment shared node dependencies = .ok true) :
      Starts setup environment shared node dependencies
        { phase := .active (.queued (startContext setup environment shared dependencies)), shared }
  | skipped (hlive : shared.canceled = false)
      (hcondition : decision setup environment shared node dependencies = .ok false) :
      Starts setup environment shared node dependencies
        { phase := .returned (.notRun node .skipped .skipped none), shared
          events := [.skipped
            ("condition '" ++ node.job.condition.getD defaultCondition ++ "' was false")] }
  | failed {error : Expression.EvalError} (hlive : shared.canceled = false)
      (hcondition : decision setup environment shared node dependencies = .error error) :
      Starts setup environment shared node dependencies
        { phase := .returned (.notRun node .failed .skipped (some error.message)), shared }

theorem starts_of_start {setup : Setup} {environment : Environment} {shared : Shared}
    {node : JobNode} {dependencies : List JobResult} {turn : JobTurn}
    (hstart : start setup environment shared node dependencies = turn) :
    Starts setup environment shared node dependencies turn := by
  subst hstart
  unfold start
  extract_lets context condition
  split
  · next hcanceled => exact .canceled hcanceled
  · next hlive =>
      rw [Bool.not_eq_true] at hlive
      split
      · next hcondition => exact .queued hlive hcondition
      · next hcondition => exact .skipped hlive hcondition
      · next hcondition => exact .failed hlive hcondition

/-- What becomes of a job that gets an agent: it needs its variables before it runs. -/
inductive TakesAgent (environment : Environment) (shared : Shared) (node : JobNode)
    (context : Expression.Context) : JobTurn → Prop
  | refused {scope : Environment} {error : Expression.EvalError}
      (hdeclare : environment.child.declare context node.job.vars = (scope, some error)) :
      TakesAgent environment shared node context
        { phase := .returned (.notRun node .failed .skipped (some error.message)), shared }
  | running {scope : Environment}
      (hdeclare : environment.child.declare context node.job.vars = (scope, none)) :
      TakesAgent environment shared node context
        { phase := .active (.running
            { environment := scope
              context := context.withVariables scope.flatten
              masksFailure :=
                node.job.continueOnError.holds (context.withVariables scope.flatten) })
          shared := { shared with freeAgents := shared.freeAgents - 1 }
          events := [.started node.job.displayName node.job.steps.length] }

theorem takesAgent_of_takeAgent {environment : Environment} {shared : Shared} {node : JobNode}
    {context : Expression.Context} {turn : JobTurn}
    (htake : takeAgent environment shared node context = turn) :
    TakesAgent environment shared node context turn := by
  subst htake
  unfold takeAgent
  split
  · next hdeclare => exact .refused hdeclare
  · next hdeclare => exact .running hdeclare

/-- What a running job does next: it ends, or it takes a step in one of the ways in which a step
begins. -/
inductive Advances (setup : Setup) (place : Place) (shared : Shared) (node : JobNode)
    (run : JobRun) : JobTurn → Prop
  | ended (hover : node.job.steps[run.results.length]? = none) :
      Advances setup place shared node run
        { phase := .returned (run.result node)
          shared := { shared with freeAgents := shared.freeAgents + 1 }
          events := [.completed (run.result node).status] }
  | canceled {step : Step} (hdeclared : node.job.steps[run.results.length]? = some step)
      (hcanceled : shared.canceled = true) :
      Advances setup place shared node run
        (passOver shared run step (.ofStep step .canceled) [])
  | skipped {step : Step} {reason : String}
      (hdeclared : node.job.steps[run.results.length]? = some step)
      (hlive : shared.canceled = false)
      (hbegin : step.begin setup place shared.ledger run.environment run.stepContext
        run.results.length = .skipped reason) :
      Advances setup place shared node run
        (passOver shared run step (.ofStep step .skipped)
          [.stepSkipped run.results.length reason])
  | refused {step : Step} {error : String}
      (hdeclared : node.job.steps[run.results.length]? = some step)
      (hlive : shared.canceled = false)
      (hbegin : step.begin setup place shared.ledger run.environment run.stepContext
        run.results.length = .refused (step.failureStatus run.stepContext) error) :
      Advances setup place shared node run
        (passOver shared run step
          { StepResult.ofStep step (step.failureStatus run.stepContext) with error := some error }
          [])
  | immediate {step : Step} {outcome : Outcome}
      (hdeclared : node.job.steps[run.results.length]? = some step)
      (hlive : shared.canceled = false)
      (hcall : (step.started run.stepContext).action.call setup place shared.ledger
        ((step.started run.stepContext).invocation setup place run.environment
          run.results.length) = .error outcome) :
      Advances setup place shared node run
        (conclude shared run step (step.started run.stepContext)
          (step.failureStatus run.stepContext) outcome
          [.stepStarted run.results.length (step.started run.stepContext).label])
  | calling {step : Step} {call : Call} {after : Ledger}
      (hdeclared : node.job.steps[run.results.length]? = some step)
      (hlive : shared.canceled = false)
      (hcalls : (step.started run.stepContext).action.Calls setup place shared.ledger
        ((step.started run.stepContext).invocation setup place run.environment
          run.results.length) call after) :
      Advances setup place shared node run
        { phase := .active (.running { run with
            ongoing := some
              ⟨step.started run.stepContext, step.failureStatus run.stepContext, call⟩ })
          shared := { shared with ledger := after }
          events := [.stepStarted run.results.length (step.started run.stepContext).label,
            .called run.results.length call] }

theorem advances_of_advance {setup : Setup} {place : Place} {shared : Shared} {node : JobNode}
    {run : JobRun} {turn : JobTurn} (hadvance : advance setup place shared node run = turn) :
    Advances setup place shared node run turn := by
  subst hadvance
  unfold advance
  extract_lets index result
  split
  · next hover => exact .ended hover
  · next step hdeclared =>
      split
      · next hcanceled => exact .canceled hdeclared hcanceled
      · next hlive =>
          rw [Bool.not_eq_true] at hlive
          have hdecides := step.decides_of_begin setup place shared.ledger run.environment
            run.stepContext index
          cases hbegin : step.begin setup place shared.ledger run.environment run.stepContext
            index <;> rw [hbegin] at hdecides <;> cases hdecides
          case skipped => exact .skipped hdeclared hlive hbegin
          case refused => exact .refused hdeclared hlive hbegin
          case immediate hcall => exact .immediate hdeclared hlive hcall
          case calling hcall => exact .calling hdeclared hlive (Action.calls_of_call hcall)

/-- After an attempt the step ends or is attempted again. -/
theorem takeOutcome_phase (shared : Shared) (run : JobRun) (declared : Step) (ongoing : Ongoing)
    (invocation : Invocation) (number : Nat) (outcome : Outcome) :
    (takeOutcome shared run declared ongoing invocation number outcome).phase =
        .active (.running (run.concluded declared ongoing.step ongoing.failure outcome)) ∨
      (takeOutcome shared run declared ongoing invocation number outcome).phase =
        .active (.running { run with
          ongoing := some { ongoing with call := .attempt invocation (number + 1) } }) := by
  unfold takeOutcome
  split
  · exact Or.inl rfl
  · exact Or.inr rfl

/-- The answers to a call: which fit it and what they lead to. -/
inductive Answers (shared : Shared) (run : JobRun) (declared : Step) (ongoing : Ongoing) :
    Reply → JobTurn → Prop
  | attempt {invocation : Invocation} {number : Nat} (reply : Reply) (outcome : Outcome)
      (hcall : ongoing.call = .attempt invocation number) :
      Answers shared run declared ongoing reply
        (takeOutcome shared run declared ongoing invocation number outcome)
  | published {artifact source : String} (hcall : ongoing.call = .publish artifact source) :
      Answers shared run declared ongoing (.stored (.ok ()))
        (conclude shared run declared ongoing.step ongoing.failure
          (.succeeded ("published artifact '" ++ artifact ++ "'")) [.artifactPublished artifact])
  | refused {artifact source : String} (error : ArtifactError)
      (hcall : ongoing.call = .publish artifact source) :
      Answers shared run declared ongoing (.stored (.error error))
        (conclude { shared with ledger := shared.ledger.release artifact } run declared
          ongoing.step ongoing.failure (.failed error.message) [])
  | download {artifact target : String} (result : Except ArtifactError Unit) (outcome : Outcome)
      (hcall : ongoing.call = .download artifact target) :
      Answers shared run declared ongoing (.stored result)
        (conclude shared run declared ongoing.step ongoing.failure outcome [])

theorem answers_of_answer {setup : Setup} {shared : Shared} {run : JobRun} {declared : Step}
    {ongoing : Ongoing} {reply : Reply} {turn : JobTurn}
    (hanswer : answer setup shared run declared ongoing reply = some turn) :
    Answers shared run declared ongoing reply turn := by
  cases reply with
  | outcome outcome =>
      cases hcall : ongoing.call <;>
        simp only [answer, hcall, Option.some.injEq, reduceCtorEq] at hanswer
      case attempt invocation number => exact hanswer ▸ .attempt _ outcome hcall
  | timedOut =>
      cases hcall : ongoing.call <;> cases hlimit : ongoing.step.limit? setup <;>
        simp only [answer, hcall, hlimit, Option.some.injEq, reduceCtorEq] at hanswer
      case attempt.some invocation number limit =>
        exact hanswer ▸ .attempt _ (.timedOut limit) hcall
  | stored result =>
      cases hcall : ongoing.call <;> cases result <;>
        simp only [answer, hcall, Option.some.injEq, reduceCtorEq] at hanswer
      case publish.ok artifact source stored => exact hanswer ▸ .published hcall
      case publish.error artifact source error => exact hanswer ▸ .refused error hcall
      case download.ok => exact hanswer ▸ .download _ _ hcall
      case download.error => exact hanswer ▸ .download _ _ hcall

/-- An answer ends the step, or the call is made again. -/
theorem answer_phase {setup : Setup} {shared : Shared} {run : JobRun} {declared : Step}
    {ongoing : Ongoing} {reply : Reply} {turn : JobTurn}
    (hanswer : answer setup shared run declared ongoing reply = some turn) :
    (∃ outcome, turn.phase =
        .active (.running (run.concluded declared ongoing.step ongoing.failure outcome))) ∨
      ∃ invocation number, ongoing.call = .attempt invocation number ∧ turn.phase =
        .active (.running { run with
          ongoing := some { ongoing with call := .attempt invocation (number + 1) } }) := by
  cases answers_of_answer hanswer with
  | @attempt invocation number _ outcome hcall =>
      -- Only an attempt can be made again.  The other calls end with their answer.
      rcases takeOutcome_phase shared run declared ongoing invocation number outcome with
        hend | hagain
      · exact Or.inl ⟨outcome, hend⟩
      · exact Or.inr ⟨invocation, number, hcall, hagain⟩
  | published => exact Or.inl ⟨_, rfl⟩
  | refused => exact Or.inl ⟨_, rfl⟩
  | download => exact Or.inl ⟨_, rfl⟩

/-- The moves of a job: when each fits and what it leads to. -/
inductive Moves (setup : Setup) (place : Place) (environment : Environment) (shared : Shared)
    (node : JobNode) : JobWork → JobMove → JobTurn → Prop
  | start (dependencies : List JobResult) :
      Moves setup place environment shared node (.released dependencies) .start
        (start setup environment shared node dependencies)
  | takeAgent (context : Expression.Context) (hfree : 0 < shared.freeAgents) :
      Moves setup place environment shared node (.queued context) .takeAgent
        (takeAgent environment shared node context)
  | withdraw (context : Expression.Context) (hcanceled : shared.canceled = true) :
      Moves setup place environment shared node (.queued context) .withdraw
        { phase := .returned (.notRun node .canceled .canceled none), shared }
  | advance (run : JobRun) (hidle : run.ongoing = none) :
      Moves setup place environment shared node (.running run) .advance
        (advance setup place shared node run)
  | answer {run : JobRun} {ongoing : Ongoing} {declared : Step} {reply : Reply} {turn : JobTurn}
      (hongoing : run.ongoing = some ongoing)
      (hdeclared : node.job.steps[run.results.length]? = some declared)
      (hanswer : JobWork.answer setup shared run declared ongoing reply = some turn) :
      Moves setup place environment shared node (.running run) (.answer reply) turn
  | die (work : JobWork) :
      Moves setup place environment shared node work .die (die shared work)

theorem moves_of_step? {setup : Setup} {place : Place} {environment : Environment}
    {shared : Shared} {node : JobNode} {work : JobWork} {move : JobMove} {turn : JobTurn}
    (hstep : work.step? setup place environment shared node move = some turn) :
    Moves setup place environment shared node work move turn := by
  cases move <;> cases work <;>
    simp only [step?, Option.some.injEq, reduceCtorEq, Option.ite_none_right_eq_some,
      Option.isNone_iff_eq_none] at hstep
  case start.released dependencies => exact hstep ▸ .start dependencies
  case takeAgent.queued context => exact hstep.2 ▸ .takeAgent context hstep.1
  case withdraw.queued context => exact hstep.2 ▸ .withdraw context hstep.1
  case advance.running run => exact hstep.2 ▸ .advance run hstep.1
  case answer.running reply run =>
    cases hongoing : run.ongoing with
    | none => simp [hongoing] at hstep
    | some ongoing =>
        cases hdeclared : node.job.steps[run.results.length]? with
        | none => simp [hongoing, hdeclared] at hstep
        | some declared =>
            simp only [hongoing, hdeclared, Option.bind_eq_bind, Option.bind_some] at hstep
            exact .answer hongoing hdeclared hstep
  all_goals exact hstep ▸ .die _

end JobWork

/-! ## Stages -/

namespace StageWork

/-- What the condition of a released stage sees. -/
def startContext (setup : Setup) (environment : Environment) (shared : Shared)
    (dependencies : List StageResult) : Expression.Context :=
  setup.startContext environment shared.canceled
    (dependencies.map fun result => (result.name, result.status, result.outputs))

/-- What the condition of a released stage comes to. -/
def decision (setup : Setup) (environment : Environment) (shared : Shared) (node : StageNode)
    (dependencies : List StageResult) : Except Expression.EvalError Bool :=
  Expression.evaluateCondition (startContext setup environment shared dependencies)
    (node.stage.condition.getD defaultCondition)

/-- The decisions on a released stage, which needs its variables too. -/
inductive Starts (setup : Setup) (environment : Environment) (shared : Shared) (node : StageNode)
    (dependencies : List StageResult) : StageTurn → Prop
  | canceled (hcanceled : shared.canceled = true) :
      Starts setup environment shared node dependencies
        { phase := .returned (.notRun node .canceled .canceled none), shared }
  | skipped (hlive : shared.canceled = false)
      (hcondition : decision setup environment shared node dependencies = .ok false) :
      Starts setup environment shared node dependencies
        { phase := .returned (.notRun node .skipped .skipped none), shared
          events := [.skipped
            ("condition '" ++ node.stage.condition.getD defaultCondition ++ "' was false")] }
  | failed {error : Expression.EvalError} (hlive : shared.canceled = false)
      (hcondition : decision setup environment shared node dependencies = .error error) :
      Starts setup environment shared node dependencies
        { phase := .returned (.notRun node .failed .skipped (some error.message)), shared }
  | refused {scope : Environment} {error : Expression.EvalError} (hlive : shared.canceled = false)
      (hcondition : decision setup environment shared node dependencies = .ok true)
      (hdeclare : environment.child.declare (startContext setup environment shared dependencies)
        node.stage.vars = (scope, some error)) :
      Starts setup environment shared node dependencies
        { phase := .returned (.notRun node .failed .skipped (some error.message)), shared }
  | running {scope : Environment} (hlive : shared.canceled = false)
      (hcondition : decision setup environment shared node dependencies = .ok true)
      (hdeclare : environment.child.declare (startContext setup environment shared dependencies)
        node.stage.vars = (scope, none)) :
      Starts setup environment shared node dependencies
        { phase := .active (.running { environment := scope, jobs := .ofNodes node.jobs }), shared
          events := [.started node.stage.displayName node.jobs.length] }

theorem starts_of_start {setup : Setup} {environment : Environment} {shared : Shared}
    {node : StageNode} {dependencies : List StageResult} {turn : StageTurn}
    (hstart : start setup environment shared node dependencies = turn) :
    Starts setup environment shared node dependencies turn := by
  subst hstart
  unfold start
  extract_lets context condition
  split
  · next hcanceled => exact .canceled hcanceled
  · next hlive =>
      rw [Bool.not_eq_true] at hlive
      split
      · next hcondition => exact .skipped hlive hcondition
      · next hcondition => exact .failed hlive hcondition
      · next hcondition =>
          split
          · next hdeclare => exact .refused hlive hcondition hdeclare
          · next hdeclare => exact .running hlive hcondition hdeclare

/-- Whether what was noticed of a job counts as a failure of the stage. -/
def noticedFailure (result : Option JobResult) : Bool :=
  match result with
  | some result => result.status == .failed
  | none => true

/-- Where a job of a stage runs. -/
def placeOf (setup : Setup) (node : StageNode) (run : StageRun) (job : String) : Place :=
  ⟨node.name, job, setup.graph.ancestors node.name, run.failed⟩

/-- The moves of a stage: when each fits and what it leads to. -/
inductive Moves (setup : Setup) (environment : Environment) (shared : Shared) (node : StageNode) :
    StageWork → StageMove → StageTurn → Prop
  | start (dependencies : List StageResult) :
      Moves setup environment shared node (.released dependencies) .start
        (start setup environment shared node dependencies)
  | job {run : StageRun} {index : Nat} {task : Task JobNode JobWork JobResult} {work : JobWork}
      {move : JobMove} {turn : JobTurn} (htask : run.jobs.tasks[index]? = some task)
      (hwork : task.phase = .active work)
      (hmoves : work.Moves setup (placeOf setup node run task.name) run.environment shared task.node
        move turn) :
      Moves setup environment shared node (.running run) (.job index move)
        { phase := .active (.running { run with jobs := run.jobs.setPhase index turn.phase })
          shared := turn.shared
          events := turn.events.map (.job task.name ·) }
  | notice {run : StageRun} {index : Nat} {jobs : JobSchedule} {result : Option JobResult}
      (hnotice : run.jobs.notice? JobWork.released index = some (jobs, result)) :
      Moves setup environment shared node (.running run) (.notice index)
        { phase := .active
            (.running { run with jobs, failed := run.failed || noticedFailure result })
          shared }
  | finish (run : StageRun) (hsettled : run.jobs.isSettled = true) :
      Moves setup environment shared node (.running run) .finish
        { phase := .returned (run.result node), shared
          events := [.completed (run.result node).status] }
  | die (work : StageWork) :
      Moves setup environment shared node work .die (die shared work)

theorem moves_of_step? {setup : Setup} {environment : Environment} {shared : Shared}
    {node : StageNode} {work : StageWork} {move : StageMove} {turn : StageTurn}
    (hstep : work.step? setup environment shared node move = some turn) :
    Moves setup environment shared node work move turn := by
  cases move <;> cases work <;>
    simp only [step?, Option.some.injEq, reduceCtorEq, Option.ite_none_right_eq_some] at hstep
  case start.released dependencies => exact hstep ▸ .start dependencies
  case job.running index move run =>
    unfold moveJob at hstep
    cases htask : run.jobs.tasks[index]? with
    | none => simp [htask] at hstep
    | some task =>
        simp only [htask, Option.bind_eq_bind, Option.bind_some] at hstep
        cases hphase : task.phase <;> simp only [hphase, reduceCtorEq] at hstep
        case active work =>
          obtain ⟨jobTurn, hjob, hturn⟩ := Option.bind_eq_some_iff.mp hstep
          cases hturn
          exact .job htask hphase (JobWork.moves_of_step? hjob)
  case notice.running index run =>
    obtain ⟨⟨jobs, result⟩, hnotice, hturn⟩ := Option.bind_eq_some_iff.mp hstep
    cases hturn
    exact .notice hnotice
  case finish.running run => exact hstep.2 ▸ .finish run hstep.1
  all_goals exact hstep ▸ .die _

end StageWork

/-! ## Runs -/

namespace RunState

/-- The moves of a run: when each fits and what it leads to. -/
inductive Moves (setup : Setup) : RunState → Move → RunState → Prop
  | cancel (state : RunState) :
      Moves setup state .cancel { state with shared := { state.shared with canceled := true } }
  | stage {state : RunState} {index : Nat} {task : Task StageNode StageWork StageResult}
      {work : StageWork} {move : StageMove} {turn : StageTurn}
      (htask : state.stages.tasks[index]? = some task) (hwork : task.phase = .active work)
      (hmoves : work.Moves setup state.environment state.shared task.node move turn) :
      Moves setup state (.stage index move)
        { state with
          shared := turn.shared
          stages := state.stages.setPhase index turn.phase
          log := state.log ++ turn.events.map (.stage task.name ·) }
  | notice {state : RunState} {index : Nat} {stages : StageSchedule} {result : Option StageResult}
      (hnotice : state.stages.notice? StageWork.released index = some (stages, result)) :
      Moves setup state (.notice index) { state with stages }

theorem moves_of_step? {setup : Setup} {state next : RunState} {move : Move}
    (hstep : state.step? setup move = some next) : Moves setup state move next := by
  cases move with
  | cancel =>
      cases hstep
      exact .cancel state
  | stage index move =>
      simp only [step?, moveStage] at hstep
      cases htask : state.stages.tasks[index]? with
      | none => simp [htask] at hstep
      | some task =>
          simp only [htask, Option.bind_eq_bind, Option.bind_some] at hstep
          cases hphase : task.phase <;> simp only [hphase, reduceCtorEq] at hstep
          case active work =>
            obtain ⟨turn, hturn, hnext⟩ := Option.bind_eq_some_iff.mp hstep
            cases hnext
            exact .stage htask hphase (StageWork.moves_of_step? hturn)
  | notice index =>
      obtain ⟨⟨stages, result⟩, hnotice, hnext⟩ := Option.bind_eq_some_iff.mp hstep
      cases hnext
      exact .notice hnotice

/-! ## Histories -/

/-- The states of a run so far, the latest one first, where every move is an allowed one. -/
inductive History (setup : Setup) (allowed : RunState → Move → Prop) : List RunState → Prop
  | start : History setup allowed [.start setup]
  | step {state next : RunState} {earlier : List RunState} (move : Move)
      (hallowed : allowed state move) (hstep : state.step? setup move = some next)
      (hearlier : History setup allowed (state :: earlier)) :
      History setup allowed (next :: state :: earlier)

theorem History.exists_cons {setup : Setup} {allowed : RunState → Move → Prop}
    {states : List RunState} (hhistory : History setup allowed states) :
    ∃ latest earlier, states = latest :: earlier := by
  cases hhistory with
  | start => exact ⟨_, [], rfl⟩
  | step => exact ⟨_, _, rfl⟩

theorem History.reachable {setup : Setup} {allowed : RunState → Move → Prop}
    {states : List RunState} (hhistory : History setup allowed states) :
    ∀ state ∈ states, Reachable setup state := by
  induction hhistory with
  | start => exact List.forall_mem_singleton.mpr .start
  | step move _ hstep _ ih =>
      exact List.forall_mem_cons.mpr ⟨.step move (ih _ List.mem_cons_self) hstep, ih⟩

/-- More moves may be allowed. -/
theorem History.mono {setup : Setup} {allowed more : RunState → Move → Prop}
    {states : List RunState} (hmore : ∀ state move, allowed state move → more state move)
    (hhistory : History setup allowed states) : History setup more states := by
  induction hhistory with
  | start => exact .start
  | step move hallowed hstep _ ih => exact .step move (hmore _ move hallowed) hstep ih

/-! ## Replaying moves -/

/-- Make some moves one after the other, if they all fit and are allowed. -/
def replay (setup : Setup) (allowed : RunState → Move → Bool) (state : RunState) :
    List Move → Option RunState
  | [] => some state
  | move :: moves =>
    if allowed state move then
      (state.step? setup move).bind fun next => next.replay setup allowed moves
    else none

theorem history_of_replay {setup : Setup} {allowed : RunState → Move → Bool} {moves : List Move}
    {state next : RunState} {earlier : List RunState}
    (hhistory : History setup (fun state move => allowed state move = true) (state :: earlier))
    (hreplay : state.replay setup allowed moves = some next) :
    ∃ before, History setup (fun state move => allowed state move = true) (next :: before) := by
  induction moves generalizing state earlier with
  | nil =>
      cases hreplay
      exact ⟨earlier, hhistory⟩
  | cons move moves ih =>
      rw [replay, Option.ite_none_right_eq_some] at hreplay
      obtain ⟨hallowed, hrest⟩ := hreplay
      obtain ⟨middle, hstep, hrest⟩ := Option.bind_eq_some_iff.mp hrest
      exact ih (.step move hallowed hstep hhistory) hrest

/-- A check that some allowed moves pass is passed at the end of a history. -/
theorem exists_history_of_replay (setup : Setup) (allowed : RunState → Move → Bool)
    (check : RunState → Bool) (moves : List Move)
    (hcheck : ((RunState.start setup).replay setup allowed moves).any check = true) :
    ∃ latest earlier,
      History setup (fun state move => allowed state move = true) (latest :: earlier) ∧
        check latest = true := by
  obtain ⟨latest, hreplay, hlatest⟩ := (Option.any_eq_true _ _).mp hcheck
  obtain ⟨earlier, hhistory⟩ := history_of_replay .start hreplay
  exact ⟨latest, earlier, hhistory, hlatest⟩

theorem exists_reachable_of_replay (setup : Setup) (check : RunState → Bool) (moves : List Move)
    (hcheck : ((RunState.start setup).replay setup (fun _ _ => true) moves).any check = true) :
    ∃ state, Reachable setup state ∧ check state = true := by
  obtain ⟨state, earlier, hhistory, hstate⟩ :=
    exists_history_of_replay setup (fun _ _ => true) check moves hcheck
  exact ⟨state, hhistory.reachable state List.mem_cons_self, hstate⟩

end RunState

/-! ## A small graph

Three stages on which the theorems about runs are shown at work.  Documentation is independent of
the build; the delivery depends on it.
-/

namespace Delivery

def step (name : String) : Step :=
  { name := some name, action := .shell .script name none }

/-- A failure of this job counts as issues. -/
def compile : Job :=
  { job := some "compile", continueOnError := .fixed true, steps := [step "fetch", step "make"] }

def pack : Job :=
  { job := some "pack", dependsOn := .single "compile", steps := [step "zip"] }

def render : Job :=
  { job := some "render", steps := [step "print"] }

def ship : Job :=
  { job := some "ship", steps := [step "send"] }

def build : Stage :=
  { stage := some "build", jobs := [compile, pack] }

def docs : Stage :=
  { stage := some "docs", dependsOn := .multiple [], jobs := [render] }

def deploy : Stage :=
  { stage := some "deploy", dependsOn := .single "build", jobs := [ship] }

def pipeline : Pipeline :=
  { stages := [build, docs, deploy] }

def graph : Graph where
  stages := [
    ⟨"build", build, [], [⟨"compile", compile, []⟩, ⟨"pack", pack, ["compile"]⟩]⟩,
    ⟨"docs", docs, [], [⟨"render", render, []⟩]⟩,
    ⟨"deploy", deploy, ["build"], [⟨"ship", ship, []⟩]⟩]
  vars := []

theorem ofPipeline_pipeline : Graph.ofPipeline pipeline = .ok graph := by
  simp [Graph.ofPipeline, pipeline, graph, build, docs, deploy, compile, pack, render, ship,
    stageNodes, Stage.jobNodes, jobNodes, nodeName, Stage.dependencyNames, DependsOn.names,
    DependsOn.isImplicit, Graph.precedence, JobNode.precedence, checkPrecedence,
    Precedence.dangling?, Precedence.cycle?, Precedence.visit, Precedence.before, Precedence.names,
    List.lookup_cons, List.findSome?_cons, bind, Except.bind, pure, Except.pure]

theorem distinctNames_graph : graph.DistinctNames :=
  ⟨by decide, by decide⟩

def setup : Setup :=
  { name := "delivery", graph }

/-- The build alone, without the job that packs. -/
def compilation : Pipeline :=
  { stages := [{ build with jobs := [compile] }] }

def compilationSetup : Setup where
  name := "compilation"
  graph := ⟨[⟨"build", { build with jobs := [compile] }, [], [⟨"compile", compile, []⟩]⟩], []⟩

theorem ofPipeline_compilation : Graph.ofPipeline compilation = .ok compilationSetup.graph := by
  simp [Graph.ofPipeline, compilation, compilationSetup, build, compile, stageNodes, Stage.jobNodes,
    jobNodes, nodeName, Stage.dependencyNames, DependsOn.names, DependsOn.isImplicit,
    Graph.precedence, JobNode.precedence, checkPrecedence, Precedence.dangling?, Precedence.cycle?,
    Precedence.visit, Precedence.before, Precedence.names, List.findSome?_cons, bind, Except.bind,
    pure, Except.pure]

/-- Take a step of a job, and answer the attempt if it makes one. -/
def stepMoves (stage job : Nat) (outcome : Option Outcome) : List Move :=
  .stage stage (.job job .advance) ::
    (outcome.map fun outcome => .stage stage (.job job (.answer (.outcome outcome)))).toList

/-- Take a job from its start to its notice. -/
def jobMoves (stage job : Nat) (outcomes : List (Option Outcome)) : List Move :=
  [.stage stage (.job job .start), .stage stage (.job job .takeAgent)] ++
    outcomes.flatMap (stepMoves stage job) ++
    [.stage stage (.job job .advance), .stage stage (.notice job)]

/-- Take a stage from its start to its notice. -/
def stageMoves (stage : Nat) (jobs : List Move) : List Move :=
  [.stage stage .start] ++ jobs ++ [.stage stage .finish, .notice stage]

end Delivery

end BuildPipeline
