import BuildPipeline.Proofs.Run.RunRecord

/-!
# The stream of progress

What a complete run has told, as one stream in which stages and jobs come between each other.  The
stream is well bracketed on every level, and the statuses in it are those of the result tree.

* `JobNode.Tells`, `StageNode.Tells` and `Graph.ToldBy` describe the events of a job, of a stage and
  of a run next to the result.  They are read off the stories of `JobNode.Story` and
  `StageNode.Story`.
* `progress_is_well_bracketed` is the result.  The run may be cancelled at any moment.

Two things are not as one might expect, and `brackets_break` shows both.  Names have to stand once:
the events of two jobs with one name cannot be told apart.  And a job whose call is never answered
breaks off: its last event is the start of the step that was under way.
-/

namespace BuildPipeline

/-! ## The stream -/

def StageEvent.isTold : StageEvent → Bool
  | .job _ event => event.isTold
  | _ => true

def Event.isTold : Event → Bool
  | .stage _ event => event.isTold
  | _ => true

/-- The progress that a complete run has told: its whole log, but for the calls. -/
def RunState.progress (setup : Setup) (state : RunState) : List Event :=
  (state.fullLog setup).filter Event.isTold

/-- The progress of a job, by the names of its stage and of itself. -/
def RunState.progressOf (setup : Setup) (state : RunState) (stage job : String) : List JobEvent :=
  StageEvent.voice.heard job (Event.voice.heard stage (state.progress setup))

/-! ## Brackets -/

/-- Groups of events about steps with some results, one for each number at most and in order. -/
structure StepGroups (results : List StepResult) (groups : List (Nat × List JobEvent)) :
    Prop where
  increasing : groups.Pairwise fun earlier later => earlier.1 < later.1
  groups : ∀ group ∈ groups, ∃ result,
    results[group.1]? = some result ∧ StepGroup group.1 result group.2

/-- What is told of a job with a result. -/
inductive JobNode.Tells (node : JobNode) (result : JobResult) : List JobEvent → Prop
  | silent {status steps : Status} {error : Option String}
      (hunstarted : result = .notRun node status steps error) : Tells node result []
  | skipped {reason : String} (hstatus : result.status = .skipped) :
      Tells node result [.skipped reason]
  | ran {groups : List (Nat × List JobEvent)} (hgroups : StepGroups result.steps groups) :
      Tells node result
        (node.startEvent :: groups.flatMap (·.2) ++ [.completed result.status])
  /-- The call of a step was not answered.  The steps before it have told their results. -/
  | brokeOff {results : List StepResult} {groups : List (Nat × List JobEvent)} {label : String}
      (hlost : result = StageRun.lostJob node) (hgroups : StepGroups results groups) :
      Tells node result
        (node.startEvent :: groups.flatMap (·.2) ++ [.stepStarted results.length label])

/-- What is told of a stage with a result. -/
inductive StageNode.Tells (node : StageNode) (result : StageResult) : List StageEvent → Prop
  | silent {status jobs : Status} {error : Option String}
      (hunstarted : result = .notRun node status jobs error) : Tells node result []
  | skipped {reason : String} (hstatus : result.status = .skipped) :
      Tells node result [.skipped reason]
  | ran {between : List StageEvent}
      (hentries : ∀ entry ∈ between, ∃ job ∈ node.jobs, ∃ event, entry = .job job.name event)
      (hjobs : List.Forall₂
        (fun job jobResult => job.Tells jobResult (StageEvent.voice.heard job.name between))
        node.jobs result.jobs)
      (horder : Schedule.InOrder StageEvent.voice (node.jobs.map JobNode.task) between) :
      Tells node result (node.startEvent :: between ++ [.completed result.status])

/-- What is told of a run with a result. -/
inductive Graph.ToldBy (graph : Graph) (name : String) (result : PipelineResult) :
    List Event → Prop
  | ran {between : List Event}
      (hentries : ∀ entry ∈ between, ∃ node ∈ graph.stages, ∃ event,
        entry = .stage node.name event)
      (hstages : List.Forall₂
        (fun node stage => node.Tells stage (Event.voice.heard node.name between))
        graph.stages result.stages)
      (horder : Schedule.InOrder Event.voice (graph.stages.map RunState.stageTask) between) :
      ToldBy graph name result
        (.started name graph.stages.length :: between ++ [.completed name result.status])

/-! ## Jobs -/

namespace JobNode

variable {mayCancel : Bool} {node : JobNode}

/-- A step that ends without a word leaves no group. -/
theorem StepsTell.exists_groups {results : List StepResult} {told : List JobEvent}
    (hsteps : node.StepsTell mayCancel results told) :
    ∃ groups, StepGroups results groups ∧ told = groups.flatMap (·.2) := by
  induction hsteps with
  | nil => exact ⟨[], ⟨.nil, fun _ hgroup => nomatch hgroup⟩, rfl⟩
  | @snoc results told events step result _ _ htells ih =>
      obtain ⟨groups, hgroups, rfl⟩ := ih
      have hplace : ∀ group ∈ groups, group.1 < results.length := by
        intro group hgroup
        obtain ⟨found, hfound, -⟩ := hgroups.groups group hgroup
        exact (List.getElem?_eq_some_iff.mp hfound).1
      have hold : ∀ group ∈ groups, ∃ found,
          (results ++ [result])[group.1]? = some found ∧ StepGroup group.1 found group.2 := by
        intro group hgroup
        rw [List.getElem?_append_left (hplace group hgroup)]
        exact hgroups.groups group hgroup
      have hsilent : StepGroups (results ++ [result]) groups := ⟨hgroups.increasing, hold⟩
      cases htells with
      | canceled => exact ⟨groups, hsilent, List.append_nil _⟩
      | refused => exact ⟨groups, hsilent, List.append_nil _⟩
      | group hgroup =>
          refine ⟨groups ++ [(results.length, events)], ⟨?_, ?_⟩, by simp⟩
          · refine List.pairwise_append.mpr ⟨hgroups.increasing, List.pairwise_singleton _ _, ?_⟩
            intro earlier hearlier later hlater
            rw [List.mem_singleton] at hlater
            subst hlater
            exact hplace earlier hearlier
          · intro other hother
            rcases List.mem_append.mp hother with hbefore | hnew
            · exact hold other hbefore
            · rw [List.mem_singleton] at hnew
              subst hnew
              exact ⟨result, List.getElem?_concat_length, hgroup⟩

theorem Story.tells {dependencies : List JobResult} {result : JobResult} {events : List JobEvent}
    (hstory : node.Story mayCancel dependencies result events) : node.Tells result events := by
  cases hstory with
  | canceled => exact .silent rfl
  | skipped reason => exact .skipped rfl
  | failed => exact .silent rfl
  | ran hopens hname hsteps hover =>
      obtain ⟨groups, hgroups, rfl⟩ := hsteps.exists_groups
      exact .ran hgroups

theorem BreaksOff.tells {events : List JobEvent} (hbreaks : node.BreaksOff mayCancel events) :
    node.Tells (StageRun.lostJob node) events := by
  cases hbreaks with
  | calling label hsteps =>
      obtain ⟨groups, hgroups, rfl⟩ := hsteps.exists_groups
      exact .brokeOff rfl hgroups

end JobNode

theorem JobNode.tells_of_settles {mayCancel : Bool} {finished : Table JobResult}
    {task : Task JobNode JobWork JobResult} {events : List JobEvent} {result : JobResult}
    (hsettles : Schedule.Settles (JobNode.Records mayCancel) StageRun.lostJob
      StageRun.unreleasedJob finished task events result) : task.node.Tells result events := by
  cases hsettles with
  | returned hready hnoticed hcourse => exact hcourse.tells
  | died hready hlost hcourse => exact hcourse.2.tells
  | unreleased hblocked hunnoticed hquiet =>
      subst hquiet
      exact .silent rfl

/-! ## Stages -/

/-- Calls are not heard of a job, so it does not matter whether they stand between the others. -/
theorem StageEvent.heard_filter_isTold (name : String) (events : List StageEvent) :
    StageEvent.voice.heard name (events.filter StageEvent.isTold) =
      StageEvent.voice.heard name events := by
  unfold Voice.heard
  rw [List.filterMap_filter]
  refine List.filterMap_congr fun event _ => ?_
  cases event with
  | job other event =>
      cases htold : event.isTold <;> simp [StageEvent.isTold, htold, voice, ofJob?]
  | _ => rfl

/-- A stage tells the same of its progress as of everything that happened. -/
theorem Event.heard_filter_isTold (name : String) (events : List Event) :
    Event.voice.heard name (events.filter Event.isTold) =
      (Event.voice.heard name events).filter StageEvent.isTold := by
  unfold Voice.heard
  rw [List.filterMap_filter, List.filter_filterMap]
  refine List.filterMap_congr fun event _ => ?_
  cases event with
  | stage other event =>
      by_cases hname : other = name <;> cases htold : event.isTold <;>
        simp [Event.isTold, htold, voice, ofStage?, hname, Option.filter]
  | _ => rfl

namespace StageNode

variable {mayCancel : Bool} {node : StageNode}

theorem Story.tells {dependencies : List StageResult} {result : StageResult}
    {events : List StageEvent} (hstory : node.Story mayCancel dependencies result events) :
    node.Tells result (events.filter StageEvent.isTold) := by
  cases hstory with
  | canceled => exact .silent rfl
  | skipped reason => exact .skipped rfl
  | failed => exact .silent rfl
  | @ran run told hopens hrecords hsettled =>
      have hbrackets : (node.startEvent :: told ++
            [StageEvent.completed (run.result node).status]).filter StageEvent.isTold =
          node.startEvent :: told.filter StageEvent.isTold ++
            [.completed (run.result node).status] := by
        rw [List.filter_append]
        rfl
      have hplan := hrecords.plan
      rw [hbrackets]
      refine .ran ?_ ?_ ?_
      · intro entry hentry
        obtain ⟨task, htask, event, rfl⟩ :=
          hrecords.jobs.spoken entry (List.mem_of_mem_filter hentry)
        rw [hplan] at htask
        obtain ⟨job, hjob, rfl⟩ := List.mem_map.mp htask
        exact ⟨job, hjob, event, rfl⟩
      · refine (hrecords.forall₂_jobs hsettled).imp fun job jobResult hjob => ?_
        rw [StageEvent.heard_filter_isTold]
        exact JobNode.tells_of_settles hjob
      · have horder := hrecords.jobs.order
        rw [hplan] at horder
        exact horder.filter _

theorem tells_of_settles {finished : Table StageResult}
    {task : Task StageNode StageWork StageResult} {events : List StageEvent}
    {result : StageResult}
    (hsettles : Schedule.Settles (StageNode.Records mayCancel) RunState.lostStage
      RunState.unreleasedStage finished task events result) :
    task.node.Tells result (events.filter StageEvent.isTold) := by
  cases hsettles with
  | returned hready hnoticed hcourse => exact hcourse.tells
  | died hready hlost hcourse => exact hcourse.elim
  | unreleased hblocked hunnoticed hquiet =>
      subst hquiet
      exact .silent rfl

end StageNode

/-! ## Runs -/

namespace RunState

variable {setup : Setup} {state : RunState}

theorem progress_eq {told : List Event}
    (hlog : state.log = .started setup.name setup.graph.stages.length :: told) :
    state.progress setup = .started setup.name setup.graph.stages.length ::
      told.filter Event.isTold ++ [.completed setup.name (state.result setup).status] := by
  rw [progress, fullLog, hlog, List.filter_append]
  rfl

/-- What a run has told that has come to its end. -/
theorem Records.toldBy {mayCancel : Bool} {told : List Event}
    (hrecords : state.Records mayCancel setup told) (hcomplete : state.isComplete = true) :
    setup.graph.ToldBy setup.name (state.result setup) (state.progress setup) := by
  have hplan := hrecords.plan
  rw [progress_eq hrecords.log]
  refine .ran ?_ ?_ ?_
  · intro entry hentry
    obtain ⟨task, htask, event, rfl⟩ :=
      hrecords.stages.spoken entry (List.mem_of_mem_filter hentry)
    rw [hplan] at htask
    obtain ⟨node, hnode, rfl⟩ := List.mem_map.mp htask
    exact ⟨node, hnode, event, rfl⟩
  · refine (hrecords.forall₂_stages hcomplete).imp fun node stage hstage => ?_
    rw [Event.heard_filter_isTold]
    exact StageNode.tells_of_settles hstage
  · have horder := hrecords.stages.order
    rw [hplan] at horder
    exact horder.filter _

/-- In a run whose variables cannot be declared no stage was started. -/
theorem forall₂_unstarted_of_not_declares {allowed : RunState → Move → Prop}
    {earlier : List RunState} (hrefused : ¬ Declares setup)
    (hdistinct : setup.graph.DistinctNames)
    (hhistory : History setup allowed (state :: earlier)) :
    List.Forall₂ (fun node stage => ∃ status error,
        stage = StageResult.notRun node status .skipped error)
      setup.graph.stages (state.result setup).stages := by
  let ok (node : StageNode) (phase : Phase StageWork StageResult) : Prop :=
    ∀ result, phase = .returned result →
      ∃ status error, result = StageResult.notRun node status .skipped error
  have hunstarted : ∀ node status error,
      ok node (.returned (.notRun node status .skipped error)) :=
    fun node status error result heq => ⟨status, error, (Phase.returned.inj heq).symm⟩
  have hkeeps : (RunState.start setup).stages.Keeps ok := by
    refine keeps_start setup ?_ ?_ ?_ fun node error => hunstarted node .failed _
    · exact fun _ _ heq => nomatch heq
    · exact fun _ _ heq => nomatch heq
    · exact fun _ _ _ heq => nomatch heq
  rw [← stages_of_not_declares hrefused hhistory state List.mem_cons_self] at hkeeps
  have hplan := (sound_of_reachable (hhistory.reachable state List.mem_cons_self)).plan
  have hstages : List.Forall₂ (fun node stage => ∃ other ∈ setup.graph.stages,
        other.name = node.name ∧ ok other (.returned stage))
      setup.graph.stages (state.result setup).stages :=
    hkeeps.forall₂_collect_nodes hplan (fun _ => rfl) (fun node => hunstarted node .failed _)
      (fun node => hunstarted node .skipped none)
  exact (Schedule.forall₂_of_names hdistinct.stages hstages).imp
    fun node stage ⟨_, hok⟩ => hok stage rfl

end RunState

/-- The progress of every complete run is well bracketed and tells the statuses of the result tree,
whatever the steps come to, whenever the run is cancelled, and however its stages and jobs come
between each other.  Names stand once, and a task breaks off only with a call. -/
theorem progress_is_well_bracketed {setup : Setup} {state : RunState} {earlier : List RunState}
    (hdistinct : setup.graph.DistinctNames)
    (hhistory : RunState.History setup (fun state move => state.admits true move = true)
      (state :: earlier))
    (hcomplete : state.isComplete = true) :
    setup.graph.ToldBy setup.name (state.result setup) (state.progress setup) := by
  by_cases hdeclares : RunState.Declares setup
  · obtain ⟨told, hrecords⟩ :=
      RunState.records_of_history hhistory hdeclares hdistinct state List.mem_cons_self
    exact hrecords.toldBy hcomplete
  · have hlog := RunState.log_of_not_declares hdeclares hhistory state List.mem_cons_self
    have hunstarted := RunState.forall₂_unstarted_of_not_declares hdeclares hdistinct hhistory
    rw [RunState.progress_eq hlog]
    refine .ran (fun _ hentry => nomatch hentry) (hunstarted.imp fun node stage hstage => ?_) .nil
    obtain ⟨status, error, rfl⟩ := hstage
    exact .silent rfl

/-- Two stages run side by side.  A job breaks off with its second step, the other stage goes on,
and the run is cancelled before the third stage. -/
theorem progress_is_well_bracketed_delivery :
    Delivery.setup.graph.DistinctNames ∧ ∃ state earlier,
      RunState.History Delivery.setup (fun state move => state.admits true move = true)
        (state :: earlier) ∧
      state.isComplete = true ∧
      Delivery.setup.graph.ToldBy Delivery.setup.name (state.result Delivery.setup)
        (state.progress Delivery.setup) := by
  obtain ⟨state, earlier, hhistory, hcomplete⟩ :=
    RunState.exists_history_of_replay Delivery.setup (RunState.admits true) RunState.isComplete
      ([.stage 0 .start, .stage 1 .start, .stage 0 (.job 0 .start), .stage 0 (.job 0 .takeAgent)] ++
        Delivery.stepMoves 0 0 (some (.succeeded "")) ++
        [.stage 1 (.job 0 .start), .stage 0 (.job 0 .advance), .stage 1 (.job 0 .takeAgent)] ++
        Delivery.stepMoves 1 0 (some (.succeeded "")) ++
        [.stage 0 (.job 0 .die), .stage 1 (.job 0 .advance), .stage 0 (.notice 0),
          .stage 1 (.notice 0), .stage 0 .finish, .cancel, .notice 0, .stage 2 .start,
          .stage 1 .finish, .notice 2, .notice 1])
      (by decide +kernel)
  refine ⟨Delivery.distinctNames_graph, state, earlier, hhistory, hcomplete, ?_⟩
  exact progress_is_well_bracketed Delivery.distinctNames_graph hhistory hcomplete

/-! ## Where brackets break -/

def JobEvent.isStart : JobEvent → Bool
  | .started .. => true
  | _ => false

def JobEvent.isEnd : JobEvent → Bool
  | .completed .. => true
  | _ => false

namespace Delivery

/-- The build with two jobs of one name. -/
def twins : Pipeline :=
  { stages := [{ build with jobs := [compile, compile] }] }

def twinsSetup : Setup where
  name := "twins"
  graph := ⟨[⟨"build", { build with jobs := [compile, compile] }, [],
    [⟨"compile", compile, []⟩, ⟨"compile", compile, []⟩]⟩], []⟩

theorem ofPipeline_twins : Graph.ofPipeline twins = .ok twinsSetup.graph := by
  simp [Graph.ofPipeline, twins, twinsSetup, build, compile, stageNodes, Stage.jobNodes, jobNodes,
    nodeName, Stage.dependencyNames, DependsOn.names, DependsOn.isImplicit, Graph.precedence,
    JobNode.precedence, checkPrecedence, Precedence.dangling?, Precedence.cycle?, Precedence.visit,
    Precedence.before, Precedence.names, List.findSome?_cons, bind, Except.bind, pure, Except.pure]

end Delivery

/-- The progress of two jobs with one name holds two starts, although both have run to their ends.
A job whose call is not answered has started and is never completed. -/
theorem brackets_break :
    (Graph.ofPipeline Delivery.twins = .ok Delivery.twinsSetup.graph ∧ ∃ state earlier,
      RunState.History Delivery.twinsSetup (fun state move => state.admits false move = true)
        (state :: earlier) ∧
      state.isComplete = true ∧
      (state.progressOf Delivery.twinsSetup "build" "compile").countP JobEvent.isStart = 2 ∧
      (state.progressOf Delivery.twinsSetup "build" "compile").countP JobEvent.isEnd = 2) ∧
    Graph.ofPipeline Delivery.compilation = .ok Delivery.compilationSetup.graph ∧
    Delivery.compilationSetup.graph.DistinctNames ∧ ∃ state earlier,
      RunState.History Delivery.compilationSetup (fun state move => state.admits false move = true)
        (state :: earlier) ∧
      state.isComplete = true ∧
      (state.progressOf Delivery.compilationSetup "build" "compile").countP JobEvent.isStart = 1 ∧
      (state.progressOf Delivery.compilationSetup "build" "compile").countP JobEvent.isEnd = 0 := by
  let check (setup : Setup) (starts ends : Nat) (state : RunState) : Bool :=
    state.isComplete &&
      ((state.progressOf setup "build" "compile").countP JobEvent.isStart == starts &&
        (state.progressOf setup "build" "compile").countP JobEvent.isEnd == ends)
  have hcheck : ∀ {setup starts ends state}, check setup starts ends state = true →
      state.isComplete = true ∧
        (state.progressOf setup "build" "compile").countP JobEvent.isStart = starts ∧
        (state.progressOf setup "build" "compile").countP JobEvent.isEnd = ends := by
    intro setup starts ends state hchecked
    obtain ⟨hcomplete, hcounts⟩ := Bool.and_eq_true_iff.mp hchecked
    obtain ⟨hstarts, hends⟩ := Bool.and_eq_true_iff.mp hcounts
    exact ⟨hcomplete, beq_iff_eq.mp hstarts, beq_iff_eq.mp hends⟩
  obtain ⟨twins, before, htwins, htwinsCheck⟩ :=
    RunState.exists_history_of_replay Delivery.twinsSetup (RunState.admits false)
      (check Delivery.twinsSetup 2 2)
      (Delivery.stageMoves 0 (Delivery.jobMoves 0 0 [some (.succeeded ""), some (.succeeded "")] ++
        Delivery.jobMoves 0 1 [some (.succeeded ""), some (.succeeded "")]))
      (by decide +kernel)
  obtain ⟨broken, earlier, hbroken, hbrokenCheck⟩ :=
    RunState.exists_history_of_replay Delivery.compilationSetup (RunState.admits false)
      (check Delivery.compilationSetup 1 0)
      (Delivery.stageMoves 0 [.stage 0 (.job 0 .start), .stage 0 (.job 0 .takeAgent),
        .stage 0 (.job 0 .advance), .stage 0 (.job 0 .die), .stage 0 (.notice 0)])
      (by decide +kernel)
  exact ⟨⟨Delivery.ofPipeline_twins, twins, before, htwins, hcheck htwinsCheck⟩,
    Delivery.ofPipeline_compilation, ⟨by decide, by decide⟩, broken, earlier, hbroken,
    hcheck hbrokenCheck⟩

end BuildPipeline
