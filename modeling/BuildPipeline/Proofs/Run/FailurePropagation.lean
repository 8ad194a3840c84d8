import BuildPipeline.Proofs.Run.RunRecord

/-!
# How a failure propagates

A node without a condition of its own runs on the default condition, which asks for the success of
everything the node depends on.  So a failure stops what comes after it, stage by stage.

* `StageNode.HeedsDependencies` and `JobNode.HeedsDependencies` say what the default condition means
  for a node, next to the result tree and the log.
* `Graph.Downstream` are the stages that are reached from a stage through stages without conditions.
* `default_conditions_propagate` is the result, for complete runs that are not cancelled.

Stages with conditions of their own are not stopped, and the result says nothing about them.
-/

namespace BuildPipeline

/-! ## Success and start of nodes -/

/-- Whether a stage with a name has succeeded, with issues or without. -/
def PipelineResult.Succeeds (result : PipelineResult) (name : String) : Prop :=
  ∃ stage ∈ result.stages, stage.name = name ∧ stage.status.isSuccess = true

/-- Whether a job with a name has succeeded, with issues or without. -/
def StageResult.Succeeds (result : StageResult) (name : String) : Prop :=
  ∃ job ∈ result.jobs, job.name = name ∧ job.status.isSuccess = true

/-- Whether the log tells of the start of a stage. -/
def StageNode.StartsIn (node : StageNode) (log : List Event) : Prop :=
  ∃ displayName jobs, .stage node.name (.started displayName jobs) ∈ log

/-- Whether the log tells of the start of a job of a stage. -/
def JobNode.StartsIn (node : JobNode) (stage : String) (log : List Event) : Prop :=
  ∃ displayName steps, .stage stage (.job node.name (.started displayName steps)) ∈ log

/-- What the default condition makes of a node: it starts only after successful dependencies, and is
skipped if one of them was not successful. -/
structure HeedsDependencies (dependencies : List String) (succeeds : String → Prop)
    (starts skipped : Prop) : Prop where
  starts : starts → ∀ dependency ∈ dependencies, succeeds dependency
  skipped : (∃ dependency ∈ dependencies, ¬ succeeds dependency) → skipped

theorem HeedsDependencies.of_cases {dependencies : List String} {succeeds : String → Prop}
    {starts skipped : Prop}
    (hcases : (∀ dependency ∈ dependencies, succeeds dependency) ∨ (skipped ∧ ¬ starts)) :
    HeedsDependencies dependencies succeeds starts skipped := by
  rcases hcases with hsuccess | ⟨hskipped, hsilent⟩
  · refine ⟨fun _ => hsuccess, fun hfailure => ?_⟩
    obtain ⟨dependency, hdependency, hfailed⟩ := hfailure
    exact absurd (hsuccess dependency hdependency) hfailed
  · exact ⟨fun hstarts => absurd hstarts hsilent, fun _ => hskipped⟩

/-- A stage heeds the stages it depends on; if it is skipped, then with all its jobs and steps. -/
def StageNode.HeedsDependencies (node : StageNode) (result : PipelineResult) (log : List Event) :
    Prop :=
  BuildPipeline.HeedsDependencies node.dependencies result.Succeeds (node.StartsIn log)
    (.notRun node .skipped .skipped none ∈ result.stages)

/-- A job heeds the jobs it depends on; if it is skipped, then with all its steps. -/
def JobNode.HeedsDependencies (node : JobNode) (result : StageResult) (log : List Event) : Prop :=
  BuildPipeline.HeedsDependencies node.dependencies result.Succeeds
    (node.StartsIn result.name log) (.notRun node .skipped .skipped none ∈ result.jobs)

/-- The stages that a name leads to along dependencies, through stages without conditions. -/
inductive Graph.Downstream (graph : Graph) (source : String) : StageNode → Prop
  | direct {node : StageNode} (hnode : node ∈ graph.stages)
      (hdefault : node.stage.condition = none) (hdependency : source ∈ node.dependencies) :
      Downstream graph source node
  | further {middle node : StageNode} (hmiddle : Downstream graph source middle)
      (hnode : node ∈ graph.stages) (hdefault : node.stage.condition = none)
      (hdependency : middle.name ∈ node.dependencies) : Downstream graph source node

/-! ## Nodes on the default condition -/

/-- The result and the events of a job that was skipped. -/
def JobNode.IsSkipped (node : JobNode) (result : JobResult) (events : List JobEvent) : Prop :=
  result = .notRun node .skipped .skipped none ∧
    ∀ event ∈ events, ∃ reason, event = .skipped reason

/-- The result and the events of a stage that was skipped. -/
def StageNode.IsSkipped (node : StageNode) (result : StageResult) (events : List StageEvent) :
    Prop :=
  result = .notRun node .skipped .skipped none ∧
    ∀ event ∈ events, ∃ reason, event = .skipped reason

section Jobs

variable {finished : Table JobResult} {task : Task JobNode JobWork JobResult}
  {events : List JobEvent} {result : JobResult} {node : StageNode} {run : StageRun}
  {told : List StageEvent}

theorem JobNode.Story.name_eq {job : JobNode} {mayCancel : Bool} {dependencies : List JobResult}
    (hstory : job.Story mayCancel dependencies result events) : result.name = job.name := by
  cases hstory with
  | ran _ hname => exact hname
  | _ => rfl

/-- A job was released with results on which it opens, or it is skipped. -/
theorem JobNode.opened_or_skipped
    (hsettles : Schedule.Settles (JobNode.Records false) StageRun.lostJob
      StageRun.unreleasedJob finished task events result) :
    (Schedule.isReady finished task = true ∧
      task.node.Opens (Schedule.inputs finished task)) ∨ task.node.IsSkipped result events := by
  refine hsettles.opened_or task.node.Opens task.node.IsSkipped (fun given result hstory => ?_)
    (fun given hcourse => hcourse.1) ⟨rfl, fun _ hevent => nomatch hevent⟩
  cases hstory with
  | canceled hcancel => cases hcancel
  | skipped reason => exact Or.inr ⟨rfl, fun _ hevent => ⟨reason, List.mem_singleton.mp hevent⟩⟩
  | failed error hopens => exact Or.inl hopens
  | ran hopens => exact Or.inl hopens

/-- The dependencies of a job without a condition were successful, or the job is skipped and tells
nothing else. -/
theorem StageRun.Records.succeeds_or_skipped (hrecords : run.Records false node told)
    (hsettled : run.jobs.isSettled = true) {job : JobNode} (hjob : job ∈ node.jobs)
    (hdefault : job.job.condition = none) :
    (∀ dependency ∈ job.dependencies, (run.result node).Succeeds dependency) ∨
    (.notRun job .skipped .skipped none ∈ (run.result node).jobs ∧
      ∀ event ∈ StageEvent.voice.heard job.name told, ∃ reason, event = .skipped reason) := by
  obtain ⟨place, hplace⟩ := List.mem_iff_getElem?.mp hjob
  obtain ⟨result, hresult, hsettles⟩ :=
    exists_getElem?_of_forall₂ (hrecords.forall₂_jobs hsettled) hplace
  rcases JobNode.opened_or_skipped hsettles with ⟨hready, hopens⟩ | ⟨rfl, hsilent⟩
  · refine Or.inl fun dependency hdependency => ?_
    obtain ⟨given, hgiven, hcollected, hname⟩ := hrecords.jobs.exists_of_dependency hsettled
      StageRun.lostJob StageRun.unreleasedJob (fun _ _ _ _ hcourse => hcourse.name_eq) hready
      hdependency
    exact ⟨given, hcollected, hname, hopens hdefault given hgiven⟩
  · exact Or.inr ⟨List.mem_of_getElem? hresult, hsilent⟩

end Jobs

section Stages

variable {finished : Table StageResult} {task : Task StageNode StageWork StageResult}
  {events : List StageEvent} {result : StageResult}

theorem StageNode.Story.name_eq {node : StageNode} {mayCancel : Bool}
    {dependencies : List StageResult} (hstory : node.Story mayCancel dependencies result events) :
    result.name = node.name := by
  cases hstory <;> rfl

/-- A stage was released with results on which it opens, or it is skipped. -/
theorem StageNode.opened_or_skipped
    (hsettles : Schedule.Settles (StageNode.Records false) RunState.lostStage
      RunState.unreleasedStage finished task events result) :
    (Schedule.isReady finished task = true ∧
      task.node.Opens (Schedule.inputs finished task)) ∨ task.node.IsSkipped result events := by
  refine hsettles.opened_or task.node.Opens task.node.IsSkipped (fun given result hstory => ?_)
    (fun given hcourse => hcourse.elim) ⟨rfl, fun _ hevent => nomatch hevent⟩
  cases hstory with
  | canceled hcancel => cases hcancel
  | skipped reason => exact Or.inr ⟨rfl, fun _ hevent => ⟨reason, List.mem_singleton.mp hevent⟩⟩
  | failed error hopens => exact Or.inl hopens
  | ran hopens => exact Or.inl hopens

/-- A stage that tells of its start has run. -/
theorem StageNode.ran_of_started
    (hsettles : Schedule.Settles (StageNode.Records false) RunState.lostStage
      RunState.unreleasedStage finished task events result)
    {displayName : Option String} {jobs : Nat}
    (hstarted : StageEvent.started displayName jobs ∈ events) :
    ∃ run told, StageRun.Records false task.node run told ∧ run.jobs.isSettled = true ∧
      result = run.result task.node ∧
        events = task.node.startEvent :: told ++ [.completed (run.result task.node).status] := by
  cases hsettles with
  | died _ _ hcourse => exact hcourse.elim
  | unreleased _ _ hquiet =>
      subst hquiet
      cases hstarted
  | returned _ _ hcourse =>
      cases hcourse with
      | canceled => cases hstarted
      | skipped => exact nomatch List.mem_singleton.mp hstarted
      | failed => cases hstarted
      | @ran run told _ hrecords hsettled => exact ⟨run, told, hrecords, hsettled, rfl, rfl⟩

end Stages

/-! ## Runs -/

namespace RunState.Records

variable {setup : Setup} {state : RunState} {told : List Event} {node : StageNode}

/-- Every stage of the graph has settled as its result and the log say. -/
theorem exists_settles (hrecords : state.Records false setup told)
    (hcomplete : state.isComplete = true) (hnode : node ∈ setup.graph.stages) :
    ∃ stage ∈ (state.result setup).stages,
      Schedule.Settles (StageNode.Records false) lostStage unreleasedStage state.stages.finished
        (stageTask node) (Event.voice.heard node.name told) stage := by
  obtain ⟨place, hplace⟩ := List.mem_iff_getElem?.mp hnode
  obtain ⟨stage, hstage, hsettles⟩ :=
    exists_getElem?_of_forall₂ (hrecords.forall₂_stages hcomplete) hplace
  exact ⟨stage, List.mem_of_getElem? hstage, hsettles⟩

/-- An event of a stage is heard of the stage. -/
theorem mem_heard (hrecords : state.Records false setup told) {event : StageEvent}
    (hevent : .stage node.name event ∈ state.log) : event ∈ Event.voice.heard node.name told := by
  rw [hrecords.log] at hevent
  have hentry : Event.stage node.name event ∈ told :=
    (List.mem_cons.mp hevent).resolve_left fun heq => nomatch heq
  exact Event.voice.mem_heard_of_say hentry rfl

/-- The dependencies of a stage without a condition were successful, or the stage is skipped and
tells nothing else. -/
theorem succeeds_or_skipped (hrecords : state.Records false setup told)
    (hcomplete : state.isComplete = true) (hnode : node ∈ setup.graph.stages)
    (hdefault : node.stage.condition = none) :
    (∀ dependency ∈ node.dependencies, (state.result setup).Succeeds dependency) ∨
    (.notRun node .skipped .skipped none ∈ (state.result setup).stages ∧
      ∀ event, .stage node.name event ∈ state.log → ∃ reason, event = .skipped reason) := by
  obtain ⟨stage, hstage, hsettles⟩ := hrecords.exists_settles hcomplete hnode
  rcases StageNode.opened_or_skipped hsettles with ⟨hready, hopens⟩ | ⟨rfl, hsilent⟩
  · refine Or.inl fun dependency hdependency => ?_
    obtain ⟨given, hgiven, hcollected, hname⟩ := hrecords.stages.exists_of_dependency hcomplete
      lostStage unreleasedStage (fun _ _ _ _ hcourse => StageNode.Story.name_eq hcourse) hready
      hdependency
    exact ⟨given, hcollected, hname, hopens hdefault given hgiven⟩
  · exact Or.inr ⟨hstage, fun event hevent => hsilent event (hrecords.mem_heard hevent)⟩

theorem stage_heedsDependencies (hrecords : state.Records false setup told)
    (hcomplete : state.isComplete = true) (hnode : node ∈ setup.graph.stages)
    (hdefault : node.stage.condition = none) :
    node.HeedsDependencies (state.result setup) state.log := by
  refine .of_cases ((hrecords.succeeds_or_skipped hcomplete hnode hdefault).imp_right ?_)
  rintro ⟨hmem, hsilent⟩
  refine ⟨hmem, fun hstarts => ?_⟩
  obtain ⟨displayName, jobs, hstarted⟩ := hstarts
  obtain ⟨reason, heq⟩ := hsilent _ hstarted
  cases heq

/-- The jobs of a stage that has started. -/
theorem jobs_heedDependencies (hrecords : state.Records false setup told)
    (hcomplete : state.isComplete = true) (hnode : node ∈ setup.graph.stages)
    (hstarts : node.StartsIn state.log) :
    ∃ stage ∈ (state.result setup).stages, stage.name = node.name ∧
      ∀ job ∈ node.jobs, job.job.condition = none → job.HeedsDependencies stage state.log := by
  obtain ⟨displayName, jobs, hstarted⟩ := hstarts
  obtain ⟨stage, hstage, hsettles⟩ := hrecords.exists_settles hcomplete hnode
  obtain ⟨run, between, hrun, hsettled, rfl, hheard⟩ :=
    StageNode.ran_of_started hsettles (hrecords.mem_heard hstarted)
  refine ⟨run.result node, hstage, rfl, fun job hjob hdefault => ?_⟩
  refine .of_cases ((hrun.succeeds_or_skipped hsettled hjob hdefault).imp_right ?_)
  rintro ⟨hmem, hsilent⟩
  refine ⟨hmem, fun hjobStarts => ?_⟩
  obtain ⟨displayName, steps, hjobStarted⟩ := hjobStarts
  -- The news stands between the start and the end of the stage.
  have hentry : StageEvent.job job.name (.started displayName steps) ∈
      Event.voice.heard node.name told := hrecords.mem_heard hjobStarted
  rw [hheard] at hentry
  have hbetween : StageEvent.job job.name (.started displayName steps) ∈ between := by
    simpa [StageNode.startEvent] using hentry
  obtain ⟨reason, heq⟩ := hsilent _ (StageEvent.voice.mem_heard_of_say hbetween rfl)
  cases heq

end RunState.Records

/-- In a tree with distinct names a name succeeds only through its own stage. -/
theorem PipelineResult.not_succeeds_of_mem {result : PipelineResult} {stage : StageResult}
    (hnames : (result.stages.map (·.name)).Nodup) (hstage : stage ∈ result.stages)
    (hfailed : stage.status.isSuccess = false) : ¬ result.Succeeds stage.name := by
  rintro ⟨other, hother, hname, hsuccess⟩
  obtain rfl := List.inj_on_of_nodup_map hnames hother hstage hname
  rw [hfailed] at hsuccess
  cases hsuccess

theorem Graph.ReportedBy.names_eq {graph : Graph} {result : PipelineResult}
    (hreported : graph.ReportedBy result) :
    result.stages.map (·.name) = graph.stages.map (·.name) := by
  have hnames : List.Forall₂ (fun name other => name = other)
      (graph.stages.map (·.name)) (result.stages.map (·.name)) := by
    rw [List.forall₂_map_left_iff, List.forall₂_map_right_iff]
    exact hreported.stages.imp fun _ _ hstage => hstage.name.symm
  exact (List.forall₂_eq_eq_eq ▸ hnames : _ = _).symm

/-- A failure is handed down from stage to stage. -/
theorem RunState.Records.skipped_of_downstream {setup : Setup} {state : RunState}
    {told : List Event} (hrecords : state.Records false setup told)
    (hcomplete : state.isComplete = true)
    (hnames : ((state.result setup).stages.map (·.name)).Nodup) {source : String}
    (hfailed : ¬ (state.result setup).Succeeds source) {node : StageNode}
    (hdownstream : setup.graph.Downstream source node) :
    .notRun node .skipped .skipped none ∈ (state.result setup).stages ∧
      ∀ event, .stage node.name event ∈ state.log → ∃ reason, event = .skipped reason := by
  induction hdownstream with
  | direct hnode hdefault hdependency =>
      refine (hrecords.succeeds_or_skipped hcomplete hnode hdefault).resolve_left fun hsuccess => ?_
      exact hfailed (hsuccess source hdependency)
  | @further middle node _ hnode hdefault hdependency ih =>
      have hmiddle : ¬ (state.result setup).Succeeds middle.name :=
        PipelineResult.not_succeeds_of_mem hnames ih.1 rfl
      refine (hrecords.succeeds_or_skipped hcomplete hnode hdefault).resolve_left fun hsuccess => ?_
      exact hmiddle (hsuccess middle.name hdependency)

/-- Default conditions hand failures down through the whole graph.  In every complete run that is
not cancelled, a stage without a condition, and a job without a condition in a stage that has
started, starts only after successful dependencies and is skipped if one was not successful.  What
is reached from an unsuccessful stage through stages without conditions is skipped, and none of its
jobs tells or calls for anything. -/
theorem default_conditions_propagate {setup : Setup} {state : RunState} {earlier : List RunState}
    (hdistinct : setup.graph.DistinctNames) (hdeclares : RunState.Declares setup)
    (hhistory : RunState.History setup (fun state move => state.admits false move = true)
      (state :: earlier))
    (hcomplete : state.isComplete = true) :
    (∀ node ∈ setup.graph.stages, node.stage.condition = none →
      node.HeedsDependencies (state.result setup) state.log) ∧
    (∀ node ∈ setup.graph.stages, node.StartsIn state.log →
      ∃ stage ∈ (state.result setup).stages, stage.name = node.name ∧
        ∀ job ∈ node.jobs, job.job.condition = none → job.HeedsDependencies stage state.log) ∧
    ∀ stage ∈ (state.result setup).stages, stage.status.isSuccess = false →
      ∀ node, setup.graph.Downstream stage.name node →
        .notRun node .skipped .skipped none ∈ (state.result setup).stages ∧
          ∀ job event, .stage node.name (.job job event) ∉ state.log := by
  obtain ⟨told, hrecords⟩ :=
    RunState.records_of_history hhistory hdeclares hdistinct state List.mem_cons_self
  refine ⟨fun node hnode => hrecords.stage_heedsDependencies hcomplete hnode,
    fun node hnode => hrecords.jobs_heedDependencies hcomplete hnode,
    fun stage hstage hfailed node hdownstream => ?_⟩
  have hsound := RunState.sound_of_reachable (hhistory.reachable state List.mem_cons_self)
  have hnames : ((state.result setup).stages.map (·.name)).Nodup := by
    rw [(hsound.reportedBy hdistinct).names_eq]
    exact hdistinct.stages
  have hsource := PipelineResult.not_succeeds_of_mem hnames hstage hfailed
  obtain ⟨hskipped, hsilent⟩ := hrecords.skipped_of_downstream hcomplete hnames hsource hdownstream
  refine ⟨hskipped, fun job event hevent => ?_⟩
  obtain ⟨reason, heq⟩ := hsilent _ hevent
  cases heq

/-- The packing fails, so the delivery is skipped; the documentation, which comes between them, is
not. -/
theorem default_conditions_propagate_delivery :
    Delivery.setup.graph.DistinctNames ∧ RunState.Declares Delivery.setup ∧
    ∃ state earlier,
      RunState.History Delivery.setup (fun state move => state.admits false move = true)
        (state :: earlier) ∧
      state.isComplete = true ∧
      (∃ stage ∈ (state.result Delivery.setup).stages,
        stage.status.isSuccess = false ∧ stage.name = "build") ∧
      ∃ node ∈ Delivery.setup.graph.stages, node.name = "deploy" ∧
        node.HeedsDependencies (state.result Delivery.setup) state.log ∧
        .notRun node .skipped .skipped none ∈ (state.result Delivery.setup).stages ∧
        ∀ job event, .stage node.name (.job job event) ∉ state.log := by
  let check (state : RunState) : Bool :=
    state.isComplete && (state.result Delivery.setup).stages.any fun stage =>
      !stage.status.isSuccess && stage.name == "build"
  obtain ⟨state, earlier, hhistory, hcheck⟩ :=
    RunState.exists_history_of_replay Delivery.setup (RunState.admits false) check
      (Delivery.stageMoves 0
          (Delivery.jobMoves 0 0 [some (.succeeded ""), some (.succeeded "")] ++
            Delivery.jobMoves 0 1 [some {}]) ++
        [.stage 1 .start, .stage 2 .start, .notice 2] ++
        Delivery.jobMoves 1 0 [some (.succeeded "")] ++ [.stage 1 .finish, .notice 1])
      (by decide +kernel)
  have hdeclares : RunState.Declares Delivery.setup := rfl
  obtain ⟨hcomplete, hbuild⟩ := Bool.and_eq_true_iff.mp hcheck
  obtain ⟨stage, hstage, hfailed⟩ := List.any_eq_true.mp hbuild
  obtain ⟨hfailed, hname⟩ := Bool.and_eq_true_iff.mp hfailed
  rw [Bool.not_eq_true'] at hfailed
  rw [beq_iff_eq] at hname
  obtain ⟨hstages, -, hdownstream⟩ := default_conditions_propagate Delivery.distinctNames_graph
    hdeclares hhistory hcomplete
  have hmem : (⟨"deploy", Delivery.deploy, ["build"], [⟨"ship", Delivery.ship, []⟩]⟩ : StageNode) ∈
      Delivery.setup.graph.stages := by
    simp [Delivery.setup, Delivery.graph]
  have hreached := hdownstream stage hstage hfailed _
    (.direct hmem rfl (hname ▸ List.mem_singleton_self _))
  exact ⟨Delivery.distinctNames_graph, hdeclares, state, earlier, hhistory, hcomplete,
    ⟨stage, hstage, hfailed, hname⟩, _, hmem, rfl, hstages _ hmem rfl, hreached⟩

end BuildPipeline
