import BuildPipeline.Proofs.Artifact.Publications

/-!
# What a download finds

A download is only checked against the ledger, and the ledger has a name from the moment on at which
it is reserved.  It is the schedule that turns the reservation into an artifact: the publisher is a
stage that the downloading stage depends on, so it has ended, and nothing of it is under way.

* `RunState.closed_of_ancestor`: when a stage has started, everything it depends on, directly or
  through others, has ended.  No soundness of the graph is needed for that, only distinct names.
* `RunState.published_of_checkDownload` joins it to the account of the ledger.
* `downloads_follow_publications` says it of the log: before every call for a download stands the
  publication, by another stage, which the downloading one depends on.
-/

namespace BuildPipeline

/-- What the ledger lets through is held by an ancestor. -/
theorem Ledger.checkDownload_eq_ok {ledger : Ledger} {artifact stage : String}
    {ancestors : List String} (hcheck : ledger.checkDownload artifact stage ancestors = .ok ()) :
    ∃ publisher, ledger.publisher? artifact = some publisher ∧ publisher ∈ ancestors := by
  unfold checkDownload at hcheck
  split at hcheck
  · next publisher hholds =>
      split at hcheck
      · next hancestor => exact ⟨publisher, hholds, hancestor⟩
      · cases hcheck
  · cases hcheck

/-- A stage publishes under its own name. -/
theorem StageWork.stage_of_mem_publishing {stage : String} {work : StageWork}
    {publication : Publication} (hmem : publication ∈ work.publishing stage) :
    publication.2 = stage := by
  cases work with
  | released => cases hmem
  | running run =>
      rw [publishing] at hmem
      obtain ⟨task, -, work, -, hjob⟩ := Schedule.mem_gather.mp hmem
      cases work with
      | running run =>
          obtain ⟨ongoing, -, hcall⟩ := List.mem_flatMap.mp hjob
          cases hongoing : ongoing.call with
          | publish artifact source =>
              rw [hongoing] at hcall
              obtain rfl := List.mem_singleton.mp hcall
              rfl
          | attempt => simp [hongoing, Call.publishing] at hcall
          | download => simp [hongoing, Call.publishing] at hcall
      | released => cases hjob
      | queued => cases hjob

/-! ## Dependencies of a stage that has started -/

/-- A node with a result that was noticed is closed. -/
theorem Schedule.Coherent.closed_of_get? {ν α ρ : Type} {course : ν → List ρ → Phase α ρ → Prop}
    {schedule : Schedule ν α ρ} (hcoherent : schedule.Coherent course) {task : Task ν α ρ}
    {result : ρ} (htask : task ∈ schedule.tasks)
    (hfound : schedule.finished.get? task.name = some result) : task.phase = .closed := by
  have hfits := hcoherent.fits task htask
  unfold Schedule.Fits at hfits
  cases hphase : task.phase with
  | closed => rfl
  | waiting => simp [hphase, hfound] at hfits
  | active work => simp [hphase, hfound] at hfits
  | returned result => simp [hphase, hfound] at hfits
  | died => simp [hphase, hfound] at hfits

namespace RunState

variable {setup : Setup} {state : RunState} {earlier : List RunState}

/-- Two stages with one name are one stage. -/
theorem eq_of_mem_stages (hnames : (setup.graph.stages.map (·.name)).Nodup)
    (hsound : state.Sound setup) {first second : Task StageNode StageWork StageResult}
    (hfirst : first ∈ state.stages.tasks) (hsecond : second ∈ state.stages.tasks)
    (hname : first.name = second.name) : first = second := by
  have hdistinct : (state.stages.tasks.map (·.name)).Nodup := by
    rw [← Schedule.map_name_plan, hsound.plan, names_stageTasks]
    exact hnames
  exact List.inj_on_of_nodup_map hdistinct hfirst hsecond hname

/-- What a stage depends on is what its task waits for. -/
theorem Sound.before_name (hnames : (setup.graph.stages.map (·.name)).Nodup)
    (hsound : state.Sound setup) {task : Task StageNode StageWork StageResult}
    (htask : task ∈ state.stages.tasks) :
    setup.graph.precedence.before task.name = task.dependencies := by
  have hplanned := Schedule.mem_plan_of_mem htask
  rw [hsound.plan] at hplanned
  obtain ⟨node, hnode, hreset⟩ := List.mem_map.mp hplanned
  have hname : node.name = task.name := congrArg Task.name hreset
  have hdependencies : node.dependencies = task.dependencies := congrArg Task.dependencies hreset
  rw [← Graph.names_precedence] at hnames
  rw [← hname, ← hdependencies]
  exact Precedence.before_eq_of_mem hnames (Graph.mem_precedence hnode)

/-- A stage that has started finds all its dependencies closed. -/
theorem closed_of_dependency (hnames : (setup.graph.stages.map (·.name)).Nodup)
    (hsound : state.Sound setup) (hcoherent : state.stages.Coherent Schedule.Alive)
    {task : Task StageNode StageWork StageResult} (htask : task ∈ state.stages.tasks)
    (hstarted : task.phase.isWaiting = false) {dependency : String}
    (hdependency : setup.graph.precedence.Precedes dependency task.name) :
    ∃ other ∈ state.stages.tasks, other.name = dependency ∧ other.phase = .closed := by
  have hready := (hcoherent.fits task htask).isReady_of_started hstarted
  rw [Precedence.Precedes, hsound.before_name hnames htask] at hdependency
  obtain ⟨result, hresult⟩ := Schedule.isReady_iff.mp hready dependency hdependency
  obtain ⟨planned, hplanned, hname, -⟩ := hsound.keeps.finished dependency result hresult
  obtain ⟨other, hother, rfl⟩ := List.mem_map.mp hplanned
  rw [Task.reset_name] at hname
  subst hname
  exact ⟨other, hother, rfl, hcoherent.closed_of_get? hother hresult⟩

/-- The stages of a run in which no task breaks off are coherent, or nothing has ever started. -/
theorem coherent_or_closed (hnames : (setup.graph.stages.map (·.name)).Nodup)
    (hhistory : History setup (fun _ move => move.breaksOff = false) (state :: earlier)) :
    state.stages.Coherent Schedule.Alive ∨ ∀ task ∈ state.stages.tasks, task.phase = .closed := by
  by_cases hdeclares : Declares setup
  · refine Or.inl (Schedule.Trace.coherent ?_ phase_of_mem_stageTasks
      (trace_stages hdeclares hhistory)).1
    rw [names_stageTasks]
    exact hnames
  · refine Or.inr ?_
    rw [stages_of_not_declares hdeclares hhistory state List.mem_cons_self]
    exact closed_of_not_declares hdeclares

/-- When a stage is at work, everything it depends on has ended, directly or through others. -/
theorem closed_of_ancestor (hnames : (setup.graph.stages.map (·.name)).Nodup)
    (hhistory : History setup (fun _ move => move.breaksOff = false) (state :: earlier))
    {task : Task StageNode StageWork StageResult} {work : StageWork}
    (htask : task ∈ state.stages.tasks) (hwork : task.phase = .active work) {ancestor : String}
    (hancestor : Relation.TransGen setup.graph.precedence.Precedes ancestor task.name) :
    ∃ other ∈ state.stages.tasks, other.name = ancestor ∧ other.phase = .closed := by
  have hsound := sound_of_reachable (hhistory.reachable state List.mem_cons_self)
  rcases coherent_or_closed hnames hhistory with hcoherent | hclosed
  · -- The induction is on the path.  A closed stage has started too, so it hands the fact on.
    induction hancestor using Relation.TransGen.head_induction_on with
    | single hdependency =>
        exact closed_of_dependency hnames hsound hcoherent htask (by rw [hwork]; rfl) hdependency
    | head hdependency _ ih =>
        obtain ⟨other, hother, rfl, hphase⟩ := ih
        exact closed_of_dependency hnames hsound hcoherent hother (by rw [hphase]; rfl) hdependency
  · rw [hclosed task htask] at hwork
    cases hwork

/-- A publication that waits for the store keeps its stage at work. -/
theorem exists_active_of_mem_publishing (hsound : state.Sound setup) {artifact stage : String}
    (hunderWay : (artifact, stage) ∈ state.publishing) :
    ∃ (task : Task StageNode StageWork StageResult) (work : StageWork),
      task ∈ state.stages.tasks ∧ task.phase = .active work ∧ task.name = stage := by
  obtain ⟨task, htask, work, hwork, hmem⟩ := Schedule.mem_gather.mp hunderWay
  have hstage : stage = task.node.name := StageWork.stage_of_mem_publishing hmem
  exact ⟨task, work, htask, hwork, (hsound.name_of_mem htask).trans hstage.symm⟩

/-- A download that the ledger lets through is one of an artifact that another stage, a transitive
dependency, has published. -/
theorem published_of_checkDownload (hnames : (setup.graph.stages.map (·.name)).Nodup)
    (hhistory : History setup (fun _ move => move.breaksOff = false) (state :: earlier))
    {task : Task StageNode StageWork StageResult} {work : StageWork}
    (htask : task ∈ state.stages.tasks) (hwork : task.phase = .active work) {artifact : String}
    (hcheck : state.shared.ledger.checkDownload artifact task.name
      (setup.graph.ancestors task.name) = .ok ()) :
    ∃ publisher, publisher ≠ task.name ∧
      Relation.TransGen setup.graph.precedence.Precedes publisher task.name ∧
      (artifact, publisher) ∈ state.published := by
  have hsound := sound_of_reachable (hhistory.reachable state List.mem_cons_self)
  have hspares : History setup SparesPublications (state :: earlier) := by
    refine hhistory.mono fun before move hreturns hbreaks => ?_
    rw [hbreaks] at hreturns
    cases hreturns
  have haccounts := accounts_of_history hspares state List.mem_cons_self
  obtain ⟨publisher, hholds, hancestor⟩ := Ledger.checkDownload_eq_ok hcheck
  rw [Graph.ancestors, Precedence.mem_ancestors_iff_transGen] at hancestor
  obtain ⟨other, hother, rfl, hclosed⟩ := closed_of_ancestor hnames hhistory htask hwork hancestor
  refine ⟨other.name, ?_, hancestor, ?_⟩
  · intro hname
    rw [eq_of_mem_stages hnames hsound hother htask hname, hwork] at hclosed
    cases hclosed
  · have hentry := haccounts.publisher?_iff.mp hholds
    rcases hentry with (hunderWay | hpublished) | hlost
    · -- A publication under way would keep its stage at work, and this one is closed.
      obtain ⟨holder, holding, hholder, hactive, hname⟩ := exists_active_of_mem_publishing hsound
        hunderWay
      rw [eq_of_mem_stages hnames hsound hholder hother hname, hclosed] at hactive
      cases hactive
    · exact hpublished
    · cases hlost

end RunState

/-! ## Calls for downloads -/

/-- Whether the ledger lets through what an event of a job calls for. -/
def Ledger.Permits (ledger : Ledger) (stage : String) (ancestors : List String) : JobEvent → Prop
  | .called _ (.download artifact _) => ledger.checkDownload artifact stage ancestors = .ok ()
  | _ => True

theorem Ledger.permits_of_isInternal (ledger : Ledger) (stage : String) (ancestors : List String)
    {event : JobEvent} (hinternal : event.isInternal = true) :
    ledger.Permits stage ancestors event := by
  cases event with
  | called => cases hinternal
  | _ => exact trivial

/-- A step only calls for a download that the ledger lets through. -/
theorem Action.Calls.permits {setup : Setup} {place : Place} {ledger after : Ledger}
    {invocation : Invocation} {action : Action} {call : Call} (index : Nat)
    (hcalls : action.Calls setup place ledger invocation call after) :
    ledger.Permits place.stage place.ancestors (.called index call) := by
  cases hcalls with
  | download hsource hcheck => exact hcheck
  | shell | task | publish => exact trivial

/-- Events of which the ledger lets through all that they call for. -/
def Ledger.PermitsAll (ledger : Ledger) (stage : String) (ancestors : List String)
    (events : List JobEvent) : Prop :=
  ∀ event ∈ events, ledger.Permits stage ancestors event

namespace Ledger

variable {ledger : Ledger} {stage : String} {ancestors : List String}

@[simp] theorem permitsAll_nil : ledger.PermitsAll stage ancestors [] :=
  fun _ hevent => absurd hevent List.not_mem_nil

theorem permitsAll_singleton {event : JobEvent} (hpermits : ledger.Permits stage ancestors event) :
    ledger.PermitsAll stage ancestors [event] :=
  List.forall_mem_singleton.mpr hpermits

end Ledger

namespace JobWork

variable {setup : Setup} {place : Place} {environment : Environment} {shared : Shared}
  {node : JobNode} {work : JobWork} {move : JobMove} {turn : JobTurn} {ledger : Ledger}
  {stage : String} {ancestors : List String}

theorem permits_conclude (run : JobRun) (declared started : Step) (failure : Status)
    (outcome : Outcome) {events : List JobEvent}
    (hevents : ledger.PermitsAll stage ancestors events) :
    ledger.PermitsAll stage ancestors
      (conclude shared run declared started failure outcome events).events := by
  refine List.forall_mem_append.mpr ⟨hevents, fun event hevent => ?_⟩
  exact ledger.permits_of_isInternal stage ancestors (isInternal_of_mem_settle event hevent)

theorem Advances.permits {run : JobRun} (hadvances : Advances setup place shared node run turn) :
    shared.ledger.PermitsAll place.stage place.ancestors turn.events := by
  cases hadvances with
  | canceled | refused => exact Ledger.permitsAll_nil
  | ended | skipped => exact Ledger.permitsAll_singleton trivial
  | @immediate step outcome =>
      exact permits_conclude run _ _ _ outcome (Ledger.permitsAll_singleton trivial)
  | calling hdeclared hlive hcalls =>
      have hcalled := Ledger.permitsAll_singleton (hcalls.permits run.results.length)
      exact List.forall_mem_cons.mpr ⟨trivial, hcalled⟩

theorem permits_takeOutcome (run : JobRun) (declared : Step) (ongoing : Ongoing)
    (invocation : Invocation) (number : Nat) (outcome : Outcome) :
    ledger.PermitsAll stage ancestors
      (takeOutcome shared run declared ongoing invocation number outcome).events := by
  unfold takeOutcome
  split
  · exact permits_conclude run _ _ _ outcome Ledger.permitsAll_nil
  · exact Ledger.permitsAll_singleton trivial

theorem Answers.permits {run : JobRun} {declared : Step} {ongoing : Ongoing} {reply : Reply}
    (hanswers : Answers shared run declared ongoing reply turn) :
    ledger.PermitsAll stage ancestors turn.events := by
  cases hanswers with
  | attempt reply outcome => exact permits_takeOutcome run declared ongoing _ _ outcome
  | published => exact permits_conclude run _ _ _ _ (Ledger.permitsAll_singleton trivial)
  | refused | download => exact permits_conclude run _ _ _ _ Ledger.permitsAll_nil

/-- A job only calls for downloads that the ledger lets through. -/
theorem permits_of_moves (hmoves : work.Moves setup place environment shared node move turn) :
    shared.ledger.PermitsAll place.stage place.ancestors turn.events := by
  cases hmoves with
  | start dependencies =>
      generalize hstart : start setup environment shared node dependencies = turn
      cases starts_of_start hstart with
      | canceled | queued | failed => exact Ledger.permitsAll_nil
      | skipped => exact Ledger.permitsAll_singleton trivial
  | takeAgent context =>
      generalize htake : takeAgent environment shared node context = turn
      cases takesAgent_of_takeAgent htake with
      | refused => exact Ledger.permitsAll_nil
      | running => exact Ledger.permitsAll_singleton trivial
  | advance run hidle => exact (advances_of_advance rfl).permits
  | answer hongoing hdeclared hanswer => exact (answers_of_answer hanswer).permits
  | withdraw | die => exact Ledger.permitsAll_nil

end JobWork

theorem StageWork.permits_of_moves {setup : Setup} {environment : Environment} {shared : Shared}
    {node : StageNode} {work : StageWork} {move : StageMove} {turn : StageTurn}
    (hmoves : work.Moves setup environment shared node move turn) {job : String} {event : JobEvent}
    (hevent : .job job event ∈ turn.events) :
    shared.ledger.Permits node.name (setup.graph.ancestors node.name) event := by
  cases hmoves with
  | start dependencies =>
      generalize hstart : start setup environment shared node dependencies = turn at hevent
      cases starts_of_start hstart with
      | canceled | failed | refused => cases hevent
      | skipped | running => cases List.mem_singleton.mp hevent
  | @job run index task work move turn htask hwork hmoves =>
      obtain ⟨told, htold, hsame⟩ := List.mem_map.mp hevent
      cases hsame
      exact JobWork.permits_of_moves hmoves event htold
  | finish run hsettled => cases List.mem_singleton.mp hevent
  | notice | die => cases hevent

/-- The log grows with every move, and what the jobs call for is let through by the ledger before
the move. -/
theorem RunState.permits_of_moves {setup : Setup} {state next : RunState} {move : Move}
    (hsound : state.Sound setup) (hmoves : Moves setup state move next) :
    ∃ told, next.log = state.log ++ told ∧
      ∀ stage job event, .stage stage (.job job event) ∈ told →
        ∃ (task : Task StageNode StageWork StageResult) (work : StageWork),
          task ∈ state.stages.tasks ∧ task.phase = .active work ∧ task.name = stage ∧
          state.shared.ledger.Permits stage (setup.graph.ancestors stage) event := by
  cases hmoves with
  | cancel => exact ⟨[], (List.append_nil _).symm, fun _ _ _ hevent => by cases hevent⟩
  | @stage index task work move turn htask hwork hmoves =>
      refine ⟨_, rfl, fun stage job event hevent => ?_⟩
      obtain ⟨told, htold, hsame⟩ := List.mem_map.mp hevent
      cases hsame
      have hmem := List.mem_of_getElem? htask
      refine ⟨task, work, hmem, hwork, rfl, ?_⟩
      rw [hsound.name_of_mem hmem]
      exact StageWork.permits_of_moves hmoves htold
  | notice hnotice => exact ⟨[], (List.append_nil _).symm, fun _ _ _ hevent => by cases hevent⟩

/-! ## The theorem -/

namespace RunState

variable {setup : Setup} {state : RunState} {earlier : List RunState}

theorem exists_event_of_mem_published {log : List Event} {artifact stage : String}
    (hpublished : (artifact, stage) ∈ log.flatMap Event.published) :
    ∃ job, .stage stage (.job job (.artifactPublished artifact)) ∈ log := by
  obtain ⟨event, hevent, hmem⟩ := List.mem_flatMap.mp hpublished
  -- Only one kind of event tells of a publication.
  cases event with
  | stage name event =>
      cases event with
      | job job event =>
          cases event with
          | artifactPublished name =>
              obtain ⟨rfl, rfl⟩ := Prod.mk.inj (List.mem_singleton.mp hmem)
              exact ⟨job, hevent⟩
          | _ => cases hmem
      | _ => cases hmem
  | _ => cases hmem

/-- What stands in the log before a call for a download: the publication by another stage, on which
the downloading one depends. -/
def FollowsPublication (setup : Setup) (before : List Event) (stage artifact : String) : Prop :=
  ∃ publisher, publisher ≠ stage ∧
    Relation.TransGen setup.graph.precedence.Precedes publisher stage ∧
    ∃ job, .stage publisher (.job job (.artifactPublished artifact)) ∈ before

theorem FollowsPublication.mono {before later : List Event} {stage artifact : String}
    (hfollows : FollowsPublication setup before stage artifact) (hlater : before ⊆ later) :
    FollowsPublication setup later stage artifact := by
  obtain ⟨publisher, hother, hpath, job, hevent⟩ := hfollows
  exact ⟨publisher, hother, hpath, job, hlater hevent⟩

/-- In a run in which no task breaks off, every call for a download follows the publication. -/
theorem followsPublication_of_history (hnames : (setup.graph.stages.map (·.name)).Nodup)
    (hhistory : History setup (fun _ move => move.breaksOff = false) (state :: earlier))
    {before after : List Event} {stage job artifact target : String} {index : Nat}
    (hlog : state.log =
      before ++ .stage stage (.job job (.called index (.download artifact target))) :: after) :
    FollowsPublication setup before stage artifact := by
  generalize hstates : state :: earlier = states at hhistory
  induction hhistory generalizing state earlier after with
  | start =>
      cases hstates
      -- The log of a run that has just started holds one event, and that is no call.
      have hcall : Event.stage stage (.job job (.called index (.download artifact target))) ∈
          [Event.started setup.name setup.graph.stages.length] := by
        change _ ∈ (RunState.start setup).log
        rw [hlog]
        exact List.mem_append_right before List.mem_cons_self
      cases List.mem_singleton.mp hcall
  | @step state next earlier move hreturns hstep hearlier ih =>
      cases hstates
      have hsound := sound_of_reachable (hearlier.reachable state List.mem_cons_self)
      obtain ⟨told, hnext, hpermits⟩ := permits_of_moves hsound (moves_of_step? hstep)
      -- A call that the move has made was checked in the state before it.
      have hnew : .stage stage (.job job (.called index (.download artifact target))) ∈ told →
          FollowsPublication setup state.log stage artifact := by
        intro htold
        obtain ⟨task, work, htask, hwork, rfl, hcheck⟩ := hpermits _ _ _ htold
        obtain ⟨publisher, hother, hpath, hpublished⟩ :=
          published_of_checkDownload hnames hearlier htask hwork hcheck
        exact ⟨publisher, hother, hpath, exists_event_of_mem_published hpublished⟩
      rw [hnext] at hlog
      rcases List.append_eq_append_iff.mp hlog with ⟨more, hbefore, htold⟩ | ⟨more, hold, hrest⟩
      · have hcalled := hnew (htold ▸ List.mem_append_right more List.mem_cons_self)
        exact hcalled.mono (hbefore ▸ List.subset_append_left state.log more)
      · cases more with
        | nil =>
            rw [List.append_nil] at hold
            rw [← hold]
            have htold : told = _ :: after := hrest.symm
            exact hnew (htold ▸ List.mem_cons_self)
        | cons event more =>
            obtain ⟨rfl, -⟩ := List.cons.inj hrest
            exact ih hold rfl

end RunState

/-- Take a run, of any graph with distinct names of stages, in which no task breaks off.

* When a stage is at work and the ledger would let it download an artifact, another stage has
  published the artifact, and the one at work depends on it, directly or through others.
* Before every call for a download that the log tells of, it tells of such a publication. -/
theorem downloads_follow_publications {setup : Setup} {state : RunState} {earlier : List RunState}
    (hnames : (setup.graph.stages.map (·.name)).Nodup)
    (hhistory : RunState.History setup (fun _ move => move.breaksOff = false) (state :: earlier)) :
    (∀ task ∈ state.stages.tasks, ∀ work, task.phase = .active work → ∀ artifact,
      state.shared.ledger.checkDownload artifact task.name (setup.graph.ancestors task.name) =
        .ok () →
      ∃ publisher, publisher ≠ task.name ∧
        Relation.TransGen setup.graph.precedence.Precedes publisher task.name ∧
        (artifact, publisher) ∈ state.published) ∧
    ∀ before after stage job index artifact target,
      state.log =
        before ++ .stage stage (.job job (.called index (.download artifact target))) :: after →
      ∃ publisher, publisher ≠ stage ∧
        Relation.TransGen setup.graph.precedence.Precedes publisher stage ∧
        ∃ publishing, .stage publisher (.job publishing (.artifactPublished artifact)) ∈ before := by
  constructor
  · intro task htask work hwork artifact hcheck
    exact RunState.published_of_checkDownload hnames hhistory htask hwork hcheck
  · intro before after stage job index artifact target hlog
    exact RunState.followsPublication_of_history hnames hhistory hlog

/-- Whether a task is at work. -/
def Phase.isActive {α ρ : Type} : Phase α ρ → Bool
  | .active _ => true
  | _ => false

/-- Whether the deployment is at work and the ledger has an artifact of the build for it. -/
def Handover.isDeploying (state : RunState) : Bool :=
  (state.stages.tasks.any fun task => task.name == "deploy" && task.phase.isActive) &&
    state.shared.ledger.publisher? "app" == some "build"

/-- The mirror was refused and the build has published under the same name.  When the deployment is
about to fetch, the ledger lets it. -/
theorem downloads_follow_publications_handover :
    (Handover.setup.graph.stages.map (·.name)).Nodup ∧ ∃ state earlier,
      RunState.History Handover.setup (fun _ move => move.breaksOff = false) (state :: earlier) ∧
      ∃ (task : Task StageNode StageWork StageResult) (work : StageWork),
        task ∈ state.stages.tasks ∧ task.name = "deploy" ∧ task.phase = .active work ∧
        state.shared.ledger.checkDownload "app" task.name
          (Handover.setup.graph.ancestors task.name) = .ok () ∧
        ∃ publisher, publisher ≠ task.name ∧
          Relation.TransGen Handover.setup.graph.precedence.Precedes publisher task.name ∧
          ("app", publisher) ∈ state.published := by
  have hnames : (Handover.setup.graph.stages.map (·.name)).Nodup := by decide
  obtain ⟨state, earlier, hhistory, hcheck⟩ :=
    RunState.exists_history_of_replay Handover.setup (fun _ move => !move.breaksOff)
      Handover.isDeploying
      (Handover.callMoves 1 ++ [Handover.answerMove 1 Handover.refusal] ++
        Handover.callMoves 0 ++ [Handover.answerMove 0 (.ok ())] ++ Handover.endMoves 0 ++
        (Handover.callMoves 2).dropLast)
      (by decide +kernel)
  have hreturns : RunState.History Handover.setup (fun _ move => move.breaksOff = false)
      (state :: earlier) :=
    hhistory.mono fun _ move hmove => by simpa using hmove
  obtain ⟨htasks, hholds⟩ := Bool.and_eq_true_iff.mp hcheck
  obtain ⟨task, htask, hatWork⟩ := List.any_eq_true.mp htasks
  obtain ⟨hdeploy, hactive⟩ := Bool.and_eq_true_iff.mp hatWork
  have hname := beq_iff_eq.mp hdeploy
  have hancestor : "build" ∈ Handover.setup.graph.ancestors task.name := by
    rw [hname]
    exact Precedence.before_subset_ancestors (by decide)
  have hpermits : state.shared.ledger.checkDownload "app" task.name
      (Handover.setup.graph.ancestors task.name) = .ok () := by
    rw [Ledger.checkDownload, beq_iff_eq.mp hholds]
    exact if_pos hancestor
  cases hphase : task.phase with
  | active work =>
      have hpublished := (downloads_follow_publications hnames hreturns).1 task htask work hphase
        "app" hpermits
      exact ⟨hnames, state, earlier, hreturns, task, work, htask, hname, hphase, hpermits,
        hpublished⟩
  | _ => simp [hphase, Phase.isActive] at hactive

end BuildPipeline
