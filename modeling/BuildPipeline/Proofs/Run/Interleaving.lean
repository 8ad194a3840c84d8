import BuildPipeline.Proofs.Run.StageCourse

/-!
# Interleavings do not matter

Two complete runs of one graph are compared here.  Neither is cancelled, and no step publishes or
downloads anything.  They may differ in their moves and in the number of agents, and in the answers
of their executors and the order in which variables are listed wherever a statement does not mention
them.

* `StageCourse.jobs_eq`: two ends of a stage that was released with the same results agree on every
  set of jobs that is closed under dependencies and is treated alike.
* `OnCourse.same_course`: a stage is released with the same results in both runs, if its ancestors
  are treated alike.
* `results_independent_of_interleaving` reads off what the result of a stage and the result of a job
  can depend on.
* `colliding_names_change_results`: names of variables that collide for processes have to be settled
  alike.
-/

namespace BuildPipeline

/-- Whether two executors give the same answers to the attempts of some jobs. -/
def Executor.Agree (relevant : String → String → Prop) (first second : Executor) : Prop :=
  ∀ invocation number, relevant invocation.stage invocation.job →
    first invocation number = second invocation number

/-- Some jobs are treated alike: executors give the same answers to their attempts, and their
variables are listed in one order. -/
structure TreatAlike (relevant : String → String → Prop) (executor₁ executor₂ : Executor)
    (listing₁ listing₂ : Listing) : Prop where
  executors : Executor.Agree relevant executor₁ executor₂
  listings : ∀ stage job, relevant stage job → listing₁.list stage job = listing₂.list stage job

theorem TreatAlike.mono {relevant fewer : String → String → Prop} {executor₁ executor₂ : Executor}
    {listing₁ listing₂ : Listing}
    (halike : TreatAlike relevant executor₁ executor₂ listing₁ listing₂)
    (hfewer : ∀ stage job, fewer stage job → relevant stage job) :
    TreatAlike fewer executor₁ executor₂ listing₁ listing₂ where
  executors invocation number hfew := halike.executors invocation number (hfewer _ _ hfew)
  listings stage job hfew := halike.listings stage job (hfewer stage job hfew)

/-- Two lists of results for the same nodes are one, if they agree on every node. -/
theorem eq_of_agree_on_nodes {α β : Type} {nodes : List α} {first second : List β}
    (hfirst : first.length = nodes.length) (hsecond : second.length = nodes.length)
    (hagree : ∀ (index : Nat) (node : α), nodes[index]? = some node →
      first[index]? = second[index]?) : first = second := by
  apply List.ext_getElem?
  intro index
  cases hnode : nodes[index]? with
  | some node => exact hagree index node hnode
  | none =>
      rw [List.getElem?_eq_none_iff] at hnode
      rw [List.getElem?_eq_none (hfirst ▸ hnode), List.getElem?_eq_none (hsecond ▸ hnode)]

/-! ## Two ends of a stage -/

section TwoEnds

variable {executor₁ executor₂ : Executor} {setup : Setup} {listing : Listing}
  {environment : Environment} {node : StageNode} {results : List StageResult} {run₁ run₂ : StageRun}
  {result₁ result₂ : StageResult} {relevant : String → Prop}

theorem precedence_of_plan {schedule : JobSchedule} {jobs : List JobNode}
    (hplan : schedule.plan = jobs.map JobNode.task) :
    schedule.precedence = JobNode.precedence jobs := by
  rw [Schedule.precedence, hplan, List.map_map]
  rfl

/-- A stage opens only one environment. -/
theorem StageRun.OnCourse.environment_eq
    (hfirst : run₁.OnCourse executor₁ setup environment node results)
    (hsecond : run₂.OnCourse executor₂ { setup with listing } environment node results) :
    run₁.environment = run₂.environment := by
  have hopened := hfirst.opened.symm.trans hsecond.opened
  rw [Phase.active.injEq, StageWork.running.injEq, StageRun.mk.injEq] at hopened
  exact hopened.1

/-- The jobs with relevant names end alike. -/
theorem StageRun.OnCourse.endAlike
    (hfirst : run₁.OnCourse executor₁ setup environment node results)
    (hclosed : ∀ job ∈ node.jobs, relevant job.name →
      ∀ dependency ∈ job.dependencies, relevant dependency)
    (halike : TreatAlike (fun stage job => stage = node.name ∧ relevant job) executor₁ executor₂
      setup.listing listing)
    {inner : Environment} :
    Schedule.EndAlike (JobCourse executor₁ setup node.name inner)
      (JobCourse executor₂ { setup with listing } node.name inner) relevant run₁.jobs.plan := by
  rw [hfirst.plan]
  constructor
  · intro task htask hrelevant
    obtain ⟨job, hjob, rfl⟩ := List.mem_map.mp htask
    exact hclosed job hjob hrelevant
  · intro task htask hrelevant jobResults end₁ end₂ hend₁ hend₂
    obtain ⟨job, -, rfl⟩ := List.mem_map.mp htask
    have hlisting := halike.listings node.name job.name ⟨rfl, hrelevant⟩
    refine (hend₁.congr (fun invocation number hstage hjob => ?_) hlisting).end_unique hend₂
    exact halike.executors invocation number ⟨hstage, hjob ▸ hrelevant⟩

/-- Two ends of a stage agree on relevant jobs. -/
theorem StageRun.OnCourse.jobs_eq
    (hfirst : run₁.OnCourse executor₁ setup environment node results)
    (hsecond : run₂.OnCourse executor₂ { setup with listing } environment node results)
    (hsettled₁ : run₁.jobs.isSettled = true) (hsettled₂ : run₂.jobs.isSettled = true)
    (hsound : (JobNode.precedence node.jobs).Sound)
    (hclosed : ∀ job ∈ node.jobs, relevant job.name →
      ∀ dependency ∈ job.dependencies, relevant dependency)
    (halike : TreatAlike (fun stage job => stage = node.name ∧ relevant job) executor₁ executor₂
      setup.listing listing)
    {index : Nat} {job : JobNode} (hjob : node.jobs[index]? = some job)
    (hrelevant : relevant job.name) :
    (run₁.result node).jobs[index]? = (run₂.result node).jobs[index]? := by
  have hcoherent₂ := hsecond.coherent
  rw [← hfirst.environment_eq hsecond] at hcoherent₂
  have hplace : run₁.jobs.plan[index]? = some job.task := by
    rw [hfirst.plan, List.getElem?_map, hjob, Option.map_some]
  rw [← precedence_of_plan hfirst.plan] at hsound
  exact Schedule.getElem?_collect_eq ⟨hfirst.coherent, hfirst.saturated, hsettled₁⟩
    ⟨hcoherent₂, hsecond.saturated, hsettled₂⟩ (hfirst.plan.trans hsecond.plan.symm) hsound
    (hfirst.endAlike hclosed halike) _ _ hplace hrelevant

/-- Two ends of a stage are the same, or the stage was running in both cases. -/
theorem StageCourse.eq_or_ran
    (hfirst : StageCourse executor₁ setup environment node results (.returned result₁))
    (hsecond : StageCourse executor₂ { setup with listing } environment node results
      (.returned result₂)) :
    result₁ = result₂ ∨ ∃ run₁ run₂ : StageRun,
      run₁.OnCourse executor₁ setup environment node results ∧
      run₂.OnCourse executor₂ { setup with listing } environment node results ∧
      run₁.jobs.isSettled = true ∧ run₂.jobs.isSettled = true ∧
      result₁ = run₁.result node ∧ result₂ = run₂.result node := by
  -- How a stage opens is determined, so one end cannot be a refusal and the other a run.
  rcases hfirst with hopening₁ | ⟨run₁, honCourse₁, hsettled₁, hresult₁⟩
  · rcases hsecond with hopening₂ | ⟨run₂, honCourse₂, -, -⟩
    · exact Or.inl (Phase.returned.inj (hopening₁.symm.trans hopening₂))
    · cases hopening₁.symm.trans honCourse₂.opened
  · rcases hsecond with hopening₂ | ⟨run₂, honCourse₂, hsettled₂, hresult₂⟩
    · cases hopening₂.symm.trans honCourse₁.opened
    · exact Or.inr ⟨run₁, run₂, honCourse₁, honCourse₂, hsettled₁, hsettled₂, hresult₁, hresult₂⟩

/-- The results with which a stage can end agree on relevant jobs. -/
theorem StageCourse.jobs_eq
    (hfirst : StageCourse executor₁ setup environment node results (.returned result₁))
    (hsecond : StageCourse executor₂ { setup with listing } environment node results
      (.returned result₂))
    (hsound : (JobNode.precedence node.jobs).Sound)
    (hclosed : ∀ job ∈ node.jobs, relevant job.name →
      ∀ dependency ∈ job.dependencies, relevant dependency)
    (halike : TreatAlike (fun stage job => stage = node.name ∧ relevant job) executor₁ executor₂
      setup.listing listing)
    {index : Nat} {job : JobNode} (hjob : node.jobs[index]? = some job)
    (hrelevant : relevant job.name) : result₁.jobs[index]? = result₂.jobs[index]? := by
  rcases hfirst.eq_or_ran hsecond with
    rfl | ⟨run₁, run₂, honCourse₁, honCourse₂, hsettled₁, hsettled₂, rfl, rfl⟩
  · rfl
  · exact honCourse₁.jobs_eq honCourse₂ hsettled₁ hsettled₂ hsound hclosed halike hjob hrelevant

theorem StageRun.OnCourse.length_jobs
    (honCourse : run₁.OnCourse executor₁ setup environment node results) :
    (run₁.result node).jobs.length = node.jobs.length := by
  have hlength := Schedule.length_collect run₁.jobs StageRun.lostJob StageRun.unreleasedJob
  rw [honCourse.plan, List.length_map] at hlength
  exact hlength

/-- A stage that is treated alike ends with the same result. -/
theorem StageCourse.result_eq
    (hfirst : StageCourse executor₁ setup environment node results (.returned result₁))
    (hsecond : StageCourse executor₂ { setup with listing } environment node results
      (.returned result₂))
    (hsound : (JobNode.precedence node.jobs).Sound)
    (halike : TreatAlike (fun stage _ => stage = node.name) executor₁ executor₂ setup.listing
      listing) : result₁ = result₂ := by
  rcases hfirst.eq_or_ran hsecond with
    rfl | ⟨run₁, run₂, honCourse₁, honCourse₂, hsettled₁, hsettled₂, rfl, rfl⟩
  · rfl
  · have hall : TreatAlike (fun stage _ => stage = node.name ∧ True) executor₁ executor₂
        setup.listing listing := halike.mono fun _ _ hstage => hstage.1
    have hjobs : (run₁.result node).jobs = (run₂.result node).jobs := by
      refine eq_of_agree_on_nodes honCourse₁.length_jobs honCourse₂.length_jobs ?_
      intro index job hjob
      exact honCourse₁.jobs_eq honCourse₂ hsettled₁ hsettled₂ hsound
        (fun _ _ _ _ _ => trivial) hall hjob trivial
    change run₁.jobs.collect StageRun.lostJob StageRun.unreleasedJob =
      run₂.jobs.collect StageRun.lostJob StageRun.unreleasedJob at hjobs
    rw [StageRun.result, hjobs]
    rfl

end TwoEnds

/-- The number of agents does not matter for the course of a stage. -/
theorem StageCourse.of_agents {executor : Executor} {setup : Setup} {agents : Nat}
    {environment : Environment} {node : StageNode} {results : List StageResult}
    {phase : Phase StageWork StageResult}
    (hcourse : StageCourse executor { setup with agents } environment node results phase) :
    StageCourse executor setup environment node results phase := by
  have hran : ∀ run : StageRun,
      run.OnCourse executor { setup with agents } environment node results →
      run.OnCourse executor setup environment node results :=
    fun run honCourse =>
      ⟨honCourse.opened, honCourse.plan, honCourse.coherent, honCourse.saturated⟩
  cases phase with
  | active work =>
      cases work with
      | released dependencies => exact hcourse
      | running run => exact hran run hcourse
  | returned result =>
      rcases hcourse with hopening | ⟨run, honCourse, hsettled, hresult⟩
      · exact Or.inl hopening
      · exact Or.inr ⟨run, hran run honCourse, hsettled, hresult⟩
  | _ => exact hcourse

/-! ## Two runs -/

namespace RunState

section TwoRuns

variable {executor executor₁ executor₂ : Executor} {setup : Setup} {listing : Listing}
  {state state₁ state₂ : RunState} {relevant : String → Prop}

theorem OnCourse.exhausted (honCourse : state.OnCourse executor setup)
    (hcomplete : state.isComplete = true) :
    state.stages.Exhausted (StageCourse executor setup (RunState.start setup).environment) := by
  have hcoherent := honCourse.coherent
  rw [honCourse.environment] at hcoherent
  exact ⟨hcoherent, honCourse.saturated, hcomplete⟩

/-- Every stage of a complete run has ended on its course, with the result that is given out. -/
theorem OnCourse.exists_result (honCourse : state.OnCourse executor setup)
    (hcomplete : state.isComplete = true) (hsound : setup.graph.Sound) {index : Nat}
    {node : StageNode} (hnode : setup.graph.stages[index]? = some node) :
    ∃ result, (state.result setup).stages[index]? = some result ∧
      StageCourse executor setup (RunState.start setup).environment node
        (Schedule.inputs state.stages.finished (stageTask node)) (.returned result) := by
  have hexhausted := honCourse.exhausted hcomplete
  have hprecedence := hsound.stages
  rw [← precedence_of_plan honCourse.plan] at hprecedence
  have hplace : state.stages.plan[index]? = some (stageTask node) := by
    rw [honCourse.plan, List.getElem?_map, hnode, Option.map_some]
  obtain ⟨task, htask, hreset⟩ := Schedule.exists_task_of_plan hplace
  have hmem := List.mem_of_getElem? htask
  obtain ⟨hphase, result, hresult⟩ :=
    hexhausted.closed_of_alive hprecedence (fun _ _ hdied => hdied) task hmem
  have hname : task.name = node.name := congrArg Task.name hreset
  rcases hexhausted.cases hmem with ⟨-, -, hcourse⟩ | ⟨-, hwaiting, -⟩
  · rw [hresult, ← Schedule.inputs_reset, hreset, ← Task.reset_node, hreset] at hcourse
    refine ⟨result, ?_, hcourse⟩
    change (state.stages.collect lostStage unreleasedStage)[index]? = some result
    rw [hname] at hresult
    rw [hexhausted.collect_eq, List.getElem?_map, hplace, Option.map_some]
    change some ((state.stages.finished.get? node.name).getD _) = _
    rw [hresult, Option.getD_some]
  · rw [hphase] at hwaiting
    cases hwaiting

/-- The stages with relevant names end alike. -/
theorem OnCourse.endAlike (hfirst : state₁.OnCourse executor₁ setup) (hsound : setup.graph.Sound)
    (hclosed : ∀ node ∈ setup.graph.stages, relevant node.name →
      ∀ dependency ∈ node.dependencies, relevant dependency)
    (halike : TreatAlike (fun stage _ => relevant stage) executor₁ executor₂ setup.listing
      listing) :
    Schedule.EndAlike (StageCourse executor₁ setup (RunState.start setup).environment)
      (StageCourse executor₂ { setup with listing } (RunState.start setup).environment) relevant
      state₁.stages.plan := by
  rw [hfirst.plan]
  constructor
  · intro task htask hrelevant
    obtain ⟨node, hnode, rfl⟩ := List.mem_map.mp htask
    exact hclosed node hnode hrelevant
  · intro task htask hrelevant results end₁ end₂ hend₁ hend₂
    obtain ⟨node, hnode, rfl⟩ := List.mem_map.mp htask
    cases end₁ with
    | none => exact hend₁.elim
    | some result₁ =>
        cases end₂ with
        | none => exact hend₂.elim
        | some result₂ =>
            refine congrArg some (hend₁.result_eq hend₂ (hsound.jobs node hnode) ?_)
            exact halike.mono fun _ _ hstage => hstage ▸ hrelevant

/-- A stage is released with the same results in both runs, if its ancestors are treated alike. -/
theorem OnCourse.same_course (hfirst : state₁.OnCourse executor₁ setup)
    (hsecond : state₂.OnCourse executor₂ { setup with listing })
    (hcomplete₁ : state₁.isComplete = true) (hcomplete₂ : state₂.isComplete = true)
    (hsound : setup.graph.Sound)
    (hdistinct : setup.graph.DistinctNames) {index : Nat} {node : StageNode}
    (hnode : setup.graph.stages[index]? = some node)
    (halike : TreatAlike (fun stage _ => stage ∈ setup.graph.ancestors node.name) executor₁
      executor₂ setup.listing listing) :
    ∃ results result₁ result₂,
      (state₁.result setup).stages[index]? = some result₁ ∧
      (state₂.result setup).stages[index]? = some result₂ ∧
      StageCourse executor₁ setup (RunState.start setup).environment node results
        (.returned result₁) ∧
      StageCourse executor₂ { setup with listing } (RunState.start setup).environment node results
        (.returned result₂) := by
  have hnames := hdistinct.stages
  rw [← Graph.names_precedence] at hnames
  have hends := hfirst.endAlike hsound
    (fun other hother hancestor =>
      Precedence.mem_ancestors_of_ancestor hnames (Graph.mem_precedence hother) hancestor) halike
  have hmem := List.mem_of_getElem? hnode
  have hplanned : stageTask node ∈ state₁.stages.plan := by
    rw [hfirst.plan]
    exact List.mem_map_of_mem hmem
  have hprecedence := hsound.stages
  rw [← precedence_of_plan hfirst.plan] at hprecedence
  obtain ⟨-, hinputs⟩ := Schedule.inputs_eq_of_exhausted (hfirst.exhausted hcomplete₁)
    (hsecond.exhausted hcomplete₂) (hfirst.plan.trans hsecond.plan.symm) hprecedence hends
    hplanned (Precedence.mem_ancestors_of_dependency hnames (Graph.mem_precedence hmem))
  obtain ⟨result₁, hresult₁, hcourse₁⟩ := hfirst.exists_result hcomplete₁ hsound hnode
  obtain ⟨result₂, hresult₂, hcourse₂⟩ := hsecond.exists_result hcomplete₂ hsound hnode
  rw [← hinputs] at hcourse₂
  exact ⟨_, result₁, result₂, hresult₁, hresult₂, hcourse₁, hcourse₂⟩

/-- The result of a stage depends on how its own jobs and those of its ancestors are treated. -/
theorem OnCourse.stage_eq (hfirst : state₁.OnCourse executor₁ setup)
    (hsecond : state₂.OnCourse executor₂ { setup with listing })
    (hcomplete₁ : state₁.isComplete = true) (hcomplete₂ : state₂.isComplete = true)
    (hsound : setup.graph.Sound)
    (hdistinct : setup.graph.DistinctNames) {index : Nat} {node : StageNode}
    (hnode : setup.graph.stages[index]? = some node)
    (halike : TreatAlike (fun stage _ => stage = node.name ∨
      stage ∈ setup.graph.ancestors node.name) executor₁ executor₂ setup.listing listing) :
    (state₁.result setup).stages[index]? = (state₂.result setup).stages[index]? := by
  obtain ⟨results, result₁, result₂, hresult₁, hresult₂, hcourse₁, hcourse₂⟩ :=
    hfirst.same_course hsecond hcomplete₁ hcomplete₂ hsound hdistinct hnode
      (halike.mono fun _ _ hancestor => Or.inr hancestor)
  rw [hresult₁, hresult₂]
  refine congrArg some (hcourse₁.result_eq hcourse₂ ?_ ?_)
  · exact hsound.jobs node (List.mem_of_getElem? hnode)
  · exact halike.mono fun _ _ hstage => Or.inl hstage

/-- The result of a job depends on how it is treated, and the jobs it depends on and the ancestors
of its stage. -/
theorem OnCourse.job_eq (hfirst : state₁.OnCourse executor₁ setup)
    (hsecond : state₂.OnCourse executor₂ { setup with listing })
    (hcomplete₁ : state₁.isComplete = true) (hcomplete₂ : state₂.isComplete = true)
    (hsound : setup.graph.Sound)
    (hdistinct : setup.graph.DistinctNames) {index place : Nat} {node : StageNode} {job : JobNode}
    (hnode : setup.graph.stages[index]? = some node) (hjob : node.jobs[place]? = some job)
    (halike : TreatAlike (fun stage name =>
      stage ∈ setup.graph.ancestors node.name ∨ stage = node.name ∧
        (name = job.name ∨ name ∈ (JobNode.precedence node.jobs).ancestors job.name))
      executor₁ executor₂ setup.listing listing) :
    ((state₁.result setup).stages[index]?.bind (·.jobs[place]?)) =
      (state₂.result setup).stages[index]?.bind (·.jobs[place]?) := by
  obtain ⟨results, result₁, result₂, hresult₁, hresult₂, hcourse₁, hcourse₂⟩ :=
    hfirst.same_course hsecond hcomplete₁ hcomplete₂ hsound hdistinct hnode
      (halike.mono fun _ _ hancestor => Or.inl hancestor)
  have hmem := List.mem_of_getElem? hnode
  have hnames := hdistinct.jobs node hmem
  rw [← JobNode.names_precedence] at hnames
  -- The job and its ancestors are closed under dependencies, which is all that the stage needs.
  let related (name : String) : Prop :=
    name = job.name ∨ name ∈ (JobNode.precedence node.jobs).ancestors job.name
  have hclosed : ∀ other ∈ node.jobs, related other.name →
      ∀ dependency ∈ other.dependencies, related dependency := by
    intro other hother hrelevant dependency hdependency
    rcases hrelevant with hname | hancestor
    · refine Or.inr (Precedence.mem_ancestors_of_dependency hnames ?_ dependency hdependency)
      rw [← hname]
      exact JobNode.mem_precedence hother
    · exact Or.inr (Precedence.mem_ancestors_of_ancestor hnames (JobNode.mem_precedence hother)
        hancestor dependency hdependency)
  have hrelated : TreatAlike (fun stage name => stage = node.name ∧ related name) executor₁
      executor₂ setup.listing listing := halike.mono fun _ _ hname => Or.inr hname
  have hself : related job.name := Or.inl rfl
  rw [hresult₁, hresult₂, Option.bind_some, Option.bind_some]
  exact hcourse₁.jobs_eq hcourse₂ (hsound.jobs node hmem) hclosed hrelated hjob hself

end TwoRuns

/-! ## The theorem -/

/-- A complete run that obeys an executor and was not cancelled, with its earlier states. -/
structure CompletesWith (executor : Executor) (setup : Setup) (state : RunState)
    (earlier : List RunState) : Prop where
  complete : state.isComplete = true
  history : History setup (fun state move => state.Obeys executor move) (state :: earlier)

/-- What surrounds two runs differs at most elsewhere than in some jobs: the executors agree on
them, and in the states of the first run it does not matter in which order their variables are
listed. -/
structure DifferElsewhere (relevant : String → String → Prop) (executor₁ executor₂ : Executor)
    (listing₁ listing₂ : Listing) (states : List RunState) : Prop where
  executors : Executor.Agree relevant executor₁ executor₂
  listings : ∀ state ∈ states, state.ListsAlike relevant listing₁ listing₂

theorem DifferElsewhere.mono {relevant fewer : String → String → Prop}
    {executor₁ executor₂ : Executor} {listing₁ listing₂ : Listing} {states : List RunState}
    (hdiffer : DifferElsewhere relevant executor₁ executor₂ listing₁ listing₂ states)
    (hfewer : ∀ stage job, fewer stage job → relevant stage job) :
    DifferElsewhere fewer executor₁ executor₂ listing₁ listing₂ states where
  executors invocation number hfew := hdiffer.executors invocation number (hfewer _ _ hfew)
  listings state hstate stage hmem stageRun hstageRun job hjob run hrun hfew :=
    hdiffer.listings state hstate stage hmem stageRun hstageRun job hjob run hrun (hfewer _ _ hfew)

/-- Runs with one listing can differ in their executors only. -/
theorem DifferElsewhere.of_agree {relevant : String → String → Prop}
    {executor₁ executor₂ : Executor} (hagree : Executor.Agree relevant executor₁ executor₂)
    (listing : Listing) (states : List RunState) :
    DifferElsewhere relevant executor₁ executor₂ listing listing states :=
  ⟨hagree, fun _ _ _ _ _ _ _ _ _ _ _ => .inr rfl⟩

/-- With another listing for the jobs in question, the first run treats them as the second one
does. -/
theorem DifferElsewhere.treatAlike {relevant : String → String → Prop}
    {executor₁ executor₂ : Executor} {listing₁ listing₂ : Listing} {states : List RunState}
    (hdiffer : DifferElsewhere relevant executor₁ executor₂ listing₁ listing₂ states) :
    TreatAlike relevant executor₁ executor₂ (listing₁.override relevant listing₂) listing₂ :=
  ⟨hdiffer.executors, fun _ _ hrelevant => Listing.list_override hrelevant listing₁ listing₂⟩

namespace CompletesWith

variable {executor executor₁ executor₂ : Executor} {setup : Setup} {agents agents₁ agents₂ : Nat}
  {listing listing₁ listing₂ : Listing} {state state₁ state₂ : RunState}
  {earlier earlier₁ earlier₂ : List RunState} {relevant : String → String → Prop}

/-- The number of agents does not matter for the course of a run. -/
theorem onCourse (hcompletes : CompletesWith executor { setup with agents, listing } state earlier)
    (hdeclares : Declares setup) (hdistinct : setup.graph.DistinctNames)
    (hartifacts : setup.graph.NoArtifacts) : state.OnCourse executor { setup with listing } := by
  obtain ⟨hcalm, henvironment, hplan, hcoherent, hsaturated⟩ := onCourse_of_history
    hcompletes.history hdeclares hdistinct hartifacts state List.mem_cons_self
  refine ⟨hcalm, henvironment, hplan, hcoherent.mono fun node results phase hcourse => ?_,
    hsaturated⟩
  exact hcourse.of_agents

theorem reportedBy
    (hcompletes : CompletesWith executor { setup with agents, listing } state earlier)
    (hdistinct : setup.graph.DistinctNames) : setup.graph.ReportedBy (state.result setup) :=
  (sound_of_reachable (hcompletes.history.reachable state List.mem_cons_self)).reportedBy hdistinct

/-- A run keeps its states with another listing for jobs for which that does not matter. -/
theorem override
    (hcompletes : CompletesWith executor { setup with agents, listing := listing₁ } state earlier)
    (halike : ∀ before ∈ state :: earlier, before.ListsAlike relevant listing₁ listing₂) :
    CompletesWith executor { setup with agents, listing := listing₁.override relevant listing₂ }
      state earlier :=
  ⟨hcompletes.complete, hcompletes.history.override halike⟩

/-- Two complete runs are both on course, or they have the same stages throughout. -/
theorem onCourse_or_eq
    (hfirst : CompletesWith executor₁ { setup with agents := agents₁, listing := listing₁ } state₁
      earlier₁)
    (hsecond : CompletesWith executor₂ { setup with agents := agents₂, listing := listing₂ } state₂
      earlier₂)
    (hdistinct : setup.graph.DistinctNames) (hartifacts : setup.graph.NoArtifacts)
    (hlistings : ∀ before ∈ state₁ :: earlier₁, before.ListsAlike relevant listing₁ listing₂) :
    (state₁.OnCourse executor₁ { setup with listing := listing₁.override relevant listing₂ } ∧
      state₂.OnCourse executor₂ { setup with listing := listing₂ }) ∨
      state₁.result setup = state₂.result setup := by
  by_cases hdeclares : Declares setup
  · exact Or.inl
      ⟨(hfirst.override hlistings).onCourse hdeclares hdistinct hartifacts,
        hsecond.onCourse hdeclares hdistinct hartifacts⟩
  · -- Nothing was started in either run, and all the results were there from the beginning.
    have hrefused : ∀ agents listing, ¬ Declares { setup with agents, listing } :=
      fun _ _ => hdeclares
    have hstages₁ : state₁.stages = (RunState.start setup).stages :=
      stages_of_not_declares (hrefused agents₁ listing₁) hfirst.history state₁ List.mem_cons_self
    have hstages₂ : state₂.stages = (RunState.start setup).stages :=
      stages_of_not_declares (hrefused agents₂ listing₂) hsecond.history state₂ List.mem_cons_self
    refine Or.inr ?_
    rw [result, result, hstages₁, hstages₂]

end CompletesWith

end RunState

/-- Take two complete runs of one graph without artifacts that were not cancelled.  They may differ
in their moves, in the number of agents, in their executors and in the order in which variables are
listed for processes.  Of these only the executors matter, and the order where names collide for
processes and the runs would not keep the same variable.

* A stage has the same result in both, if they do not differ in it and in its ancestors.
* The whole result is the same, if they do not differ anywhere.
* A job has the same result in both, if they do not differ in it, in the jobs it depends on and in
  the ancestors of its stage. -/
theorem results_independent_of_interleaving {pipeline : Pipeline} (setup : Setup)
    {agents₁ agents₂ : Nat} {listing₁ listing₂ : Listing} {executor₁ executor₂ : Executor}
    {state₁ state₂ : RunState} {earlier₁ earlier₂ : List RunState}
    (hgraph : Graph.ofPipeline pipeline = .ok setup.graph) (hdistinct : setup.graph.DistinctNames)
    (hartifacts : setup.graph.NoArtifacts)
    (hfirst : RunState.CompletesWith executor₁
      { setup with agents := agents₁, listing := listing₁ } state₁ earlier₁)
    (hsecond : RunState.CompletesWith executor₂
      { setup with agents := agents₂, listing := listing₂ } state₂ earlier₂) :
    (∀ (index : Nat) (node : StageNode), setup.graph.stages[index]? = some node →
      RunState.DifferElsewhere
        (fun stage _ => stage = node.name ∨ stage ∈ setup.graph.ancestors node.name)
        executor₁ executor₂ listing₁ listing₂ (state₁ :: earlier₁) →
      ∃ result, node.ReportedBy result ∧ (state₁.result setup).stages[index]? = some result ∧
        (state₂.result setup).stages[index]? = some result) ∧
    (RunState.DifferElsewhere (fun _ _ => True) executor₁ executor₂ listing₁ listing₂
        (state₁ :: earlier₁) →
      state₁.result setup = state₂.result setup) ∧
    ∀ (index : Nat) (node : StageNode) (place : Nat) (job : JobNode),
      setup.graph.stages[index]? = some node → node.jobs[place]? = some job →
      RunState.DifferElsewhere
        (fun stage name => stage ∈ setup.graph.ancestors node.name ∨ stage = node.name ∧
          (name = job.name ∨ name ∈ (JobNode.precedence node.jobs).ancestors job.name))
        executor₁ executor₂ listing₁ listing₂ (state₁ :: earlier₁) →
      ∃ result, job.ReportedBy result ∧
        (state₁.result setup).stages[index]?.bind (·.jobs[place]?) = some result ∧
        (state₂.result setup).stages[index]?.bind (·.jobs[place]?) = some result := by
  have hsound := Graph.sound_of_ofPipeline hgraph
  have hreported := hfirst.reportedBy hdistinct
  have hstage : ∀ (index : Nat) (node : StageNode), setup.graph.stages[index]? = some node →
      RunState.DifferElsewhere
        (fun stage _ => stage = node.name ∨ stage ∈ setup.graph.ancestors node.name)
        executor₁ executor₂ listing₁ listing₂ (state₁ :: earlier₁) →
      (state₁.result setup).stages[index]? = (state₂.result setup).stages[index]? := by
    intro index node hnode hdiffer
    rcases hfirst.onCourse_or_eq hsecond hdistinct hartifacts hdiffer.listings with
      ⟨honCourse₁, honCourse₂⟩ | hresult
    · exact honCourse₁.stage_eq honCourse₂ hfirst.complete hsecond.complete hsound hdistinct hnode
        hdiffer.treatAlike
    · rw [hresult]
  refine ⟨fun index node hnode hdiffer => ?_, fun hdiffer => ?_,
    fun index node place job hnode hjob hdiffer => ?_⟩
  · obtain ⟨result, hresult, hreports⟩ := exists_getElem?_of_forall₂ hreported.stages hnode
    refine ⟨result, hreports, hresult, ?_⟩
    rw [← hstage index node hnode hdiffer]
    exact hresult
  · have hlength₁ := hreported.stages.length_eq.symm
    have hlength₂ := (hsecond.reportedBy hdistinct).stages.length_eq.symm
    have hstages : (state₁.result setup).stages = (state₂.result setup).stages := by
      refine eq_of_agree_on_nodes hlength₁ hlength₂ fun index node hnode => ?_
      exact hstage index node hnode (hdiffer.mono fun _ _ _ => trivial)
    change state₁.stages.collect RunState.lostStage RunState.unreleasedStage =
      state₂.stages.collect RunState.lostStage RunState.unreleasedStage at hstages
    rw [RunState.result, hstages]
    rfl
  · obtain ⟨stage, hplace, hstageReports⟩ := exists_getElem?_of_forall₂ hreported.stages hnode
    obtain ⟨result, hresult, hreports⟩ := exists_getElem?_of_forall₂ hstageReports.jobs hjob
    have hfound : (state₁.result setup).stages[index]?.bind (·.jobs[place]?) = some result := by
      rw [hplace, Option.bind_some, hresult]
    refine ⟨result, hreports, hfound, ?_⟩
    rw [← hfound]
    rcases hfirst.onCourse_or_eq hsecond hdistinct hartifacts hdiffer.listings with
      ⟨honCourse₁, honCourse₂⟩ | hsame
    · exact (honCourse₁.job_eq honCourse₂ hfirst.complete hsecond.complete hsound hdistinct hnode
        hjob hdiffer.treatAlike).symm
    · rw [hsame]

/-- The executor of the small graph.  The first step of the build fails, and the documentation can
be made to break off. -/
def Delivery.executor (breaks : Bool) : Executor := fun invocation _ =>
  if invocation.stage = "docs" && breaks then none
  else if invocation.key = "fetch" then some (.outcome {})
  else some (.outcome (.succeeded ""))

theorem Delivery.agree_executor (first second : Bool) :
    Executor.Agree (fun stage _ => stage = "deploy" ∨ stage ∈ Delivery.graph.ancestors "deploy")
      (Delivery.executor first) (Delivery.executor second) := by
  have hancestors : Delivery.graph.ancestors "deploy" = ["build"] := by
    simp [Graph.ancestors, Graph.precedence, Delivery.graph, Precedence.ancestors,
      Precedence.Search.run, Precedence.Search.start, Precedence.Search.next, Precedence.Search.find,
      Precedence.before, List.lookup_cons]
  intro invocation number hstage
  rw [hancestors, List.mem_singleton] at hstage
  have hdocs : invocation.stage ≠ "docs" := by
    rcases hstage with hstage | hstage <;> rw [hstage] <;> decide
  simp [Delivery.executor, hdocs]

/-- Moves that fit and obey an executor make a complete run with it. -/
theorem RunState.exists_completesWith_of_replay (executor : Executor) (setup : Setup)
    (check : RunState → Bool) (moves : List Move)
    (hcheck : ((RunState.start setup).replay setup
      (fun state move => decide (state.Obeys executor move)) moves).any
        (fun state => state.isComplete && check state) = true) :
    ∃ state earlier, CompletesWith executor setup state earlier ∧ check state = true := by
  obtain ⟨state, earlier, hhistory, hstate⟩ := exists_history_of_replay setup
    (fun state move => decide (state.Obeys executor move))
    (fun state => state.isComplete && check state) moves hcheck
  obtain ⟨hcomplete, hchecked⟩ := Bool.and_eq_true_iff.mp hstate
  refine ⟨state, earlier, ⟨hcomplete, ?_⟩, hchecked⟩
  exact hhistory.mono fun _ _ hmove => of_decide_eq_true hmove

theorem Delivery.noArtifacts_graph : Delivery.graph.NoArtifacts := by
  unfold Graph.NoArtifacts JobNode.NoArtifacts
  decide

/-- The moves of the build, whose first step fails behind a mask. -/
def Delivery.buildMoves : List Move :=
  Delivery.stageMoves 0 (Delivery.jobMoves 0 0 [some {}, none] ++
    Delivery.jobMoves 0 1 [some (.succeeded "")])

/-- Three runs of the small graph: two in different orders, and one with a single agent in which the
documentation breaks off.  The delivery has the same result in all of them. -/
theorem results_independent_of_interleaving_delivery :
    ∃ state₁ earlier₁ state₂ earlier₂ state₃ earlier₃,
      RunState.CompletesWith (Delivery.executor false) { Delivery.setup with agents := 4 }
        state₁ earlier₁ ∧
      RunState.CompletesWith (Delivery.executor false) { Delivery.setup with agents := 2 }
        state₂ earlier₂ ∧
      RunState.CompletesWith (Delivery.executor true) { Delivery.setup with agents := 1 }
        state₃ earlier₃ ∧
      (state₁.result Delivery.setup).status = .succeededWithIssues ∧
      (state₃.result Delivery.setup).status = .failed ∧
      state₁.result Delivery.setup = state₂.result Delivery.setup ∧
      (∃ result, (state₁.result Delivery.setup).stages[2]? = some result ∧
        (state₃.result Delivery.setup).stages[2]? = some result) ∧
      ∃ result, (state₁.result Delivery.setup).stages[2]?.bind (·.jobs[0]?) = some result ∧
        (state₃.result Delivery.setup).stages[2]?.bind (·.jobs[0]?) = some result := by
  let ends (status : Status) (state : RunState) : Bool :=
    (state.result Delivery.setup).status == status
  let succeed : List (Option Outcome) := [some (.succeeded "")]
  obtain ⟨state₁, earlier₁, hfirst, hstatus₁⟩ := RunState.exists_completesWith_of_replay
    (Delivery.executor false) { Delivery.setup with agents := 4 } (ends .succeededWithIssues)
    (Delivery.buildMoves ++ Delivery.stageMoves 1 (Delivery.jobMoves 1 0 succeed) ++
      Delivery.stageMoves 2 (Delivery.jobMoves 2 0 succeed))
    (by decide +kernel)
  obtain ⟨state₂, earlier₂, hsecond, -⟩ := RunState.exists_completesWith_of_replay
    (Delivery.executor false) { Delivery.setup with agents := 2 } (ends .succeededWithIssues)
    ([.stage 1 .start] ++ Delivery.buildMoves ++ Delivery.jobMoves 1 0 succeed ++
      [.stage 2 .start, .stage 1 .finish, .notice 1] ++ Delivery.jobMoves 2 0 succeed ++
      [.stage 2 .finish, .notice 2])
    (by decide +kernel)
  obtain ⟨state₃, earlier₃, hthird, hstatus₃⟩ := RunState.exists_completesWith_of_replay
    (Delivery.executor true) { Delivery.setup with agents := 1 } (ends .failed)
    ([.stage 1 .start, .stage 1 (.job 0 .start), .stage 1 (.job 0 .takeAgent),
        .stage 1 (.job 0 .advance), .stage 1 (.job 0 .die), .stage 1 (.notice 0)] ++
      Delivery.buildMoves ++ [.stage 1 .finish, .notice 1] ++
      Delivery.stageMoves 2 (Delivery.jobMoves 2 0 succeed))
    (by decide +kernel)
  have hagree := RunState.DifferElsewhere.of_agree (Delivery.agree_executor false true) .byName
    (state₁ :: earlier₁)
  obtain ⟨-, hsame, -⟩ := results_independent_of_interleaving Delivery.setup
    Delivery.ofPipeline_pipeline Delivery.distinctNames_graph Delivery.noArtifacts_graph hfirst
    hsecond
  obtain ⟨hstage, -, hjob⟩ := results_independent_of_interleaving Delivery.setup
    Delivery.ofPipeline_pipeline Delivery.distinctNames_graph Delivery.noArtifacts_graph hfirst
    hthird
  obtain ⟨stage, -, hstages⟩ := hstage 2 _ rfl hagree
  obtain ⟨job, -, hjobs⟩ := hjob 2 _ 0 _ rfl rfl
    (hagree.mono fun _ _ hinvocation => hinvocation.symm.imp_left And.left)
  exact ⟨state₁, earlier₁, state₂, earlier₂, state₃, earlier₃, hfirst, hsecond, hthird,
    beq_iff_eq.mp hstatus₁, beq_iff_eq.mp hstatus₃, hsame (.of_agree (fun _ _ _ => rfl) _ _),
    ⟨stage, hstages⟩, job, hjobs⟩

/-! ## Colliding names -/

/-- Variables are listed from the last name to the first. -/
def Listing.reversed : Listing where
  list _ _ _ table := table.reverse
  perm _ _ _ table := table.reverse_perm

/-- The documentation alone. -/
def Delivery.documentation : Pipeline :=
  { stages := [docs] }

/-- Two variables that are one for processes. -/
def Delivery.collidingSetup : Setup where
  name := "documentation"
  graph := ⟨[⟨"docs", docs, [], [⟨"render", render, []⟩]⟩], []⟩
  vars := [("A", "0"), ("a", "1")]

theorem Delivery.ofPipeline_documentation :
    Graph.ofPipeline documentation = .ok collidingSetup.graph := by
  simp [Graph.ofPipeline, documentation, collidingSetup, docs, render, stageNodes,
    Stage.jobNodes, jobNodes, nodeName, Stage.dependencyNames, DependsOn.names,
    DependsOn.isImplicit, Graph.precedence, JobNode.precedence, checkPrecedence,
    Precedence.dangling?, Precedence.cycle?, Precedence.visit, Precedence.before,
    Precedence.names, List.findSome?_cons, bind, Except.bind, pure, Except.pure]

/-- Every step tells the variable that its process has. -/
def Delivery.teller : Executor := fun invocation _ =>
  some (.outcome (.succeeded ((invocation.environment.get? "A").getD "")))

/-- With names that collide two runs with one executor can have different results: it is open which
of the variables a process has. -/
theorem colliding_names_change_results :
    Graph.ofPipeline Delivery.documentation = .ok Delivery.collidingSetup.graph ∧
    Delivery.collidingSetup.graph.DistinctNames ∧ Delivery.collidingSetup.graph.NoArtifacts ∧
    ∃ state₁ earlier₁ state₂ earlier₂,
      RunState.CompletesWith Delivery.teller Delivery.collidingSetup state₁ earlier₁ ∧
      RunState.CompletesWith Delivery.teller
        { Delivery.collidingSetup with listing := .reversed } state₂ earlier₂ ∧
      (state₁.result Delivery.collidingSetup).steps.map (·.output) = ["1"] ∧
      (state₂.result Delivery.collidingSetup).steps.map (·.output) = ["0"] := by
  let tells (text : String) (state : RunState) : Bool :=
    (state.result Delivery.collidingSetup).steps.map (·.output) == [text]
  let moves (text : String) : List Move :=
    Delivery.stageMoves 0 (Delivery.jobMoves 0 0 [some (.succeeded text)])
  obtain ⟨state₁, earlier₁, hfirst, htells₁⟩ := RunState.exists_completesWith_of_replay
    Delivery.teller Delivery.collidingSetup (tells "1") (moves "1") (by decide +kernel)
  obtain ⟨state₂, earlier₂, hsecond, htells₂⟩ := RunState.exists_completesWith_of_replay
    Delivery.teller { Delivery.collidingSetup with listing := .reversed } (tells "0") (moves "0")
    (by decide +kernel)
  refine ⟨Delivery.ofPipeline_documentation, ⟨by decide, by decide⟩, ?_, state₁, earlier₁, state₂,
    earlier₂, hfirst, hsecond, beq_iff_eq.mp htells₁, beq_iff_eq.mp htells₂⟩
  unfold Graph.NoArtifacts JobNode.NoArtifacts
  decide

end BuildPipeline
