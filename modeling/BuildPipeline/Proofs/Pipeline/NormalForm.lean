import BuildPipeline.Proofs.Graph.Cycles
import BuildPipeline.Proofs.Graph.Names

/-!
# Pipelines that can be planned

A plan exists for a pipeline when the normal form of the pipeline passes validation and has a graph.
This module says of the pipeline itself when that is so.

* `IsWellFormed` is the form that runs rely on: nothing is empty or without a name, names are words
  and stand once among siblings, and no node refers to a template.  `HasOneBody` says of the
  pipeline before normalization that it does not mix its three forms.
* `stepErrors_eq_nil_iff`, `jobErrors_eq_nil_iff` and `stageErrors_eq_nil_iff` follow the three
  walks of validation.  Each walk carries the names it has seen, and `Fresh` is what it demands of
  the names still to come.
* `validate_normalize_eq_nil_iff` joins them with the two checks at the root.
* `plan_exists_iff_wellFormed` is the result, with the dependencies as `Cycles` states them, and
  with what normalization leaves as it is.
-/

namespace BuildPipeline

open Relation (TransGen)

/-! ## Well-formed pipelines -/

/-- A word of ASCII letters, digits and underscores. -/
def IsName (name : String) : Prop :=
  name ≠ "" ∧ ∀ c ∈ name.toList, c.isAlphanum = true ∨ c = '_'

/-- A job that runs: it has a name and steps, and neither it nor a step refers to a template. -/
structure Job.IsWellFormed (job : Job) : Prop where
  named : ∃ name, job.job = some name ∧ IsName name
  concrete : job.template = none
  steps_ne_nil : job.steps ≠ []
  stepNames : ∀ name ∈ job.steps.filterMap (·.name), IsName name
  distinctSteps : (job.steps.filterMap (·.name)).Nodup
  concreteSteps : ∀ step ∈ job.steps, step.action.isTemplate = false

/-- A stage that runs. -/
structure Stage.IsWellFormed (stage : Stage) : Prop where
  named : ∃ name, stage.stage = some name ∧ IsName name
  concrete : stage.template = none
  jobs_ne_nil : stage.jobs ≠ []
  distinctJobs : (stage.jobs.filterMap (·.job)).Nodup
  jobs : ∀ job ∈ stage.jobs, job.IsWellFormed

namespace Pipeline

/-- A pipeline whose stages run. -/
structure IsWellFormed (pipeline : Pipeline) : Prop where
  distinctStages : (pipeline.stages.filterMap (·.stage)).Nodup
  stages : ∀ stage ∈ pipeline.stages, stage.IsWellFormed

/-- Every dependency names a stage, or a job of the same stage, and none leads back. -/
structure DependenciesSound (pipeline : Pipeline) : Prop where
  knownStages : ∀ name dependency, pipeline.StageDependsOn name dependency →
    dependency ∈ pipeline.stageNames
  acyclicStages : ¬ ∃ name, TransGen pipeline.StageDependsOn name name
  knownJobs : ∀ stage ∈ pipeline.stages, ∀ name dependency, stage.JobDependsOn name dependency →
    dependency ∈ stage.jobNames
  acyclicJobs : ∀ stage ∈ pipeline.stages, ¬ ∃ name, TransGen stage.JobDependsOn name name

/-- The pipeline is written in one of its three forms. -/
def HasOneBody (pipeline : Pipeline) : Prop :=
  (pipeline.stages ≠ [] ∧ pipeline.jobs = [] ∧ pipeline.steps = []) ∨
    (pipeline.stages = [] ∧ pipeline.jobs ≠ [] ∧ pipeline.steps = []) ∨
    (pipeline.stages = [] ∧ pipeline.jobs = [] ∧ pipeline.steps ≠ [])

/-- The steps of the widest form that the pipeline is written in, in order. -/
def bodySteps (pipeline : Pipeline) : List Step :=
  match pipeline.stages, pipeline.jobs with
  | [], [] => pipeline.steps
  | [], jobs => jobs.flatMap (·.steps)
  | stages, _ => stages.flatMap fun stage => stage.jobs.flatMap (·.steps)

end Pipeline

/-! ## Names among siblings -/

theorem isWord_eq_true_iff {name : String} : isWord name = true ↔ IsName name := by
  have hempty : name.toList = [] ↔ name = "" := String.toList_eq_nil_iff
  simp only [isWord, IsName, Bool.and_eq_true, decide_eq_true_eq, List.all_eq_true,
    Bool.or_eq_true, beq_iff_eq, ne_eq, hempty]

/-- Names that stand once and were not seen before. -/
def Fresh (seen names : List String) : Prop :=
  names.Nodup ∧ ∀ name ∈ names, name ∉ seen

theorem fresh_nil (seen : List String) : Fresh seen [] :=
  ⟨List.nodup_nil, fun _ hname => absurd hname List.not_mem_nil⟩

theorem fresh_cons_iff {seen names : List String} {name : String} :
    Fresh seen (name :: names) ↔ name ∉ seen ∧ Fresh (name :: seen) names := by
  unfold Fresh
  rw [List.nodup_cons, List.forall_mem_cons]
  constructor
  · rintro ⟨⟨hname, hdistinct⟩, hnew, hseen⟩
    refine ⟨hnew, hdistinct, fun other hother hmem => ?_⟩
    rcases List.mem_cons.mp hmem with rfl | hmem
    · exact hname hother
    · exact hseen other hother hmem
  · rintro ⟨hnew, hdistinct, hseen⟩
    refine ⟨⟨fun hname => hseen name hname List.mem_cons_self, hdistinct⟩, hnew, ?_⟩
    exact fun other hother hmem => hseen other hother (List.mem_cons_of_mem name hmem)

theorem fresh_nil_iff {names : List String} : Fresh [] names ↔ names.Nodup := by
  simp [Fresh]

theorem templateDefects_eq_nil_iff {template : Option String} :
    templateDefects template = [] ↔ template = none := by
  cases template <;> simp [templateDefects]

/-! ## The walks of validation -/

theorem Step.defects_eq_nil_iff {step : Step} {seen : List String} :
    step.defects seen = [] ↔
      step.action.isTemplate = false ∧ ∀ name ∈ step.name, IsName name ∧ name ∉ seen := by
  have hname : (if step.name.isSome then nameDefects .step seen step.name else []) = [] ↔
      ∀ name ∈ step.name, IsName name ∧ name ∉ seen := by
    cases step.name with
    | none => simp
    | some name => simp [nameDefects_eq_nil, isWord_eq_true_iff]
  rw [Step.defects, List.append_eq_nil_iff, hname]
  cases step.action <;> simp [Action.isTemplate]

theorem stepErrors_eq_nil_iff {path : String} {index : Nat} {seen : List String}
    {steps : List Step} :
    stepErrors path index seen steps = [] ↔
      Fresh seen (steps.filterMap (·.name)) ∧
        (∀ name ∈ steps.filterMap (·.name), IsName name) ∧
        ∀ step ∈ steps, step.action.isTemplate = false := by
  -- The walk carries the names it has seen, so the induction is over all of them.
  induction steps generalizing index seen with
  | nil => simp [stepErrors, fresh_nil]
  | cons step steps ih =>
      rw [stepErrors, List.append_eq_nil_iff, atPath_eq_nil, Step.defects_eq_nil_iff, ih,
        List.forall_mem_cons]
      cases hname : step.name with
      | none =>
          rw [List.filterMap_cons_none hname]
          simp [and_left_comm]
      | some name =>
          rw [List.filterMap_cons_some hname, fresh_cons_iff, List.forall_mem_cons]
          simp only [Option.mem_some_iff, forall_eq', Option.toList_some, List.singleton_append]
          tauto

theorem Job.defects_eq_nil_iff {job : Job} {seen : List String} :
    job.defects seen = [] ↔
      (∃ name, job.job = some name ∧ IsName name ∧ name ∉ seen) ∧ job.template = none ∧
        job.steps ≠ [] := by
  simp [Job.defects, nameDefects_eq_nil, isWord_eq_true_iff, templateDefects_eq_nil_iff]

theorem jobErrors_eq_nil_iff {path : String} {index : Nat} {seen : List String}
    {jobs : List Job} :
    jobErrors path index seen jobs = [] ↔
      Fresh seen (jobs.filterMap (·.job)) ∧ ∀ job ∈ jobs, job.IsWellFormed := by
  induction jobs generalizing index seen with
  | nil => simp [jobErrors, fresh_nil]
  | cons job jobs ih =>
      rw [jobErrors, List.append_eq_nil_iff, List.append_eq_nil_iff, atPath_eq_nil,
        Job.defects_eq_nil_iff, stepErrors_eq_nil_iff, fresh_nil_iff, ih, List.forall_mem_cons]
      constructor
      · rintro ⟨⟨⟨⟨name, hname, hword, hnew⟩, htemplate, hsteps⟩, hdistinct, hnames, hconcrete⟩,
          hfresh, hjobs⟩
        rw [hname] at hfresh
        rw [List.filterMap_cons_some hname, fresh_cons_iff]
        exact ⟨⟨hnew, hfresh⟩,
          ⟨⟨name, hname, hword⟩, htemplate, hsteps, hnames, hdistinct, hconcrete⟩, hjobs⟩
      · rintro ⟨hfresh, hjob, hjobs⟩
        obtain ⟨name, hname, hword⟩ := hjob.named
        rw [List.filterMap_cons_some hname, fresh_cons_iff] at hfresh
        rw [hname]
        exact ⟨⟨⟨⟨name, rfl, hword, hfresh.1⟩, hjob.concrete, hjob.steps_ne_nil⟩,
          hjob.distinctSteps, hjob.stepNames, hjob.concreteSteps⟩, hfresh.2, hjobs⟩

theorem Stage.defects_eq_nil_iff {stage : Stage} {seen : List String} :
    stage.defects seen = [] ↔
      (∃ name, stage.stage = some name ∧ IsName name ∧ name ∉ seen) ∧ stage.template = none ∧
        stage.jobs ≠ [] := by
  simp [Stage.defects, nameDefects_eq_nil, isWord_eq_true_iff, templateDefects_eq_nil_iff]

theorem stageErrors_eq_nil_iff {index : Nat} {seen : List String} {stages : List Stage} :
    stageErrors index seen stages = [] ↔
      Fresh seen (stages.filterMap (·.stage)) ∧ ∀ stage ∈ stages, stage.IsWellFormed := by
  induction stages generalizing index seen with
  | nil => simp [stageErrors, fresh_nil]
  | cons stage stages ih =>
      rw [stageErrors, List.append_eq_nil_iff, List.append_eq_nil_iff, atPath_eq_nil,
        Stage.defects_eq_nil_iff, jobErrors_eq_nil_iff, fresh_nil_iff, ih, List.forall_mem_cons]
      constructor
      · rintro ⟨⟨⟨⟨name, hname, hword, hnew⟩, htemplate, hne⟩, hdistinct, hjobs⟩, hfresh, hstages⟩
        rw [hname] at hfresh
        rw [List.filterMap_cons_some hname, fresh_cons_iff]
        exact ⟨⟨hnew, hfresh⟩, ⟨⟨name, hname, hword⟩, htemplate, hne, hdistinct, hjobs⟩, hstages⟩
      · rintro ⟨hfresh, hstage, hstages⟩
        obtain ⟨name, hname, hword⟩ := hstage.named
        rw [List.filterMap_cons_some hname, fresh_cons_iff] at hfresh
        rw [hname]
        exact ⟨⟨⟨⟨name, rfl, hword, hfresh.1⟩, hstage.concrete, hstage.jobs_ne_nil⟩,
          hstage.distinctJobs, hstage.jobs⟩, hfresh.2, hstages⟩

/-! ## Normalization -/

namespace Pipeline

/-- What is written, form by form. -/
theorem normalize_cases (pipeline : Pipeline) :
    (pipeline.stages ≠ [] ∧ pipeline.normalize = pipeline) ∨
      (pipeline.stages = [] ∧ pipeline.jobs ≠ [] ∧
        pipeline.normalize = { pipeline with
          stages := [{ stage := some defaultName, jobs := pipeline.jobs }], jobs := [] }) ∨
      (pipeline.stages = [] ∧ pipeline.jobs = [] ∧ pipeline.steps ≠ [] ∧
        pipeline.normalize = { pipeline with
          stages := [{
            stage := some defaultName
            jobs := [{ job := some defaultName, steps := pipeline.steps }] }]
          jobs := []
          steps := [] }) ∨
      (pipeline.stages = [] ∧ pipeline.jobs = [] ∧ pipeline.steps = [] ∧
        pipeline.normalize = pipeline) := by
  obtain ⟨name, parameters, vars, stages, jobs, steps⟩ := pipeline
  cases stages <;> cases jobs <;> cases steps <;> simp [normalize, wrapSteps, wrapJobs]

theorem normalize_of_stages {pipeline : Pipeline} (hstages : pipeline.stages ≠ []) :
    pipeline.normalize = pipeline := by
  rcases pipeline.normalize_cases with ⟨-, heq⟩ | ⟨hnone, -⟩ | ⟨hnone, -⟩ | ⟨hnone, -⟩
  · exact heq
  all_goals exact absurd hnone hstages

/-- A second normalization finds nothing to wrap. -/
theorem normalize_normalize (pipeline : Pipeline) :
    pipeline.normalize.normalize = pipeline.normalize := by
  rcases pipeline.normalize_cases with
    ⟨-, heq⟩ | ⟨-, -, heq⟩ | ⟨-, -, -, heq⟩ | ⟨-, -, -, heq⟩
  · rw [heq, heq]
  · rw [heq]
    exact normalize_of_stages (List.cons_ne_nil _ _)
  · rw [heq]
    exact normalize_of_stages (List.cons_ne_nil _ _)
  · rw [heq, heq]

/-- The stages of the normal form hold the steps of the body, in order. -/
theorem steps_normalize (pipeline : Pipeline) :
    (pipeline.normalize.stages.flatMap fun stage => stage.jobs.flatMap (·.steps)) =
      pipeline.bodySteps := by
  obtain ⟨name, parameters, vars, stages, jobs, steps⟩ := pipeline
  cases stages <;> cases jobs <;> cases steps <;>
    simp [normalize, wrapSteps, wrapJobs, bodySteps]

theorem rootDefects_normalize_eq_nil_iff {pipeline : Pipeline} :
    pipeline.normalize.rootDefects = [] ↔ pipeline.HasOneBody := by
  obtain ⟨name, parameters, vars, stages, jobs, steps⟩ := pipeline
  cases stages <;> cases jobs <;> cases steps <;>
    simp [normalize, wrapSteps, wrapJobs, rootDefects, HasOneBody]

theorem validate_normalize_eq_nil_iff {pipeline : Pipeline} :
    pipeline.normalize.validate = [] ↔
      pipeline.HasOneBody ∧ pipeline.normalize.IsWellFormed := by
  rw [validate, List.append_eq_nil_iff, atPath_eq_nil, rootDefects_normalize_eq_nil_iff,
    stageErrors_eq_nil_iff, fresh_nil_iff]
  exact and_congr_right' ⟨fun ⟨hdistinct, hstages⟩ => ⟨hdistinct, hstages⟩,
    fun hwell => ⟨hwell.distinctStages, hwell.stages⟩⟩

end Pipeline

/-! ## Plans -/

/-- Where every node has a name, no node is called by its number. -/
theorem mapIdx_nodeName {α : Type} (level : GraphLevel) {name : α → Option String}
    {nodes : List α} (start : Nat) (hnamed : ∀ node ∈ nodes, ∃ word, name node = some word) :
    (nodes.mapIdx fun index node => nodeName level (start + index) (name node)) =
      nodes.filterMap name := by
  induction nodes generalizing start with
  | nil => rfl
  | cons node nodes ih =>
      obtain ⟨⟨word, hword⟩, hrest⟩ := List.forall_mem_cons.mp hnamed
      have hshift : ∀ index, start + 1 + index = start + (index + 1) := by omega
      have hnames := ih (start + 1) hrest
      simp only [hshift] at hnames
      rw [List.mapIdx_cons, List.filterMap_cons_some hword, hnames, hword]
      rfl

theorem Stage.IsWellFormed.nodup_jobNames {stage : Stage} (hstage : stage.IsWellFormed) :
    stage.jobNames.Nodup := by
  have hnames := mapIdx_nodeName .job 0 fun job hjob =>
    (hstage.jobs job hjob).named.imp fun _ hname => hname.1
  simp only [Nat.zero_add] at hnames
  rw [Stage.jobNames, hnames]
  exact hstage.distinctJobs

namespace Pipeline.IsWellFormed

variable {pipeline : Pipeline}

theorem nodup_stageNames (hwell : pipeline.IsWellFormed) : pipeline.stageNames.Nodup := by
  have hnames := mapIdx_nodeName .stage 0 fun stage hstage =>
    (hwell.stages stage hstage).named.imp fun _ hname => hname.1
  simp only [Nat.zero_add] at hnames
  rw [stageNames, hnames]
  exact hwell.distinctStages

/-- A well-formed pipeline has a graph exactly when its dependencies are sound. -/
theorem exists_graph_iff (hwell : pipeline.IsWellFormed) :
    (∃ graph, Graph.ofPipeline pipeline = .ok graph) ↔ pipeline.DependenciesSound := by
  -- Both orders of precedence depend as the pipeline says, over names that stand once.
  have hstageDepends : pipeline.stagePrecedence.Depends = pipeline.StageDependsOn :=
    funext₂ fun name dependency => propext (depends_stagePrecedence name dependency)
  have hjobDepends (stage : Stage) : stage.jobPrecedence.Depends = stage.JobDependsOn :=
    funext₂ fun name dependency => propext (Stage.depends_jobPrecedence name dependency)
  have hstages := Precedence.checkPrecedence_eq_ok_iff .stage
    (names_stagePrecedence ▸ hwell.nodup_stageNames)
  have hjobs := fun stage hstage => Precedence.checkPrecedence_eq_ok_iff .job
    (Stage.names_jobPrecedence ▸ (hwell.stages stage hstage).nodup_jobNames)
  rw [names_stagePrecedence, hstageDepends] at hstages
  simp only [Stage.names_jobPrecedence, hjobDepends] at hjobs
  rw [Graph.exists_ofPipeline_iff, hstages]
  constructor
  · rintro ⟨hchecks, hknown, hacyclic⟩
    exact ⟨hknown, hacyclic, fun stage hstage => ((hjobs stage hstage).mp (hchecks stage hstage)).1,
      fun stage hstage => ((hjobs stage hstage).mp (hchecks stage hstage)).2⟩
  · rintro ⟨hknown, hacyclic, hjobsKnown, hjobsAcyclic⟩
    exact ⟨fun stage hstage => (hjobs stage hstage).mpr
      ⟨hjobsKnown stage hstage, hjobsAcyclic stage hstage⟩, hknown, hacyclic⟩

end Pipeline.IsWellFormed

theorem Plan.exists_build_iff {pipeline : Pipeline} {parameters : Template.Arguments} :
    (∃ plan, Plan.build pipeline parameters = .ok plan) ↔
      pipeline.validate = [] ∧ ∃ graph, Graph.ofPipeline pipeline = .ok graph := by
  unfold Plan.build
  cases pipeline.validate with
  | cons error errors => simp
  | nil => cases Graph.ofPipeline pipeline <;> simp

/-- A pipeline in one of its three forms has a plan exactly when its normal form is well-formed and
the dependencies in it are sound; a pipeline that mixes the forms, or is empty, has none.
Normalization keeps the steps of the body in their order, and doing it again changes nothing. -/
theorem plan_exists_iff_wellFormed (pipeline : Pipeline) (parameters : Template.Arguments) :
    ((∃ plan, Plan.build pipeline.normalize parameters = .ok plan) ↔
      pipeline.HasOneBody ∧ pipeline.normalize.IsWellFormed ∧
        pipeline.normalize.DependenciesSound) ∧
    (pipeline.normalize.stages.flatMap fun stage => stage.jobs.flatMap (·.steps)) =
      pipeline.bodySteps ∧
    pipeline.normalize.normalize = pipeline.normalize := by
  refine ⟨?_, pipeline.steps_normalize, pipeline.normalize_normalize⟩
  rw [Plan.exists_build_iff, Pipeline.validate_normalize_eq_nil_iff, and_assoc]
  exact and_congr_right' (and_congr_right fun hwell => hwell.exists_graph_iff)

end BuildPipeline
