import BuildPipeline.Proofs.Graph.Acyclicity
import Mathlib.Data.List.Chain

/-!
# Which pipelines have a graph

`Acyclicity` reads off an accepted graph what it guarantees.  This module adds the other direction,
and says both in terms of the pipeline alone: the names of its stages and jobs and what they depend
on, a stage without dependencies of its own depending on the one before it.

* `isCycle_of_visit`: what a depth-first visit reports as a cycle is one.  Names that the search has
  left do not come into it, so the proof does not need to know what is in `done`.
* `checkPrecedence_eq_ok_iff`: with distinct names a precedence passes the check exactly when every
  dependency is known and no name reaches itself.
* `dependencies_of_stageNodes` says that the graph has the dependencies of the pipeline.
* `graph_exists_iff_dependencies_sound` is the result.  A reported cycle is real for all pipelines,
  also where a name stands twice.
-/

namespace BuildPipeline

open Relation (TransGen)

/-- A closed path along dependencies: every entry depends on the next, and the last one is the first
again. -/
structure IsCycle (depends : String → String → Prop) (path : List String) : Prop where
  long : 2 ≤ path.length
  closed : path.head? = path.getLast?
  linked : path.IsChain depends

namespace IsCycle

variable {depends : String → String → Prop} {path : List String}

theorem mono {other : String → String → Prop} (hcycle : IsCycle depends path)
    (hdepends : ∀ name dependency, depends name dependency → other name dependency) :
    IsCycle other path :=
  ⟨hcycle.long, hcycle.closed, hcycle.linked.imp hdepends⟩

/-- The names on a cycle depend on themselves, through the others. -/
theorem exists_transGen (hcycle : IsCycle depends path) : ∃ name, TransGen depends name name := by
  obtain ⟨hlong, hclosed, hlinked⟩ := hcycle
  match path with
  | [] => simp at hlong
  | [_] => simp at hlong
  | name :: next :: rest =>
      obtain ⟨hfirst, hrest⟩ := List.isChain_cons_cons.mp hlinked
      have hlast : (next :: rest).getLast (List.cons_ne_nil _ _) = name := by
        rw [List.head?_cons, List.getLast?_cons_cons,
          List.getLast?_eq_some_getLast (List.cons_ne_nil _ _)] at hclosed
        exact (Option.some.inj hclosed).symm
      have hback := List.relationReflTransGen_of_exists_isChain_cons rest hrest hlast
      exact ⟨name, TransGen.head' hfirst hback⟩

end IsCycle

namespace Precedence

variable {precedence : Precedence}

/-- A node of the name has the dependency. -/
def Depends (precedence : Precedence) (name dependency : String) : Prop :=
  ∃ dependencies, (name, dependencies) ∈ precedence ∧ dependency ∈ dependencies

theorem depends_of_precedes {name dependency : String}
    (hprecedes : precedence.Precedes dependency name) : precedence.Depends name dependency := by
  rw [Precedes, before] at hprecedes
  cases hlookup : precedence.reverse.lookup name with
  | none => simp [hlookup] at hprecedes
  | some dependencies =>
      rw [hlookup] at hprecedes
      exact ⟨dependencies, List.mem_reverse.mp (Table.mem_of_lookup_eq_some hlookup), hprecedes⟩

/-- With distinct names the two relations are one. -/
theorem depends_iff_precedes (hnames : precedence.names.Nodup) {name dependency : String} :
    precedence.Depends name dependency ↔ precedence.Precedes dependency name := by
  refine ⟨?_, depends_of_precedes⟩
  rintro ⟨dependencies, hentry, hdependency⟩
  rw [Precedes, before_eq_of_mem hnames hentry]
  exact hdependency

/-! ## Reported cycles -/

/-- A path up to a name on it, that name included. -/
theorem takeWhile_ne_append_singleton {name : String} {path : List String} (hname : name ∈ path) :
    path.takeWhile (· ≠ name) ++ [name] <+: path := by
  induction path with
  | nil => cases hname
  | cons head rest ih =>
      by_cases hhead : head = name
      · subst hhead
        simp
      · have hrest := ih ((List.mem_cons.mp hname).resolve_left fun heq => hhead heq.symm)
        rw [List.takeWhile_cons_of_pos (by simpa using hhead), List.cons_append]
        exact (List.prefix_cons_inj head).mpr hrest

/-- A path along dependencies, latest name first, that comes back to a name on it closes a cycle. -/
theorem isCycle_closeCycle {name : String} {path : List String} (hname : name ∈ path)
    (hpath : (name :: path).IsChain precedence.Precedes) :
    IsCycle (fun name dependency => precedence.Precedes dependency name)
      (closeCycle name path) := by
  have hreverse :
      closeCycle name path = (name :: (path.takeWhile (· ≠ name) ++ [name])).reverse := by
    simp [closeCycle]
  refine ⟨?_, ?_, ?_⟩
  · simp [closeCycle]
  · simp [closeCycle, List.getLast?_cons]
  · rw [hreverse, List.isChain_reverse]
    exact hpath.prefix ((List.prefix_cons_inj name).mpr (takeWhile_ne_append_singleton hname))

/-- An error of a visit is a cycle, if the path leads along dependencies to the names that are
visited. -/
theorem isCycle_of_visit {path done names cycle : List String}
    (hpath : ∀ name ∈ names, (name :: path).IsChain precedence.Precedes)
    (hvisit : precedence.visit path done names = .error cycle) :
    IsCycle (fun name dependency => precedence.Precedes dependency name) cycle := by
  fun_induction visit precedence path done names with
  | case1 => cases hvisit
  | case2 path done name rest _ ih =>
      exact ih (List.forall_mem_cons.mp hpath).2 hvisit
  | case3 path done name rest _ hmem =>
      cases hvisit
      exact isCycle_closeCycle hmem (hpath name List.mem_cons_self)
  | case4 path done name rest _ _ inner hinner ih =>
      cases hvisit
      -- The search goes down to what `name` depends on.
      refine ih (fun dependency hdependency => ?_) hinner
      exact List.isChain_cons_cons.mpr ⟨hdependency, hpath name List.mem_cons_self⟩
  | case5 path done name rest _ _ inner _ _ ih =>
      exact ih (List.forall_mem_cons.mp hpath).2 hvisit

theorem isCycle_of_cycle? {cycle : List String} (hcycle : precedence.cycle? = some cycle) :
    IsCycle precedence.Depends cycle := by
  unfold cycle? at hcycle
  split at hcycle
  · next found hvisit =>
      cases hcycle
      have hfound := isCycle_of_visit (fun _ _ => List.isChain_singleton _) hvisit
      exact hfound.mono fun _ _ => depends_of_precedes
  · cases hcycle

/-! ## Accepted precedences -/

theorem dangling?_eq_none_iff :
    precedence.dangling? = none ↔
      ∀ name dependency, precedence.Depends name dependency → dependency ∈ precedence.names := by
  constructor
  · rintro hdangling name dependency ⟨dependencies, hentry, hdependency⟩
    exact known_of_dangling?_eq_none hdangling _ hentry dependency hdependency
  · intro hknown
    refine List.findSome?_eq_none_iff.mpr fun entry hentry => ?_
    refine Option.map_eq_none_iff.mpr (List.find?_eq_none.mpr fun dependency hdependency => ?_)
    have hmem := hknown entry.1 dependency ⟨entry.2, hentry, hdependency⟩
    simpa using hmem

/-- What passes the check, for names that stand once. -/
theorem checkPrecedence_eq_ok_iff (level : GraphLevel) (hnames : precedence.names.Nodup) :
    checkPrecedence level precedence = .ok () ↔
      (∀ name dependency, precedence.Depends name dependency → dependency ∈ precedence.names) ∧
        ¬ ∃ name, TransGen precedence.Depends name name := by
  constructor
  · intro hcheck
    obtain ⟨hknown, hwellFounded⟩ := sound_of_checkPrecedence hcheck
    refine ⟨?_, ?_⟩
    · rintro name dependency ⟨dependencies, hentry, hdependency⟩
      exact hknown _ hentry dependency hdependency
    · rintro ⟨name, hloop⟩
      have hback : TransGen (Function.swap precedence.Precedes) name name :=
        TransGen.mono (fun _ _ => (depends_iff_precedes hnames).mp) _ _ hloop
      have hforth := Relation.transGen_swap.mp hback
      exact hwellFounded.transGen.asymmetric name name hforth hforth
  · rintro ⟨hknown, hacyclic⟩
    unfold checkPrecedence
    rw [dangling?_eq_none_iff.mpr hknown]
    cases hcycle : precedence.cycle? with
    | none => rfl
    | some path => exact absurd (isCycle_of_cycle? hcycle).exists_transGen hacyclic

theorem isCycle_of_checkPrecedence {level reported : GraphLevel} {path : List String}
    (hcheck : checkPrecedence level precedence = .error (.cycle reported path)) :
    reported = level ∧ IsCycle precedence.Depends path := by
  unfold checkPrecedence at hcheck
  split at hcheck
  · cases hcheck
  · split at hcheck
    · next hcycle =>
        cases hcheck
        exact ⟨rfl, isCycle_of_cycle? hcycle⟩
    · cases hcheck

end Precedence

/-! ## Jobs -/

namespace Stage

/-- The names of the jobs, a job without one being called by its number. -/
def jobNames (stage : Stage) : List String :=
  stage.jobs.mapIdx fun index job => nodeName .job index job.job

/-- Some job of the name lists the dependency. -/
def JobDependsOn (stage : Stage) (name dependency : String) : Prop :=
  ∃ index job, stage.jobs[index]? = some job ∧ nodeName .job index job.job = name ∧
    dependency ∈ job.dependsOn.names

end Stage

theorem jobNodes_eq_mapIdx (start : Nat) (jobs : List Job) :
    jobNodes start jobs = jobs.mapIdx fun index job =>
      ⟨nodeName .job (start + index) job.job, job, job.dependsOn.names⟩ := by
  induction jobs generalizing start with
  | nil => rfl
  | cons job jobs ih =>
      rw [jobNodes, ih, List.mapIdx_cons]
      simp only [Nat.add_zero, Nat.add_comm, Nat.add_left_comm]

namespace Stage

variable {stage : Stage}

/-- What is checked of the jobs of a stage. -/
def jobPrecedence (stage : Stage) : Precedence :=
  JobNode.precedence (BuildPipeline.jobNodes 0 stage.jobs)

theorem names_jobPrecedence : stage.jobPrecedence.names = stage.jobNames := by
  rw [jobPrecedence, JobNode.names_precedence, jobNodes_eq_mapIdx, jobNames]
  refine List.ext_getElem? fun index => ?_
  simp [Function.comp_def]

theorem depends_jobPrecedence (name dependency : String) :
    stage.jobPrecedence.Depends name dependency ↔ stage.JobDependsOn name dependency := by
  simp only [Precedence.Depends, jobPrecedence, JobNode.precedence, jobNodes_eq_mapIdx,
    List.mem_map, List.mem_mapIdx, JobDependsOn, List.getElem?_eq_some_iff]
  constructor
  · rintro ⟨_, ⟨_, ⟨index, hindex, rfl⟩, heq⟩, hdependency⟩
    obtain ⟨hname, rfl⟩ := Prod.mk.inj heq
    exact ⟨index, _, ⟨hindex, rfl⟩, by simpa using hname, hdependency⟩
  · rintro ⟨index, _, ⟨hindex, rfl⟩, hname, hdependency⟩
    exact ⟨_, ⟨_, ⟨index, hindex, rfl⟩, by simp [hname]⟩, hdependency⟩

theorem jobNodes_eq_error {error : GraphError} (hnodes : stage.jobNodes = .error error) :
    checkPrecedence .job stage.jobPrecedence = .error error := by
  unfold Stage.jobNodes at hnodes
  unfold jobPrecedence
  cases hcheck :
      checkPrecedence .job (JobNode.precedence (BuildPipeline.jobNodes 0 stage.jobs)) with
  | error other =>
      simp only [hcheck, bind, Except.bind, Except.error.injEq] at hnodes
      rw [hnodes]
  | ok _ => simp [hcheck, bind, Except.bind, pure, Except.pure] at hnodes

theorem exists_jobNodes_iff :
    (∃ nodes, stage.jobNodes = .ok nodes) ↔ checkPrecedence .job stage.jobPrecedence = .ok () := by
  constructor
  · rintro ⟨nodes, hnodes⟩
    obtain ⟨rfl, hcheck⟩ := jobNodes_cases hnodes
    exact hcheck
  · intro hcheck
    cases hnodes : stage.jobNodes with
    | ok nodes => exact ⟨nodes, rfl⟩
    | error error =>
        rw [jobNodes_eq_error hnodes] at hcheck
        cases hcheck

end Stage

/-! ## Stages -/

namespace Pipeline

/-- The names of the stages, a stage without one being called by its number. -/
def stageNames (pipeline : Pipeline) : List String :=
  pipeline.stages.mapIdx fun index stage => nodeName .stage index stage.stage

/-- Some stage of the name lists the dependency, or lists nothing and comes right after it. -/
def StageDependsOn (pipeline : Pipeline) (name dependency : String) : Prop :=
  ∃ index stage, pipeline.stages[index]? = some stage ∧ nodeName .stage index stage.stage = name ∧
    (dependency ∈ stage.dependsOn.names ∨ stage.dependsOn = .implicit ∧
      ∃ previous, previous + 1 = index ∧ pipeline.stageNames[previous]? = some dependency)

end Pipeline

theorem Stage.mem_dependencyNames {stage : Stage} {previous : Option String} {dependency : String} :
    dependency ∈ stage.dependencyNames previous ↔
      dependency ∈ stage.dependsOn.names ∨
        stage.dependsOn = .implicit ∧ previous = some dependency := by
  unfold Stage.dependencyNames
  cases stage.dependsOn <;> simp [DependsOn.isImplicit, DependsOn.names]

/-- The name of the stage before the one at an index, `first` standing before all of them. -/
def nameBefore (first : Option String) (names : List String) : Nat → Option String
  | 0 => first
  | index + 1 => names[index]?

section StageNodes

variable {start : Nat} {previous : Option String} {stages : List Stage} {nodes : List StageNode}

/-- The nodes of some stages have their names, and their dependencies. -/
theorem dependencies_of_stageNodes (hnodes : stageNodes start previous stages = .ok nodes) :
    (nodes.map fun node => (node.name, node.dependencies)) =
      stages.mapIdx fun index stage =>
        (nodeName .stage (start + index) stage.stage, stage.dependencyNames
          (nameBefore previous
            (stages.mapIdx fun index stage => nodeName .stage (start + index) stage.stage)
            index)) := by
  induction stages generalizing start previous nodes with
  | nil =>
      cases hnodes
      rfl
  | cons stage stages ih =>
      obtain ⟨jobs, rest, -, hrest, rfl⟩ := stageNodes_cases hnodes
      rw [List.map_cons, ih hrest, List.mapIdx_cons]
      congr 1
      refine List.mapIdx_eq_mapIdx_iff.mpr fun index hindex => ?_
      have hshift : ∀ index, start + 1 + index = start + (index + 1) := by omega
      simp only [hshift]
      cases index <;> simp [nameBefore]

/-- Stages without nodes have one whose jobs have none. -/
theorem stageNodes_eq_error {error : GraphError}
    (hnodes : stageNodes start previous stages = .error error) :
    ∃ stage ∈ stages, stage.jobNodes = .error error := by
  induction stages generalizing start previous with
  | nil => cases hnodes
  | cons stage stages ih =>
      simp only [stageNodes, bind, Except.bind, pure, Except.pure] at hnodes
      cases hjobs : stage.jobNodes with
      | error other =>
          simp only [hjobs, Except.error.injEq] at hnodes
          exact ⟨stage, List.mem_cons_self, hnodes ▸ hjobs⟩
      | ok jobs =>
          cases hrest :
              stageNodes (start + 1) (some (nodeName .stage start stage.stage)) stages with
          | error other =>
              simp only [hjobs, hrest, Except.error.injEq] at hnodes
              subst hnodes
              obtain ⟨inner, hinner, herror⟩ := ih hrest
              exact ⟨inner, List.mem_cons_of_mem stage hinner, herror⟩
          | ok rest => simp [hjobs, hrest] at hnodes

theorem exists_jobNodes_of_stageNodes (hnodes : stageNodes start previous stages = .ok nodes) :
    ∀ stage ∈ stages, ∃ jobs, stage.jobNodes = .ok jobs := by
  induction stages generalizing start previous nodes with
  | nil => exact fun _ hstage => absurd hstage List.not_mem_nil
  | cons stage stages ih =>
      obtain ⟨jobs, rest, hjobs, hrest, rfl⟩ := stageNodes_cases hnodes
      exact List.forall_mem_cons.mpr ⟨⟨jobs, hjobs⟩, ih hrest⟩

end StageNodes

namespace Pipeline

variable {pipeline : Pipeline}

/-- What is checked of the stages of a pipeline. -/
def stagePrecedence (pipeline : Pipeline) : Precedence :=
  pipeline.stages.mapIdx fun index stage =>
    (nodeName .stage index stage.stage,
      stage.dependencyNames (nameBefore none pipeline.stageNames index))

theorem stagePrecedence_eq {nodes : List StageNode}
    (hnodes : stageNodes 0 none pipeline.stages = .ok nodes) :
    Graph.precedence ⟨nodes, pipeline.vars⟩ = pipeline.stagePrecedence := by
  rw [Graph.precedence, dependencies_of_stageNodes hnodes, stagePrecedence, stageNames]
  simp only [Nat.zero_add]

theorem names_stagePrecedence : pipeline.stagePrecedence.names = pipeline.stageNames := by
  rw [stagePrecedence, Precedence.names, stageNames]
  refine List.ext_getElem? fun index => ?_
  simp [Function.comp_def]

theorem depends_stagePrecedence (name dependency : String) :
    pipeline.stagePrecedence.Depends name dependency ↔ pipeline.StageDependsOn name dependency := by
  have hbefore (stage : Stage) (index : Nat) :
      dependency ∈ stage.dependencyNames (nameBefore none pipeline.stageNames index) ↔
        dependency ∈ stage.dependsOn.names ∨ stage.dependsOn = .implicit ∧
          ∃ previous, previous + 1 = index ∧ pipeline.stageNames[previous]? = some dependency := by
    rw [Stage.mem_dependencyNames]
    cases index <;> simp [nameBefore]
  constructor
  · rintro ⟨dependencies, hentry, hdependency⟩
    obtain ⟨index, hindex, heq⟩ := List.mem_mapIdx.mp hentry
    obtain ⟨hname, rfl⟩ := Prod.mk.inj heq
    exact ⟨index, _, List.getElem?_eq_getElem hindex, hname, (hbefore _ index).mp hdependency⟩
  · rintro ⟨index, stage, hstage, hname, hdependency⟩
    obtain ⟨hindex, rfl⟩ := List.getElem?_eq_some_iff.mp hstage
    refine ⟨_, List.mem_mapIdx.mpr ⟨index, hindex, ?_⟩, (hbefore _ index).mpr hdependency⟩
    rw [hname]

end Pipeline

/-! ## Graphs -/

namespace Graph

variable {pipeline : Pipeline}

theorem exists_ofPipeline_iff :
    (∃ graph, ofPipeline pipeline = .ok graph) ↔
      (∀ stage ∈ pipeline.stages, checkPrecedence .job stage.jobPrecedence = .ok ()) ∧
        checkPrecedence .stage pipeline.stagePrecedence = .ok () := by
  constructor
  · rintro ⟨graph, hgraph⟩
    obtain ⟨hstages, hvars, hcheck⟩ := ofPipeline_cases hgraph
    refine ⟨fun stage hstage => ?_, ?_⟩
    · exact Stage.exists_jobNodes_iff.mp (exists_jobNodes_of_stageNodes hstages stage hstage)
    · rw [← Pipeline.stagePrecedence_eq hstages]
      exact hcheck
  · rintro ⟨hjobs, hcheck⟩
    simp only [ofPipeline, bind, Except.bind, pure, Except.pure]
    cases hstages : stageNodes 0 none pipeline.stages with
    | error error =>
        obtain ⟨stage, hstage, herror⟩ := stageNodes_eq_error hstages
        obtain ⟨nodes, hnodes⟩ := Stage.exists_jobNodes_iff.mpr (hjobs stage hstage)
        rw [herror] at hnodes
        cases hnodes
    | ok nodes =>
        rw [← Pipeline.stagePrecedence_eq hstages] at hcheck
        exact ⟨⟨nodes, pipeline.vars⟩, by simp only [hcheck]⟩

/-- An error is one of the jobs of some stage, or one of the stages. -/
theorem ofPipeline_eq_error {error : GraphError} (hgraph : ofPipeline pipeline = .error error) :
    (∃ stage ∈ pipeline.stages, checkPrecedence .job stage.jobPrecedence = .error error) ∨
      checkPrecedence .stage pipeline.stagePrecedence = .error error := by
  simp only [ofPipeline, bind, Except.bind, pure, Except.pure] at hgraph
  cases hstages : stageNodes 0 none pipeline.stages with
  | error other =>
      simp only [hstages, Except.error.injEq] at hgraph
      obtain ⟨stage, hstage, hjobs⟩ := stageNodes_eq_error hstages
      exact Or.inl ⟨stage, hstage, hgraph ▸ Stage.jobNodes_eq_error hjobs⟩
  | ok nodes =>
      simp only [hstages, Pipeline.stagePrecedence_eq hstages] at hgraph
      cases hcheck : checkPrecedence .stage pipeline.stagePrecedence with
      | error other =>
          simp only [hcheck, Except.error.injEq] at hgraph
          exact Or.inr (hgraph ▸ rfl)
      | ok _ => simp [hcheck] at hgraph

end Graph

/-- Where names stand once, a pipeline has a graph exactly when its dependencies name jobs of the
same stage and stages, and neither the stages nor the jobs of any stage have a cycle.  A cycle that
is reported is one, in every pipeline. -/
theorem graph_exists_iff_dependencies_sound (pipeline : Pipeline) :
    (pipeline.stageNames.Nodup → (∀ stage ∈ pipeline.stages, stage.jobNames.Nodup) →
      ((∃ graph, Graph.ofPipeline pipeline = .ok graph) ↔
        (∀ stage ∈ pipeline.stages, ∀ name dependency, stage.JobDependsOn name dependency →
          dependency ∈ stage.jobNames) ∧
        (∀ name dependency, pipeline.StageDependsOn name dependency →
          dependency ∈ pipeline.stageNames) ∧
        (¬ ∃ name, TransGen pipeline.StageDependsOn name name) ∧
        ∀ stage ∈ pipeline.stages, ¬ ∃ name, TransGen stage.JobDependsOn name name)) ∧
    ∀ level path, Graph.ofPipeline pipeline = .error (.cycle level path) →
      match level with
      | .stage => IsCycle pipeline.StageDependsOn path
      | .job => ∃ stage ∈ pipeline.stages, IsCycle stage.JobDependsOn path := by
  have hstageDepends : pipeline.stagePrecedence.Depends = pipeline.StageDependsOn :=
    funext₂ fun name dependency => propext (Pipeline.depends_stagePrecedence name dependency)
  have hjobDepends (stage : Stage) : stage.jobPrecedence.Depends = stage.JobDependsOn :=
    funext₂ fun name dependency => propext (Stage.depends_jobPrecedence name dependency)
  constructor
  · intro hstageNames hjobNames
    have hstages : checkPrecedence .stage pipeline.stagePrecedence = .ok () ↔ _ :=
      Precedence.checkPrecedence_eq_ok_iff .stage
        (by rw [Pipeline.names_stagePrecedence]; exact hstageNames)
    have hjobs : ∀ stage ∈ pipeline.stages,
        (checkPrecedence .job stage.jobPrecedence = .ok () ↔ _) := fun stage hstage =>
      Precedence.checkPrecedence_eq_ok_iff .job
        (by rw [Stage.names_jobPrecedence]; exact hjobNames stage hstage)
    rw [Pipeline.names_stagePrecedence, hstageDepends] at hstages
    simp only [Stage.names_jobPrecedence, hjobDepends] at hjobs
    rw [Graph.exists_ofPipeline_iff, hstages]
    constructor
    · rintro ⟨hchecks, hknown, hacyclic⟩
      exact ⟨fun stage hstage => ((hjobs stage hstage).mp (hchecks stage hstage)).1, hknown,
        hacyclic, fun stage hstage => ((hjobs stage hstage).mp (hchecks stage hstage)).2⟩
    · rintro ⟨hjobsKnown, hknown, hacyclic, hjobsAcyclic⟩
      exact ⟨fun stage hstage => (hjobs stage hstage).mpr
        ⟨hjobsKnown stage hstage, hjobsAcyclic stage hstage⟩, hknown, hacyclic⟩
  · intro level path hgraph
    rcases Graph.ofPipeline_eq_error hgraph with ⟨stage, hstage, hcheck⟩ | hcheck
    · obtain ⟨rfl, hcycle⟩ := Precedence.isCycle_of_checkPrecedence hcheck
      exact ⟨stage, hstage, hjobDepends stage ▸ hcycle⟩
    · obtain ⟨rfl, hcycle⟩ := Precedence.isCycle_of_checkPrecedence hcheck
      exact hstageDepends ▸ hcycle

/-! ## A release that waits for itself -/

namespace Release

def build : Stage where
  stage := some "build"
  jobs := [{ job := some "compile" }, { job := some "pack", dependsOn := .single "compile" }]

/-- A stage that comes after the one before it. -/
def test : Stage where
  stage := some "test"

def pipeline : Pipeline where
  stages := [build, test, { stage := some "publish", dependsOn := .multiple ["test", "build"] }]

/-- The first stage waits for the last one. -/
def circular : Pipeline where
  stages := [{ build with dependsOn := .single "publish" }, test, { stage := some "publish" }]

end Release

/-- The release has a graph, so its dependencies are sound; the circle of the other one is reported
with the two implicit dependencies on it. -/
theorem graph_exists_iff_dependencies_sound_release :
    (Release.pipeline.stageNames.Nodup ∧
      (∀ stage ∈ Release.pipeline.stages, stage.jobNames.Nodup) ∧
      (¬ ∃ name, TransGen Release.pipeline.StageDependsOn name name) ∧
      ∀ stage ∈ Release.pipeline.stages, ¬ ∃ name, TransGen stage.JobDependsOn name name) ∧
    Graph.ofPipeline Release.circular =
      .error (.cycle .stage ["build", "publish", "test", "build"]) ∧
    IsCycle Release.circular.StageDependsOn ["build", "publish", "test", "build"] := by
  have hstageNames : Release.pipeline.stageNames.Nodup := by decide
  have hjobNames : ∀ stage ∈ Release.pipeline.stages, stage.jobNames.Nodup := by decide
  have hgraph : ∃ graph, Graph.ofPipeline Release.pipeline = .ok graph := by
    simp [Graph.ofPipeline, Release.pipeline, Release.build, Release.test, stageNodes,
      Stage.jobNodes, jobNodes, nodeName, Stage.dependencyNames, DependsOn.names,
      DependsOn.isImplicit, Graph.precedence, JobNode.precedence, checkPrecedence,
      Precedence.dangling?, Precedence.cycle?, Precedence.visit, Precedence.before,
      Precedence.names, List.lookup_cons, List.findSome?_cons, bind, Except.bind, pure, Except.pure]
  have hcircular : Graph.ofPipeline Release.circular =
      .error (.cycle .stage ["build", "publish", "test", "build"]) := by
    simp [Graph.ofPipeline, Release.circular, Release.build, Release.test, stageNodes,
      Stage.jobNodes, jobNodes, nodeName, Stage.dependencyNames, DependsOn.names,
      DependsOn.isImplicit, Graph.precedence, JobNode.precedence, checkPrecedence,
      Precedence.dangling?, Precedence.cycle?, Precedence.visit, Precedence.before,
      Precedence.names, Precedence.closeCycle, List.lookup_cons, List.findSome?_cons, bind,
      Except.bind, pure, Except.pure]
  obtain ⟨-, -, hacyclic, hjobsAcyclic⟩ :=
    ((graph_exists_iff_dependencies_sound Release.pipeline).1 hstageNames hjobNames).mp hgraph
  have hcycle := (graph_exists_iff_dependencies_sound Release.circular).2 _ _ hcircular
  exact ⟨⟨hstageNames, hjobNames, hacyclic, hjobsAcyclic⟩, hcircular, hcycle⟩

end BuildPipeline
