import BuildPipeline.Proofs.Graph.Cycles

/-!
# The ancestors of a stage

By `Acyclicity` a search ends with the transitive dependencies of the name that it starts from.
This module adds how long it takes and what an accepted graph makes of it.

* `Search.length_next` balances a round: it takes one name off the queue, and every name that it
  finds goes there once.
* `Search.pending_iterate_eq_nil_iff` counts the rounds of a whole search by that.
* `ancestors_are_reached_stages` is the result.  No stage is its own ancestor since dependencies are
  well-founded; the other parts do not need that.
-/

namespace BuildPipeline

open Relation (TransGen)

namespace Precedence

variable {precedence : Precedence}

/-! ## The rounds of a search -/

namespace Search

variable {search : Search}

theorem next_of_pending_eq_nil (precedence : Precedence) (hpending : search.pending = []) :
    search.next precedence = search := by
  rw [next, hpending]

/-- A round finds the dependencies of one pending name. -/
theorem exists_next_eq (precedence : Precedence) (hpending : search.pending ≠ []) :
    ∃ name pending, search.pending = name :: pending ∧
      search.next precedence = (precedence.before name).foldl find { search with pending } := by
  obtain ⟨name, pending, hsplit⟩ := List.exists_cons_of_ne_nil hpending
  exact ⟨name, pending, hsplit, by rw [next, hsplit]⟩

/-- No name is found twice. -/
theorem nodup_foldl_find (names : List String) {search : Search} (hfound : search.found.Nodup) :
    (names.foldl find search).found.Nodup := by
  induction names generalizing search with
  | nil => exact hfound
  | cons name rest ih =>
      refine ih ?_
      unfold find
      split
      · exact hfound
      · next hnew => exact List.nodup_cons.mpr ⟨hnew, hfound⟩

theorem nodup_run (hfound : search.found.Nodup) : (search.run precedence).Nodup := by
  fun_induction run precedence search with
  | case1 => exact hfound
  | case2 search hpending ih =>
      obtain ⟨name, pending, -, hnext⟩ := exists_next_eq precedence hpending
      have hnodup : (search.next precedence).found.Nodup :=
        hnext ▸ nodup_foldl_find (precedence.before name) hfound
      exact ih hnodup

/-- Every name that is found becomes a pending one. -/
theorem length_foldl_find (names : List String) (search : Search) :
    search.found.length ≤ (names.foldl find search).found.length ∧
      (names.foldl find search).pending.length + search.found.length =
        search.pending.length + (names.foldl find search).found.length := by
  induction names generalizing search with
  | nil => exact ⟨Nat.le_refl _, rfl⟩
  | cons name rest ih =>
      obtain ⟨hmore, hbalance⟩ := ih (search.find name)
      rw [List.foldl_cons]
      by_cases hname : name ∈ search.found
      · have hfind : search.find name = search := if_pos hname
        rw [hfind] at hmore hbalance ⊢
        exact ⟨hmore, hbalance⟩
      · have hfind : search.find name = ⟨name :: search.found, search.pending ++ [name]⟩ :=
          if_neg hname
        rw [hfind] at hmore hbalance ⊢
        simp only [List.length_cons, List.length_append, List.length_nil] at hmore hbalance
        omega

theorem length_next (precedence : Precedence) (hpending : search.pending ≠ []) :
    search.found.length ≤ (search.next precedence).found.length ∧
      (search.next precedence).pending.length + search.found.length + 1 =
        search.pending.length + (search.next precedence).found.length := by
  obtain ⟨name, pending, hsplit, hnext⟩ := exists_next_eq precedence hpending
  obtain ⟨hmore, hbalance⟩ := length_foldl_find (precedence.before name) { search with pending }
  rw [← hnext] at hmore hbalance
  rw [hsplit, List.length_cons]
  dsimp only at hmore hbalance
  omega

theorem length_found_le_run (precedence : Precedence) (search : Search) :
    search.found.length ≤ (search.run precedence).length := by
  fun_induction run precedence search with
  | case1 => exact Nat.le_refl _
  | case2 search hpending ih => exact Nat.le_trans (length_next precedence hpending).1 ih

/-- The queue is empty after so many rounds as names are looked at: those that are pending, and
those that are still to be found. -/
theorem pending_iterate_eq_nil_iff (precedence : Precedence) (search : Search) (rounds : Nat) :
    ((next precedence)^[rounds] search).pending = [] ↔
      (search.run precedence).length + search.pending.length ≤ rounds + search.found.length := by
  fun_induction run precedence search generalizing rounds with
  | case1 search hpending =>
      rw [Function.iterate_fixed (next_of_pending_eq_nil precedence hpending), hpending]
      simp
  | case2 search hpending ih =>
      obtain ⟨hmore, hbalance⟩ := length_next precedence hpending
      cases rounds with
      | zero =>
          have hrun := length_found_le_run precedence (search.next precedence)
          have hlength := List.length_pos_iff.mpr hpending
          simp only [Function.iterate_zero, id_eq, hpending, false_iff]
          omega
      | succ rounds =>
          rw [Function.iterate_succ_apply, ih]
          omega

end Search

/-- A search for ancestors looks at the name that it starts from and at each ancestor. -/
theorem pending_iterate_start_eq_nil_iff (precedence : Precedence) (name : String) (rounds : Nat) :
    ((Search.next precedence)^[rounds] (Search.start name)).pending = [] ↔
      (precedence.ancestors name).length < rounds := by
  rw [Search.pending_iterate_eq_nil_iff, ancestors, List.length_mergeSort]
  exact Iff.rfl

theorem nodup_ancestors (precedence : Precedence) (name : String) :
    (precedence.ancestors name).Nodup :=
  (Search.nodup_run List.nodup_nil).mergeSort

end Precedence

/-! ## Accepted graphs -/

namespace Graph

variable {graph : Graph}

/-- A stage of the name lists the dependency. -/
def DependsOn (graph : Graph) (name dependency : String) : Prop :=
  ∃ node ∈ graph.stages, node.name = name ∧ dependency ∈ node.dependencies

theorem dependsOn_iff_precedes (hnames : (graph.stages.map (·.name)).Nodup)
    {name dependency : String} :
    graph.DependsOn name dependency ↔ graph.precedence.Precedes dependency name := by
  rw [← Precedence.depends_iff_precedes (by rwa [names_precedence])]
  constructor
  · rintro ⟨node, hnode, rfl, hdependency⟩
    exact ⟨node.dependencies, mem_precedence hnode, hdependency⟩
  · rintro ⟨dependencies, hentry, hdependency⟩
    obtain ⟨node, hnode, heq⟩ := List.mem_map.mp hentry
    obtain ⟨rfl, rfl⟩ := Prod.mk.inj heq
    exact ⟨node, hnode, rfl, hdependency⟩

/-- The ancestors of a name are what it reaches along dependencies. -/
theorem mem_ancestors_iff (hnames : (graph.stages.map (·.name)).Nodup) {name ancestor : String} :
    ancestor ∈ graph.ancestors name ↔ TransGen graph.DependsOn name ancestor := by
  have hswap : graph.DependsOn = Function.swap graph.precedence.Precedes :=
    funext₂ fun _ _ => propext (dependsOn_iff_precedes hnames)
  rw [ancestors, Precedence.mem_ancestors_iff_transGen, hswap]
  exact Relation.transGen_swap.symm

/-- Dependencies of an accepted graph are stages, so the ancestors are. -/
theorem exists_stage_of_reached (hsound : graph.precedence.Sound) {name ancestor : String}
    (hreached : TransGen graph.DependsOn name ancestor) :
    ∃ stage ∈ graph.stages, stage.name = ancestor := by
  have hknown : ∀ other dependency, graph.DependsOn other dependency →
      ∃ stage ∈ graph.stages, stage.name = dependency := by
    rintro _ dependency ⟨node, hnode, -, hdependency⟩
    have hmem := hsound.known _ (mem_precedence hnode) dependency hdependency
    rw [names_precedence] at hmem
    exact List.mem_map.mp hmem
  cases hreached with
  | single hdependency => exact hknown _ _ hdependency
  | tail _ hdependency => exact hknown _ _ hdependency

end Graph

namespace Release

def publish : StageNode where
  name := "publish"
  stage := { stage := some "publish", dependsOn := .multiple ["test", "build"] }
  dependencies := ["test", "build"]
  jobs := []

/-- The graph of the release: the build is reached twice from the publication. -/
def graph : Graph where
  stages := [⟨"build", build, [], jobNodes 0 build.jobs⟩, ⟨"test", test, ["build"], []⟩, publish]
  vars := []

theorem ofPipeline_pipeline : Graph.ofPipeline pipeline = .ok graph := by
  simp [Graph.ofPipeline, pipeline, graph, publish, build, test, stageNodes, Stage.jobNodes,
    jobNodes, nodeName, Stage.dependencyNames, DependsOn.names, DependsOn.isImplicit,
    Graph.precedence, JobNode.precedence, checkPrecedence, Precedence.dangling?, Precedence.cycle?,
    Precedence.visit, Precedence.before, Precedence.names, List.lookup_cons, List.findSome?_cons,
    bind, Except.bind, pure, Except.pure]

theorem run_publish :
    (Precedence.Search.start "publish").run graph.precedence = ["build", "test"] := by
  simp [Precedence.Search.run, Precedence.Search.start, Precedence.Search.next,
    Precedence.Search.find, Graph.precedence, graph, publish, Precedence.before, List.lookup_cons]

end Release

/-- Where stages have distinct names, the ancestors of a stage of an accepted graph are the stages
that it reaches along one dependency or more, each of them once.  The search for them is over when
it has looked at the stage and at each ancestor.  No stage is among its own ancestors, and the
ancestors of a dependency are among those of the stage. -/
theorem ancestors_are_reached_stages {pipeline : Pipeline} {graph : Graph}
    (hgraph : Graph.ofPipeline pipeline = .ok graph)
    (hnames : (graph.stages.map (·.name)).Nodup) {node : StageNode} (hnode : node ∈ graph.stages) :
    (∀ name, name ∈ graph.ancestors node.name ↔
      TransGen graph.DependsOn node.name name ∧ ∃ stage ∈ graph.stages, stage.name = name) ∧
    (graph.ancestors node.name).Nodup ∧
    (∀ rounds, ((Precedence.Search.next graph.precedence)^[rounds]
        (Precedence.Search.start node.name)).pending = [] ↔
      (graph.ancestors node.name).length < rounds) ∧
    node.name ∉ graph.ancestors node.name ∧
    ∀ dependency ∈ node.dependencies,
      ∀ name ∈ graph.ancestors dependency, name ∈ graph.ancestors node.name := by
  have hsound := (Graph.sound_of_ofPipeline hgraph).stages
  refine ⟨fun name => ?_, Precedence.nodup_ancestors _ _,
    Precedence.pending_iterate_start_eq_nil_iff _ _, fun hself => ?_, ?_⟩
  · rw [Graph.mem_ancestors_iff hnames]
    exact ⟨fun hreached => ⟨hreached, Graph.exists_stage_of_reached hsound hreached⟩, And.left⟩
  · have hloop := Precedence.mem_ancestors_iff_transGen.mp hself
    exact hsound.wellFounded.transGen.asymmetric _ _ hloop hloop
  · intro dependency hdependency name hname
    rw [Graph.mem_ancestors_iff hnames] at hname ⊢
    exact .head ⟨node, hnode, rfl, hdependency⟩ hname

/-- The publication has two ancestors, which are found in three rounds. -/
theorem ancestors_are_reached_stages_release :
    Graph.ofPipeline Release.pipeline = .ok Release.graph ∧
    (Release.graph.stages.map (·.name)).Nodup ∧ Release.publish ∈ Release.graph.stages ∧
    TransGen Release.graph.DependsOn "publish" "test" ∧
    TransGen Release.graph.DependsOn "publish" "build" ∧
    ¬ TransGen Release.graph.DependsOn "publish" "publish" ∧
    ((Precedence.Search.next Release.graph.precedence)^[3]
      (Precedence.Search.start "publish")).pending = [] ∧
    ∀ name ∈ Release.graph.ancestors "test", name ∈ Release.graph.ancestors "publish" := by
  have hnames : (Release.graph.stages.map (·.name)).Nodup := by decide
  have hnode : Release.publish ∈ Release.graph.stages := by simp [Release.graph]
  obtain ⟨hmem, -, hrounds, hself, hbelow⟩ :=
    ancestors_are_reached_stages Release.ofPipeline_pipeline hnames hnode
  have hancestors : Release.graph.ancestors Release.publish.name = ["build", "test"] := by
    rw [Graph.ancestors, Precedence.ancestors, show Release.publish.name = "publish" from rfl,
      Release.run_publish]
    exact List.mergeSort_of_pairwise (by decide)
  refine ⟨Release.ofPipeline_pipeline, hnames, hnode, ?_, ?_, fun hloop => ?_, ?_, ?_⟩
  · exact ((hmem "test").mp (by simp [hancestors])).1
  · exact ((hmem "build").mp (by simp [hancestors])).1
  · exact hself ((hmem "publish").mpr ⟨hloop, Release.publish, hnode, rfl⟩)
  · exact (hrounds 3).mpr (by rw [hancestors]; decide)
  · exact hbelow "test" (by decide)

end BuildPipeline
