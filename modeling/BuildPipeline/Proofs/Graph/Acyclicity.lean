import BuildPipeline.Graph.Basic
import Mathlib.Data.List.Nodup
import Mathlib.Logic.Relation

/-!
# What an accepted graph guarantees

The two searches over a precedence are read here as facts about the dependency relation.

* `grounded_of_visit`: a depth-first visit that meets no cycle lists every name after everything it
  depends on.  The list is the certificate from which well-foundedness follows, with no bound on
  the length of a path.
* `Search.Explores` is the invariant of a search for ancestors.  By `mem_ancestors_iff_transGen` the
  names that it ends with are the transitive dependencies and no others, also where there are
  cycles.
* `Graph.sound_of_ofPipeline`: the graph of a pipeline is sound, that is, every dependency names a
  node of the same level and both levels are well-founded.

* `Stage.jobNodes_cases`, `stageNodes_cases` and `Graph.ofPipeline_cases` say once what an accepted
  graph is made of.

Distinct names are not checked by the graph.  They are a separate property, `Graph.DistinctNames`,
under which the dependencies that `before` looks up are those of the node itself.
-/

namespace BuildPipeline
namespace Precedence

variable {precedence : Precedence}

/-- The dependency relation of a precedence. -/
def Precedes (precedence : Precedence) (dependency name : String) : Prop :=
  dependency ∈ precedence.before name

/-! ## Names that stand once -/

theorem lookup_eq_some_of_mem {entries : Precedence} {name : String} {dependencies : List String}
    (hnames : entries.names.Nodup) (hmem : (name, dependencies) ∈ entries) :
    entries.lookup name = some dependencies := by
  induction entries with
  | nil => cases hmem
  | cons entry rest ih =>
      obtain ⟨head, headDependencies⟩ := entry
      simp only [names, List.map_cons, List.nodup_cons] at hnames
      rcases List.mem_cons.mp hmem with heq | hrest
      · obtain ⟨rfl, rfl⟩ := Prod.mk.inj heq
        simp
      · have hname : name ∈ names rest := List.mem_map_of_mem hrest
        have hne : name ≠ head := fun heq => hnames.1 (heq ▸ hname)
        rw [List.lookup_cons, beq_eq_false_iff_ne.mpr hne]
        exact ih hnames.2 hrest

/-- The dependencies that count for a name are those of a node that has it. -/
theorem mem_before_of_mem_names {name : String} (hname : name ∈ precedence.names) :
    (name, precedence.before name) ∈ precedence := by
  rw [before]
  cases hlookup : precedence.reverse.lookup name with
  | some dependencies => exact List.mem_reverse.mp (Table.mem_of_lookup_eq_some hlookup)
  | none =>
      obtain ⟨entry, hentry, rfl⟩ := List.mem_map.mp hname
      have hother := List.lookup_eq_none_iff.mp hlookup entry (List.mem_reverse.mpr hentry)
      simp at hother

/-- With distinct names a node's own dependencies are the ones that count. -/
theorem before_eq_of_mem {name : String} {dependencies : List String}
    (hnames : precedence.names.Nodup) (hmem : (name, dependencies) ∈ precedence) :
    precedence.before name = dependencies := by
  have hreverse : (names precedence.reverse).Nodup := by
    rw [names, List.map_reverse, List.nodup_reverse]
    exact hnames
  rw [before, lookup_eq_some_of_mem hreverse (List.mem_reverse.mpr hmem)]
  rfl

/-! ## Visits without a cycle -/

/-- Every name stands after everything it depends on, the latest name first. -/
def Grounded (precedence : Precedence) : List String → Prop
  | [] => True
  | name :: earlier =>
      (∀ dependency ∈ precedence.before name, dependency ∈ earlier) ∧
        Grounded precedence earlier

/-- A visit that succeeds keeps what was done, adds the names it was sent to, and puts every new
name after its dependencies. -/
theorem grounded_of_visit {path done names result : List String}
    (hdone : precedence.Grounded done)
    (hvisit : precedence.visit path done names = .ok result) :
    precedence.Grounded result ∧ (∀ name ∈ done, name ∈ result) ∧
      ∀ name ∈ names, name ∈ result := by
  -- The induction is on the calls of the visit.  The path only decides what counts as a cycle.
  fun_induction visit precedence path done names generalizing result with
  | case1 =>
      cases hvisit
      exact ⟨hdone, fun _ hname => hname, fun _ hname => absurd hname List.not_mem_nil⟩
  | case2 path done name rest hmem ih =>
      obtain ⟨hgrounded, hkept, hrest⟩ := ih hdone hvisit
      exact ⟨hgrounded, hkept, List.forall_mem_cons.mpr ⟨hkept name hmem, hrest⟩⟩
  | case3 => cases hvisit
  | case4 => cases hvisit
  | case5 path done name rest _ _ inner hinner ihInner ihRest =>
      obtain ⟨hgrounded, hkept, hbefore⟩ := ihInner hdone hinner
      obtain ⟨hresult, hkept', hrest⟩ := ihRest ⟨hbefore, hgrounded⟩ hvisit
      refine ⟨hresult, fun other hother => ?_, ?_⟩
      · exact hkept' other (List.mem_cons_of_mem name (hkept other hother))
      · exact List.forall_mem_cons.mpr ⟨hkept' name List.mem_cons_self, hrest⟩

theorem acc_of_grounded {done : List String} (hgrounded : precedence.Grounded done) :
    ∀ name ∈ done, Acc precedence.Precedes name := by
  induction done with
  | nil => exact fun _ hname => absurd hname List.not_mem_nil
  | cons head earlier ih =>
      obtain ⟨hbefore, hearlier⟩ := hgrounded
      refine List.forall_mem_cons.mpr ⟨?_, ih hearlier⟩
      exact Acc.intro head fun dependency hdependency =>
        ih hearlier dependency (hbefore dependency hdependency)

/-- A precedence without a cycle is well-founded, on the names of its nodes and on all others. -/
theorem wellFounded_of_cycle?_eq_none (hcycle : precedence.cycle? = none) :
    WellFounded precedence.Precedes := by
  constructor
  intro name
  cases hvisit : precedence.visit [] [] precedence.names with
  | error cycle => simp [cycle?, hvisit] at hcycle
  | ok done =>
      obtain ⟨hgrounded, -, hnames⟩ := grounded_of_visit (show precedence.Grounded [] from trivial) hvisit
      by_cases hname : name ∈ precedence.names
      · exact acc_of_grounded hgrounded name (hnames name hname)
      · -- A name of no node has no dependencies at all.
        refine Acc.intro name fun dependency hdependency => ?_
        rw [Precedes, before_eq_nil_of_notMem hname] at hdependency
        cases hdependency

/-! ## Ancestors -/

namespace Search

variable {search : Search} {start : String}

theorem mem_found_find {name other : String} :
    other ∈ (search.find name).found ↔ other = name ∨ other ∈ search.found := by
  unfold find
  split
  · next hfound => exact ⟨Or.inr, fun hother => hother.elim (fun heq => heq ▸ hfound) id⟩
  · exact List.mem_cons

theorem mem_pending_find {name other : String} :
    other ∈ (search.find name).pending ↔
      other ∈ search.pending ∨ other = name ∧ other ∉ search.found := by
  unfold find
  split
  · next hfound =>
      refine ⟨Or.inl, fun hother => hother.elim id ?_⟩
      rintro ⟨rfl, hnew⟩
      exact absurd hfound hnew
  · next hnew =>
      rw [List.mem_append, List.mem_singleton]
      refine or_congr_right ⟨?_, And.left⟩
      rintro rfl
      exact ⟨rfl, hnew⟩

theorem mem_found_foldl_find {names : List String} {other : String} :
    other ∈ (names.foldl find search).found ↔ other ∈ names ∨ other ∈ search.found := by
  induction names generalizing search with
  | nil => simp
  | cons name rest ih =>
      rw [List.foldl_cons, ih, mem_found_find, List.mem_cons]
      tauto

theorem mem_pending_foldl_find {names : List String} {other : String} :
    other ∈ (names.foldl find search).pending ↔
      other ∈ search.pending ∨ other ∈ names ∧ other ∉ search.found := by
  induction names generalizing search with
  | nil => simp
  | cons name rest ih =>
      rw [List.foldl_cons, ih, mem_pending_find, mem_found_find, List.mem_cons]
      tauto

/-- What a search from a name has come to: transitive dependencies only, and all direct ones of
every name whose dependencies it has looked at. -/
structure Explores (precedence : Precedence) (start : String) (search : Search) : Prop where
  sound : ∀ name ∈ search.found, Relation.TransGen precedence.Precedes name start
  pending : ∀ name ∈ search.pending, name = start ∨ name ∈ search.found
  closed : ∀ name, name = start ∨ name ∈ search.found → name ∈ search.pending ∨
    ∀ dependency ∈ precedence.before name, dependency ∈ search.found

theorem explores_start (name : String) : (Search.start name).Explores precedence name := by
  refine ⟨fun _ hfound => absurd hfound List.not_mem_nil, ?_, ?_⟩
  · exact fun other hpending => Or.inl (List.mem_singleton.mp hpending)
  · exact fun other hother =>
      Or.inl (List.mem_singleton.mpr (hother.resolve_right List.not_mem_nil))

/-- A round of the search looks at one pending name. -/
theorem Explores.next (hexplores : search.Explores precedence start) :
    (search.next precedence).Explores precedence start := by
  unfold Search.next
  split
  · exact hexplores
  · next name pending hpending =>
      obtain ⟨hsound, hknown, hclosed⟩ := hexplores
      rw [hpending] at hknown hclosed
      have hname := hknown name List.mem_cons_self
      refine ⟨fun other hother => ?_, fun other hother => ?_, fun other hother => ?_⟩
      · rcases mem_found_foldl_find.mp hother with hdependency | hfound
        · rcases hname with rfl | hname
          · exact .single hdependency
          · exact .head hdependency (hsound name hname)
        · exact hsound other hfound
      · rw [mem_found_foldl_find]
        rcases mem_pending_foldl_find.mp hother with hother | ⟨hdependency, -⟩
        · exact (hknown other (List.mem_cons_of_mem name hother)).imp_right Or.inr
        · exact Or.inr (Or.inl hdependency)
      · -- A name that was known keeps its state, unless it is the one that is looked at.
        have hold : other = start ∨ other ∈ search.found →
            other ∈ ((precedence.before name).foldl find { search with pending }).pending ∨
              ∀ dependency ∈ precedence.before other,
                dependency ∈ ((precedence.before name).foldl find { search with pending }).found := by
          intro hknownBefore
          simp only [mem_pending_foldl_find, mem_found_foldl_find]
          rcases hclosed other hknownBefore with hwaiting | hdone
          · rcases List.mem_cons.mp hwaiting with rfl | hwaiting
            · exact Or.inr fun dependency hdependency => Or.inl hdependency
            · exact Or.inl (Or.inl hwaiting)
          · exact Or.inr fun dependency hdependency => Or.inr (hdone dependency hdependency)
        rcases hother with hstart | hother
        · exact hold (Or.inl hstart)
        · by_cases hfound : other ∈ search.found
          · exact hold (Or.inr hfound)
          · have hdependency := (mem_found_foldl_find.mp hother).resolve_right hfound
            exact Or.inl (mem_pending_foldl_find.mpr (Or.inr ⟨hdependency, hfound⟩))

/-- A search ends with the transitive dependencies of the name that it started from. -/
theorem Explores.mem_run (hexplores : search.Explores precedence start) {name : String} :
    name ∈ search.run precedence ↔ Relation.TransGen precedence.Precedes name start := by
  fun_induction run precedence search with
  | case1 search hpending =>
      obtain ⟨hsound, -, hclosed⟩ := hexplores
      have hdone : ∀ other, other = start ∨ other ∈ search.found →
          ∀ dependency ∈ precedence.before other, dependency ∈ search.found := fun other hother =>
        (hclosed other hother).resolve_left (hpending ▸ List.not_mem_nil)
      refine ⟨hsound name, fun hpath => ?_⟩
      -- The induction is on the path, from its upper end: each dependency is put before it.
      induction hpath using Relation.TransGen.head_induction_on with
      | single hdependency => exact hdone start (Or.inl rfl) _ hdependency
      | head hdependency _ ih => exact hdone _ (Or.inr ih) _ hdependency
  | case2 search hpending ih => exact ih hexplores.next

end Search

/-- The ancestors of a name are its transitive dependencies. -/
theorem mem_ancestors_iff_transGen {name ancestor : String} :
    ancestor ∈ precedence.ancestors name ↔
      Relation.TransGen precedence.Precedes ancestor name := by
  rw [ancestors, List.mem_mergeSort]
  exact (Search.explores_start name).mem_run

/-- Direct dependencies are ancestors. -/
theorem before_subset_ancestors {name dependency : String}
    (hdependency : dependency ∈ precedence.before name) :
    dependency ∈ precedence.ancestors name :=
  mem_ancestors_iff_transGen.mpr (.single hdependency)

/-- The dependencies of an ancestor are ancestors. -/
theorem ancestors_closed {name ancestor dependency : String}
    (hancestor : ancestor ∈ precedence.ancestors name)
    (hdependency : dependency ∈ precedence.before ancestor) :
    dependency ∈ precedence.ancestors name :=
  mem_ancestors_iff_transGen.mpr (.head hdependency (mem_ancestors_iff_transGen.mp hancestor))

/-- With distinct names the dependencies of a node are its ancestors. -/
theorem mem_ancestors_of_dependency {name : String} {dependencies : List String}
    (hnames : precedence.names.Nodup) (hmem : (name, dependencies) ∈ precedence) :
    ∀ dependency ∈ dependencies, dependency ∈ precedence.ancestors name := by
  intro dependency hdependency
  apply before_subset_ancestors
  rw [before_eq_of_mem hnames hmem]
  exact hdependency

/-- With distinct names the dependencies of an ancestor are ancestors. -/
theorem mem_ancestors_of_ancestor {name descendant : String} {dependencies : List String}
    (hnames : precedence.names.Nodup) (hmem : (name, dependencies) ∈ precedence)
    (hancestor : name ∈ precedence.ancestors descendant) :
    ∀ dependency ∈ dependencies, dependency ∈ precedence.ancestors descendant := by
  intro dependency hdependency
  apply ancestors_closed hancestor
  rw [before_eq_of_mem hnames hmem]
  exact hdependency

/-! ## Accepted precedences -/

/-- Every dependency names a node, and there is no infinite descent along dependencies. -/
structure Sound (precedence : Precedence) : Prop where
  known : ∀ entry ∈ precedence, ∀ dependency ∈ entry.2, dependency ∈ precedence.names
  wellFounded : WellFounded precedence.Precedes

theorem known_of_dangling?_eq_none (hdangling : precedence.dangling? = none) :
    ∀ entry ∈ precedence, ∀ dependency ∈ entry.2, dependency ∈ precedence.names := by
  intro entry hentry dependency hdependency
  have hfound := List.findSome?_eq_none_iff.mp hdangling entry hentry
  have hknown := List.find?_eq_none.mp (Option.map_eq_none_iff.mp hfound) dependency hdependency
  simpa using hknown

theorem sound_of_checkPrecedence {level : GraphLevel}
    (hcheck : checkPrecedence level precedence = .ok ()) : precedence.Sound := by
  unfold checkPrecedence at hcheck
  cases hdangling : precedence.dangling? with
  | some entry => simp [hdangling] at hcheck
  | none =>
      cases hcycle : precedence.cycle? with
      | some cycle => simp [hdangling, hcycle] at hcheck
      | none =>
          exact ⟨known_of_dangling?_eq_none hdangling, wellFounded_of_cycle?_eq_none hcycle⟩

end Precedence

/-! ## Accepted graphs -/

namespace Graph

/-- Both levels of dependencies are sound. -/
structure Sound (graph : Graph) : Prop where
  stages : graph.precedence.Sound
  jobs : ∀ stage ∈ graph.stages, (JobNode.precedence stage.jobs).Sound

theorem names_precedence (graph : Graph) :
    graph.precedence.names = graph.stages.map (·.name) := by
  rw [precedence, Precedence.names, List.map_map]
  rfl

theorem mem_precedence {graph : Graph} {node : StageNode} (hnode : node ∈ graph.stages) :
    (node.name, node.dependencies) ∈ graph.precedence :=
  List.mem_map_of_mem (f := fun node : StageNode => (node.name, node.dependencies)) hnode

/-- No two stages share a name, and no two jobs of one stage. -/
structure DistinctNames (graph : Graph) : Prop where
  stages : (graph.stages.map (·.name)).Nodup
  jobs : ∀ stage ∈ graph.stages, (stage.jobs.map (·.name)).Nodup

end Graph

namespace JobNode

theorem names_precedence (nodes : List JobNode) :
    (precedence nodes).names = nodes.map (·.name) := by
  rw [precedence, Precedence.names, List.map_map]
  rfl

theorem mem_precedence {nodes : List JobNode} {node : JobNode} (hnode : node ∈ nodes) :
    (node.name, node.dependencies) ∈ precedence nodes :=
  List.mem_map_of_mem (f := fun node : JobNode => (node.name, node.dependencies)) hnode

end JobNode

/-- The nodes of the jobs of a stage are what was checked. -/
theorem Stage.jobNodes_cases {stage : Stage} {nodes : List JobNode}
    (hnodes : stage.jobNodes = .ok nodes) :
    nodes = BuildPipeline.jobNodes 0 stage.jobs ∧
      checkPrecedence .job (JobNode.precedence nodes) = .ok () := by
  unfold Stage.jobNodes at hnodes
  cases hcheck : checkPrecedence .job (JobNode.precedence (BuildPipeline.jobNodes 0 stage.jobs)) with
  | error error => simp [hcheck, bind, Except.bind] at hnodes
  | ok _ =>
      simp only [hcheck, bind, Except.bind, pure, Except.pure, Except.ok.injEq] at hnodes
      subst hnodes
      exact ⟨rfl, hcheck⟩

/-- The nodes of some stages are made one by one, each with the nodes of its jobs. -/
theorem stageNodes_cases {index : Nat} {previous : Option String} {stage : Stage}
    {stages : List Stage} {nodes : List StageNode}
    (hnodes : stageNodes index previous (stage :: stages) = .ok nodes) :
    ∃ jobs rest, stage.jobNodes = .ok jobs ∧
      stageNodes (index + 1) (some (nodeName .stage index stage.stage)) stages = .ok rest ∧
      nodes = ⟨nodeName .stage index stage.stage, stage, stage.dependencyNames previous, jobs⟩ ::
        rest := by
  simp only [stageNodes, bind, Except.bind, pure, Except.pure] at hnodes
  cases hjobs : stage.jobNodes with
  | error error => simp [hjobs] at hnodes
  | ok jobs =>
      cases hrest : stageNodes (index + 1) (some (nodeName .stage index stage.stage)) stages with
      | error error => simp [hjobs, hrest] at hnodes
      | ok rest =>
          simp only [hjobs, hrest, Except.ok.injEq] at hnodes
          exact ⟨jobs, rest, rfl, rfl, hnodes.symm⟩

/-- A graph consists of the nodes of the stages, which were checked, and of the variables. -/
theorem Graph.ofPipeline_cases {pipeline : Pipeline} {graph : Graph}
    (hgraph : Graph.ofPipeline pipeline = .ok graph) :
    stageNodes 0 none pipeline.stages = .ok graph.stages ∧ graph.vars = pipeline.vars ∧
      checkPrecedence .stage graph.precedence = .ok () := by
  simp only [Graph.ofPipeline, bind, Except.bind, pure, Except.pure] at hgraph
  cases hstages : stageNodes 0 none pipeline.stages with
  | error error => simp [hstages] at hgraph
  | ok stages =>
      simp only [hstages] at hgraph
      cases hcheck : checkPrecedence .stage (Graph.precedence ⟨stages, pipeline.vars⟩) with
      | error error => simp [hcheck] at hgraph
      | ok _ =>
          simp only [hcheck, Except.ok.injEq] at hgraph
          subst hgraph
          exact ⟨rfl, rfl, hcheck⟩

theorem sound_of_stageNodes {index : Nat} {previous : Option String} {stages : List Stage}
    {nodes : List StageNode} (hnodes : stageNodes index previous stages = .ok nodes) :
    ∀ node ∈ nodes, (JobNode.precedence node.jobs).Sound := by
  induction stages generalizing index previous nodes with
  | nil =>
      cases hnodes
      exact fun _ hnode => absurd hnode List.not_mem_nil
  | cons stage stages ih =>
      obtain ⟨jobs, rest, hjobs, hrest, rfl⟩ := stageNodes_cases hnodes
      refine List.forall_mem_cons.mpr ⟨?_, ih hrest⟩
      exact Precedence.sound_of_checkPrecedence (Stage.jobNodes_cases hjobs).2

/-- The graph of a pipeline is sound on both levels. -/
theorem Graph.sound_of_ofPipeline {pipeline : Pipeline} {graph : Graph}
    (hgraph : Graph.ofPipeline pipeline = .ok graph) : graph.Sound := by
  obtain ⟨hstages, -, hcheck⟩ := Graph.ofPipeline_cases hgraph
  exact ⟨Precedence.sound_of_checkPrecedence hcheck, sound_of_stageNodes hstages⟩

end BuildPipeline
