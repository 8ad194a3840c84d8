import BuildPipeline.Plan
import BuildPipeline.Proofs.Graph.Acyclicity

/-!
# Names in the graph of a valid pipeline

A graph falls back on numbers where a node has no name, and it does not look for a name that stands
twice.  Neither occurs in a pipeline that passes validation, so the graph of a plan has distinct
names.

* `nameDefects_eq_nil` says what a name without defects is.
* `names_of_jobErrors` and `names_of_stageErrors` follow the two walks through the siblings; what is
  known of the names seen so far is the part that the induction needs.
* `Plan.distinctNames_of_build` is the result.  The runs of plans are therefore covered by every
  theorem about graphs with distinct names.
-/

namespace BuildPipeline

/-- A name without defects is there, is a word and was not seen before. -/
theorem nameDefects_eq_nil {kind : NodeKind} {seen : List String} {name : Option String} :
    nameDefects kind seen name = [] ↔
      ∃ word, name = some word ∧ isWord word = true ∧ word ∉ seen := by
  cases name with
  | none => simp [nameDefects]
  | some word => simp [nameDefects]

theorem atPath_eq_nil {path : String} {defects : List Defect} :
    atPath path defects = [] ↔ defects = [] := by
  rw [atPath, List.map_eq_nil_iff]

/-! ## Jobs -/

/-- Jobs without errors are named, and differently from one another and from what was seen. -/
theorem names_of_jobErrors {path : String} {index : Nat} {seen : List String} {jobs : List Job}
    (hvalid : jobErrors path index seen jobs = []) (start : Nat) :
    ((jobNodes start jobs).map (·.name)).Nodup ∧
      ∀ name ∈ (jobNodes start jobs).map (·.name), name ∉ seen := by
  induction jobs generalizing index seen start with
  | nil => exact ⟨List.nodup_nil, fun _ hname => absurd hname List.not_mem_nil⟩
  | cons job jobs ih =>
      obtain ⟨hhead, hrest⟩ := List.append_eq_nil_iff.mp hvalid
      have hdefects := atPath_eq_nil.mp (List.append_eq_nil_iff.mp hhead).1
      have hname := (List.append_eq_nil_iff.mp (List.append_eq_nil_iff.mp hdefects).1).1
      obtain ⟨word, hword, -, hnew⟩ := nameDefects_eq_nil.mp hname
      rw [hword] at hrest
      obtain ⟨hdistinct, hfresh⟩ := ih hrest (start + 1)
      simp only [jobNodes, hword, nodeName, Option.getD_some, List.map_cons]
      constructor
      · refine List.nodup_cons.mpr ⟨fun hmem => ?_, hdistinct⟩
        exact hfresh word hmem List.mem_cons_self
      · refine List.forall_mem_cons.mpr ⟨hnew, fun name hname hseen => ?_⟩
        exact hfresh name hname (List.mem_cons_of_mem word hseen)

/-! ## Stages -/

/-- The same for stages, with the jobs of each of them. -/
theorem names_of_stageErrors {index start : Nat} {seen : List String} {previous : Option String}
    {stages : List Stage} {nodes : List StageNode} (hvalid : stageErrors index seen stages = [])
    (hnodes : stageNodes start previous stages = .ok nodes) :
    (nodes.map (·.name)).Nodup ∧ (∀ name ∈ nodes.map (·.name), name ∉ seen) ∧
      ∀ node ∈ nodes, (node.jobs.map (·.name)).Nodup := by
  induction stages generalizing index start seen previous nodes with
  | nil =>
      cases hnodes
      refine ⟨List.nodup_nil, ?_, ?_⟩
      · exact fun _ hname => absurd hname List.not_mem_nil
      · exact fun _ hnode => absurd hnode List.not_mem_nil
  | cons stage stages ih =>
      obtain ⟨jobs, rest, hjobs, hstages, rfl⟩ := stageNodes_cases hnodes
      obtain ⟨hhead, hrest⟩ := List.append_eq_nil_iff.mp hvalid
      obtain ⟨hdefects, hjobErrors⟩ := List.append_eq_nil_iff.mp hhead
      have hname := (List.append_eq_nil_iff.mp
        (List.append_eq_nil_iff.mp (atPath_eq_nil.mp hdefects)).1).1
      obtain ⟨word, hword, -, hnew⟩ := nameDefects_eq_nil.mp hname
      rw [hword] at hrest
      obtain ⟨hdistinct, hfresh, hjobNames⟩ := ih hrest hstages
      simp only [hword, nodeName, Option.getD_some, List.map_cons]
      refine ⟨?_, ?_, ?_⟩
      · refine List.nodup_cons.mpr ⟨fun hmem => ?_, hdistinct⟩
        exact hfresh word hmem List.mem_cons_self
      · refine List.forall_mem_cons.mpr ⟨hnew, fun name hname hseen => ?_⟩
        exact hfresh name hname (List.mem_cons_of_mem word hseen)
      · refine List.forall_mem_cons.mpr ⟨?_, hjobNames⟩
        obtain ⟨rfl, -⟩ := Stage.jobNodes_cases hjobs
        exact (names_of_jobErrors hjobErrors 0).1

/-! ## Plans -/

/-- The graph of a valid pipeline has distinct names. -/
theorem Graph.distinctNames_of_validate {pipeline : Pipeline} {graph : Graph}
    (hvalid : pipeline.validate = []) (hgraph : Graph.ofPipeline pipeline = .ok graph) :
    graph.DistinctNames := by
  obtain ⟨-, hstageErrors⟩ := List.append_eq_nil_iff.mp hvalid
  obtain ⟨hstages, -, -⟩ := Graph.ofPipeline_cases hgraph
  obtain ⟨hdistinct, -, hjobs⟩ := names_of_stageErrors hstageErrors hstages
  exact ⟨hdistinct, hjobs⟩

/-- A plan has the graph of its pipeline, and names stand once in it. -/
theorem Plan.distinctNames_of_build {pipeline : Pipeline} {parameters : Template.Arguments}
    {plan : Plan} (hplan : Plan.build pipeline parameters = .ok plan) :
    Graph.ofPipeline pipeline = .ok plan.graph ∧ plan.graph.DistinctNames := by
  unfold Plan.build at hplan
  cases hvalid : pipeline.validate with
  | cons error errors => simp [hvalid] at hplan
  | nil =>
      cases hgraph : Graph.ofPipeline pipeline with
      | error error => simp [hvalid, hgraph] at hplan
      | ok graph =>
          simp only [hvalid, hgraph, Except.ok.injEq] at hplan
          subst hplan
          exact ⟨rfl, Graph.distinctNames_of_validate hvalid hgraph⟩

end BuildPipeline
