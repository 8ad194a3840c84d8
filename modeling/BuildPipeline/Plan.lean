import BuildPipeline.Graph.Basic
import BuildPipeline.Pipeline.Validation
import BuildPipeline.Template.Expansion

/-!
# Run plans

A pipeline that is ready to run: expanded, in normal form, valid and with its graph.  Each stage of
the way can refuse a document, and the first refusal counts.
-/

namespace BuildPipeline

inductive PlanError where
  | template (error : Template.Error)
  | invalid (errors : List ValidationError)
  | graph (error : GraphError)
  deriving Inhabited

def PlanError.message : PlanError → String
  | template error => error.message
  | invalid errors =>
    "pipeline is invalid:\n" ++ "\n".intercalate (errors.map fun error => "  - " ++ error.text)
  | graph error => error.message

structure Plan where
  pipeline : Pipeline
  /-- The values of the parameters of the pipeline. -/
  parameters : Template.Arguments
  graph : Graph
  deriving Inhabited

namespace Plan

/-- The plan for a pipeline in normal form. -/
def build (pipeline : Pipeline) (parameters : Template.Arguments) : Except PlanError Plan :=
  match pipeline.validate with
  | [] =>
    match Graph.ofPipeline pipeline with
    | .ok graph => .ok ⟨pipeline, parameters, graph⟩
    | .error error => .error (.graph error)
  | errors => .error (.invalid errors)

def ofExpanded : Except Template.Error Template.Expanded → Except PlanError Plan
  | .ok expanded => build expanded.pipeline.normalize expanded.parameters
  | .error error => .error (.template error)

variable [Yaml.Codec]

/-- The plan of a document that counts as `pipeline.yml` in the root of the repository. -/
def ofText (files : Files) (repository source : String) (supplied : Template.Arguments) :
    Except PlanError Plan :=
  ofExpanded
    (Template.expand files repository source (Path.join repository "pipeline.yml") supplied)

/-- The plan of the document in a file. -/
def ofFile (files : Files) (repository path : String) (supplied : Template.Arguments) :
    Except PlanError Plan :=
  ofExpanded (Template.expandFile files repository path supplied)

end Plan

end BuildPipeline
