import BuildPipeline.Graph.Precedence
import BuildPipeline.Pipeline.Basic

/-!
# Execution graphs

The stages of a pipeline in normal form with the stages they depend on, and in each stage the jobs
with the jobs they depend on.  A stage that names no dependencies depends on the stage before it, a
job on nothing.  Dependencies must name nodes of the same level and may not form a cycle.
-/

namespace BuildPipeline

structure JobNode where
  name : String
  job : Job
  /-- Jobs of the same stage. -/
  dependencies : List String
  deriving Inhabited

structure StageNode where
  name : String
  stage : Stage
  dependencies : List String
  jobs : List JobNode
  deriving Inhabited

structure Graph where
  stages : List StageNode
  /-- The variables of the whole pipeline. -/
  vars : List Variable
  deriving Inhabited

/-- The two levels that have dependencies. -/
inductive GraphLevel where
  | stage
  | job
  deriving DecidableEq, Repr

def GraphLevel.name : GraphLevel → String
  | stage => "stage"
  | job => "job"

inductive GraphError where
  | dangling (level : GraphLevel) (node dependency : String)
  /-- The path along the cycle, its first node repeated at the end. -/
  | cycle (level : GraphLevel) (path : List String)
  deriving DecidableEq, Repr

def GraphError.message : GraphError → String
  | dangling level node dependency =>
    level.name ++ " '" ++ node ++ "' depends on unknown " ++ level.name ++ " '" ++ dependency ++ "'"
  | cycle level path =>
    "circular dependency detected in " ++ level.name ++ "s: " ++ " -> ".intercalate path

/-- Refuse dependencies on nothing, and then cycles. -/
def checkPrecedence (level : GraphLevel) (precedence : Precedence) : Except GraphError Unit :=
  match precedence.dangling? with
  | some (node, dependency) => .error (.dangling level node dependency)
  | none =>
    match precedence.cycle? with
    | some path => .error (.cycle level path)
    | none => .ok ()

/-! ## Nodes -/

/-- The name of a node, or one after its number. -/
def nodeName (level : GraphLevel) (index : Nat) (name : Option String) : String :=
  name.getD (level.name ++ toString (index + 1))

/-- The nodes of jobs that begin with number `index`. -/
def jobNodes (index : Nat) : List Job → List JobNode
  | [] => []
  | job :: jobs =>
    ⟨nodeName .job index job.job, job, job.dependsOn.names⟩ :: jobNodes (index + 1) jobs

def JobNode.precedence (jobs : List JobNode) : Precedence :=
  jobs.map fun node => (node.name, node.dependencies)

/-- The nodes of the jobs of a stage. -/
def Stage.jobNodes (stage : Stage) : Except GraphError (List JobNode) := do
  let nodes := BuildPipeline.jobNodes 0 stage.jobs
  checkPrecedence .job (JobNode.precedence nodes)
  return nodes

/-- What a stage depends on, after the stage with the name `previous`. -/
def Stage.dependencyNames (stage : Stage) (previous : Option String) : List String :=
  if stage.dependsOn.isImplicit then previous.toList else stage.dependsOn.names

/-- The nodes of stages that begin with number `index`. -/
def stageNodes (index : Nat) (previous : Option String) :
    List Stage → Except GraphError (List StageNode)
  | [] => .ok []
  | stage :: stages => do
    let name := nodeName .stage index stage.stage
    let jobs ← stage.jobNodes
    let rest ← stageNodes (index + 1) (some name) stages
    return ⟨name, stage, stage.dependencyNames previous, jobs⟩ :: rest

namespace Graph

def precedence (graph : Graph) : Precedence :=
  graph.stages.map fun node => (node.name, node.dependencies)

/-- The graph of a pipeline in normal form. -/
def ofPipeline (pipeline : Pipeline) : Except GraphError Graph := do
  let stages ← stageNodes 0 none pipeline.stages
  let graph : Graph := ⟨stages, pipeline.vars⟩
  checkPrecedence .stage graph.precedence
  return graph

def jobCount (graph : Graph) : Nat :=
  total (graph.stages.map (·.jobs.length))

def stepCount (graph : Graph) : Nat :=
  total (graph.stages.map fun node => total (node.jobs.map (·.job.steps.length)))

/-- The stages that a stage depends on, directly or through others, sorted. -/
def ancestors (graph : Graph) (name : String) : List String :=
  graph.precedence.ancestors name

end Graph

end BuildPipeline
