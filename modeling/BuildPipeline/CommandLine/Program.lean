import BuildPipeline.CommandLine.Arguments
import BuildPipeline.CommandLine.Terminal
import BuildPipeline.Graph.Order
import BuildPipeline.Pipeline.Writing
import BuildPipeline.Plan
import BuildPipeline.Run.Execution
import BuildPipeline.Run.Script
import BuildPipeline.Yaml.Json

/-!
# The program

What the program answers to its arguments, from its environment and the files around it: an exit
code, the two streams it writes, and the files as it leaves them.  Progress and complaints go to the
error stream and results to the output.  What processes do and how YAML is read and written is given
to it.
-/

namespace BuildPipeline.CommandLine

/-- The exit codes. -/
inductive ExitCode where
  | success
  | failed
  /-- A canceled run. -/
  | canceled
  /-- Arguments that make no request. -/
  | misuse
  /-- A template, a pipeline or a graph is not valid, and nothing ran. -/
  | refused
  /-- Assignments or files that cannot be used. -/
  | fault
  deriving DecidableEq, Repr

def ExitCode.toNat : ExitCode → Nat
  | success => 0
  | failed => 1
  | canceled | misuse => 2
  | refused => 3
  | fault => 4

def ExitCode.ofStatus : Status → ExitCode
  | .succeeded | .succeededWithIssues | .skipped => success
  | .canceled => canceled
  | .failed | .pending | .running => failed

structure Reply where
  exitCode : ExitCode
  output : String := ""
  /-- The error stream up to the fault, if there is one. -/
  errors : String := ""
  fault : Option String := none
  files : Files

/-- The environment of the program, the files around it and the processes it can start. -/
structure Surroundings where
  environment : Table String := []
  files : Files
  processes : Processes

/-! ## Assignments -/

/-- The names and values of assignments; a later one counts. -/
def readAssignments (kind : String) (texts : List String) : Except String (Table String) :=
  texts.foldlM
    (fun table text =>
      match Text.splitOnce? ['='] text.toList with
      | some (name, value) =>
        let name := Text.trim (String.ofList name)
        if name = "" then .error (refusal text)
        else .ok (table.insert name (String.ofList value))
      | none => .error (refusal text))
    []
where
  refusal (text : String) : String :=
    "Invalid " ++ kind ++ " format '" ++ text ++ "'. Expected name=value"

/-! ## Loading -/

/-- Why a command ends early. -/
inductive Trouble where
  | refused (error : PlanError)
  | fault (message : String)

/-- The complaint about a pipeline that makes no plan. -/
def refusalText : PlanError → String
  | .invalid errors =>
    errorLine (toString errors.length ++ " validation error(s):") ++
      String.join (errors.map fun error =>
        errorLine ("  - [" ++ error.path ++ "] " ++ error.defect.message))
  | error => errorLine error.message

def Trouble.reply (files : Files) (errors : String) : Trouble → Reply
  | refused error => { exitCode := .refused, errors := errors ++ refusalText error, files }
  | fault message => { exitCode := .fault, errors, fault := some message, files }

def Subject.load [Yaml.Codec] (subject : Subject) (files : Files) : Except Trouble Plan := do
  if !files.isPresent subject.file then
    throw (.fault ("Pipeline file not found: " ++ subject.file))
  let assignments ← (readAssignments "parameter" subject.parameters).mapError Trouble.fault
  let repository := subject.repository.getD (files.defaultRepository subject.file)
  (Plan.ofFile files repository subject.file (assignments.mapValues Template.readOverride)).mapError
    Trouble.refused

/-- The name of the pipeline, or of its file without the extension. -/
def Subject.name (subject : Subject) (plan : Plan) : String :=
  plan.pipeline.nameOr ((Path.stem? subject.file).getD "pipeline")

/-! ## Commands -/

/-- The size of a plan in words. -/
def sizeText (graph : Graph) : String :=
  toString graph.stages.length ++ " stages, " ++ toString graph.jobCount ++ " jobs, " ++
    toString graph.stepCount ++ " steps"

def expand [Yaml.Codec] (subject : Subject) (files : Files) : Reply :=
  match subject.load files with
  | .error trouble => trouble.reply files ""
  | .ok plan => { exitCode := .success, output := Yaml.Codec.write plan.pipeline.toYaml, files }

/-- A parameter with its value as JSON, which is left empty for a value that has none. -/
def parameterLine (entry : String × Yaml.Value) : String :=
  dimLine ("    parameter " ++ entry.1 ++ " = " ++
    ((entry.2.toJson?).map Json.compact).getD "")

def validate [Yaml.Codec] (subject : Subject) (files : Files) : Reply :=
  let heading := actionLine "Validating" subject.file
  match subject.load files with
  | .error trouble => trouble.reply files heading
  | .ok plan =>
    { exitCode := .success
      output := subject.name plan ++ " is valid\n"
      errors := heading ++ checkLine "Templates expanded" ++
        checkLine ("Structure: " ++ sizeText plan.graph) ++
        checkLine ("Stage order: " ++ " -> ".intercalate plan.graph.order) ++
        String.join (plan.parameters.map parameterLine)
      files }

/-! ### Runs -/

/-- Milliseconds of a number of minutes; the seconds have at most 64 bits. -/
def limitOf (minutes : Nat) : Nat :=
  min (minutes * 60) (Nat.pow 2 64 - 1) * 1000

def RunOptions.directory (options : RunOptions) (files : Files) : String :=
  options.workingDirectory.getD (Location.path files.workingDirectory)

def countsLine (counts : StepCounts) : String :=
  toString counts.succeeded ++ " succeeded, " ++ toString counts.withIssues ++ " with issues, " ++
    toString counts.failed ++ " failed, " ++ toString counts.skipped ++ " skipped, " ++
    toString counts.canceled ++ " canceled\n"

/-- The final state of a run, and the files it leaves. -/
def perform (setup : Setup) (options : RunOptions) (surroundings : Surroundings) :
    RunState × Files :=
  let files := surroundings.files
  if options.isDry then
    let clock := setup.run (Rehearsal.world false) { script := {}, store := .names [], files } none
    (clock.state, files)
  else
    let store := options.artifactDirectory.getD (Path.join setup.workingDirectory ".artifacts")
    let world := Workshop.world surroundings.processes
    let clock := setup.run world { store := .directory store, files } none
    (clock.state, clock.world.files)

def runPlan (subject : Subject) (options : RunOptions) (vars : Table String) (plan : Plan)
    (surroundings : Surroundings) : Reply :=
  let setup : Setup :=
    { name := subject.name plan
      graph := plan.graph
      workingDirectory := options.directory surroundings.files
      vars
      parameters := plan.parameters.mapValues Expression.Value.ofYaml
      processEnvironment := surroundings.environment
      agents := options.agents
      timeout := options.stepTimeout.map limitOf }
  let (state, files) := perform setup options surroundings
  let result := state.result setup
  let notice := if options.isDry then infoLine "Dry run: steps are not executed" else ""
  let exitCode := ExitCode.ofStatus result.status
  match options.format with
  | .json => { exitCode, output := result.toJson.pretty ++ "\n", errors := notice, files }
  | .text =>
    { exitCode
      output := result.report ++ countsLine result.counts
      errors := notice ++
        infoLine (quotedName "Pipeline" setup.name ++ ": " ++ sizeText plan.graph) ++
        String.join ((state.fullLog setup).map eventText)
      files }

def run [Yaml.Codec] (subject : Subject) (options : RunOptions) (surroundings : Surroundings) :
    Reply :=
  let files := surroundings.files
  match readAssignments "variable" options.vars with
  | .error message => (Trouble.fault message).reply files ""
  | .ok vars =>
    match subject.load files with
    | .error trouble => trouble.reply files ""
    | .ok plan => runPlan subject options vars plan surroundings

/-! ## The whole program -/

def version : String := "0.1.0"

def helpText : String :=
  "Run templated YAML pipelines\n\n" ++
    "Usage: pipeline [-v] <run|validate|expand> [OPTIONS] <PIPELINE>\n"

/-- Answer to arguments. -/
def answer [Yaml.Codec] (arguments : List String) (surroundings : Surroundings) : Reply :=
  let files := surroundings.files
  match parse surroundings.environment arguments with
  | none => { exitCode := .misuse, files }
  | some (.version program) =>
    { exitCode := .success, output := program ++ " " ++ version ++ "\n", files }
  | some .help => { exitCode := .success, output := helpText, files }
  | some (.validate subject) => validate subject files
  | some (.expand subject) => expand subject files
  | some (.run subject options) => run subject options surroundings

end BuildPipeline.CommandLine
