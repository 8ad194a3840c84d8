import BuildPipeline.Json
import BuildPipeline.Run.Result

/-!
# Reports

The status tree of a finished run as indented text, one node after the other, and as JSON; and the
number of steps with each status.
-/

namespace BuildPipeline

/-! ## Text -/

/-- The whole seconds and the rest of a span of milliseconds, added up as binary numbers. -/
def secondsOf (milliseconds : Nat) : Binary64 :=
  (Binary64.ofNat (milliseconds / 1000)).sub (Binary64.ofRatio true (milliseconds % 1000) 1000)

/-- A number that is not negative with two decimals; a half goes to the even neighbour. -/
def twoDecimals : Binary64 → String
  | .finite _ significand exponent _ =>
    let (num, den) := Binary64.scaled significand 1 (-exponent)
    let hundredths := Binary64.roundHalfEven (num * 100) den
    let digits := toString (hundredths % 100)
    toString (hundredths / 100) ++ "." ++ (if digits.length < 2 then "0" ++ digits else digits)
  | .infinite _ => "inf"
  | .nan => "NaN"

/-- A span of milliseconds in seconds with two decimals. -/
def secondsText (milliseconds : Nat) : String :=
  twoDecimals (secondsOf milliseconds)

/-- The line of a node below the pipeline, with the first line of its error. -/
def reportLine (depth : Nat) (status : Status) (label : String) (error : Option String) : String :=
  let indentation := String.ofList (List.replicate (2 * depth) ' ')
  let cause := match error.bind fun error => (Text.lines error).head? with
    | some line => " - " ++ line
    | none => ""
  indentation ++ status.marker ++ " " ++ label ++ ": " ++ status.name ++ cause ++ "\n"

/-- Only a step that failed, perhaps with the failure masked, shows its error. -/
def StepResult.report (step : StepResult) : String :=
  let error := match step.status with
    | .failed | .succeededWithIssues => step.error
    | _ => none
  reportLine 3 step.status step.label error

def JobResult.report (job : JobResult) : String :=
  reportLine 2 job.status (job.displayName.getD job.name) job.error ++
    String.join (job.steps.map StepResult.report)

def StageResult.report (stage : StageResult) : String :=
  reportLine 1 stage.status (stage.displayName.getD stage.name) stage.error ++
    String.join (stage.jobs.map JobResult.report)

def PipelineResult.report (result : PipelineResult) : String :=
  result.status.marker ++ " " ++ result.name ++ ": " ++ result.status.name ++ " (" ++
    secondsText result.duration ++ "s)\n" ++ String.join (result.stages.map StageResult.report)

/-! ## JSON -/

def jsonTexts (name : String) (table : Table String) : List (String × Json) :=
  if table.isEmpty then []
  else [(name, .object (table.map fun (key, value) => (key, .string value)))]

def jsonError (error : Option String) : List (String × Json) :=
  error.toList.map fun error => ("error", .string error)

def StepResult.toJson (step : StepResult) : Json :=
  .object ([("stepName", .ofOption step.name), ("displayName", .string step.label),
    ("status", .string step.status.name)] ++
    (if step.output = "" then [] else [("output", .string step.output)]) ++
    jsonError step.error ++ [("durationMs", .ofInt step.duration)] ++
    (step.exitCode.toList.map fun code => ("exitCode", .ofInt code)) ++
    jsonTexts "outputs" step.outputs)

def JobResult.toJson (job : JobResult) : Json :=
  .object ([("jobName", .string job.name), ("displayName", .ofOption job.displayName),
    ("status", .string job.status.name)] ++ jsonError job.error ++
    [("steps", .array (job.steps.map StepResult.toJson)), ("durationMs", .ofInt job.duration)] ++
    jsonTexts "outputs" job.outputs)

def StageResult.toJson (stage : StageResult) : Json :=
  .object ([("stageName", .string stage.name), ("displayName", .ofOption stage.displayName),
    ("status", .string stage.status.name)] ++ jsonError stage.error ++
    [("jobs", .array (stage.jobs.map JobResult.toJson)), ("durationMs", .ofInt stage.duration)])

def PipelineResult.toJson (result : PipelineResult) : Json :=
  .object [("pipelineName", .string result.name), ("status", .string result.status.name),
    ("stages", .array (result.stages.map StageResult.toJson)),
    ("durationMs", .ofInt result.duration)]

/-! ## Counts -/

/-- The number of steps with each final status. -/
structure StepCounts where
  succeeded : Nat
  withIssues : Nat
  failed : Nat
  skipped : Nat
  canceled : Nat
  deriving DecidableEq, Repr

def PipelineResult.steps (result : PipelineResult) : List StepResult :=
  result.stages.flatMap fun stage => stage.jobs.flatMap (·.steps)

def PipelineResult.counts (result : PipelineResult) : StepCounts :=
  let count (status : Status) : Nat := result.steps.countP (·.status == status)
  { succeeded := count .succeeded, withIssues := count .succeededWithIssues,
    failed := count .failed, skipped := count .skipped, canceled := count .canceled }

end BuildPipeline
