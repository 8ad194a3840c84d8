import BuildPipeline.Pipeline.Basic
import BuildPipeline.Yaml.Identity

/-!
# Pipelines as YAML values

Each part of a pipeline becomes a mapping in the order of its fields.  A field that has its default
is left out, except the type of a parameter.  Two pipelines are written alike if their values are
equal, which is decidable.
-/

namespace BuildPipeline

/-! ## Fields -/

def yamlField (name : String) (value : Yaml.Value) : Yaml.Entries :=
  [(.string name, value)]

/-- A field, or nothing. -/
def yamlOptional {α : Type} (name : String) (encode : α → Yaml.Value) (value : Option α) :
    Yaml.Entries :=
  match value with
  | some value => yamlField name (encode value)
  | none => []

/-- A list field, unless it is empty. -/
def yamlItems (name : String) (items : List Yaml.Value) : Yaml.Entries :=
  if items.isEmpty then [] else yamlField name (.sequence items)

/-- A table field, unless it is empty. -/
def yamlTable (name : String) (entries : Table Yaml.Value) : Yaml.Entries :=
  if entries.isEmpty then []
  else yamlField name (.mapping (entries.map fun entry => (.string entry.1, entry.2)))

def yamlTexts (name : String) (entries : Table String) : Yaml.Entries :=
  yamlTable name (entries.mapValues .string)

def yamlText (name : String) (value : Option String) : Yaml.Entries :=
  yamlOptional name .string value

def yamlWord (name : String) (value : Option UInt32) : Yaml.Entries :=
  yamlOptional name (fun word => .int word.toNat) value

/-! ## Parts -/

def Flag.toYaml : Flag → Yaml.Value
  | .fixed value => .bool value
  | .expression text => .string text

def yamlFlag (name : String) (flag : Flag) : Yaml.Entries :=
  if flag = .fixed false then [] else yamlField name flag.toYaml

def Variable.toYaml : Variable → Yaml.Value
  | .definition name value readonly =>
    .mapping (yamlField "name" (.string name) ++ yamlField "value" (.string value) ++
      (if readonly then yamlField "readonly" (.bool true) else []))
  | .template path parameters =>
    .mapping (yamlField "template" (.string path) ++ yamlTable "parameters" parameters)

def Parameter.toYaml (parameter : Parameter) : Yaml.Value :=
  .mapping (yamlField "name" (.string parameter.name) ++
    yamlText "displayName" parameter.displayName ++
    yamlField "type" (.string parameter.type.name) ++
    yamlOptional "default" id parameter.default ++
    yamlOptional "values" .sequence parameter.values)

def Action.toEntries : Action → Yaml.Entries
  | .shell kind body workingDirectory =>
    yamlField kind.field (.string body) ++ yamlText "workingDirectory" workingDirectory
  | .task name inputs => yamlField "task" (.string name) ++ yamlTexts "inputs" inputs
  | .template path parameters =>
    yamlField "template" (.string path) ++ yamlTable "parameters" parameters
  | .publish path artifact => yamlField "publish" (.string path) ++ yamlText "artifact" artifact
  | .download source artifact path =>
    yamlField "download" (.string source) ++ yamlText "artifact" artifact ++ yamlText "path" path

def Step.toYaml (step : Step) : Yaml.Value :=
  .mapping (yamlText "name" step.name ++
    yamlText "displayName" step.displayName ++
    yamlText "condition" step.condition ++
    yamlFlag "continueOnError" step.continueOnError ++
    (if step.enabled then [] else yamlField "enabled" (.bool false)) ++
    yamlWord "timeoutInMinutes" step.timeoutInMinutes ++
    yamlWord "retryCountOnTaskFailure" step.retries ++
    yamlTexts "env" step.env ++
    step.action.toEntries)

def DependsOn.toEntries : DependsOn → Yaml.Entries
  | .implicit => []
  | .single name => yamlField "dependsOn" (.string name)
  | .multiple names => yamlField "dependsOn" (.sequence (names.map .string))

def Job.toYaml (job : Job) : Yaml.Value :=
  .mapping (yamlText "job" job.job ++
    yamlText "displayName" job.displayName ++
    job.dependsOn.toEntries ++
    yamlText "condition" job.condition ++
    yamlFlag "continueOnError" job.continueOnError ++
    yamlOptional "pool" id job.pool ++
    yamlItems "variables" (job.vars.map Variable.toYaml) ++
    yamlItems "steps" (job.steps.map Step.toYaml) ++
    yamlText "template" job.template ++
    yamlTable "parameters" job.parameters)

def Stage.toYaml (stage : Stage) : Yaml.Value :=
  .mapping (yamlText "stage" stage.stage ++
    yamlText "displayName" stage.displayName ++
    stage.dependsOn.toEntries ++
    yamlText "condition" stage.condition ++
    yamlItems "variables" (stage.vars.map Variable.toYaml) ++
    yamlItems "jobs" (stage.jobs.map Job.toYaml) ++
    yamlOptional "pool" id stage.pool ++
    yamlText "template" stage.template ++
    yamlTable "parameters" stage.parameters)

def Pipeline.toYaml (pipeline : Pipeline) : Yaml.Value :=
  .mapping (yamlText "name" pipeline.name ++
    yamlItems "parameters" (pipeline.parameters.map Parameter.toYaml) ++
    yamlItems "variables" (pipeline.vars.map Variable.toYaml) ++
    yamlItems "stages" (pipeline.stages.map Stage.toYaml) ++
    yamlItems "jobs" (pipeline.jobs.map Job.toYaml) ++
    yamlItems "steps" (pipeline.steps.map Step.toYaml))

end BuildPipeline
