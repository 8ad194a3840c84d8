import BuildPipeline.Pipeline.Basic
import BuildPipeline.Yaml.Reader

/-!
# Reading pipelines

The records of a pipeline are read field by field, unknown fields being skipped.  Dependencies,
flags, variable definitions and the actions of steps have several forms; such a part is first read
as a whole and then matched against its forms, the first one that fits being taken.  In a form a
text is a text and nothing else.
-/

namespace BuildPipeline

open Yaml (Value Entries Reader)
open Yaml.Reader (Entry once required)

/-! ## Matching forms -/

namespace Form

/-- The name of the field that a key stands for; a number counts the known fields.  Nothing for a
key that cannot name a field. -/
def keyName? (known : List String) : Value → Option String
  | .string text => some text
  | .int i => if 0 ≤ i then some (known[i.toNat]?.getD "") else none
  | _ => none

/-- The entries of a mapping by name, unless a known one occurs twice. -/
def fields? (known : List String) : Entries → Option (List (String × Value))
  | [] => some []
  | (key, value) :: entries => do
    let name ← keyName? known key
    let rest ← fields? known entries
    if known.contains name && (rest.lookup name).isSome then none
    else some ((name, value) :: rest)

def text? : Value → Option String
  | .string text => some text
  | _ => none

def optionalText? : Option Value → Option (Option String)
  | none | some .null => some none
  | some value => (text? value).map some

def texts? : List Value → Option (List String)
  | [] => some []
  | value :: values => do return (← text? value) :: (← texts? values)

/-- A mapping from texts, of values of some kind. -/
def table? {α : Type} (read : Value → Option α) : Option Value → Option (Table α)
  | none => some []
  | some (.mapping entries) => do
    let pairs ← entries.mapM fun (key, value) => do return (← text? key, ← read value)
    return Table.ofList pairs
  | _ => none

/-- A value of its own, in which no key may occur twice. -/
def value? (value : Value) : Option Value :=
  if value.hasDistinctKeys then some value else none

end Form

/-! ## Actions -/

namespace Action

def shellForm? (entries : Entries) (shell : Shell) : Option Action := do
  let fields ← Form.fields? [shell.field, "workingDirectory"] entries
  let body ← (fields.lookup shell.field).bind Form.text?
  let workingDirectory ← Form.optionalText? (fields.lookup "workingDirectory")
  return .shell shell body workingDirectory

def taskForm? (entries : Entries) : Option Action := do
  let fields ← Form.fields? ["task", "inputs"] entries
  let name ← (fields.lookup "task").bind Form.text?
  let inputs ← Form.table? Form.text? (fields.lookup "inputs")
  return .task name inputs

def templateForm? (entries : Entries) : Option Action := do
  let fields ← Form.fields? ["template", "parameters"] entries
  let path ← (fields.lookup "template").bind Form.text?
  let parameters ← Form.table? Form.value? (fields.lookup "parameters")
  return .template path parameters

def publishForm? (entries : Entries) : Option Action := do
  let fields ← Form.fields? ["publish", "artifact"] entries
  let path ← (fields.lookup "publish").bind Form.text?
  let artifact ← Form.optionalText? (fields.lookup "artifact")
  return .publish path artifact

def downloadForm? (entries : Entries) : Option Action := do
  let fields ← Form.fields? ["download", "artifact", "path"] entries
  let source ← (fields.lookup "download").bind Form.text?
  let artifact ← Form.optionalText? (fields.lookup "artifact")
  let path ← Form.optionalText? (fields.lookup "path")
  return .download source artifact path

/-- The action that the fields of a step describe. -/
def ofFields? (entries : Entries) : Option Action :=
  ([Shell.script, .bash, .pwsh].findSome? (shellForm? entries)).or <|
    (taskForm? entries).or <| (templateForm? entries).or <|
    (publishForm? entries).or (downloadForm? entries)

end Action

/-! ## Small parts -/

def Flag.reader : Reader Flag :=
  Reader.form "BoolOrExpression" fun value =>
    match value with
    | .bool value => some (.fixed value)
    | .string text => some (.expression text)
    | _ => none

def DependsOn.reader : Reader DependsOn :=
  Reader.form "DependsOn" fun value =>
    match value with
    | .null => some .implicit
    | .string name => some (.single name)
    | .sequence items => (Form.texts? items).map .multiple
    | _ => none

namespace Variable

def definitionForm? (entries : Entries) : Option Variable := do
  let fields ← Form.fields? ["name", "value", "readonly"] entries
  let name ← (fields.lookup "name").bind Form.text?
  let value ← (fields.lookup "value").bind Value.scalarText?
  let readonly ← match fields.lookup "readonly" with
    | none => some false
    | some (.bool value) => some value
    | some _ => none
  return .definition name value readonly

def templateForm? (entries : Entries) : Option Variable := do
  let fields ← Form.fields? ["template", "parameters"] entries
  let path ← (fields.lookup "template").bind Form.text?
  let parameters ← Form.table? Form.value? (fields.lookup "parameters")
  return .template path parameters

def reader : Reader Variable :=
  Reader.form "Variable" fun value =>
    match value with
    | .mapping entries => (definitionForm? entries).or (templateForm? entries)
    | _ => none

/-- A mapping from names to scalars. -/
def shortReader : Reader (List Variable) :=
  Reader.mapping "a map" Reader.text ([] : List Variable)
    (fun vars name entry => do
      match (← entry.read .value).scalarText? with
      | some value => return vars ++ [.definition name value false]
      | none => Yaml.refuse (.refused ("variable '" ++ name ++ "' must be a scalar")))
    pure

/-- A list of definitions, or the short form. -/
def listReader : Reader (List Variable) :=
  Reader.nullOr "a map of variables or a list of variable definitions" [] (.list reader) shortReader

end Variable

/-! ## Parameters -/

def ParameterType.reader : Reader ParameterType :=
  Reader.word (ParameterType.all.map fun type => (type.name, type))

/-- The fields of a parameter that have been read. -/
structure Parameter.Draft where
  name : Option String := none
  displayName : Option (Option String) := none
  type : Option ParameterType := none
  default : Option (Option Value) := none
  values : Option (Option (List Value)) := none

namespace Parameter

def readField (draft : Draft) (name : String) (entry : Entry) : Yaml.Result (Option Draft) :=
  match name with
  | "name" => do
    return some { draft with name := ← once draft.name name entry .text }
  | "displayName" => do
    return some { draft with
      displayName := ← once draft.displayName name entry (.optional .text) }
  | "type" => do
    return some { draft with type := ← once draft.type name entry ParameterType.reader }
  | "default" => do
    return some { draft with default := ← once draft.default name entry (.optional .value) }
  | "values" => do
    return some { draft with values := ← once draft.values name entry (.optional (.list .value)) }
  | _ => return none

def reader : Reader Parameter :=
  Reader.record "struct Parameter" {} readField fun draft => do
    return {
      name := ← required draft.name "name"
      displayName := draft.displayName.join
      type := draft.type.getD .string
      default := draft.default.join
      values := draft.values.join }

end Parameter

/-! ## Steps -/

/-- The fields of a step that have been read. -/
structure Step.Draft where
  name : Option (Option String) := none
  displayName : Option (Option String) := none
  condition : Option (Option String) := none
  continueOnError : Option Flag := none
  enabled : Option Bool := none
  timeoutInMinutes : Option (Option UInt32) := none
  retries : Option (Option UInt32) := none
  env : Option (Table String) := none
  /-- Everything else, which describes the action. -/
  rest : Entries := []

namespace Step

def readField (draft : Draft) (name : String) (entry : Entry) : Yaml.Result Draft :=
  match name with
  | "name" => do
    return { draft with name := ← once draft.name name entry (.optional .text) }
  | "displayName" => do
    return { draft with displayName := ← once draft.displayName name entry (.optional .text) }
  | "condition" => do
    return { draft with condition := ← once draft.condition name entry (.optional .text) }
  | "continueOnError" => do
    return { draft with continueOnError := ← once draft.continueOnError name entry Flag.reader }
  | "enabled" => do
    return { draft with enabled := ← once draft.enabled name entry .bool }
  | "timeoutInMinutes" => do
    return { draft with
      timeoutInMinutes := ← once draft.timeoutInMinutes name entry (.optional .word32) }
  | "retryCountOnTaskFailure" => do
    return { draft with retries := ← once draft.retries name entry (.optional .word32) }
  | "env" => do
    return { draft with env := ← once draft.env name entry (.table .text) }
  | _ => do
    return { draft with rest := draft.rest ++ [(.string name, ← entry.read .matchable)] }

def reader : Reader Step :=
  Reader.mapping "struct Step" (.textAs "field identifier") {} readField fun draft =>
    match Action.ofFields? draft.rest with
    | none => Yaml.refuse (.noVariant "StepAction")
    | some action => return {
        name := draft.name.join
        displayName := draft.displayName.join
        condition := draft.condition.join
        continueOnError := draft.continueOnError.getD default
        enabled := draft.enabled.getD true
        timeoutInMinutes := draft.timeoutInMinutes.join
        retries := draft.retries.join
        env := draft.env.getD []
        action }

end Step

/-! ## Jobs -/

/-- The fields of a job that have been read. -/
structure Job.Draft where
  job : Option (Option String) := none
  displayName : Option (Option String) := none
  dependsOn : Option DependsOn := none
  condition : Option (Option String) := none
  continueOnError : Option Flag := none
  pool : Option (Option Value) := none
  vars : Option (List Variable) := none
  steps : Option (List Step) := none
  template : Option (Option String) := none
  parameters : Option (Table Value) := none

namespace Job

def readField (draft : Draft) (name : String) (entry : Entry) : Yaml.Result (Option Draft) :=
  match name with
  | "job" => do
    return some { draft with job := ← once draft.job name entry (.optional .text) }
  | "displayName" => do
    return some { draft with
      displayName := ← once draft.displayName name entry (.optional .text) }
  | "dependsOn" => do
    return some { draft with dependsOn := ← once draft.dependsOn name entry DependsOn.reader }
  | "condition" => do
    return some { draft with condition := ← once draft.condition name entry (.optional .text) }
  | "continueOnError" => do
    return some { draft with
      continueOnError := ← once draft.continueOnError name entry Flag.reader }
  | "pool" => do
    return some { draft with pool := ← once draft.pool name entry (.optional .value) }
  | "variables" => do
    return some { draft with vars := ← once draft.vars name entry Variable.listReader }
  | "steps" => do
    return some { draft with steps := ← once draft.steps name entry (.list Step.reader) }
  | "template" => do
    return some { draft with template := ← once draft.template name entry (.optional .text) }
  | "parameters" => do
    return some { draft with parameters := ← once draft.parameters name entry (.table .value) }
  | _ => return none

def reader : Reader Job :=
  Reader.record "struct Job" {} readField fun draft => do
    return {
      job := draft.job.join
      displayName := draft.displayName.join
      dependsOn := draft.dependsOn.getD .implicit
      condition := draft.condition.join
      continueOnError := draft.continueOnError.getD default
      pool := draft.pool.join
      vars := draft.vars.getD []
      steps := draft.steps.getD []
      template := draft.template.join
      parameters := draft.parameters.getD [] }

end Job

/-! ## Stages -/

/-- The fields of a stage that have been read. -/
structure Stage.Draft where
  stage : Option (Option String) := none
  displayName : Option (Option String) := none
  dependsOn : Option DependsOn := none
  condition : Option (Option String) := none
  vars : Option (List Variable) := none
  jobs : Option (List Job) := none
  pool : Option (Option Value) := none
  template : Option (Option String) := none
  parameters : Option (Table Value) := none

namespace Stage

def readField (draft : Draft) (name : String) (entry : Entry) : Yaml.Result (Option Draft) :=
  match name with
  | "stage" => do
    return some { draft with stage := ← once draft.stage name entry (.optional .text) }
  | "displayName" => do
    return some { draft with
      displayName := ← once draft.displayName name entry (.optional .text) }
  | "dependsOn" => do
    return some { draft with dependsOn := ← once draft.dependsOn name entry DependsOn.reader }
  | "condition" => do
    return some { draft with condition := ← once draft.condition name entry (.optional .text) }
  | "variables" => do
    return some { draft with vars := ← once draft.vars name entry Variable.listReader }
  | "jobs" => do
    return some { draft with jobs := ← once draft.jobs name entry (.list Job.reader) }
  | "pool" => do
    return some { draft with pool := ← once draft.pool name entry (.optional .value) }
  | "template" => do
    return some { draft with template := ← once draft.template name entry (.optional .text) }
  | "parameters" => do
    return some { draft with parameters := ← once draft.parameters name entry (.table .value) }
  | _ => return none

def reader : Reader Stage :=
  Reader.record "struct Stage" {} readField fun draft => do
    return {
      stage := draft.stage.join
      displayName := draft.displayName.join
      dependsOn := draft.dependsOn.getD .implicit
      condition := draft.condition.join
      vars := draft.vars.getD []
      jobs := draft.jobs.getD []
      pool := draft.pool.join
      template := draft.template.join
      parameters := draft.parameters.getD [] }

end Stage

/-! ## Pipelines -/

/-- The fields of a pipeline that have been read. -/
structure Pipeline.Draft where
  name : Option (Option String) := none
  parameters : Option (List Parameter) := none
  vars : Option (List Variable) := none
  stages : Option (List Stage) := none
  jobs : Option (List Job) := none
  steps : Option (List Step) := none

namespace Pipeline

def readField (draft : Draft) (name : String) (entry : Entry) : Yaml.Result (Option Draft) :=
  match name with
  | "name" => do
    return some { draft with name := ← once draft.name name entry (.optional .text) }
  | "parameters" => do
    return some { draft with
      parameters := ← once draft.parameters name entry (.list Parameter.reader) }
  | "variables" => do
    return some { draft with vars := ← once draft.vars name entry Variable.listReader }
  | "stages" => do
    return some { draft with stages := ← once draft.stages name entry (.list Stage.reader) }
  | "jobs" => do
    return some { draft with jobs := ← once draft.jobs name entry (.list Job.reader) }
  | "steps" => do
    return some { draft with steps := ← once draft.steps name entry (.list Step.reader) }
  | _ => return none

def reader : Reader Pipeline :=
  Reader.record "struct Pipeline" {} readField fun draft => do
    return {
      name := draft.name.join
      parameters := draft.parameters.getD []
      vars := draft.vars.getD []
      stages := draft.stages.getD []
      jobs := draft.jobs.getD []
      steps := draft.steps.getD [] }

end Pipeline

end BuildPipeline
