import BuildPipeline.Pipeline.Reading
import BuildPipeline.Template.Error
import BuildPipeline.Yaml.Codec

/-!
# Binding parameters

Every declared parameter gets a value: the one supplied by the caller, else its default.  The value
is brought to the declared type, where that is possible, and has to be among the allowed ones, if
there are such.  Values of structured types are passed on as they are.
-/

namespace BuildPipeline.Template

/-- The parameters of a template and their values. -/
abbrev Arguments := Table Yaml.Value

/-- The value of a parameter given as a text on the command line: what it is as YAML, else the text.
-/
def readOverride [Yaml.Codec] (raw : String) : Yaml.Value :=
  if Text.trim raw == "" then .string raw
  else
    match Yaml.Codec.read raw with
    | .ok value => value
    | .error _ => .string raw

/-- What a value is called in errors. -/
def describe : Yaml.Value → String
  | .null => "null"
  | .bool _ => "boolean"
  | .int _ | .float _ => "number"
  | .string _ => "string"
  | .sequence _ => "list"
  | .mapping _ => "mapping"
  | .tagged _ _ => "tagged value"

/-- The truth value that a text names. -/
def boolText? (text : String) : Option Bool :=
  if Text.equalsIgnoringAsciiCase text "true" then some true
  else if Text.equalsIgnoringAsciiCase text "false" then some false
  else none

/-- A value of the declared type. -/
def coerce? (type : ParameterType) (value : Yaml.Value) : Option Yaml.Value :=
  match type, value with
  | .string, value => value.scalarText?.map .string
  | .number, .int i => some (.int i)
  | .number, .float x => some (.float x)
  | .number, .string text => (Binary64.read? (Text.trim text)).map .float
  | .boolean, .bool b => some (.bool b)
  | .boolean, .string text => (boolText? text).map .bool
  | .object, value => some value
  | .step, .mapping entries | .job, .mapping entries | .stage, .mapping entries =>
    some (.mapping entries)
  | type, .sequence items => if type.isList then some (.sequence items) else none
  | type, .null => if type.isList then some (.sequence []) else none
  | _, _ => none

/-- Whether a value is one of the allowed ones; scalars are told apart by their texts. -/
def isAllowed (allowed : List Yaml.Value) (value : Yaml.Value) : Bool :=
  allowed.any fun candidate =>
    candidate.same value ||
      (value.scalarText?.isSome && candidate.scalarText? == value.scalarText?)

/-- A value as errors show it. -/
def shown (value : Yaml.Value) : String :=
  value.scalarText?.getD (describe value)

/-- The value of one parameter. -/
def bindOne (supplied : Arguments) (parameter : Parameter) : Except Problem Yaml.Value :=
  match (supplied.get? parameter.name).or parameter.default with
  | none => .error (.unboundParameter parameter.name)
  | some raw =>
    match coerce? parameter.type raw with
    | none => .error (.typeMismatch parameter.name parameter.type (describe raw))
    | some value =>
      match parameter.values with
      | none => .ok value
      | some allowed =>
        if isAllowed allowed value then .ok value
        else .error (.invalidValue parameter.name (shown value) (allowed.map shown))

/-- The first name supplied that no parameter has. -/
def unknownName? (declared : List Parameter) (supplied : Arguments) : Option String :=
  (Table.keys supplied).find? fun name => !declared.any (·.name == name)

def bindAll (supplied : Arguments) : Arguments → List Parameter → Except Problem Arguments
  | bound, [] => .ok bound
  | bound, parameter :: rest => do
    let value ← bindOne supplied parameter
    bindAll supplied (bound.insert parameter.name value) rest

/-- The values of all parameters of the template at `path`. -/
def bindParameters (declared : List Parameter) (supplied : Arguments) (path : String) :
    Except Error Arguments :=
  let result : Except Problem Arguments :=
    match unknownName? declared supplied with
    | some name => .error (.unknownParameter name)
    | none => bindAll supplied [] declared
  result.mapError fun problem => ⟨problem, some path⟩

/-! ## Declarations -/

/-- The type of a parameter that is declared by its default alone. -/
def inferredType : Yaml.Value → ParameterType
  | .bool _ => .boolean
  | .int _ | .float _ => .number
  | .sequence _ => .list
  | .mapping _ => .object
  | _ => .string

def shortDeclaration? (name default : Yaml.Value) : Option Parameter :=
  name.scalarText?.map fun name => { name, type := inferredType default, default := some default }

/-- The declarations in a document at `path`: a list of them, or a mapping from names to defaults.
-/
def declarations (path : String) : Option Yaml.Value → Except Error (List Parameter)
  | none | some .null => .ok []
  | some (.sequence items) =>
    match Yaml.readHeld (.list Parameter.reader) (.sequence items) with
    | .ok parameters => .ok parameters
    | .error error => failAt path (.badDeclarations error.message)
  | some (.mapping entries) =>
    .ok (entries.filterMap fun entry => shortDeclaration? entry.1 entry.2)
  | some _ => failAt path .declarationsNotList

end BuildPipeline.Template
