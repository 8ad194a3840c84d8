import BuildPipeline.Expression.Value
import BuildPipeline.Yaml.Value

/-!
# Values of expressions and of documents

Expressions compute on the data of documents.  On the way in, integers become binary64 numbers, tags
are dropped, and an entry of a mapping is named by the text of its key, which has to be a scalar; on
the way out a whole number below `10 ^ 15` in magnitude becomes an integer.
-/

namespace BuildPipeline.Expression.Value

mutual

def ofYaml : Yaml.Value → Value
  | .null => .null
  | .bool value => .bool value
  | .int value => .number (.ofInt value)
  | .float value => .number value
  | .string text => .string text
  | .sequence items => .array (itemsOfYaml items)
  | .mapping entries => .object (Table.ofList (entriesOfYaml entries))
  | .tagged _ content => ofYaml content

def itemsOfYaml : List Yaml.Value → List Value
  | [] => []
  | item :: items => ofYaml item :: itemsOfYaml items

/-- The entries with scalar keys. -/
def entriesOfYaml : List (Yaml.Value × Yaml.Value) → List (String × Value)
  | [] => []
  | (key, value) :: entries =>
    match key.scalarText? with
    | some name => (name, ofYaml value) :: entriesOfYaml entries
    | none => entriesOfYaml entries

end

def numberToYaml (x : Binary64) : Yaml.Value :=
  match x.smallInteger? with
  | some i => .int i
  | none => .float x

mutual

def toYaml : Value → Yaml.Value
  | .null => .null
  | .bool value => .bool value
  | .number value => numberToYaml value
  | .string text => .string text
  | .array items => .sequence (itemsToYaml items)
  | .object fields => .mapping (fieldsToYaml fields)

def itemsToYaml : List Value → List Yaml.Value
  | [] => []
  | item :: items => toYaml item :: itemsToYaml items

def fieldsToYaml : List (String × Value) → List (Yaml.Value × Yaml.Value)
  | [] => []
  | (key, value) :: fields => (.string key, toYaml value) :: fieldsToYaml fields

end

end BuildPipeline.Expression.Value
