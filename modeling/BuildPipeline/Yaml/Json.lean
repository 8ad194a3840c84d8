import BuildPipeline.Json
import BuildPipeline.Yaml.Value

/-!
# YAML values as JSON

Mappings become objects with their entries in order.  A key that is a number or a truth value
becomes its text; any other key that is no text has none, and then the whole value has no JSON.
-/

namespace BuildPipeline.Yaml.Value

/-- The text of a key. -/
def jsonKey? : Value → Option String
  | .string text => some text
  | .int value => some (toString value)
  | .bool value => some (if value then "true" else "false")
  | .float value => if value.isFinite then some (value.write .json) else none
  | _ => none

mutual

def toJson? : Value → Option Json
  | .null => some .null
  | .bool value => some (.bool value)
  | .int value => some (.ofInt value)
  | .float value => some (.ofBinary64 value)
  | .string text => some (.string text)
  | .sequence items => (itemsToJson? items).map .array
  | .mapping entries => (entriesToJson? entries).map .object
  | .tagged tag content => (toJson? content).map fun json => .object [("!" ++ tag, json)]

def itemsToJson? : List Value → Option (List Json)
  | [] => some []
  | item :: items => do return (← toJson? item) :: (← itemsToJson? items)

def entriesToJson? : List (Value × Value) → Option (List (String × Json))
  | [] => some []
  | (key, value) :: entries => do
    return (← jsonKey? key, ← toJson? value) :: (← entriesToJson? entries)

end

end BuildPipeline.Yaml.Value
