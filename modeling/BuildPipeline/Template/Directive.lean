import BuildPipeline.Text.Blank
import BuildPipeline.Text.Search
import BuildPipeline.Yaml.Value

/-!
# Directives

A key of the form `${{ if … }}`, `${{ elseif … }}`, `${{ else }}` or `${{ each … in … }}` makes its
value conditional or repeats it.  In a sequence, a directive is an item that is a mapping with such
a key alone.
-/

namespace BuildPipeline.Template

inductive Directive where
  | onlyIf (condition : String)
  | elseIf (condition : String)
  | otherwise
  | each (name collection : String)
  deriving DecidableEq, Repr

namespace Directive

def trimmed (text : List Char) : String :=
  String.ofList (Text.trimChars text)

/-- The directive between the braces. -/
def ofBody? (body : List Char) : Option Directive :=
  if body = "else".toList then some .otherwise
  else
    match Text.stripStart? "elseif ".toList body, Text.stripStart? "else if ".toList body,
      Text.stripStart? "if ".toList body, Text.stripStart? "each ".toList body with
    | some rest, _, _, _ | _, some rest, _, _ => some (.elseIf (trimmed rest))
    | _, _, some rest, _ => some (.onlyIf (trimmed rest))
    | _, _, _, some rest =>
      match Text.splitOnce? " in ".toList rest with
      | some (name, collection) =>
        let name := trimmed name
        let collection := trimmed collection
        if name = "" ∨ collection = "" then none else some (.each name collection)
      | none => none
    | none, none, none, none => none

/-- The directive that a key is. -/
def ofKey? (key : String) : Option Directive := do
  let rest ← Text.stripStart? "$\x7b\x7b".toList (Text.trimChars key.toList)
  let body ← Text.stripEnd? "\x7d\x7d".toList rest
  ofBody? (Text.trimChars body)

/-- The directive that a mapping key is. -/
def ofYamlKey? (key : Yaml.Value) : Option Directive :=
  key.text?.bind ofKey?

/-- The directive that an item of a sequence is. -/
def ofItem? (item : Yaml.Value) : Option Directive :=
  match item.entries? with
  | some [(key, _)] => ofYamlKey? key
  | _ => none

end Directive

end BuildPipeline.Template
