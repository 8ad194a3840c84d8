import BuildPipeline.Text.Blank
import BuildPipeline.Text.Casing
import BuildPipeline.Text.Search
import BuildPipeline.Yaml.Reader

/-!
# Errors of documents

An error with its place in the source, the lines around that place and a hint for repair.  The lines
shown are those whose numbers differ from the error's by at most the number asked for; a caret under
the error's own line points at its column.
-/

namespace BuildPipeline

inductive DocumentError.Kind where
  | yaml
  | schema
  | io
  | validation
  deriving DecidableEq, Repr, Inhabited

structure DocumentError where
  message : String
  kind : DocumentError.Kind
  /-- Counted from one; zero when unknown. -/
  line : Nat := 0
  column : Nat := 0
  /-- The source lines around the error. -/
  context : String := ""
  suggestion : Option String := none
  deriving Inhabited

namespace DocumentError

/-- A source line with its number, the one with the error being marked. -/
def contextLine (line number : Nat) (text : String) : String :=
  (if number = line then ">" else " ") ++ " " ++ Text.padLeft 4 (toString number) ++ " | " ++
    text ++ "\n"

/-- The row with the caret. -/
def caretRow (column : Nat) : String :=
  "       | " ++ String.ofList (List.replicate (column - 1) ' ') ++ "^\n"

/-- The rows for the source lines from `number` on, up to `last`. -/
def contextFrom (line column last : Nat) (number : Nat) : List String → String
  | [] => ""
  | text :: rest =>
    if last < number then ""
    else
      contextLine line number text ++
        (if number = line ∧ 0 < column then caretRow column else "") ++
        contextFrom line column last (number + 1) rest

/-- Attach the source lines that are at most `reach` lines away. -/
def withContext (error : DocumentError) (source : String) (reach : Nat) : DocumentError :=
  if error.line = 0 then error
  else
    let skipped := error.line - (reach + 1)
    { error with
      context := contextFrom error.line error.column (error.line + reach) (skipped + 1)
        ((Text.lines source).drop skipped) }

/-- The message, the place, the lines around it and the hint. -/
def text (error : DocumentError) : String :=
  error.message ++
    (if error.line = 0 then ""
      else " (line " ++ toString error.line ++ ":" ++ toString error.column ++ ")") ++
    (if error.context = "" then "" else "\n" ++ Text.trimEnd error.context) ++
    (match error.suggestion with
      | some suggestion => "\nhelp: " ++ suggestion
      | none => "")

/-! ## Hints -/

/-- Misspelt fields, in lower case, and what they should be. -/
def misspellings : List (String × String) := [
  ("dependson", "dependsOn"),
  ("displayname", "displayName"),
  ("continueonerror", "continueOnError"),
  ("timeout:", "timeoutInMinutes")]

/-- A hint for an error with this message in this line of the source. -/
def suggest? (message source : String) (line : Nat) : Option String :=
  if Text.contains message "did not match any variant of untagged enum StepAction" then
    some "each step needs one of: script, bash, pwsh, task, template, publish, download"
  else
    let text := (Text.lines source)[line - 1]?.getD ""
    if Text.startsWith ['\t'] text.toList then
      some "YAML indentation must use spaces, not tabs"
    else
      let lowered := Text.lower text
      (misspellings.find? fun (wrong, right) =>
        Text.contains lowered wrong && !Text.contains text right).map
          fun (_, right) => "did you mean '" ++ right ++ "'?"

/-- Whether a message is about the shape of the data. -/
def isSchemaMessage (message : String) : Bool :=
  ["missing field", "invalid type", "did not match any variant"].any (Text.contains message)

/-- The error of reading a source. -/
def ofReadError (error : Yaml.ReadError) (source : String) : DocumentError :=
  let message := error.message
  let (line, column) := error.location?.getD (0, 0)
  let located : DocumentError :=
    { message, kind := if isSchemaMessage message then .schema else .yaml, line, column }
  { located.withContext source 2 with suggestion := suggest? message source line }

end DocumentError

end BuildPipeline
