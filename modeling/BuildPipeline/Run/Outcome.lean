import BuildPipeline.Text.Blank
import BuildPipeline.Text.Search

/-!
# Outcomes of steps

What a step leaves behind: its output, perhaps an error, and the variables it sets by commands in
its output.  Such a command is a line `##vso[task.setvariable variable=NAME]VALUE`, where the
properties `isOutput` and `isReadOnly` may stand beside the name.
-/

namespace BuildPipeline

/-- A variable that a step sets. -/
structure VariableUpdate where
  name : String
  value : String
  isOutput : Bool := false
  isReadonly : Bool := false
  deriving DecidableEq, Repr, Inhabited

structure Outcome where
  success : Bool := false
  output : String := ""
  error : Option String := none
  exitCode : Option Int := none
  vars : List VariableUpdate := []
  deriving DecidableEq, Repr, Inhabited

namespace Outcome

def succeeded (output : String) : Outcome :=
  { success := true, output, exitCode := some 0 }

def failed (error : String) : Outcome :=
  { error := some error }

end Outcome

/-! ## Commands in the output -/

namespace LoggingCommand

def opening : List Char := "##vso[".toList

/-- The name of the command that sets a variable. -/
def setVariable : List Char := "task.setvariable".toList

def lowerChars (text : List Char) : List Char :=
  text.map Char.toLower

/-- The update after one more property. -/
def applyProperty (update : VariableUpdate) (property : List Char) : VariableUpdate :=
  match Text.splitOnce? ['='] (Text.trimChars property) with
  | none => update
  | some (key, value) =>
    let value := Text.trimChars value
    let flag := lowerChars value == "true".toList
    let key := String.ofList (lowerChars (Text.trimChars key))
    if key = "variable" then { update with name := String.ofList value }
    else if key = "isoutput" then { update with isOutput := flag }
    else if key = "isreadonly" then { update with isReadonly := flag }
    else update

/-- The update that a line commands. -/
def ofLine? (line : List Char) : Option VariableUpdate := do
  let rest ← Text.stripStart? opening (Text.trimStartChars line)
  let (command, value) ← Text.splitOnce? [']'] rest
  let name := command.takeWhile (!Text.isBlank ·)
  let properties := (command.dropWhile (!Text.isBlank ·)).drop 1
  if lowerChars name ≠ setVariable then none
  else
    let update := (Text.splitAt ';' properties).foldl applyProperty
      { name := "", value := String.ofList value }
    if update.name = "" then none else some update

end LoggingCommand

/-- The variables that a step sets in its output, in order. -/
def commandedUpdates (output : String) : List VariableUpdate :=
  (Text.lines output).filterMap fun line => LoggingCommand.ofLine? line.toList

end BuildPipeline
