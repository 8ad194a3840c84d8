import BuildPipeline.Expression.Evaluation
import BuildPipeline.Expression.Segment

/-!
# Substitution in texts

Variable spans are replaced when a step starts, runtime spans when a scope starts.  A span of
another kind, or of an unknown variable, is written again with its body trimmed; a text without any
opening of the kind in question stays as it is.
-/

namespace BuildPipeline.Expression

/-- An expansion span around a body. -/
def writeExpansion (body : String) : String :=
  "$\x7b\x7b " ++ body ++ " \x7d\x7d"

/-- A runtime span around a body. -/
def writeRuntime (body : String) : String :=
  "$[ " ++ body ++ " ]"

/-- A variable span around a name. -/
def writeVariable (name : String) : String :=
  "$(" ++ name ++ ")"

def substituteVariable (context : Context) : Segment → String
  | .plain text => text
  | .variable name =>
    match context.vars.get? name with
    | some value => value.asText
    | none => writeVariable name
  | .expansion body => writeExpansion body
  | .runtime body => writeRuntime body

/-- Replace the spans of known variables. -/
def substituteVariables (context : Context) (text : String) : String :=
  if Text.contains text "$(" then
    String.join ((segments text).map (substituteVariable context))
  else text

def substituteRuntimeSegment (context : Context) : Segment → Except EvalError String
  | .runtime body => (evaluateText context body).map Value.asText
  | .plain text => .ok text
  | .variable name => .ok (writeVariable name)
  | .expansion body => .ok (writeExpansion body)

/-- Replace the runtime spans by the texts of their values. -/
def substituteRuntime (context : Context) (text : String) : Except EvalError String :=
  if Text.contains text "$[" then
    ((segments text).mapM (substituteRuntimeSegment context)).map String.join
  else .ok text

end BuildPipeline.Expression
