import BuildPipeline.Expression.Value
import BuildPipeline.Status

/-!
# What an expression can observe

Variables, parameters, loop variables, the outcome of dependencies, and the statuses that the status
functions ask for.
-/

namespace BuildPipeline.Expression

/-- The result and the output variables of a finished node. -/
structure Dependency where
  result : Status := .pending
  outputs : Table String := []

/-- The statuses behind `succeeded()`, `failed()` and their kin. -/
structure StatusView where
  /-- What the forms without arguments look at. -/
  implicit : List Status := []
  /-- What may be asked for by name. -/
  named : Table Status := []
  canceled : Bool := false

structure Context where
  vars : Table Value := []
  parameters : Table Value := []
  /-- Loop variables, which shadow every root but `variables`. -/
  locals : Table Value := []
  dependencies : Table Dependency := []
  status : StatusView := {}

instance : Inhabited Context := ⟨{}⟩

namespace Context

/-- The context with texts as its variables. -/
def withVariables (context : Context) (vars : Table String) : Context :=
  { context with vars := vars.mapValues .string }

/-- Record a dependency under its own name, among the implicit statuses and among the named ones. -/
def addDependency (context : Context) (name : String) (result : Status)
    (outputs : Table String) : Context :=
  { context with
    dependencies := context.dependencies.insert name ⟨result, outputs⟩
    status := { context.status with
      implicit := context.status.implicit ++ [result]
      named := context.status.named.insert name result } }

def withLocal (context : Context) (name : String) (value : Value) : Context :=
  { context with locals := context.locals.insert name value }

end Context

/-- A dependency as conditions see it. -/
def Dependency.toValue (dependency : Dependency) : Value :=
  .object [("outputs", .object (dependency.outputs.mapValues .string)),
    ("result", .string dependency.result.name)]

end BuildPipeline.Expression
