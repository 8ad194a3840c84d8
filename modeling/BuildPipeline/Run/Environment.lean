import BuildPipeline.Expression.Substitution
import BuildPipeline.Pipeline.Basic

/-!
# Variable environments

The variables of a pipeline, a stage and a job, as a chain of scopes.  A scope sees its own
variables and those that the scopes around it had when it was opened; it writes only its own.  A
variable that is read-only in one of the scopes it sees stays as it is.
-/

namespace BuildPipeline

/-- The variables of one scope and which of them are read-only. -/
structure Frame where
  values : Table String := []
  readonly : List String := []
  deriving Inhabited

/-- The frame of a scope and the frames around it, the innermost first. -/
structure Environment where
  own : Frame := {}
  outer : List Frame := []
  deriving Inhabited

namespace Environment

def ofTable (values : Table String) : Environment :=
  { own := { values } }

/-- Open a scope. -/
def child (environment : Environment) : Environment where
  outer := environment.own :: environment.outer

def frames (environment : Environment) : List Frame :=
  environment.own :: environment.outer

/-- The value in the innermost scope that has one. -/
def get? (environment : Environment) (name : String) : Option String :=
  environment.frames.findSome? fun frame => frame.values.get? name

def isReadonly (environment : Environment) (name : String) : Bool :=
  environment.frames.any fun frame => frame.readonly.contains name

/-- Every visible variable, inner scopes over outer ones. -/
def flatten (environment : Environment) : Table String :=
  environment.frames.foldr (fun frame table => Table.union frame.values table) []

/-! ## Writing -/

/-- The refusal to write a read-only variable. -/
structure ReadonlyError where
  name : String
  deriving DecidableEq, Repr

def ReadonlyError.message (error : ReadonlyError) : String :=
  "variable '" ++ error.name ++ "' is read-only"

/-- Write a variable of the innermost scope, and lock it if asked to. -/
def write (environment : Environment) (name value : String) (lock : Bool) :
    Except ReadonlyError Environment :=
  if environment.isReadonly name then .error ⟨name⟩
  else
    let own := environment.own
    .ok { environment with
      own := {
        values := own.values.insert name value
        readonly := if lock then name :: own.readonly else own.readonly } }

/-- Write a variable where that is allowed. -/
def writeIfAllowed (environment : Environment) (name value : String) (lock : Bool) : Environment :=
  match environment.write name value lock with
  | .ok environment => environment
  | .error _ => environment

/-- Apply declarations in order.  Runtime expressions see the variables declared so far and what
`base` offers otherwise.  The first one that fails ends the declarations; what was declared before
it stays. -/
def declare (base : Expression.Context) (environment : Environment) :
    List Variable → Environment × Option Expression.EvalError
  | [] => (environment, none)
  | .template .. :: rest => declare base environment rest
  | .definition name value readonly :: rest =>
    match Expression.substituteRuntime (base.withVariables environment.flatten) value with
    | .error error => (environment, some error)
    | .ok value => declare base (environment.writeIfAllowed name value readonly) rest

/-! ## Process environments -/

/-- The name of a variable in the environment of a process. -/
def processName (name : String) : String :=
  String.ofList (name.toList.map fun c => if c = '.' || c = ' ' then '_' else c.toUpper)

end Environment

/-- The order in which variables are listed for a process.  It is not laid down: it may be another
one for each step of each job, and it settles which of several variables with one name for processes
is kept. -/
structure Listing where
  list : (stage job : String) → (index : Nat) → Table String → Table String
  perm : ∀ stage job index table, (list stage job index table).Perm table

/-- Variables are listed by their names. -/
def Listing.byName : Listing where
  list _ _ _ table := table
  perm _ _ _ table := .refl table

instance : Inhabited Listing := ⟨.byName⟩

/-- Every variable that a step sees, under its name for processes.  Of variables with one such name
the one that is listed last is kept. -/
def Listing.process (listing : Listing) (stage job : String) (index : Nat)
    (environment : Environment) : Table String :=
  Table.ofList ((listing.list stage job index environment.flatten).map fun (name, value) =>
    (Environment.processName name, value))

end BuildPipeline
