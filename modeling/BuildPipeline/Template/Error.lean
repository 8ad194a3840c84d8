import BuildPipeline.Pipeline.DocumentError
import BuildPipeline.Pipeline.Basic

/-!
# Errors of template expansion

Why a pipeline cannot be expanded, and in which template that showed.  The innermost template that
names itself is kept.
-/

namespace BuildPipeline.Template

/-- What an error is about. -/
inductive Kind where
  | notFound
  | cycle
  | unboundParameter
  | unknownParameter
  | typeMismatch
  | invalidValue
  | expression
  | document
  deriving DecidableEq, Repr

inductive Problem where
  /-- The pipeline's own file. -/
  | unreadable (cause : String)
  | missingTemplate (candidates : List String)
  /-- The files from the first one that comes back to the one that does. -/
  | cycle (chain : List String)
  | unboundParameter (name : String)
  | unknownParameter (name : String)
  | typeMismatch (parameter : String) (type : ParameterType) (found : String)
  | invalidValue (parameter shown : String) (choices : List String)
  | evaluation (expression cause : String)
  | unchainedDirective (directive : String)
  | bodyNotMapping
  | notIterable (collection shown : String)
  | malformed (error : DocumentError)
  | pipelineNotMapping
  | templateNotMapping
  | noSection (name : String)
  | sectionNotList (name : String)
  | argumentsNotMapping
  | badDeclarations (cause : String)
  | declarationsNotList
  deriving Inhabited

namespace Problem

def kind : Problem → Kind
  | unreadable _ | missingTemplate _ => .notFound
  | cycle _ => .cycle
  | unboundParameter _ => .unboundParameter
  | unknownParameter _ => .unknownParameter
  | typeMismatch .. => .typeMismatch
  | invalidValue .. => .invalidValue
  | evaluation .. | unchainedDirective _ | bodyNotMapping | notIterable .. => .expression
  | malformed _ | pipelineNotMapping | templateNotMapping | noSection _ | sectionNotList _
  | argumentsNotMapping | badDeclarations _ | declarationsNotList => .document

def message : Problem → String
  | unreadable cause => "failed to read pipeline: " ++ cause
  | missingTemplate candidates =>
    "template not found (looked in " ++ ", ".intercalate candidates ++ ")"
  | cycle chain => "template cycle detected:\n  " ++ "\n  -> ".intercalate chain
  | unboundParameter name => "parameter '" ++ name ++ "' has no default and no value was supplied"
  | unknownParameter name => "unexpected parameter '" ++ name ++ "'"
  | typeMismatch parameter type found =>
    "parameter '" ++ parameter ++ "' expects type " ++ type.name ++ ", got " ++ found
  | invalidValue parameter shown choices =>
    "value '" ++ shown ++ "' is not allowed for parameter '" ++ parameter ++ "' (allowed: " ++
      ", ".intercalate choices ++ ")"
  | evaluation expression cause => cause ++ " (in '$\x7b\x7b " ++ expression ++ " \x7d\x7d')"
  | unchainedDirective directive => "'" ++ directive ++ "' directive without a preceding 'if'"
  | bodyNotMapping => "a directive used as a mapping key must contain a mapping"
  | notIterable collection shown =>
    "'each' requires a list or mapping, '" ++ collection ++ "' evaluated to " ++ shown
  | malformed error => error.text
  | pipelineNotMapping => "pipeline document must be a mapping"
  | templateNotMapping => "template document must be a mapping"
  | noSection name => "template has no '" ++ name ++ "' section"
  | sectionNotList name => "'" ++ name ++ "' section must be a list"
  | argumentsNotMapping => "template 'parameters' must be a mapping"
  | badDeclarations cause => "invalid parameter declarations: " ++ cause
  | declarationsNotList => "'parameters' must be a list or a mapping"

end Problem

structure Error where
  problem : Problem
  path : Option String := none
  deriving Inhabited

namespace Error

/-- Name the template, unless one is named already. -/
def withPath (error : Error) (path : String) : Error :=
  { error with path := error.path.or (some path) }

def message (error : Error) : String :=
  (match error.path with
    | some path => "template error in '" ++ path ++ "': "
    | none => "template error: ") ++ error.problem.message

end Error

/-- An error in a template. -/
def failAt {α : Type} (path : String) (problem : Problem) : Except Error α :=
  .error ⟨problem, some path⟩

end BuildPipeline.Template
