import BuildPipeline.Number.Binary64

/-!
# Expression trees

What a condition says once its tokens are put in order.  A reference is a leading name with the
properties and brackets that follow it; brackets after anything else are an `index`.
-/

namespace BuildPipeline.Expression

inductive BinaryOp where
  | equal
  | notEqual
  | less
  | lessEqual
  | greater
  | greaterEqual
  | and
  | or
  deriving DecidableEq, Repr

def BinaryOp.symbol : BinaryOp → String
  | equal => "=="
  | notEqual => "!="
  | less => "<"
  | lessEqual => "<="
  | greater => ">"
  | greaterEqual => ">="
  | and => "&&"
  | or => "||"

mutual

inductive Expr where
  | null
  | bool (value : Bool)
  | number (value : Binary64)
  | string (text : String)
  | reference (root : String) (path : List Accessor)
  | call (name : String) (arguments : List Expr)
  | index (object key : Expr)
  | not (operand : Expr)
  | binary (op : BinaryOp) (left right : Expr)
  | array (items : List Expr)

/-- One step of a reference: `.name` or `[expression]`. -/
inductive Accessor where
  | property (name : String)
  | element (key : Expr)

end

instance : Inhabited Expr := ⟨.null⟩

end BuildPipeline.Expression
