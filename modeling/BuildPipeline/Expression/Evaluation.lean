import BuildPipeline.Expression.Function

/-!
# Evaluation

The value of an expression tree in a context.  Operands are evaluated from left to right; `&&`, `||`
and the functions `and` and `or` stop at the operand that decides.  A reference to `variables` joins
what follows into one name, since names may hold dots, and a missing variable is empty; below any
other root what is missing is null.
-/

namespace BuildPipeline.Expression

/-- The item or field that a key selects. -/
def indexValue (object key : Value) : Except EvalError Value :=
  match object, key with
  | .array items, .number position =>
    .ok ((position.toPosition?.bind (items[·]?)).getD .null)
  | .object fields, key => .ok ((Table.get? key.asText fields).getD .null)
  | .null, _ => .ok .null
  | object, key => .error (.cannotIndex object.asText key.asText)

/-- The field of an object; null for anything else. -/
def memberValue (object : Value) (name : String) : Value :=
  match object with
  | .object fields => (Table.get? name fields).getD .null
  | _ => .null

/-- What a leading name stands for. -/
def rootValue (context : Context) (name : String) : Except EvalError Value :=
  match context.locals.get? name with
  | some value => .ok value
  | none =>
    match Text.lower name with
    | "parameters" => .ok (.ofTable context.parameters)
    | "dependencies" | "stagedependencies" =>
      .ok (.ofTable (context.dependencies.mapValues Dependency.toValue))
    | _ => .error (.unrecognizedValue name)

/-- The variable that parts of a name stand for, or all variables when there are none. -/
def variableValue (context : Context) (parts : List String) : Value :=
  match parts with
  | [] => .ofTable context.vars
  | parts => (context.vars.get? (Text.joinWith "." parts)).getD (.string "")

mutual

def evaluate (context : Context) : Expr → Except EvalError Value
  | .null => .ok .null
  | .bool value => .ok (.bool value)
  | .number value => .ok (.number value)
  | .string text => .ok (.string text)
  | .reference root path =>
    if Text.equalsIgnoringAsciiCase root "variables" then do
      let parts ← evaluateNames context path
      return variableValue context parts
    else do
      let value ← rootValue context root
      evaluatePath context value path
  | .call name arguments =>
    match Text.lower name with
    | "and" =>
      if arguments.length < 2 then .error (.tooFewArguments name 2)
      else (evaluateAll context arguments).map .bool
    | "or" =>
      if arguments.length < 2 then .error (.tooFewArguments name 2)
      else (evaluateAny context arguments).map .bool
    | _ => do
      let values ← evaluateItems context arguments
      callFunction context name values
  | .index object key => do
    let object ← evaluate context object
    let key ← evaluate context key
    indexValue object key
  | .not operand => do
    let value ← evaluate context operand
    return .bool !value.isTruthy
  | .binary op left right => do
    let a ← evaluate context left
    match op with
    | .and =>
      if a.isTruthy then
        return .bool (← evaluate context right).isTruthy
      else return .bool false
    | .or =>
      if a.isTruthy then return .bool true
      else return .bool (← evaluate context right).isTruthy
    | op =>
      let b ← evaluate context right
      return .bool (← op.compare a b)
  | .array items => (evaluateItems context items).map .array

def evaluateItems (context : Context) : List Expr → Except EvalError (List Value)
  | [] => .ok []
  | item :: items => do
    let value ← evaluate context item
    let values ← evaluateItems context items
    return value :: values

/-- Whether all operands are truthy; nothing after the first that is not is evaluated. -/
def evaluateAll (context : Context) : List Expr → Except EvalError Bool
  | [] => .ok true
  | operand :: operands => do
    let value ← evaluate context operand
    if value.isTruthy then evaluateAll context operands else return false

/-- Whether some operand is truthy; nothing after the first that is is evaluated. -/
def evaluateAny (context : Context) : List Expr → Except EvalError Bool
  | [] => .ok false
  | operand :: operands => do
    let value ← evaluate context operand
    if value.isTruthy then return true else evaluateAny context operands

/-- Walk a path from a value. -/
def evaluatePath (context : Context) (value : Value) : List Accessor → Except EvalError Value
  | [] => .ok value
  | .property name :: path => evaluatePath context (memberValue value name) path
  | .element key :: path => do
    let key ← evaluate context key
    let next ← indexValue value key
    evaluatePath context next path

/-- The texts of the steps of a path. -/
def evaluateNames (context : Context) : List Accessor → Except EvalError (List String)
  | [] => .ok []
  | .property name :: path => do
    let names ← evaluateNames context path
    return name :: names
  | .element key :: path => do
    let key ← evaluate context key
    let names ← evaluateNames context path
    return key.asText :: names

end

/-- The value of an expression text. -/
def evaluateText (context : Context) (text : String) : Except EvalError Value :=
  match parse text with
  | .ok expression => evaluate context expression
  | .error cause => .error (.invalidExpression text cause)

/-- The body of a condition, without blanks around it and without a bare `$[ ]` wrapper. -/
def conditionBody (text : String) : String :=
  let trimmed := (Text.trim text).toList
  String.ofList
    (((Text.stripStart? ['$', '['] trimmed).bind (Text.stripEnd? [']'])).getD trimmed)

/-- Whether a condition holds. -/
def evaluateCondition (context : Context) (text : String) : Except EvalError Bool :=
  (evaluateText context (conditionBody text)).map Value.isTruthy

end BuildPipeline.Expression
