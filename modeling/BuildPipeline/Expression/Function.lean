import BuildPipeline.Expression.Context
import BuildPipeline.Expression.Parser

/-!
# Built-in functions

Comparison, text and status functions on evaluated arguments.  Names are matched in any letter case.
`and` and `or` are not here: they must not evaluate all their arguments.
-/

namespace BuildPipeline.Expression

/-! ## Errors -/

inductive EvalError where
  | invalidExpression (text : String) (cause : ReadError)
  | unrecognizedValue (name : String)
  | cannotIndex (object key : String)
  | unknownFunction (name : String)
  | unknownDependency (name : String)
  | wrongArgumentCount (function : String) (expected actual : Nat)
  | tooFewArguments (function : String) (least : Nat)
  | incomparable
  | noLength (text : String)

/-- The cause alone. -/
def EvalError.detail : EvalError → String
  | invalidExpression text cause => "invalid expression '" ++ text ++ "': " ++ cause.message
  | unrecognizedValue name => "unrecognized value: '" ++ name ++ "'"
  | cannotIndex object key => "cannot index " ++ object ++ " with " ++ key
  | unknownFunction name => "unknown function: " ++ name
  | unknownDependency name => "unknown dependency: '" ++ name ++ "'"
  | wrongArgumentCount function expected actual =>
    function ++ "() requires " ++ toString expected ++ " argument(s), got " ++ toString actual
  | tooFewArguments function least =>
    function ++ "() requires at least " ++ toString least ++
      (if least = 1 then " argument" else " arguments")
  | incomparable => "cannot compare NaN"
  | noLength text => "length() requires string, array, or object, got " ++ text

def EvalError.message (e : EvalError) : String :=
  "expression error: " ++ e.detail

/-! ## Comparison -/

def compareValues (a b : Value) : Except EvalError Ordering :=
  match a.compare? b with
  | some ordering => .ok ordering
  | none => .error .incomparable

/-- The comparison that an operator makes; `&&` and `||` make none. -/
def BinaryOp.compare (op : BinaryOp) (a b : Value) : Except EvalError Bool :=
  match op with
  | .equal => .ok (a.equals b)
  | .notEqual => .ok (!a.equals b)
  | .less => (compareValues a b).map (· == .lt)
  | .lessEqual => (compareValues a b).map (· != .gt)
  | .greater => (compareValues a b).map (· == .gt)
  | .greaterEqual => (compareValues a b).map (· != .lt)
  | .and => .ok (a.isTruthy && b.isTruthy)
  | .or => .ok (a.isTruthy || b.isTruthy)

/-! ## Arguments -/

def oneArgument (function : String) (arguments : List Value) : Except EvalError Value :=
  match arguments with
  | [a] => .ok a
  | arguments => .error (.wrongArgumentCount function 1 arguments.length)

def twoArguments (function : String) (arguments : List Value) : Except EvalError (Value × Value) :=
  match arguments with
  | [a, b] => .ok (a, b)
  | arguments => .error (.wrongArgumentCount function 2 arguments.length)

def comparison (function : String) (op : BinaryOp) (arguments : List Value) :
    Except EvalError Value := do
  let (a, b) ← twoArguments function arguments
  return .bool (← op.compare a b)

/-! ## Membership and text -/

/-- Whether a value equals a candidate, or an item of a candidate that is an array. -/
def isAmong (needle : Value) (candidates : List Value) : Bool :=
  candidates.any fun candidate =>
    match candidate with
    | .array items => items.any needle.equals
    | other => needle.equals other

def membership (arguments : List Value) : Except EvalError Bool :=
  match arguments with
  | needle :: candidate :: candidates => .ok (isAmong needle (candidate :: candidates))
  | _ => .error (.tooFewArguments "in" 2)

def foldedChars (value : Value) : List Char :=
  (Text.lower value.asText).toList

/-- Whether an array holds a value, or the text of another value holds a text in any case. -/
def containsValue (haystack needle : Value) : Bool :=
  match haystack with
  | .array items => items.any (·.equals needle)
  | haystack => Text.occursIn (foldedChars needle) (foldedChars haystack)

def holdsAmongValues (collection needle : Value) : Bool :=
  match collection with
  | .array items => items.any (·.equals needle)
  | .object fields => fields.any (·.2.equals needle)
  | _ => false

/-- The placeholder of the argument at `index`. -/
def placeholder (index : Nat) : List Char :=
  Char.ofNat 123 :: (toString index).toList ++ [Char.ofNat 125]

/-- Put the arguments, from `index` on, one after another in the place of their placeholders. -/
def fillPlaceholders (index : Nat) (text : List Char) : List Value → List Char
  | [] => text
  | argument :: arguments =>
    fillPlaceholders (index + 1)
      (Text.replaceAll (placeholder index) argument.asText.toList text) arguments

def formatted (arguments : List Value) : Except EvalError Value :=
  match arguments with
  | [] => .error (.tooFewArguments "format" 1)
  | pattern :: arguments =>
    .ok (.string (String.ofList (fillPlaceholders 0 pattern.asText.toList arguments)))

def joined (separator value : Value) : Value :=
  match value with
  | .array items => .string (Text.joinWith separator.asText (items.map Value.asText))
  | other => .string other.asText

def lengthOf : Value → Except EvalError Nat
  | .null => .ok 0
  | .string text => .ok text.length
  | .array items => .ok items.length
  | .object fields => .ok fields.length
  | other => .error (.noLength other.asText)

/-- The first value that is neither null nor written as nothing. -/
def coalesced (arguments : List Value) : Value :=
  (arguments.find? fun value =>
    match value with
    | .null => false
    | value => value.asText != "").getD .null

/-! ## Statuses -/

/-- The statuses of the named nodes, or without names the implicit ones. -/
def statusesOf (view : StatusView) (arguments : List Value) : Except EvalError (List Status) :=
  match arguments with
  | [] => .ok view.implicit
  | arguments => arguments.mapM fun argument =>
    match view.named.get? argument.asText with
    | some status => .ok status
    | none => .error (.unknownDependency argument.asText)

/-! ## Calls -/

/-- The value of a call. -/
def callFunction (context : Context) (name : String) (arguments : List Value) :
    Except EvalError Value :=
  match Text.lower name with
  | "eq" => comparison "eq" .equal arguments
  | "ne" => comparison "ne" .notEqual arguments
  | "lt" => comparison "lt" .less arguments
  | "le" => comparison "le" .lessEqual arguments
  | "gt" => comparison "gt" .greater arguments
  | "ge" => comparison "ge" .greaterEqual arguments
  | "in" => (membership arguments).map .bool
  | "notin" => (membership arguments).map (.bool !·)
  | "not" => (oneArgument "not" arguments).map (.bool !·.isTruthy)
  | "xor" => (twoArguments "xor" arguments).map fun (a, b) => .bool (a.isTruthy != b.isTruthy)
  | "contains" => (twoArguments "contains" arguments).map fun (a, b) => .bool (containsValue a b)
  | "containsvalue" =>
    (twoArguments "containsValue" arguments).map fun (a, b) => .bool (holdsAmongValues a b)
  | "startswith" =>
    (twoArguments "startsWith" arguments).map fun (a, b) =>
      .bool (Text.startsWith (foldedChars b) (foldedChars a))
  | "endswith" =>
    (twoArguments "endsWith" arguments).map fun (a, b) =>
      .bool (Text.endsWith (foldedChars b) (foldedChars a))
  | "lower" => (oneArgument "lower" arguments).map (.string <| Text.lower ·.asText)
  | "upper" => (oneArgument "upper" arguments).map (.string <| Text.upper ·.asText)
  | "format" => formatted arguments
  | "join" => (twoArguments "join" arguments).map fun (a, b) => joined a b
  | "length" => do
    let count ← lengthOf (← oneArgument "length" arguments)
    return .number (.ofNat count)
  | "coalesce" => .ok (coalesced arguments)
  | "iif" =>
    match arguments with
    | [test, yes, no] => .ok (if test.isTruthy then yes else no)
    | arguments => .error (.wrongArgumentCount "iif" 3 arguments.length)
  | "always" => .ok (.bool true)
  | "canceled" => .ok (.bool context.status.canceled)
  | "succeeded" =>
    (statusesOf context.status arguments).map fun statuses =>
      .bool (!context.status.canceled && statuses.all Status.isSuccess)
  | "failed" =>
    (statusesOf context.status arguments).map fun statuses => .bool (statuses.any (· == .failed))
  | "succeededorfailed" =>
    (statusesOf context.status arguments).map fun statuses =>
      .bool (!context.status.canceled && statuses.all fun s => s.isSuccess || s == .failed)
  | _ => .error (.unknownFunction name)

end BuildPipeline.Expression
