import BuildPipeline.Expression.Evaluation

/-!
# What an evaluation looks at

The value of an expression does not tell which of its parts were evaluated for it.  A trace does: it
is an answer together with the expressions whose evaluation began on the way to it, in this order
and as often as it began.

* `trace` evaluates an expression as `evaluate` does and keeps the trace; `result_trace` says that
  the answer is the same one.
* `evaluated` is what the trace holds besides the answer.
* `traceUntil_append` says how far `&&`, `||` and the functions `and` and `or` go: they evaluate one
  operand after another up to the first that decides, and none behind it.
-/

namespace BuildPipeline.Expression

/-! ## Answers with their traces -/

/-- An answer and the expressions that were evaluated on the way to it. -/
structure Traced (α : Type) where
  result : Except EvalError α
  evaluated : List Expr

namespace Traced

variable {α β γ : Type}

/-- Go on with a value; an error ends the evaluation. -/
protected def bind (first : Traced α) (next : α → Traced β) : Traced β :=
  match first.result with
  | .ok a => ⟨(next a).result, first.evaluated ++ (next a).evaluated⟩
  | .error e => ⟨.error e, first.evaluated⟩

instance : Monad Traced where
  pure a := ⟨.ok a, []⟩
  bind := Traced.bind

/-- An answer for which no further expression is evaluated. -/
def ofResult (result : Except EvalError α) : Traced α :=
  ⟨result, []⟩

/-- Begin with the evaluation of an expression. -/
def visit (expression : Expr) (rest : Traced α) : Traced α :=
  ⟨rest.result, expression :: rest.evaluated⟩

@[simp]
theorem result_pure (a : α) : (pure a : Traced α).result = pure a := rfl

@[simp]
theorem result_ofResult (result : Except EvalError α) : (ofResult result).result = result := rfl

@[simp]
theorem result_visit (expression : Expr) (rest : Traced α) :
    (visit expression rest).result = rest.result := rfl

@[simp]
theorem evaluated_visit (expression : Expr) (rest : Traced α) :
    (visit expression rest).evaluated = expression :: rest.evaluated := rfl

theorem ok_bind (a : α) (seen : List Expr) (next : α → Traced β) :
    (⟨.ok a, seen⟩ : Traced α) >>= next = ⟨(next a).result, seen ++ (next a).evaluated⟩ := rfl

theorem error_bind (e : EvalError) (seen : List Expr) (next : α → Traced β) :
    (⟨.error e, seen⟩ : Traced α) >>= next = ⟨.error e, seen⟩ := rfl

@[simp]
theorem result_bind (first : Traced α) (next : α → Traced β) :
    (first >>= next).result = first.result >>= fun a => (next a).result := by
  obtain ⟨_ | _, _⟩ := first <;> rfl

theorem bind_assoc (first : Traced α) (next : α → Traced β) (last : β → Traced γ) :
    first >>= next >>= last = first >>= fun a => next a >>= last := by
  obtain ⟨_ | a, _⟩ := first
  · rfl
  · rw [ok_bind, ok_bind]
    obtain ⟨_ | b, _⟩ := next a
    · rfl
    · simp only [ok_bind, List.append_assoc]

instance : LawfulMonad Traced :=
  LawfulMonad.mk' Traced
    (fun x => by
      obtain ⟨_ | _, seen⟩ := x
      · rfl
      · exact congrArg (Traced.mk _) (List.append_nil seen))
    (fun _ _ => rfl)
    (fun first next last => bind_assoc first next last)

@[simp]
theorem result_map (f : α → β) (x : Traced α) : (f <$> x).result = f <$> x.result := by
  obtain ⟨_ | _, _⟩ := x <;> rfl

@[simp]
theorem evaluated_map (f : α → β) (x : Traced α) : (f <$> x).evaluated = x.evaluated := by
  obtain ⟨_ | _, seen⟩ := x
  · rfl
  · exact List.append_nil seen

theorem visit_bind (expression : Expr) (first : Traced α) (next : α → Traced β) :
    visit expression first >>= next = visit expression (first >>= next) := by
  obtain ⟨_ | _, _⟩ := first <;> rfl

end Traced

/-! ## Evaluation with a trace -/

/-- The truth value of an operand that decides a chain of the operator. -/
def BinaryOp.decider? : BinaryOp → Option Bool
  | and => some false
  | or => some true
  | _ => none

mutual

def trace (context : Context) : Expr → Traced Value
  | .null => .visit .null (pure .null)
  | .bool value => .visit (.bool value) (pure (.bool value))
  | .number value => .visit (.number value) (pure (.number value))
  | .string text => .visit (.string text) (pure (.string text))
  | .reference root path => .visit (.reference root path) <|
    if Text.equalsIgnoringAsciiCase root "variables" then do
      let parts ← traceNames context path
      return variableValue context parts
    else do
      let value ← .ofResult (rootValue context root)
      tracePath context value path
  | .call name arguments => .visit (.call name arguments) <|
    match Text.lower name with
    | "and" =>
      if arguments.length < 2 then .ofResult (.error (.tooFewArguments name 2))
      else do return .bool (← traceUntil context false arguments)
    | "or" =>
      if arguments.length < 2 then .ofResult (.error (.tooFewArguments name 2))
      else do return .bool (← traceUntil context true arguments)
    | _ => do
      let values ← traceItems context arguments
      .ofResult (callFunction context name values)
  | .index object key => .visit (.index object key) do
    let object ← trace context object
    let key ← trace context key
    .ofResult (indexValue object key)
  | .not operand => .visit (.not operand) do
    let value ← trace context operand
    return .bool !value.isTruthy
  | .binary op left right => .visit (.binary op left right) do
    let a ← trace context left
    match op.decider? with
    | some decider =>
      if a.isTruthy == decider then return .bool decider
      else return .bool (← trace context right).isTruthy
    | none =>
      let b ← trace context right
      return .bool (← .ofResult (op.compare a b))
  | .array items => .visit (.array items) do
    return .array (← traceItems context items)

def traceItems (context : Context) : List Expr → Traced (List Value)
  | [] => pure []
  | item :: items => do
    let value ← trace context item
    let values ← traceItems context items
    return value :: values

/-- Evaluate operands up to the first that is as truthy as `decider`. -/
def traceUntil (context : Context) (decider : Bool) : List Expr → Traced Bool
  | [] => pure !decider
  | operand :: operands => do
    let value ← trace context operand
    if value.isTruthy == decider then return decider else traceUntil context decider operands

def tracePath (context : Context) (value : Value) : List Accessor → Traced Value
  | [] => pure value
  | .property name :: path => tracePath context (memberValue value name) path
  | .element key :: path => do
    let key ← trace context key
    let next ← .ofResult (indexValue value key)
    tracePath context next path

def traceNames (context : Context) : List Accessor → Traced (List String)
  | [] => pure []
  | .property name :: path => do
    let names ← traceNames context path
    return name :: names
  | .element key :: path => do
    let key ← trace context key
    let names ← traceNames context path
    return key.asText :: names

end

/-- The expressions that are evaluated for an expression, which is the first of them. -/
def evaluated (context : Context) (expression : Expr) : List Expr :=
  (trace context expression).evaluated

/-! ## The same answers -/

theorem exceptMap_eq_map {α β : Type} (f : α → β) (x : Except EvalError α) :
    x.map f = f <$> x := rfl

mutual

/-- Keeping a trace changes no answer. -/
theorem result_trace (context : Context) (expression : Expr) :
    (trace context expression).result = evaluate context expression := by
  cases expression with
  | null | bool | number | string => rfl
  | reference root path =>
    simp only [trace, evaluate, Traced.result_visit]
    split
    · simp [result_traceNames context path]
    · simp [result_tracePath context _ path]
  | call name arguments =>
    simp only [trace, evaluate, Traced.result_visit]
    by_cases hand : Text.lower name = "and"
    · simp only [hand]
      split <;> simp [result_traceUntil_false context arguments, exceptMap_eq_map]
    · by_cases hor : Text.lower name = "or"
      · simp only [hor]
        split <;> simp [result_traceUntil_true context arguments, exceptMap_eq_map]
      · simp [result_traceItems context arguments]
  | index object key =>
    simp [trace, evaluate, result_trace context object, result_trace context key]
  | not operand => simp [trace, evaluate, result_trace context operand]
  | binary op left right =>
    cases op with
    | and | or =>
      simp only [trace, evaluate, BinaryOp.decider?, Traced.result_visit, Traced.result_bind,
        result_trace context left]
      refine bind_congr fun a => ?_
      cases a.isTruthy <;> simp [result_trace context right]
    | _ =>
      simp [trace, evaluate, BinaryOp.decider?, result_trace context left,
        result_trace context right]
  | array items => simp [trace, evaluate, result_traceItems context items, exceptMap_eq_map]

theorem result_traceItems (context : Context) (items : List Expr) :
    (traceItems context items).result = evaluateItems context items := by
  cases items with
  | nil => rfl
  | cons item items =>
    simp [traceItems, evaluateItems, result_trace context item, result_traceItems context items]

theorem result_traceUntil_false (context : Context) (operands : List Expr) :
    (traceUntil context false operands).result = evaluateAll context operands := by
  cases operands with
  | nil => rfl
  | cons operand operands =>
    simp only [traceUntil, evaluateAll, Traced.result_bind, result_trace context operand]
    refine bind_congr fun value => ?_
    cases value.isTruthy <;> simp [result_traceUntil_false context operands]

theorem result_traceUntil_true (context : Context) (operands : List Expr) :
    (traceUntil context true operands).result = evaluateAny context operands := by
  cases operands with
  | nil => rfl
  | cons operand operands =>
    simp only [traceUntil, evaluateAny, Traced.result_bind, result_trace context operand]
    refine bind_congr fun value => ?_
    cases value.isTruthy <;> simp [result_traceUntil_true context operands]

theorem result_tracePath (context : Context) (value : Value) (path : List Accessor) :
    (tracePath context value path).result = evaluatePath context value path := by
  cases path with
  | nil => rfl
  | cons step path =>
    cases step with
    | property name => simp [tracePath, evaluatePath, result_tracePath context _ path]
    | element key =>
      simp [tracePath, evaluatePath, result_trace context key, result_tracePath context _ path]

theorem result_traceNames (context : Context) (path : List Accessor) :
    (traceNames context path).result = evaluateNames context path := by
  cases path with
  | nil => rfl
  | cons step path =>
    cases step with
    | property name => simp [traceNames, evaluateNames, result_traceNames context path]
    | element key =>
      simp [traceNames, evaluateNames, result_trace context key, result_traceNames context path]

end

theorem trace_eq (context : Context) (expression : Expr) :
    trace context expression = ⟨evaluate context expression, evaluated context expression⟩ := by
  rw [← result_trace, evaluated]

/-! ## How far operands are evaluated -/

section Operands

variable {context : Context} {decider : Bool} {operand : Expr}

/-- An operand has a value that leaves the answer to the operands behind it. -/
def LeavesOpen (context : Context) (decider : Bool) (operand : Expr) : Prop :=
  ∃ value, evaluate context operand = .ok value ∧ value.isTruthy ≠ decider

theorem traceUntil_cons (context : Context) (decider : Bool) (operand : Expr)
    (operands : List Expr) :
    traceUntil context decider (operand :: operands) =
      trace context operand >>= fun value =>
        if value.isTruthy == decider then pure decider
        else traceUntil context decider operands := by
  rw [traceUntil]

theorem traceUntil_cons_of_leavesOpen (hopen : LeavesOpen context decider operand)
    (operands : List Expr) :
    traceUntil context decider (operand :: operands) =
      ⟨(traceUntil context decider operands).result,
        evaluated context operand ++ (traceUntil context decider operands).evaluated⟩ := by
  obtain ⟨value, hvalue, htruth⟩ := hopen
  rw [traceUntil_cons, trace_eq, hvalue, Traced.ok_bind, if_neg (by simpa using htruth)]

/-- An operand decides by its truth value or by having none. -/
theorem traceUntil_cons_of_not_leavesOpen (hdecides : ¬ LeavesOpen context decider operand)
    (operands : List Expr) :
    traceUntil context decider (operand :: operands) =
      ⟨(evaluate context operand).map fun _ => decider, evaluated context operand⟩ := by
  rw [traceUntil_cons, trace_eq]
  cases hvalue : evaluate context operand with
  | error e => rw [Traced.error_bind]; rfl
  | ok value =>
    have htruth : value.isTruthy = decider :=
      Decidable.not_not.mp fun hother => hdecides ⟨value, hvalue, hother⟩
    rw [Traced.ok_bind, if_pos (by simpa using htruth)]
    exact congrArg (Traced.mk _) (List.append_nil _)

/-- What stands behind the first operand that decides has no part in the answer and is not
evaluated. -/
theorem traceUntil_append {before : List Expr}
    (hbefore : ∀ operand ∈ before, LeavesOpen context decider operand)
    (hdecides : ¬ LeavesOpen context decider operand) (behind : List Expr) :
    traceUntil context decider (before ++ operand :: behind) =
      ⟨(evaluate context operand).map fun _ => decider,
        (before ++ [operand]).flatMap (evaluated context)⟩ := by
  induction before with
  | nil => simpa using traceUntil_cons_of_not_leavesOpen hdecides behind
  | cons first before ih =>
    obtain ⟨hfirst, hrest⟩ := List.forall_mem_cons.mp hbefore
    rw [List.cons_append, traceUntil_cons_of_leavesOpen hfirst, ih hrest]
    rfl

/-- A front of operands is evaluated as one operand is. -/
theorem traceUntil_append_eq_bind (front operands : List Expr) :
    traceUntil context decider (front ++ operands) =
      traceUntil context decider front >>= fun truth =>
        if truth == decider then pure decider else traceUntil context decider operands := by
  induction front with
  | nil =>
    rw [traceUntil, List.nil_append, pure_bind]
    cases decider <;> rfl
  | cons first front ih =>
    rw [List.cons_append, traceUntil_cons, traceUntil_cons, bind_assoc]
    refine bind_congr fun value => ?_
    split
    · cases decider <;> rfl
    · exact ih

end Operands

end BuildPipeline.Expression
