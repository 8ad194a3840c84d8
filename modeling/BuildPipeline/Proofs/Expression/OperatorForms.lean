import BuildPipeline.Proofs.Expression.EvaluationTrace

/-!
# Functions and operators

Comparison and logic can be written in two ways, as calls and with operators.  The two take
different ways through the evaluation: an operator is a node with two operands, and a call has any
number of arguments, all of which are evaluated before the function sees them, except for those of
`and` and `or`.

* `evaluate_call_comparison` and `evaluate_call_not` are the two forms of a comparison and of a
  negation.
* `trace_call_chain` and `trace_chain` are the two forms of a conjunction or disjunction of any
  length, with their traces.  An inner link of a chain adds itself to the trace and nothing else
  (`traceUntil_cons_link`), so both come to the same list of operands.
* `function_and_operator_forms_agree` says that both forms have the same value or the same error,
  and that neither evaluates an operand behind the one that decides.
-/

namespace BuildPipeline.Expression

namespace BinaryOp

/-- The function that says the same as an operator. -/
def functionName : BinaryOp → String
  | equal => "eq"
  | notEqual => "ne"
  | less => "lt"
  | lessEqual => "le"
  | greater => "gt"
  | greaterEqual => "ge"
  | and => "and"
  | or => "or"

/-- Operands joined by an operator, from the left. -/
def chain (op : BinaryOp) (first : Expr) (rest : List Expr) : Expr :=
  rest.foldl (.binary op) first

/-- The chains that a chain is made of, itself first. -/
def links (op : BinaryOp) (first : Expr) : List Expr → List Expr
  | [] => []
  | second :: rest => op.links (.binary op first second) rest ++ [.binary op first second]

theorem lower_functionName (op : BinaryOp) : Text.lower op.functionName = op.functionName := by
  cases op <;> decide

theorem chain_cons (op : BinaryOp) (first second : Expr) (rest : List Expr) :
    op.chain first (second :: rest) = op.chain (.binary op first second) rest := rfl

end BinaryOp

variable {context : Context} {name : String} {op : BinaryOp} {decider : Bool}

/-! ## Comparison and negation -/

theorem callFunction_comparison (hname : Text.lower name = op.functionName)
    (hop : op.decider? = none) (a b : Value) :
    callFunction context name [a, b] = (op.compare a b).map .bool := by
  unfold callFunction
  cases op with
  | and | or => cases hop
  | _ =>
    simp only [hname, BinaryOp.functionName]
    rfl

theorem evaluate_call_comparison (hname : Text.lower name = op.functionName)
    (hop : op.decider? = none) (a b : Expr) :
    evaluate context (.call name [a, b]) = evaluate context (.binary op a b) := by
  have hcall (x y : Value) :
      callFunction context name [x, y] = (op.compare x y).map .bool :=
    callFunction_comparison hname hop x y
  cases op with
  | and | or => cases hop
  | _ =>
    simp only [evaluate, hname, BinaryOp.functionName, evaluateItems]
    cases evaluate context a with
    | error e => rfl
    | ok x =>
      cases evaluate context b with
      | error e => rfl
      | ok y => exact hcall x y

theorem evaluate_call_not (hname : Text.lower name = "not") (a : Expr) :
    evaluate context (.call name [a]) = evaluate context (.not a) := by
  have hcall (value : Value) :
      callFunction context name [value] = .ok (.bool !value.isTruthy) := by
    unfold callFunction
    simp only [hname]
    rfl
  simp only [evaluate, hname, evaluateItems]
  cases evaluate context a with
  | error e => rfl
  | ok value => exact hcall value

/-! ## Chains -/

theorem traceUntil_singleton (operand : Expr) :
    traceUntil context decider [operand] = Value.isTruthy <$> trace context operand := by
  rw [traceUntil_cons, map_eq_pure_bind]
  refine bind_congr fun value => ?_
  rw [traceUntil]
  cases value.isTruthy <;> cases decider <;> rfl

theorem trace_binary (hop : op.decider? = some decider) (left right : Expr) :
    trace context (.binary op left right) =
      .visit (.binary op left right) (.bool <$> traceUntil context decider [left, right]) := by
  rw [trace, traceUntil_cons, map_bind]
  refine congrArg _ (bind_congr fun a => ?_)
  simp only [hop]
  split
  · rw [map_pure]
  · rw [traceUntil_singleton, ← comp_map, map_eq_pure_bind]
    rfl

/-- A link at the head of the operands stands for its own operands. -/
theorem traceUntil_cons_link (hop : op.decider? = some decider) (left right : Expr)
    (rest : List Expr) :
    traceUntil context decider (.binary op left right :: rest) =
      .visit (.binary op left right) (traceUntil context decider (left :: right :: rest)) := by
  rw [traceUntil_cons, trace_binary hop, Traced.visit_bind, bind_map_left]
  exact congrArg _ (traceUntil_append_eq_bind [left, right] rest).symm

theorem trace_chain (hop : op.decider? = some decider) (first second : Expr) (rest : List Expr) :
    trace context (op.chain first (second :: rest)) =
      ⟨(traceUntil context decider (first :: second :: rest)).result.map .bool,
        op.links first (second :: rest) ++
          (traceUntil context decider (first :: second :: rest)).evaluated⟩ := by
  induction rest generalizing first second with
  | nil =>
    rw [BinaryOp.chain_cons, BinaryOp.chain, List.foldl_nil, trace_binary hop, Traced.visit,
      Traced.result_map, Traced.evaluated_map]
    rfl
  | cons third rest ih =>
    rw [BinaryOp.chain_cons, ih, traceUntil_cons_link hop]
    simp only [BinaryOp.links, Traced.result_visit, Traced.evaluated_visit, List.append_assoc,
      List.cons_append, List.nil_append]

theorem trace_call_chain (hop : op.decider? = some decider)
    (hname : Text.lower name = op.functionName) (first second : Expr) (rest : List Expr) :
    trace context (.call name (first :: second :: rest)) =
      .visit (.call name (first :: second :: rest))
        (.bool <$> traceUntil context decider (first :: second :: rest)) := by
  have hcount : ¬ (first :: second :: rest).length < 2 := by simp
  rw [trace]
  cases op <;> cases hop <;>
    simp only [hname, BinaryOp.functionName, if_neg hcount, map_eq_pure_bind]

/-! ## The two forms -/

/-- A comparison, a negation, and a conjunction or disjunction of any length have the same value or
the same error as calls and with operators, in whatever letter case the functions are written.  An
operand of `and` or `or` decides by its truth value or by its error.  Both forms end with the first
that does: the operands that they evaluate are this one and those in front of it. -/
theorem function_and_operator_forms_agree (context : Context) :
    (∀ op name a b, Text.lower name = BinaryOp.functionName op →
      evaluate context (.call name [a, b]) = evaluate context (.binary op a b)) ∧
    (∀ name a, Text.lower name = "not" →
      evaluate context (.call name [a]) = evaluate context (.not a)) ∧
    (∀ expression, (trace context expression).result = evaluate context expression) ∧
    ∀ op decider, BinaryOp.decider? op = some decider →
      ∀ name first second rest, Text.lower name = op.functionName →
        evaluate context (.call name (first :: second :: rest)) =
          evaluate context (op.chain first (second :: rest)) ∧
        ∀ before operand behind, first :: second :: rest = before ++ operand :: behind →
          (∀ other ∈ before, LeavesOpen context decider other) →
          ¬ LeavesOpen context decider operand →
          evaluate context (op.chain first (second :: rest)) =
            (evaluate context operand).map (fun _ => .bool decider) ∧
          evaluated context (.call name (first :: second :: rest)) =
            .call name (first :: second :: rest) ::
              (before ++ [operand]).flatMap (evaluated context) ∧
          evaluated context (op.chain first (second :: rest)) =
            op.links first (second :: rest) ++
              (before ++ [operand]).flatMap (evaluated context) := by
  have hchains {op : BinaryOp} {decider : Bool} (hop : op.decider? = some decider) {name : String}
      (hname : Text.lower name = op.functionName) (first second : Expr) (rest : List Expr) :
      evaluate context (.call name (first :: second :: rest)) =
        evaluate context (op.chain first (second :: rest)) := by
    rw [← result_trace, ← result_trace, trace_chain hop, trace_call_chain hop hname]
    exact Traced.result_map _ _
  refine ⟨fun op name a b hname => ?_, fun name a hname => evaluate_call_not hname a,
    result_trace context, fun op decider hop name first second rest hname =>
      ⟨hchains hop hname first second rest, ?_⟩⟩
  · cases hop : op.decider? with
    | none => exact evaluate_call_comparison hname hop a b
    | some decider => exact hchains hop hname a b []
  · intro before operand behind hsplit hbefore hdecides
    have hoperands := traceUntil_append hbefore hdecides behind
    rw [← hsplit] at hoperands
    rw [← result_trace, evaluated, evaluated, trace_chain hop, trace_call_chain hop hname,
      hoperands]
    refine ⟨?_, ?_, rfl⟩
    · cases evaluate context operand <;> rfl
    · rw [Traced.evaluated_visit, Traced.evaluated_map]

/-- Names in any letter case, and an operand that decides in front of one that has no value. -/
theorem function_and_operator_forms_agree_unknown :
    Text.lower "EQ" = BinaryOp.equal.functionName ∧
    evaluate {} (.call "EQ" [.string "a", .reference "unknown" []]) =
      evaluate {} (.binary .equal (.string "a") (.reference "unknown" [])) ∧
    Text.lower "Not" = "not" ∧
    evaluate {} (.call "Not" [.null]) = evaluate {} (.not .null) ∧
    BinaryOp.and.decider? = some false ∧
    Text.lower "And" = BinaryOp.and.functionName ∧
    LeavesOpen {} false (.bool true) ∧ ¬ LeavesOpen {} false .null ∧
    evaluate {} (.reference "unknown" []) = .error (.unrecognizedValue "unknown") ∧
    evaluate {} (.call "And" [.bool true, .null, .reference "unknown" []]) = .ok (.bool false) ∧
    evaluate {} (BinaryOp.and.chain (.bool true) [.null, .reference "unknown" []]) =
      .ok (.bool false) ∧
    evaluated {} (.call "And" [.bool true, .null, .reference "unknown" []]) =
      [.call "And" [.bool true, .null, .reference "unknown" []], .bool true, .null] := by
  have hequal : Text.lower "EQ" = BinaryOp.equal.functionName := by decide +kernel
  have hnot : Text.lower "Not" = "not" := by decide +kernel
  have hand : Text.lower "And" = BinaryOp.and.functionName := by decide +kernel
  have hopen : LeavesOpen {} false (.bool true) := ⟨.bool true, rfl, by decide⟩
  have hdecides : ¬ LeavesOpen {} false .null := by
    rintro ⟨value, hvalue, htruth⟩
    cases hvalue
    exact htruth rfl
  obtain ⟨hcomparisons, hnegations, -, hchains⟩ := function_and_operator_forms_agree {}
  obtain ⟨hforms, hoperands⟩ := hchains .and false rfl "And" (.bool true) .null
    [.reference "unknown" []] hand
  obtain ⟨hvalue, hcall, -⟩ := hoperands [.bool true] .null [.reference "unknown" []] rfl
    (by simpa using hopen) hdecides
  have hunknown : Text.lower "unknown" = "unknown" := by decide +kernel
  have hroot : Text.equalsIgnoringAsciiCase "unknown" "variables" = false := by decide
  refine ⟨hequal, hcomparisons .equal "EQ" _ _ hequal, hnot, hnegations "Not" _ hnot, rfl, hand,
    hopen, hdecides, ?_, hforms.trans hvalue, hvalue, hcall⟩
  simp [evaluate, hroot, rootValue, hunknown, Table.get?, bind, Except.bind]

end BuildPipeline.Expression
