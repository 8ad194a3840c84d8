import BuildPipeline.Proofs.Expression.Lexemes
import BuildPipeline.Proofs.Run.Moves

/-!
# The default condition

A node without a condition of its own runs on `succeeded()`.  The condition is a text like any
other: it is read as a call without arguments, and the call is evaluated against the statuses that
the dependencies of the node ended with.

* `evaluateCondition_default` takes the text through lexer, parser and evaluation in any context.
* `JobWork.decision_default` and `StageWork.decision_default` say what this means for a released
  node: it runs exactly if the run was not cancelled and every dependency was successful.  Such a
  decision never fails.
-/

namespace BuildPipeline

namespace Expression

theorem conditionBody_default : conditionBody defaultCondition = "succeeded()" := by
  decide

theorem lower_succeeded : Text.lower "succeeded" = "succeeded" := by
  decide

theorem parse_succeeded : parse "succeeded()" = .ok (.call "succeeded" []) := by
  have hlist : "succeeded()".toList =
      ['s', 'u', 'c', 'c', 'e', 'e', 'd', 'e', 'd', '(', ')'] := by
    decide
  have hword : readToken 's' ['u', 'c', 'c', 'e', 'e', 'd', 'e', 'd', '(', ')'] =
      .ok (.identifier "succeeded", ['(', ')']) := by
    decide
  have htokens : tokenize "succeeded()" =
      .ok [.identifier "succeeded", .leftParen, .rightParen] := by
    rw [tokenize_eq_ok_iff, hlist]
    refine .lexeme (by decide) hword (.lexeme (by decide) rfl (.lexeme (by decide) rfl ?_))
    exact .blanks fun _ hmem => nomatch hmem
  rw [parse, htokens]
  rfl

theorem callFunction_succeeded (context : Context) :
    callFunction context "succeeded" [] =
      .ok (.bool (!context.status.canceled && context.status.implicit.all Status.isSuccess)) := by
  unfold callFunction
  simp only [lower_succeeded]
  rfl

/-- The default condition asks for the end of all implicit nodes, and for no cancellation. -/
theorem evaluateCondition_default (context : Context) :
    evaluateCondition context defaultCondition =
      .ok (!context.status.canceled && context.status.implicit.all Status.isSuccess) := by
  rw [evaluateCondition, conditionBody_default, evaluateText, parse_succeeded]
  simp [evaluate, evaluateItems, lower_succeeded, callFunction_succeeded, Except.map,
    Value.isTruthy, bind, Except.bind]

end Expression

/-! ## Decisions on released nodes -/

theorem implicit_foldl_addDependency (dependencies : List (String × Status × Table String))
    (context : Expression.Context) :
    (dependencies.foldl
        (fun context (name, status, outputs) => context.addDependency name status outputs)
        context).status.implicit =
      context.status.implicit ++ dependencies.map (·.2.1) := by
  induction dependencies generalizing context with
  | nil => simp
  | cons dependency rest ih =>
      rw [List.foldl_cons, ih, List.map_cons, ← List.singleton_append, ← List.append_assoc]
      rfl

/-- A node without a condition runs exactly if no dependency was unsuccessful. -/
theorem evaluateCondition_startContext (setup : Setup) (environment : Environment)
    (canceled : Bool) (dependencies : List (String × Status × Table String)) :
    Expression.evaluateCondition (setup.startContext environment canceled dependencies)
        defaultCondition =
      .ok (!canceled && dependencies.all (·.2.1.isSuccess)) := by
  have himplicit : (setup.startContext environment canceled dependencies).status.implicit =
      dependencies.map (·.2.1) :=
    implicit_foldl_addDependency dependencies setup.context
  rw [Expression.evaluateCondition_default, himplicit, List.all_map]
  rfl

theorem JobWork.decision_default {setup : Setup} {environment : Environment} {shared : Shared}
    {node : JobNode} (hdefault : node.job.condition = none) (dependencies : List JobResult) :
    decision setup environment shared node dependencies =
      .ok (!shared.canceled && dependencies.all (·.status.isSuccess)) := by
  rw [decision, hdefault, Option.getD_none, startContext, evaluateCondition_startContext,
    List.all_map]
  rfl

theorem StageWork.decision_default {setup : Setup} {environment : Environment} {shared : Shared}
    {node : StageNode} (hdefault : node.stage.condition = none)
    (dependencies : List StageResult) :
    decision setup environment shared node dependencies =
      .ok (!shared.canceled && dependencies.all (·.status.isSuccess)) := by
  rw [decision, hdefault, Option.getD_none, startContext, evaluateCondition_startContext,
    List.all_map]
  rfl

/-- If the default condition does not skip a node, all its dependencies were successful. -/
theorem forall_isSuccess_of_ne_ok_false {α : Type} {status : α → Status} {canceled : Bool}
    {dependencies : List α}
    (hdecision : (.ok (!canceled && dependencies.all fun dependency =>
      (status dependency).isSuccess) : Except Expression.EvalError Bool) ≠ .ok false) :
    ∀ dependency ∈ dependencies, (status dependency).isSuccess = true := by
  rw [Ne, Except.ok.injEq, Bool.not_eq_false, Bool.and_eq_true] at hdecision
  exact List.all_eq_true.mp hdecision.2

end BuildPipeline
