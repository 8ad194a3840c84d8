import BuildPipeline.Proofs.Template.Visits

/-!
# Loop variables

An `each` expands its body once for every value of its collection, with its variable bound to that
value.  Loops stand inside each other, and one may bind a name that another one has bound, or that
means something outside of loops.

* `rootValue_inside` says what a name stands for inside of loops: the value of the innermost loop
  over it, and what it means outside if there is none.
* `evaluateItems_each` and `evaluateEntries_each` are the loops in sequences and in mappings.
* `loop_variables_shadow` is the result.  There is one name, in whatever case it is written, that is
  never read as a loop variable: `variables` is looked for before the loops are
  (`loop_over_variables_is_not_read`).
-/

namespace BuildPipeline.Template

open Expression

/-! ## Names inside of loops -/

section Names

variable (scope : Scope) (bindings : Bindings) (name : String) (path : List Accessor)

theorem rootValue_withLocal (context : Context) (variableName : String) (value : Expression.Value) :
    rootValue (context.withLocal variableName value) name =
      if variableName = name then .ok value else rootValue context name := by
  unfold rootValue
  rw [Context.withLocal, Table.get?_insert]
  split_ifs <;> rfl

theorem rootValue_inside :
    rootValue (scope.inside bindings).context name =
      match bindings.lookup name with
      | some value => .ok value
      | none => rootValue scope.context name := by
  induction bindings with
  | nil => rfl
  | cons binding bindings ih =>
      obtain ⟨variableName, value⟩ := binding
      refine (rootValue_withLocal name _ variableName value).trans ?_
      rw [List.lookup_cons]
      by_cases hname : variableName = name
      · simp [hname]
      · have hother : (name == variableName) = false := by simpa using Ne.symm hname
        rw [if_neg hname, hother]
        exact ih

/-- The variables of a run are the same inside of loops. -/
theorem variableValue_inside (parts : List String) :
    variableValue (scope.inside bindings).context parts = variableValue scope.context parts := by
  have hvars : (scope.inside bindings).context.vars = scope.context.vars := by
    induction bindings with
    | nil => rfl
    | cons binding bindings ih => exact ih
  simp only [variableValue, hvars]

variable {name}

theorem evaluate_reference_inside
    (hname : Text.equalsIgnoringAsciiCase name "variables" = false) :
    Expression.evaluate (scope.inside bindings).context (.reference name path) =
      (match bindings.lookup name with
        | some value => .ok value
        | none => rootValue scope.context name) >>= fun root =>
          evaluatePath (scope.inside bindings).context root path := by
  rw [Expression.evaluate, hname, ← rootValue_inside]
  rfl

theorem evaluate_variables_inside (hname : Text.equalsIgnoringAsciiCase name "variables" = true) :
    Expression.evaluate (scope.inside bindings).context (.reference name path) =
      variableValue scope.context <$> evaluateNames (scope.inside bindings).context path := by
  rw [Expression.evaluate, hname, map_eq_pure_bind]
  exact bind_congr fun parts => congrArg _ (variableValue_inside scope bindings parts)

end Names

/-! ## Loops -/

/-- A loop in a sequence expands its body with its variable bound to one value after the other; what
stands behind it is expanded in the scope that the loop stands in. -/
theorem evaluateItems_each (scope : Scope) (chain : Chain) {item : Yaml.Value}
    {name collection : String} (hitem : Directive.ofItem? item = some (.each name collection))
    (rest : List Yaml.Value) :
    evaluateItems scope chain (item :: rest) = do
      let values ← scope.iterate collection
      let contributions ← values.mapM fun value =>
        evaluateItems (scope.withLocal name value) none (itemsUnder item)
      let others ← evaluateItems scope none rest
      return contributions.flatten ++ others := by
  rw [evaluateItems, hitem]
  simp only [Scope.runDirective, bind_assoc, pure_bind, evaluateBranch_eq]

theorem evaluateEntries_each (scope : Scope) (chain : Chain) (target : Yaml.Entries)
    {entry : Yaml.Value × Yaml.Value} {name collection : String}
    (hentry : Directive.ofYamlKey? entry.1 = some (.each name collection))
    (rest : Yaml.Entries) :
    evaluateEntries scope chain target (entry :: rest) = (do
      let values ← scope.iterate collection
      let contributions ← values.mapM fun value =>
        evaluateMerged (scope.withLocal name value) entry.2
      evaluateEntries scope none (setAll target contributions.flatten) rest) := by
  obtain ⟨key, body⟩ := entry
  rw [evaluateEntries, hentry]
  simp only [Scope.runDirective, bind_assoc, pure_bind]

/-! ## The result -/

/-- A loop expands its body with its variable bound to one value after the other, and what stands
behind the loop is expanded as if it were not there.  Every expression that an expansion visits is
evaluated with the bindings of the loops around it, and the expansion depends on nothing else.  With
these bindings a name stands for what the innermost loop over it has bound it to, whatever else has
the name; a name that no loop around it binds stands for what it means outside of them.  Only a
spelling of `variables` is never looked for among the loop variables: it stands for the variables of
the run, inside of loops as outside. -/
theorem loop_variables_shadow (scope : Scope) :
    (∀ chain item rest name collection, Directive.ofItem? item = some (.each name collection) →
      evaluateItems scope chain (item :: rest) = do
        let values ← scope.iterate collection
        let contributions ← values.mapM fun value =>
          evaluateItems (scope.withLocal name value) none (itemsUnder item)
        let others ← evaluateItems scope none rest
        return contributions.flatten ++ others) ∧
      (∀ chain target entry rest name collection,
        Directive.ofYamlKey? entry.1 = some (.each name collection) →
          evaluateEntries scope chain target (entry :: rest) = do
            let values ← scope.iterate collection
            let contributions ← values.mapM fun value =>
              evaluateMerged (scope.withLocal name value) entry.2
            evaluateEntries scope none (setAll target contributions.flatten) rest) ∧
      (∀ part bindings expression, Visits scope part bindings expression → part.Expands scope →
        ∃ value, (scope.inside bindings).eval expression = .ok value) ∧
      (∀ part other, scope.file = other.file →
        (∀ bindings expression, Visits scope part bindings expression →
          (scope.inside bindings).eval expression = (other.inside bindings).eval expression) →
        part.SameIn scope other) ∧
      (∀ bindings name path, Text.equalsIgnoringAsciiCase name "variables" = false →
        Expression.evaluate (scope.inside bindings).context (.reference name path) =
          (match bindings.lookup name with
            | some value => .ok value
            | none => rootValue scope.context name) >>= fun root =>
              evaluatePath (scope.inside bindings).context root path) ∧
      ∀ bindings name path, Text.equalsIgnoringAsciiCase name "variables" = true →
        Expression.evaluate (scope.inside bindings).context (.reference name path) =
          variableValue scope.context <$> evaluateNames (scope.inside bindings).context path :=
  ⟨fun chain _ rest _ _ hitem => evaluateItems_each scope chain hitem rest,
    fun chain target _ rest _ _ hentry => evaluateEntries_each scope chain target hentry rest,
    fun _ _ _ hvisits hexpands => hvisits.evaluates hexpands,
    fun part _ hfile hsame => sameIn_of_visits hfile part hsame,
    fun bindings _ path hname => evaluate_reference_inside scope bindings path hname,
    fun bindings _ path hname => evaluate_variables_inside scope bindings path hname⟩

namespace Linting

def checks : List Value := [.string "lint", .string "format"]

/-- A tool with its checks. -/
def tool : Value := .object [("checks", .array checks), ("name", .string "ruff")]

/-- The tools as a parameter. -/
def scope : Scope :=
  ⟨{ parameters := [("tools", .array [tool])] }, "pipeline.yml"⟩

/-- The scope inside of a loop over the tools. -/
def toolScope : Scope := scope.inside [("item", tool)]

/-- Some items under a directive. -/
def under (directive : String) (items : List Yaml.Value) : Yaml.Value :=
  .mapping [(.string (writeExpansion directive), .sequence items)]

def run : String := "run $\x7b\x7b item \x7d\x7d"

def report : String := "report $\x7b\x7b item.name \x7d\x7d"

/-- The report where the loop over the tools binds `variables`. -/
def misnamedReport : String := "report $\x7b\x7b variables.name \x7d\x7d"

/-- A step for each check of a tool. -/
def checking : Yaml.Value := under "each item in item.checks" [plainStep run]

/-- The checks of each tool and a report behind them.  Both loops bind the same name. -/
def reporting : Yaml.Value :=
  under "each item in parameters.tools" [checking, plainStep report]

/-- An entry for each tool. -/
def flags : Yaml.Value × Yaml.Value :=
  (.string (writeExpansion "each item in parameters.tools"),
    .mapping [(.string (writeExpansion "item.name"), .bool true)])

/-- A text that no loop variable stands in. -/
def listing : Part := .node (.string (writeExpansion "parameters.tools"))

def misnamed : Yaml.Value :=
  under "each variables in parameters.tools" [plainStep misnamedReport]

theorem spans :
    tokenize "parameters.tools" = .ok [.identifier "parameters", .dot, .identifier "tools"] ∧
      tokenize "item.checks" = .ok [.identifier "item", .dot, .identifier "checks"] ∧
      soleExpansion? (writeExpansion "parameters.tools") = some "parameters.tools" ∧
      hasExpansion run = true ∧ soleExpansion? run = none := by
  decide +kernel

theorem fillings :
    (toolScope.withLocal "item" (.string "lint")).evaluateText run = .ok (.string "run lint") ∧
      (toolScope.withLocal "item" (.string "format")).evaluateText run =
        .ok (.string "run format") ∧
      toolScope.evaluateText report = .ok (.string "report ruff") ∧
      toolScope.evaluateKey (.string (writeExpansion "item.name")) = .ok (.string "ruff") ∧
      (scope.withLocal "variables" tool).evaluateText misnamedReport =
        .ok (.string "report ") :=
  ⟨eq_ok_of_toOption (by decide +kernel), eq_ok_of_toOption (by decide +kernel),
    eq_ok_of_toOption (by decide +kernel), eq_ok_of_toOption (by decide +kernel),
    eq_ok_of_toOption (by decide +kernel)⟩

theorem eval_tools (bindings : Bindings) (hname : bindings.lookup "parameters" = none) :
    (scope.inside bindings).eval "parameters.tools" = .ok (.array [tool]) := by
  have hvariables : Text.equalsIgnoringAsciiCase "parameters" "variables" = false := by decide
  have hparse : parse "parameters.tools" = .ok (.reference "parameters" [.property "tools"]) := by
    rw [parse, spans.1]
    rfl
  rw [Scope.eval, evaluateText, hparse]
  dsimp only
  rw [evaluate_reference_inside scope bindings _ hvariables, hname, rootValue, lower_parameters]
  rfl

theorem iterate_tools : scope.iterate "parameters.tools" = .ok [tool] := by
  have heval : scope.eval "parameters.tools" = .ok (.array [tool]) := eval_tools [] rfl
  rw [Scope.iterate, heval]
  rfl

/-- There is only one tool to go through. -/
theorem go_through_tools {body : Value → Except Error (List Yaml.Value)}
    {values : List Yaml.Value} (hbody : body tool = .ok values) :
    (do
      let tools ← scope.iterate "parameters.tools"
      let contributions ← tools.mapM body
      let others ← evaluateItems scope none []
      return contributions.flatten ++ others) = .ok values := by
  have hcontributions : [tool].mapM body = .ok [values] := by
    rw [List.mapM_cons, List.mapM_nil, hbody]
    rfl
  rw [iterate_tools, evaluateItems]
  simp only [bind, Except.bind, hcontributions]
  exact congrArg Except.ok (by simp)

theorem iterate_checks : toolScope.iterate "item.checks" = .ok checks := by
  have hname : Text.equalsIgnoringAsciiCase "item" "variables" = false := by decide
  have hparse : parse "item.checks" = .ok (.reference "item" [.property "checks"]) := by
    rw [parse, spans.2.1]
    rfl
  have heval : toolScope.eval "item.checks" = .ok (.array checks) := by
    rw [Scope.eval, evaluateText, hparse]
    dsimp only
    rw [toolScope, evaluate_reference_inside scope _ _ hname]
    rfl
  rw [Scope.iterate, heval]
  rfl

/-- All that the listing visits is the parameter, which is the same inside of the loop. -/
theorem eval_of_visits_listing {bindings : Bindings} {expression : String}
    (hvisits : Visits scope listing bindings expression) :
    (scope.inside bindings).eval expression = (toolScope.inside bindings).eval expression := by
  obtain ⟨-, -, hsole, -⟩ := spans
  cases hvisits with
  | sole hexpression =>
      obtain rfl : "parameters.tools" = expression :=
        Option.some.inj (hsole.symm.trans hexpression)
      rw [Scope.inside_nil, Scope.inside_nil, toolScope]
      exact (eval_tools [] rfl).trans (eval_tools [("item", tool)] rfl).symm
  | span hspans hnone hfills => cases hsole.symm.trans hnone

/-- Inside of the second loop the name is a check, behind it the tool. -/
theorem evaluateItems_checking :
    evaluateItems toolScope none [checking, plainStep report] =
      .ok [plainStep "run lint", plainStep "run format", plainStep "report ruff"] := by
  obtain ⟨hlint, hformat, hreport, -⟩ := fillings
  have hloop : Directive.ofItem? checking = some (.each "item" "item.checks") := by decide
  have hbody : itemsUnder checking = [plainStep run] := rfl
  have hchecks : (checks.mapM fun check =>
      evaluateItems (toolScope.withLocal "item" check) none [plainStep run]) =
        .ok [[plainStep "run lint"], [plainStep "run format"]] := by
    rw [checks, List.mapM_cons, List.mapM_cons, evaluateItems_step hlint,
      evaluateItems_step hformat]
    simp only [evaluateItems]
    rfl
  rw [evaluateItems_each toolScope none hloop, iterate_checks, hbody, evaluateItems_step hreport,
    evaluateItems]
  simp only [bind, Except.bind, hchecks]
  rfl

theorem evaluateMerged_flags :
    evaluateMerged toolScope flags.2 = .ok [(.string "ruff", .bool true)] := by
  obtain ⟨-, -, -, hname, -⟩ := fillings
  have hkey : Directive.ofYamlKey? (.string (writeExpansion "item.name")) = none := by decide
  simp only [flags, evaluateMerged, evaluateEntries, hkey, hname, evaluate]
  rfl

/-- The expansion of the report comes to the check, inside of both loops. -/
theorem visits_check :
    Visits scope (.sequence [reporting]) [("item", .string "lint"), ("item", tool)] "item" := by
  obtain ⟨-, -, -, hspans, hsole⟩ := spans
  have houter : itemsPass.Meets scope [] [] reporting none (.each "item" "parameters.tools") :=
    ⟨by decide, [], rfl⟩
  have hinner : itemsPass.Meets toolScope [] [] checking none (.each "item" "item.checks") :=
    ⟨by decide, [], rfl⟩
  have hfills : FillsIn run.toList "item" := by
    have htext : run.toList =
        ['r', 'u', 'n', ' '] ++ (expansionMark ++ " item \x7d\x7d".toList) := by
      decide
    have hclose : closeBraces? false " item \x7d\x7d".toList = some (" item ".toList, []) := by
      decide
    have hbody : trimmedBody " item ".toList = "item" := by decide
    have hopen := FillsIn.here hclose
    rw [hbody] at hopen
    rw [htext]
    exact .later (by decide) (.later (by decide) (.later (by decide) (.later (by decide) hopen)))
  have hstep (scope : Scope) : Visits scope (.sequence [plainStep run]) [] "item" := by
    have hcommand : Visits scope (.node (.string run)) [] "item" := .span hspans hsole hfills
    exact .item [] [] (ofItem?_plainStep run)
      (.mapping (.entry [] [] (ofItem?_plainStep run) hcommand))
  have hcheck := Visits.itemBody [] [plainStep report] hinner
    (.each iterate_checks List.mem_cons_self) (hstep _)
  exact Visits.itemBody [] [] houter (.each iterate_tools (List.mem_singleton.mpr rfl)) hcheck

end Linting

/-- Inside of the second loop the name is a check, behind it the tool again, in a sequence as in a
mapping. -/
theorem loop_variables_shadow_linting :
    Directive.ofItem? Linting.reporting = some (.each "item" "parameters.tools") ∧
      evaluateItems Linting.scope none [Linting.reporting] =
        .ok [plainStep "run lint", plainStep "run format", plainStep "report ruff"] ∧
      Directive.ofYamlKey? Linting.flags.1 = some (.each "item" "parameters.tools") ∧
      evaluateEntries Linting.scope none [] [Linting.flags] =
        .ok [(.string "ruff", .bool true)] ∧
      Visits Linting.scope (.sequence [Linting.reporting])
        [("item", .string "lint"), ("item", Linting.tool)] "item" ∧
      (∃ value, (Linting.scope.inside [("item", .string "lint"), ("item", Linting.tool)]).eval
        "item" = .ok value) ∧
      Linting.listing.SameIn Linting.scope Linting.toolScope ∧
      Text.equalsIgnoringAsciiCase "item" "variables" = false ∧
      Expression.evaluate
          (Linting.scope.inside [("item", .string "lint"), ("item", Linting.tool)]).context
          (.reference "item" []) = .ok (.string "lint") ∧
      Text.equalsIgnoringAsciiCase "Variables" "variables" = true ∧
      Expression.evaluate (Linting.scope.inside [("Variables", Linting.tool)]).context
          (.reference "Variables" [.property "name"]) = .ok (.string "") := by
  have hitem : Directive.ofItem? Linting.reporting = some (.each "item" "parameters.tools") := by
    decide
  have hentry : Directive.ofYamlKey? Linting.flags.1 = some (.each "item" "parameters.tools") := by
    decide
  have hname : Text.equalsIgnoringAsciiCase "item" "variables" = false := by decide
  have hvariables : Text.equalsIgnoringAsciiCase "Variables" "variables" = true := by decide
  obtain ⟨hsequence, hmapping, hvisits, hsame, hreads, hmissed⟩ :=
    loop_variables_shadow Linting.scope
  have hexpands : evaluateItems Linting.scope none [Linting.reporting] =
      .ok [plainStep "run lint", plainStep "run format", plainStep "report ruff"] :=
    (hsequence none _ [] _ _ hitem).trans
      (Linting.go_through_tools Linting.evaluateItems_checking)
  refine ⟨hitem, hexpands, hentry, ?_, Linting.visits_check,
    hvisits _ _ _ Linting.visits_check ⟨_, hexpands⟩,
    hsame Linting.listing Linting.toolScope rfl fun _ _ => Linting.eval_of_visits_listing,
    hname, ?_, hvariables, ?_⟩
  · have hcontributions : [Linting.tool].mapM (fun tool =>
        evaluateMerged (Linting.scope.withLocal "item" tool) Linting.flags.2) =
          .ok [[(.string "ruff", .bool true)]] := by
      rw [List.mapM_cons, List.mapM_nil]
      change (evaluateMerged Linting.toolScope Linting.flags.2 >>= _) = _
      rw [Linting.evaluateMerged_flags]
      rfl
    rw [hmapping none [] _ [] _ _ hentry, Linting.iterate_tools]
    simp only [bind, Except.bind, hcontributions, evaluateEntries]
    rfl
  · rw [hreads _ _ _ hname]
    rfl
  · rw [hmissed _ _ _ hvariables]
    rfl

/-- A loop over `variables` binds the tool, but a reference in its body reads the variables of the
run, where there is no name. -/
theorem loop_over_variables_is_not_read :
    Directive.ofItem? Linting.misnamed = some (.each "variables" "parameters.tools") ∧
      Linting.scope.iterate "parameters.tools" = .ok [Linting.tool] ∧
      (Linting.scope.withLocal "variables" Linting.tool).context.locals.get? "variables" =
        some Linting.tool ∧
      memberValue Linting.tool "name" = .string "ruff" ∧
      evaluateItems Linting.scope none [Linting.misnamed] = .ok [plainStep "report "] := by
  obtain ⟨-, -, -, -, hreport⟩ := Linting.fillings
  have hitem : Directive.ofItem? Linting.misnamed =
      some (.each "variables" "parameters.tools") := by
    decide
  have hbody : evaluateItems (Linting.scope.withLocal "variables" Linting.tool) none
      (itemsUnder Linting.misnamed) = .ok [plainStep "report "] := by
    have hitems : itemsUnder Linting.misnamed = [plainStep Linting.misnamedReport] := rfl
    rw [hitems, evaluateItems_step hreport, evaluateItems]
    rfl
  refine ⟨hitem, Linting.iterate_tools, rfl, rfl, ?_⟩
  rw [evaluateItems_each Linting.scope none hitem]
  exact Linting.go_through_tools hbody

end BuildPipeline.Template
