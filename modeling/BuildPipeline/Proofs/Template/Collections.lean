import BuildPipeline.Proofs.Template.StructuredParameters

/-!
# Going through a collection

The items of a sequence and the entries of a mapping are expanded by two loops.  Both hand the chain
of the directives on from one element to the next, and they differ in what an element adds to the
result, so they are two passes of one kind.

* `Pass` is such a loop; `itemsPass` and `entriesPass` are the two.  `result_itemsPass` and
  `result_entriesPass` say that they come to what `evaluateItems` and `evaluateEntries` come to.
* `Pass.result_append` cuts a pass in two, with the chain handed over at the cut.  A second part
  that does not go on with a chain does not look at it (`Pass.result_congr`).
* `sequences_expand_piecewise` is the result for sequences: they may be cut wherever no chain goes
  on, and an item that is an expression with a list as its value is replaced by the items of that
  list, whatever stands before it and behind it.
-/

namespace BuildPipeline.Template

open Expression

/-- The word of a directive that has its place behind an `if` or an `elseif` only. -/
def Directive.chainWord? : Directive → Option String
  | .elseIf _ => some "elseif"
  | .otherwise => some "else"
  | .onlyIf _ | .each _ _ => none

/-! ## Passes -/

/-- A loop over the elements of a collection that carries out the directives among them. -/
structure Pass (α β σ : Type) where
  /-- The directive that an element is. -/
  directive? : α → Option Directive
  /-- What the body of a directive contributes. -/
  branch : Scope → α → Except Error (List β)
  /-- The result with an element that is no directive. -/
  plain : Scope → σ → α → Except Error σ
  /-- The result with what a directive contributes. -/
  merge : σ → List β → σ
  merge_nil : ∀ result, merge result [] = result

namespace Pass

variable {α β σ : Type} {pass : Pass α β σ} {scope : Scope}

/-- The result with one more element, and the chain behind it. -/
def step (pass : Pass α β σ) (scope : Scope) (state : σ × Chain) (element : α) :
    Except Error (σ × Chain) :=
  match pass.directive? element with
  | some directive => do
    let (values, chain) ←
      scope.runDirective state.2 directive fun scope => pass.branch scope element
    return (pass.merge state.1 values, chain)
  | none => do return (← pass.plain scope state.1 element, none)

def run (pass : Pass α β σ) (scope : Scope) (state : σ × Chain) (elements : List α) :
    Except Error (σ × Chain) :=
  elements.foldlM (pass.step scope) state

/-- What comes of the elements. -/
def result (pass : Pass α β σ) (scope : Scope) (state : σ × Chain) (elements : List α) :
    Except Error σ :=
  Prod.fst <$> pass.run scope state elements

/-- The first element is a directive that goes on with a chain. -/
def GoesOn (pass : Pass α β σ) (elements : List α) : Prop :=
  ∃ first ∈ elements.head?, ∃ directive ∈ pass.directive? first, directive.chainWord? ≠ none

theorem step_directive {element : α} {directive : Directive} (state : σ × Chain)
    (hdirective : pass.directive? element = some directive) :
    pass.step scope state element =
      Prod.map (pass.merge state.1) id <$>
        scope.runDirective state.2 directive fun scope => pass.branch scope element := by
  simp only [step, hdirective, map_eq_pure_bind]
  rfl

theorem step_plain {element : α} (state : σ × Chain) (hplain : pass.directive? element = none) :
    pass.step scope state element = (·, none) <$> pass.plain scope state.1 element := by
  simp only [step, hplain, map_eq_pure_bind]

@[simp]
theorem result_nil (state : σ × Chain) : pass.result scope state [] = .ok state.1 :=
  rfl

theorem result_cons (state : σ × Chain) (element : α) (rest : List α) :
    pass.result scope state (element :: rest) =
      pass.step scope state element >>= fun next => pass.result scope next rest := by
  simp only [result, run, List.foldlM_cons, map_bind]

theorem result_append (state : σ × Chain) (elements rest : List α) :
    pass.result scope state (elements ++ rest) =
      pass.run scope state elements >>= fun next => pass.result scope next rest := by
  simp only [result, run, List.foldlM_append, map_bind]

/-! ## Where a chain does not matter -/

theorem not_goesOn_of_plain {element : α} (rest : List α)
    (hplain : pass.directive? element = none) : ¬ pass.GoesOn (element :: rest) := by
  rintro ⟨first, hfirst, directive, hdirective, -⟩
  obtain rfl : element = first := Option.some.inj hfirst
  cases hplain.symm.trans hdirective

/-- Only a directive that goes on with a chain looks at it. -/
theorem runDirective_congr {directive : Directive} (hfresh : directive.chainWord? = none)
    (chain other : Chain) (body : Scope → Except Error (List β)) :
    scope.runDirective chain directive body = scope.runDirective other directive body := by
  cases directive with
  | onlyIf condition => rfl
  | each name collection => rfl
  | elseIf condition => cases hfresh
  | otherwise => cases hfresh

theorem result_congr {elements : List α} (hfresh : ¬ pass.GoesOn elements) (target : σ)
    (chain other : Chain) :
    pass.result scope (target, chain) elements = pass.result scope (target, other) elements := by
  cases elements with
  | nil => rfl
  | cons element rest =>
      rw [result_cons, result_cons]
      cases hdirective : pass.directive? element with
      | none => rw [step_plain _ hdirective, step_plain _ hdirective]
      | some directive =>
          have hword : directive.chainWord? = none := by
            by_contra hgoes
            exact hfresh ⟨element, rfl, directive, hdirective, hgoes⟩
          rw [step_directive _ hdirective, step_directive _ hdirective,
            runDirective_congr hword chain other]

/-- A collection may be cut where no chain goes on. -/
theorem result_append_of_fresh {elements rest : List α} (hfresh : ¬ pass.GoesOn rest)
    (state : σ × Chain) :
    pass.result scope state (elements ++ rest) =
      pass.result scope state elements >>= fun target => pass.result scope (target, none) rest := by
  rw [result_append, result, bind_map_left]
  exact bind_congr fun next => result_congr hfresh next.1 next.2 none

/-- Behind an element that is no directive there is no chain. -/
theorem result_plain {element : α} (hplain : pass.directive? element = none) (state : σ × Chain)
    (rest : List α) :
    pass.result scope state (element :: rest) =
      pass.plain scope state.1 element >>= fun target => pass.result scope (target, none) rest := by
  rw [result_cons, step_plain state hplain, bind_map_left]

end Pass

/-! ## Sequences and mappings -/

/-- The items of a sequence, one behind the other. -/
def itemsPass : Pass Yaml.Value Yaml.Value (List Yaml.Value) where
  directive? := Directive.ofItem?
  branch := evaluateBranch
  plain scope result item := (result ++ ·) <$> evaluateItem scope item
  merge := (· ++ ·)
  merge_nil := List.append_nil

/-- The entries of a mapping, set one after the other. -/
def entriesPass : Pass (Yaml.Value × Yaml.Value) (Yaml.Value × Yaml.Value) Yaml.Entries where
  directive? entry := Directive.ofYamlKey? entry.1
  branch scope entry := evaluateMerged scope entry.2
  plain scope target entry := do
    let key ← scope.evaluateKey entry.1
    let value ← evaluate scope entry.2
    return Yaml.Value.insert key value target
  merge := setAll
  merge_nil _ := rfl

theorem result_itemsPass (scope : Scope) (chain : Chain) (result items : List Yaml.Value) :
    itemsPass.result scope (result, chain) items =
      (result ++ ·) <$> evaluateItems scope chain items := by
  induction items generalizing chain result with
  | nil => simp [evaluateItems]
  | cons item rest ih =>
      -- The loop hands on what it has so far, the recursion puts it in front at the end.
      rw [Pass.result_cons, evaluateItems]
      cases hitem : Directive.ofItem? item with
      | some directive =>
          have hstep : itemsPass.step scope (result, chain) item =
              Prod.map (result ++ ·) id <$>
                scope.runDirective chain directive fun scope => evaluateBranch scope item :=
            Pass.step_directive (result, chain) hitem
          simp [hstep, ih, bind_map_left]
      | none =>
          have hstep : itemsPass.step scope (result, chain) item =
              (·, none) <$> (result ++ ·) <$> evaluateItem scope item :=
            Pass.step_plain (result, chain) hitem
          simp [hstep, ih, bind_map_left]

theorem result_entriesPass (scope : Scope) (chain : Chain) (target entries : Yaml.Entries) :
    entriesPass.result scope (target, chain) entries =
      evaluateEntries scope chain target entries := by
  induction entries generalizing chain target with
  | nil => rw [evaluateEntries, Pass.result_nil]
  | cons entry rest ih =>
      obtain ⟨key, value⟩ := entry
      rw [Pass.result_cons, evaluateEntries]
      cases hkey : Directive.ofYamlKey? key with
      | some directive =>
          have hstep : entriesPass.step scope (target, chain) (key, value) =
              Prod.map (setAll target) id <$>
                scope.runDirective chain directive fun scope => evaluateMerged scope value :=
            Pass.step_directive (target, chain) hkey
          simp [hstep, ih, bind_map_left]
      | none =>
          have hstep : entriesPass.step scope (target, chain) (key, value) =
              (·, none) <$> (do
                let key ← scope.evaluateKey key
                let value ← evaluate scope value
                return Yaml.Value.insert key value target) :=
            Pass.step_plain (target, chain) hkey
          simp [hstep, ih, bind_map_left]

/-- A sequence starts with nothing. -/
theorem evaluateItems_eq (scope : Scope) (chain : Chain) (items : List Yaml.Value) :
    evaluateItems scope chain items = itemsPass.result scope ([], chain) items := by
  rw [result_itemsPass]
  simp

/-! ## Cutting a sequence -/

/-- An item that is one expression with a list as its value. -/
theorem evaluateItem_of_list {scope : Scope} {text expression : String} {values : List Value}
    (hsole : soleExpansion? text = some expression)
    (hvalues : scope.eval expression = .ok (.array values)) :
    evaluateItem scope (.string text) = .ok (Value.itemsToYaml values) := by
  rw [evaluateItem, Scope.evaluateText_of_sole hsole, hvalues, hsole]
  rfl

/-- A sequence may be cut in front of any item that does not go on with a chain: the parts are
expanded one after the other, and the first error is the error of the whole.  An item that is one
expression with a list as its value contributes the items of that list as they are, whatever they
are, and what stands before it and behind it is expanded as if it were not there. -/
theorem sequences_expand_piecewise (scope : Scope) (items rest : List Yaml.Value) :
    (¬ itemsPass.GoesOn rest →
      evaluateItems scope none (items ++ rest) = do
        let values ← evaluateItems scope none items
        let others ← evaluateItems scope none rest
        return values ++ others) ∧
    ∀ text expression list, soleExpansion? text = some expression →
      scope.eval expression = .ok (.array list) →
      evaluateItems scope none (items ++ .string text :: rest) = do
        let values ← evaluateItems scope none items
        let others ← evaluateItems scope none rest
        return values ++ Value.itemsToYaml list ++ others := by
  have hcut {rest : List Yaml.Value} (hfresh : ¬ itemsPass.GoesOn rest) :
      evaluateItems scope none (items ++ rest) = do
        let values ← evaluateItems scope none items
        let others ← evaluateItems scope none rest
        return values ++ others := by
    rw [evaluateItems_eq, Pass.result_append_of_fresh hfresh, ← evaluateItems_eq]
    simp only [result_itemsPass, map_eq_pure_bind]
  refine ⟨hcut, fun text expression list hsole hlist => ?_⟩
  -- A text is no directive, so the sequence may be cut in front of it, and behind it as well.
  have hplain : Directive.ofItem? (.string text) = none := rfl
  have hfresh : ¬ itemsPass.GoesOn (.string text :: rest) := Pass.not_goesOn_of_plain rest hplain
  have hitem : itemsPass.plain scope [] (.string text) = .ok (Value.itemsToYaml list) := by
    change ([] ++ ·) <$> evaluateItem scope (.string text) = _
    rw [evaluateItem_of_list hsole hlist]
    rfl
  have hbehind : evaluateItems scope none (.string text :: rest) =
      (Value.itemsToYaml list ++ ·) <$> evaluateItems scope none rest := by
    rw [evaluateItems_eq, Pass.result_plain hplain, hitem, ← result_itemsPass]
    rfl
  rw [hcut hfresh, hbehind]
  simp

/-- A step with a command. -/
def plainStep (command : String) : Yaml.Value :=
  .mapping [(.string "script", .string command)]

theorem ofItem?_plainStep (command : String) : Directive.ofItem? (plainStep command) = none := by
  have hkey : Directive.ofYamlKey? (.string "script") = none := by decide
  exact hkey

/-- The command of a step is filled in, and the items behind it are expanded as if it were not there.
-/
theorem evaluateItems_step {scope : Scope} {command result : String}
    (hcommand : scope.evaluateText command = .ok (.string result)) (chain : Chain)
    (rest : List Yaml.Value) :
    evaluateItems scope chain (plainStep command :: rest) =
      (plainStep result :: ·) <$> evaluateItems scope none rest := by
  have hname : scope.interpolate "script" = .ok "script" := by
    have hdollar : ∀ c ∈ "script".toList, c ≠ '$' := by simp
    have hcopied := Scope.interpolateChars_append_of_not_dollar scope [] hdollar
    rw [Scope.interpolateChars_nil] at hcopied
    exact Scope.interpolate_eq_ok_iff.mpr hcopied
  have hkey : scope.evaluateKey (.string "script") = .ok (.string "script") := by
    rw [Scope.evaluateKey, hname]
    rfl
  have hdirective : Directive.ofYamlKey? (.string "script") = none := ofItem?_plainStep command
  have hitem : evaluateItem scope (plainStep command) = .ok [plainStep result] := by
    simp only [plainStep, evaluateItem, evaluateEntries, hdirective, hkey, evaluate, hcommand]
    rfl
  rw [evaluateItems, ofItem?_plainStep]
  simp only [hitem, map_eq_pure_bind]
  rfl

theorem evaluateItems_plainStep (scope : Scope) (command : String)
    (hplain : hasExpansion command = false) :
    evaluateItems scope none [plainStep command] = .ok [plainStep command] := by
  have hcommand : scope.evaluateText command = .ok (.string command) := by
    rw [Scope.evaluateText, hplain]
    rfl
  rw [evaluateItems_step hcommand, evaluateItems]
  rfl

namespace Publication

/-- A step that looks like a text still to be filled in. -/
def extraSteps : List Value :=
  [.object [("script", .string "echo $\x7b\x7b parameters.steps \x7d\x7d")]]

def scope : Scope :=
  ⟨{ parameters := [("steps", .array extraSteps)] }, "publish.yml"⟩

theorem eval_steps : scope.eval (parameterReference "steps") = .ok (.array extraSteps) := by
  rw [Scope.eval, evaluateText_parameterReference Release.isPropertyName_steps rfl]
  rfl

end Publication

/-- Two steps may be expanded apart, and steps that are put in between them stand there as they are.
-/
theorem sequences_expand_piecewise_publication :
    ¬ itemsPass.GoesOn [plainStep "publish artifacts"] ∧
      soleExpansion? (parameterSpan "steps") = some (parameterReference "steps") ∧
      Publication.scope.eval (parameterReference "steps") = .ok (.array Publication.extraSteps) ∧
      evaluateItems Publication.scope none
          [plainStep "publish docs", plainStep "publish artifacts"] =
        .ok [plainStep "publish docs", plainStep "publish artifacts"] ∧
      evaluateItems Publication.scope none
          [plainStep "publish docs", .string (parameterSpan "steps"),
            plainStep "publish artifacts"] =
        .ok [plainStep "publish docs",
          plainStep "echo $\x7b\x7b parameters.steps \x7d\x7d",
          plainStep "publish artifacts"] := by
  have hsole := soleExpansion?_parameterReference Release.isPropertyName_steps
  have hfresh : ¬ itemsPass.GoesOn [plainStep "publish artifacts"] :=
    Pass.not_goesOn_of_plain [] (ofItem?_plainStep "publish artifacts")
  have hdocs := evaluateItems_plainStep Publication.scope "publish docs" (by decide +kernel)
  have hartifacts :=
    evaluateItems_plainStep Publication.scope "publish artifacts" (by decide +kernel)
  obtain ⟨hcut, hlist⟩ := sequences_expand_piecewise Publication.scope
    [plainStep "publish docs"] [plainStep "publish artifacts"]
  refine ⟨hfresh, hsole, Publication.eval_steps, ?_, ?_⟩
  · have hparts := hcut hfresh
    rw [hdocs, hartifacts] at hparts
    exact hparts
  · have hparts := hlist _ _ _ hsole Publication.eval_steps
    rw [hdocs, hartifacts] at hparts
    exact hparts

end BuildPipeline.Template
