import BuildPipeline.Proofs.Template.Conditionals

/-!
# What an expansion evaluates

An expansion goes down through sequences and mappings, conditions and loops, and evaluates the
expressions that it meets on the way.  Below a loop it does so with the variable of the loop bound
to one value after the other, so what an expression sees is the scope of the document and the
bindings of all loops around it.

* `Scope.inside` adds such bindings to a scope.
* `Visits` follows an expansion down to an expression and keeps the bindings on the way.
* `Visits.evaluates`: an expression that is visited is evaluated with these bindings, for where it
  has no value with them the expansion is an error.
* `sameIn_of_visits`: nothing else is evaluated, for in another scope an expansion comes to the same
  if the expressions that are visited do.
-/

namespace BuildPipeline.Template

open Expression

/-! ## Bindings -/

/-- The variables of the loops around a place and their values, the innermost loop first. -/
abbrev Bindings := List (String × Expression.Value)

def Scope.inside (scope : Scope) (bindings : Bindings) : Scope :=
  bindings.foldr (fun binding scope => scope.withLocal binding.1 binding.2) scope

@[simp]
theorem Scope.inside_nil (scope : Scope) : scope.inside [] = scope := rfl

theorem Scope.inside_append (scope : Scope) (inner outer : Bindings) :
    scope.inside (inner ++ outer) = (scope.inside outer).inside inner :=
  List.foldr_append

@[simp]
theorem Scope.file_inside (scope : Scope) (bindings : Bindings) :
    (scope.inside bindings).file = scope.file := by
  induction bindings with
  | nil => rfl
  | cons binding bindings ih => exact ih

/-! ## Expressions of texts and directives -/

/-- Filling in the spans of a text evaluates this expression. -/
inductive FillsIn : List Char → String → Prop
  | here {span body after : List Char} (hclose : closeBraces? false span = some (body, after)) :
      FillsIn (expansionMark ++ span) (trimmedBody body)
  | behind {span body after : List Char} {expression : String}
      (hclose : closeBraces? false span = some (body, after)) (hafter : FillsIn after expression) :
      FillsIn (expansionMark ++ span) expression
  | later {c : Char} {rest : List Char} {expression : String}
      (hmark : ¬ expansionMark <+: c :: rest) (hrest : FillsIn rest expression) :
      FillsIn (c :: rest) expression

theorem FillsIn.evaluates {scope : Scope} {text result : List Char} {expression : String}
    (hfills : FillsIn text expression) (htext : scope.interpolateChars text = .ok result) :
    ∃ value, scope.eval expression = .ok value := by
  induction hfills generalizing result with
  | here hclose =>
      rw [Scope.interpolateChars_expansionMark, hclose] at htext
      obtain ⟨value, hvalue, -⟩ := bind_eq_ok_iff.mp htext
      exact ⟨value, hvalue⟩
  | behind hclose hafter ih =>
      rw [Scope.interpolateChars_expansionMark, hclose] at htext
      obtain ⟨value, -, hrest⟩ := bind_eq_ok_iff.mp htext
      obtain ⟨others, hothers, -⟩ := exists_of_map_eq_ok hrest
      exact ih hothers
  | later hmark hrest ih =>
      rw [Scope.interpolateChars_of_not_mark hmark] at htext
      obtain ⟨others, hothers, -⟩ := exists_of_map_eq_ok htext
      exact ih hothers

theorem interpolateChars_congr {scope other : Scope} : ∀ (text : List Char)
    (_ : ∀ expression, FillsIn text expression → scope.eval expression = other.eval expression),
    scope.interpolateChars text = other.interpolateChars text
  | [], _ => by rw [Scope.interpolateChars_nil, Scope.interpolateChars_nil]
  | c :: rest, hsame => by
      by_cases hmark : expansionMark <+: c :: rest
      · obtain ⟨span, hspan⟩ := hmark
        rw [← hspan] at hsame ⊢
        rw [Scope.interpolateChars_expansionMark, Scope.interpolateChars_expansionMark]
        cases hclose : closeBraces? false span with
        | none => rfl
        | some parts =>
            obtain ⟨body, after⟩ := parts
            have hshorter : after.length < (c :: rest).length := by
              have hafter := closeBraces?_length hclose
              rw [← hspan, List.length_append]
              exact Nat.lt_of_le_of_lt hafter (Nat.lt_add_of_pos_left (by decide))
            dsimp only
            rw [hsame _ (.here hclose),
              interpolateChars_congr after fun _ hfills => hsame _ (.behind hclose hfills)]
      · rw [Scope.interpolateChars_of_not_mark hmark, Scope.interpolateChars_of_not_mark hmark,
          interpolateChars_congr rest fun _ hfills => hsame _ (.later hmark hfills)]
termination_by text => text.length
decreasing_by
  · exact hshorter
  · exact Nat.lt_succ_self _

/-- The expression that a directive evaluates behind this chain. -/
def Directive.expression? (chain : Chain) : Directive → Option String
  | .onlyIf condition => some condition
  | .elseIf condition => if chain = some false then some condition else none
  | .otherwise => none
  | .each _ collection => some collection

/-- Behind this chain a directive expands its body with these bindings added. -/
inductive Scope.Runs (scope : Scope) (chain : Chain) : Directive → Bindings → Prop
  | onlyIf {condition : String} (hholds : scope.holds condition = .ok true) :
      Runs scope chain (.onlyIf condition) []
  | elseIf {condition : String} (huntaken : chain = some false)
      (hholds : scope.holds condition = .ok true) : Runs scope chain (.elseIf condition) []
  | otherwise (huntaken : chain = some false) : Runs scope chain .otherwise []
  | each {name collection : String} {values : List Expression.Value} {value : Expression.Value}
      (hvalues : scope.iterate collection = .ok values) (hvalue : value ∈ values) :
      Runs scope chain (.each name collection) [(name, value)]

section Directives

variable {α β : Type} {scope : Scope} {chain : Chain} {directive : Directive}
  {body : Scope → Except Error (List α)} {result : List α × Chain}

/-- Behind a chain without a branch that was taken an `elseif` is an `if`. -/
theorem runDirective_elseIf_untaken (scope : Scope) (condition : String)
    (body : Scope → Except Error (List α)) :
    scope.runDirective (some false) (.elseIf condition) body =
      scope.runDirective (some false) (.onlyIf condition) body :=
  rfl

/-- A condition that expands was evaluated, and where it holds its body expands. -/
theorem exists_of_runDirective_onlyIf {condition : String}
    (hrun : scope.runDirective chain (.onlyIf condition) body = .ok result) :
    (∃ value, scope.eval condition = .ok value) ∧
      (scope.holds condition = .ok true → ∃ values, body scope = .ok values) := by
  obtain ⟨holds, hholds, hrun⟩ := bind_eq_ok_iff.mp hrun
  obtain ⟨value, hvalue, -⟩ := bind_eq_ok_iff.mp hholds
  refine ⟨⟨value, hvalue⟩, fun htrue => ?_⟩
  cases hholds.symm.trans htrue
  obtain ⟨values, hvalues, -⟩ := bind_eq_ok_iff.mp hrun
  exact ⟨values, hvalues⟩

theorem exists_eval_of_runDirective {expression : String}
    (hexpression : directive.expression? chain = some expression)
    (hrun : scope.runDirective chain directive body = .ok result) :
    ∃ value, scope.eval expression = .ok value := by
  cases directive with
  | onlyIf condition =>
      cases hexpression
      exact (exists_of_runDirective_onlyIf hrun).1
  | elseIf condition =>
      -- No branch was taken yet, so the condition is looked at.
      rw [Directive.expression?, Option.ite_none_right_eq_some] at hexpression
      obtain ⟨rfl, hcondition⟩ := hexpression
      cases hcondition
      rw [runDirective_elseIf_untaken] at hrun
      exact (exists_of_runDirective_onlyIf hrun).1
  | otherwise => cases hexpression
  | each name collection =>
      cases hexpression
      obtain ⟨values, hvalues, -⟩ := bind_eq_ok_iff.mp hrun
      obtain ⟨value, hvalue, -⟩ := bind_eq_ok_iff.mp hvalues
      exact ⟨value, hvalue⟩

/-- Where all inputs succeed together, each one does. -/
theorem exists_of_mapM_eq_ok {f : α → Except Error β} {inputs : List α} {results : List β}
    (hresults : inputs.mapM f = .ok results) : ∀ input ∈ inputs, ∃ value, f input = .ok value := by
  induction inputs generalizing results with
  | nil => exact fun _ hmem => absurd hmem List.not_mem_nil
  | cons input inputs ih =>
      rw [List.mapM_cons] at hresults
      obtain ⟨first, hfirst, hresults⟩ := bind_eq_ok_iff.mp hresults
      obtain ⟨others, hothers, -⟩ := bind_eq_ok_iff.mp hresults
      exact List.forall_mem_cons.mpr ⟨⟨first, hfirst⟩, ih hothers⟩

theorem Scope.Runs.exists_body {bindings : Bindings} (hruns : scope.Runs chain directive bindings)
    (hrun : scope.runDirective chain directive body = .ok result) :
    ∃ values, body (scope.inside bindings) = .ok values := by
  cases hruns with
  | onlyIf hholds => exact (exists_of_runDirective_onlyIf hrun).2 hholds
  | elseIf huntaken hholds =>
      subst huntaken
      rw [runDirective_elseIf_untaken] at hrun
      exact (exists_of_runDirective_onlyIf hrun).2 hholds
  | otherwise huntaken =>
      subst huntaken
      obtain ⟨taken, htaken, hrun⟩ := bind_eq_ok_iff.mp hrun
      cases htaken
      obtain ⟨values, hvalues, -⟩ := bind_eq_ok_iff.mp hrun
      exact ⟨values, hvalues⟩
  | each hvalues hvalue =>
      obtain ⟨values, hiterated, hrun⟩ := bind_eq_ok_iff.mp hrun
      cases hiterated.symm.trans hvalues
      obtain ⟨contributions, hcontributions, -⟩ := bind_eq_ok_iff.mp hrun
      exact exists_of_mapM_eq_ok hcontributions _ hvalue

theorem mapM_congr {f g : α → Except Error β} {inputs : List α}
    (hsame : ∀ input ∈ inputs, f input = g input) : inputs.mapM f = inputs.mapM g := by
  induction inputs with
  | nil => rfl
  | cons input inputs ih =>
      obtain ⟨hinput, hinputs⟩ := List.forall_mem_cons.mp hsame
      rw [List.mapM_cons, List.mapM_cons, hinput, ih hinputs]

section Congr

variable {other : Scope} (hfile : scope.file = other.file)

theorem holds_congr {condition : String} (heval : scope.eval condition = other.eval condition) :
    scope.holds condition = other.holds condition := by
  rw [Scope.holds, Scope.holds, heval]

include hfile in
theorem fail_congr (problem : Problem) : scope.fail (α := α) problem = other.fail problem := by
  rw [Scope.fail, Scope.fail, hfile]

include hfile in
theorem iterate_congr {collection : String}
    (heval : scope.eval collection = other.eval collection) :
    scope.iterate collection = other.iterate collection := by
  unfold Scope.iterate
  rw [heval]
  refine bind_congr fun value => ?_
  cases value <;> first | rfl | exact fail_congr hfile _

theorem runDirective_onlyIf_congr_scope {condition : String}
    (heval : scope.eval condition = other.eval condition)
    (hbody : scope.holds condition = .ok true → body scope = body other) :
    scope.runDirective chain (.onlyIf condition) body =
      other.runDirective chain (.onlyIf condition) body := by
  simp only [Scope.runDirective, ← holds_congr heval]
  cases hholds : scope.holds condition with
  | error error => rfl
  | ok holds =>
      cases holds with
      | false => rfl
      | true =>
          exact congrArg (· >>= fun values => pure (values, some true)) (hbody hholds)

include hfile in
theorem runDirective_congr_scope
    (hexpression : ∀ expression, directive.expression? chain = some expression →
      scope.eval expression = other.eval expression)
    (hbody : ∀ bindings, scope.Runs chain directive bindings →
      body (scope.inside bindings) = body (other.inside bindings)) :
    scope.runDirective chain directive body = other.runDirective chain directive body := by
  cases directive with
  | onlyIf condition =>
      exact runDirective_onlyIf_congr_scope (hexpression _ rfl) fun hholds => hbody [] (.onlyIf hholds)
  | elseIf condition =>
      match chain with
      | none => exact congrArg (· >>= _) (fail_congr hfile _)
      | some true => rfl
      | some false =>
          rw [runDirective_elseIf_untaken, runDirective_elseIf_untaken]
          exact runDirective_onlyIf_congr_scope (hexpression _ rfl) fun hholds =>
            hbody [] (.elseIf rfl hholds)
  | otherwise =>
      match chain with
      | none => exact congrArg (· >>= _) (fail_congr hfile _)
      | some true => rfl
      | some false =>
          have hsame : body scope = body other := hbody [] (.otherwise rfl)
          exact congrArg (· >>= fun values => pure (values, none)) hsame
  | each name collection =>
      simp only [Scope.runDirective, ← iterate_congr hfile (hexpression collection rfl)]
      cases hvalues : scope.iterate collection with
      | error error => rfl
      | ok values =>
          have hsame : (values.mapM fun value => body (scope.withLocal name value)) =
              values.mapM fun value => body (other.withLocal name value) :=
            mapM_congr fun value hvalue => hbody [(name, value)] (.each hvalues hvalue)
          exact congrArg (· >>= fun results => pure (results.flatten, none)) hsame

end Congr

end Directives

/-! ## Elements of a collection -/

namespace Pass

variable {α β σ : Type} {pass : Pass α β σ} {scope : Scope} {start found : σ}
  {before after : List α} {element : α}

/-- Behind these elements a pass comes to this directive with this chain. -/
structure Meets (pass : Pass α β σ) (scope : Scope) (start : σ) (before : List α) (element : α)
    (chain : Chain) (directive : Directive) : Prop where
  isDirective : pass.directive? element = some directive
  comes : ∃ target, pass.run scope (start, none) before = .ok (target, chain)

theorem exists_step (hresult : pass.result scope (start, none) (before ++ element :: after) =
      .ok found) :
    ∃ state next, pass.run scope (start, none) before = .ok state ∧
      pass.step scope state element = .ok next := by
  rw [result_append] at hresult
  obtain ⟨state, hstate, hresult⟩ := bind_eq_ok_iff.mp hresult
  rw [result_cons] at hresult
  obtain ⟨next, hnext, -⟩ := bind_eq_ok_iff.mp hresult
  exact ⟨state, next, hstate, hnext⟩

theorem exists_plain (hplain : pass.directive? element = none)
    (hresult : pass.result scope (start, none) (before ++ element :: after) = .ok found) :
    ∃ target next, pass.plain scope target element = .ok next := by
  obtain ⟨state, next, -, hnext⟩ := exists_step hresult
  rw [step_plain state hplain] at hnext
  obtain ⟨target, htarget, -⟩ := exists_of_map_eq_ok hnext
  exact ⟨state.1, target, htarget⟩

theorem Meets.exists_runDirective {chain : Chain} {directive : Directive}
    (hmeets : pass.Meets scope start before element chain directive)
    (hresult : pass.result scope (start, none) (before ++ element :: after) = .ok found) :
    ∃ result, (scope.runDirective chain directive fun scope => pass.branch scope element) =
      .ok result := by
  obtain ⟨state, next, hstate, hnext⟩ := exists_step hresult
  obtain ⟨target, htarget⟩ := hmeets.comes
  obtain rfl : state = (target, chain) := Except.ok.inj (hstate.symm.trans htarget)
  rw [step_directive _ hmeets.isDirective] at hnext
  obtain ⟨result, hrun, -⟩ := exists_of_map_eq_ok hnext
  exact ⟨result, hrun⟩

/-- Two scopes come to the same if every step is the same that is reached in one of them. -/
theorem run_congr {other : Scope} {elements : List α} {state : σ × Chain}
    (hsame : ∀ before element after, elements = before ++ element :: after → ∀ next,
      pass.run scope state before = .ok next →
        pass.step scope next element = pass.step other next element) :
    pass.run scope state elements = pass.run other state elements := by
  induction elements generalizing state with
  | nil => rfl
  | cons first rest ih =>
      rw [run, List.foldlM_cons, run, List.foldlM_cons, ← hsame [] first rest rfl state rfl]
      cases hstep : pass.step scope state first with
      | error error => rfl
      | ok next =>
          refine ih fun before element after hsplit reached hrun => ?_
          refine hsame (first :: before) element after (by rw [hsplit]; rfl) reached ?_
          rw [run, List.foldlM_cons, hstep]
          exact hrun

theorem step_directive_congr {other : Scope} (hfile : scope.file = other.file) {state : σ × Chain}
    {directive : Directive} (hdirective : pass.directive? element = some directive)
    (hexpression : ∀ expression, directive.expression? state.2 = some expression →
      scope.eval expression = other.eval expression)
    (hbody : ∀ bindings, scope.Runs state.2 directive bindings →
      pass.branch (scope.inside bindings) element = pass.branch (other.inside bindings) element) :
    pass.step scope state element = pass.step other state element := by
  rw [step_directive state hdirective, step_directive state hdirective,
    runDirective_congr_scope hfile hexpression hbody]

end Pass

/-! ## The course of an expansion -/

/-- What is expanded at a place: a value, or the elements of a collection. -/
inductive Part where
  | node (value : Yaml.Value)
  | sequence (items : List Yaml.Value)
  | mapping (entries : Yaml.Entries)

/-- The expansion of a part in a scope is no error. -/
def Part.Expands (scope : Scope) : Part → Prop
  | .node value => ∃ result, evaluate scope value = .ok result
  | .sequence items => ∃ values, evaluateItems scope none items = .ok values
  | .mapping entries => ∃ result, evaluateEntries scope none [] entries = .ok result

/-- The entries under a key. -/
def entriesUnder : Yaml.Value → Yaml.Entries
  | .mapping entries => entries
  | _ => []

/-- The expansion of a part comes to this expression, inside of loops with these bindings. -/
inductive Visits : Scope → Part → Bindings → String → Prop
  | sole {scope : Scope} {text expression : String}
      (hsole : soleExpansion? text = some expression) :
      Visits scope (.node (.string text)) [] expression
  | span {scope : Scope} {text expression : String} (hspans : hasExpansion text = true)
      (hsole : soleExpansion? text = none) (hfills : FillsIn text.toList expression) :
      Visits scope (.node (.string text)) [] expression
  | sequence {scope : Scope} {items : List Yaml.Value} {bindings : Bindings} {expression : String}
      (hitems : Visits scope (.sequence items) bindings expression) :
      Visits scope (.node (.sequence items)) bindings expression
  | mapping {scope : Scope} {entries : Yaml.Entries} {bindings : Bindings} {expression : String}
      (hentries : Visits scope (.mapping entries) bindings expression) :
      Visits scope (.node (.mapping entries)) bindings expression
  | item {scope : Scope} (before after : List Yaml.Value) {item : Yaml.Value}
      {bindings : Bindings} {expression : String} (hplain : Directive.ofItem? item = none)
      (hitem : Visits scope (.node item) bindings expression) :
      Visits scope (.sequence (before ++ item :: after)) bindings expression
  | itemDirective {scope : Scope} (before after : List Yaml.Value) {item : Yaml.Value}
      {chain : Chain} {directive : Directive} {expression : String}
      (hmeets : itemsPass.Meets scope [] before item chain directive)
      (hexpression : directive.expression? chain = some expression) :
      Visits scope (.sequence (before ++ item :: after)) [] expression
  | itemBody {scope : Scope} (before after : List Yaml.Value) {item : Yaml.Value} {chain : Chain}
      {directive : Directive} {inner outer : Bindings} {expression : String}
      (hmeets : itemsPass.Meets scope [] before item chain directive)
      (hruns : scope.Runs chain directive outer)
      (hbody : Visits (scope.inside outer) (.sequence (itemsUnder item)) inner expression) :
      Visits scope (.sequence (before ++ item :: after)) (inner ++ outer) expression
  | key {scope : Scope} (before after : Yaml.Entries) {text expression : String}
      {value : Yaml.Value} (hplain : Directive.ofYamlKey? (.string text) = none)
      (hfills : FillsIn text.toList expression) :
      Visits scope (.mapping (before ++ (.string text, value) :: after)) [] expression
  | entry {scope : Scope} (before after : Yaml.Entries) {key value : Yaml.Value}
      {bindings : Bindings} {expression : String} (hplain : Directive.ofYamlKey? key = none)
      (hvalue : Visits scope (.node value) bindings expression) :
      Visits scope (.mapping (before ++ (key, value) :: after)) bindings expression
  | entryDirective {scope : Scope} (before after : Yaml.Entries) {key value : Yaml.Value}
      {chain : Chain} {directive : Directive} {expression : String}
      (hmeets : entriesPass.Meets scope [] before (key, value) chain directive)
      (hexpression : directive.expression? chain = some expression) :
      Visits scope (.mapping (before ++ (key, value) :: after)) [] expression
  | entryBody {scope : Scope} (before after : Yaml.Entries) {key value : Yaml.Value}
      {chain : Chain} {directive : Directive} {inner outer : Bindings} {expression : String}
      (hmeets : entriesPass.Meets scope [] before (key, value) chain directive)
      (hruns : scope.Runs chain directive outer)
      (hbody : Visits (scope.inside outer) (.mapping (entriesUnder value)) inner expression) :
      Visits scope (.mapping (before ++ (key, value) :: after)) (inner ++ outer) expression

section Course

variable {scope : Scope} {chain : Chain} {directive : Directive}

/-- The items that the value of an item stands for: a list for its own where the item is a text that
is one expression, and otherwise the value for one. -/
def spliced (item result : Yaml.Value) : List Yaml.Value :=
  match item, result with
  | .string text, .sequence values =>
    if (soleExpansion? text).isSome then values else [.sequence values]
  | _, result => [result]

theorem evaluateItem_eq (scope : Scope) (item : Yaml.Value) :
    evaluateItem scope item = spliced item <$> evaluate scope item := by
  cases item with
  | string text =>
      rw [evaluateItem, evaluate]
      rw [map_eq_pure_bind]
      refine bind_congr fun value => ?_
      cases value with
      | sequence values =>
          simp only [spliced]
          cases (soleExpansion? text).isSome <;> rfl
      | _ => cases (soleExpansion? text).isSome <;> rfl
  | sequence items =>
      rw [evaluateItem, evaluate]
      simp only [map_bind]
      rfl
  | mapping entries =>
      rw [evaluateItem, evaluate]
      simp only [map_bind]
      rfl
  | _ => rfl

theorem expands_of_evaluateItem {item : Yaml.Value} {values : List Yaml.Value}
    (hvalues : evaluateItem scope item = .ok values) : (Part.node item).Expands scope := by
  rw [evaluateItem_eq] at hvalues
  obtain ⟨result, hresult, -⟩ := exists_of_map_eq_ok hvalues
  exact ⟨result, hresult⟩

theorem expands_entriesUnder {value : Yaml.Value} {entries : Yaml.Entries}
    (hmerged : evaluateMerged scope value = .ok entries) :
    (Part.mapping (entriesUnder value)).Expands scope := by
  cases value with
  | mapping entries =>
      rw [evaluateMerged] at hmerged
      exact ⟨_, hmerged⟩
  | _ => exact ⟨[], rfl⟩

namespace Part.Expands

section Items

variable {before after : List Yaml.Value} {item : Yaml.Value}

theorem plainItem (hexpands : (Part.sequence (before ++ item :: after)).Expands scope)
    (hplain : Directive.ofItem? item = none) : (Part.node item).Expands scope := by
  obtain ⟨values, hvalues⟩ := hexpands
  rw [evaluateItems_eq] at hvalues
  obtain ⟨target, next, hnext⟩ := Pass.exists_plain hplain hvalues
  obtain ⟨values, hvalues, -⟩ := exists_of_map_eq_ok hnext
  exact expands_of_evaluateItem hvalues

theorem itemDirective (hexpands : (Part.sequence (before ++ item :: after)).Expands scope)
    (hmeets : itemsPass.Meets scope [] before item chain directive) :
    ∃ result, (scope.runDirective chain directive fun scope => evaluateBranch scope item) =
      .ok result := by
  obtain ⟨values, hvalues⟩ := hexpands
  rw [evaluateItems_eq] at hvalues
  exact hmeets.exists_runDirective hvalues

end Items

section Entries

variable {before after : Yaml.Entries} {key value : Yaml.Value}

theorem plainEntry (hexpands : (Part.mapping (before ++ (key, value) :: after)).Expands scope)
    (hplain : Directive.ofYamlKey? key = none) :
    (∃ name, scope.evaluateKey key = .ok name) ∧ (Part.node value).Expands scope := by
  obtain ⟨entries, hentries⟩ := hexpands
  rw [← result_entriesPass] at hentries
  obtain ⟨target, next, hnext⟩ := Pass.exists_plain hplain hentries
  obtain ⟨name, hname, hnext⟩ := bind_eq_ok_iff.mp hnext
  obtain ⟨result, hresult, -⟩ := bind_eq_ok_iff.mp hnext
  exact ⟨⟨name, hname⟩, result, hresult⟩

theorem entryDirective (hexpands : (Part.mapping (before ++ (key, value) :: after)).Expands scope)
    (hmeets : entriesPass.Meets scope [] before (key, value) chain directive) :
    ∃ result, (scope.runDirective chain directive fun scope => evaluateMerged scope value) =
      .ok result := by
  obtain ⟨entries, hentries⟩ := hexpands
  rw [← result_entriesPass] at hentries
  exact hmeets.exists_runDirective hentries

end Entries

end Part.Expands

/-- An expression that an expansion comes to is evaluated with the bindings on the way to it: unless
the expansion is an error, it has a value in this scope. -/
theorem Visits.evaluates {part : Part} {bindings : Bindings} {expression : String}
    (hvisits : Visits scope part bindings expression) (hexpands : part.Expands scope) :
    ∃ value, (scope.inside bindings).eval expression = .ok value := by
  induction hvisits with
  | sole hsole =>
      obtain ⟨result, hresult⟩ := hexpands
      rw [evaluate, Scope.evaluateText_of_sole hsole] at hresult
      obtain ⟨value, hvalue, -⟩ := bind_eq_ok_iff.mp hresult
      exact ⟨value, hvalue⟩
  | span hspans hsole hfills =>
      obtain ⟨result, hresult⟩ := hexpands
      rw [evaluate, Scope.evaluateText, if_pos hspans, hsole] at hresult
      obtain ⟨text, htext, -⟩ := bind_eq_ok_iff.mp hresult
      exact hfills.evaluates (Scope.interpolate_eq_ok_iff.mp htext)
  | sequence hitems ih =>
      obtain ⟨result, hresult⟩ := hexpands
      rw [evaluate] at hresult
      obtain ⟨values, hvalues, -⟩ := bind_eq_ok_iff.mp hresult
      exact ih ⟨values, hvalues⟩
  | mapping hentries ih =>
      obtain ⟨result, hresult⟩ := hexpands
      rw [evaluate] at hresult
      obtain ⟨entries, hentries, -⟩ := bind_eq_ok_iff.mp hresult
      exact ih ⟨entries, hentries⟩
  | item before after hplain hitem ih => exact ih (hexpands.plainItem hplain)
  | itemDirective before after hmeets hexpression =>
      obtain ⟨result, hrun⟩ := hexpands.itemDirective hmeets
      exact exists_eval_of_runDirective hexpression hrun
  | itemBody before after hmeets hruns hbody ih =>
      obtain ⟨result, hrun⟩ := hexpands.itemDirective hmeets
      obtain ⟨values, hvalues⟩ := hruns.exists_body hrun
      rw [Scope.inside_append]
      exact ih ⟨values, (evaluateBranch_eq _ _).symm.trans hvalues⟩
  | key before after hplain hfills =>
      obtain ⟨⟨name, hname⟩, -⟩ := hexpands.plainEntry hplain
      obtain ⟨text, htext, -⟩ := bind_eq_ok_iff.mp hname
      exact hfills.evaluates (Scope.interpolate_eq_ok_iff.mp htext)
  | entry before after hplain hvalue ih => exact ih (hexpands.plainEntry hplain).2
  | entryDirective before after hmeets hexpression =>
      obtain ⟨result, hrun⟩ := hexpands.entryDirective hmeets
      exact exists_eval_of_runDirective hexpression hrun
  | entryBody before after hmeets hruns hbody ih =>
      obtain ⟨result, hrun⟩ := hexpands.entryDirective hmeets
      obtain ⟨entries, hentries⟩ := hruns.exists_body hrun
      rw [Scope.inside_append]
      exact ih (expands_entriesUnder hentries)

/-! ## Nothing else is evaluated -/

/-- A part expands to the same in both scopes, or to the same error. -/
def Part.SameIn (scope other : Scope) : Part → Prop
  | .node value => evaluate scope value = evaluate other value
  | .sequence items => evaluateItems scope none items = evaluateItems other none items
  | .mapping entries => evaluateEntries scope none [] entries = evaluateEntries other none [] entries

section Same

variable {other : Scope} (hfile : scope.file = other.file)

theorem evaluateText_congr {text : String}
    (hsame : ∀ expression, Visits scope (.node (.string text)) [] expression →
      scope.eval expression = other.eval expression) :
    scope.evaluateText text = other.evaluateText text := by
  unfold Scope.evaluateText
  split
  case isFalse => rfl
  case isTrue hspans =>
      cases hsole : soleExpansion? text with
      | some expression => simp only [hsame expression (.sole hsole)]
      | none =>
          have hchars := interpolateChars_congr text.toList fun expression hfills =>
            hsame expression (.span hspans hsole hfills)
          simp only [Scope.interpolate, hchars]

theorem evaluateKey_congr {key : Yaml.Value}
    (hsame : ∀ text, key = .string text → ∀ expression, FillsIn text.toList expression →
      scope.eval expression = other.eval expression) :
    scope.evaluateKey key = other.evaluateKey key := by
  cases key with
  | string text =>
      simp only [Scope.evaluateKey, Scope.interpolate,
        interpolateChars_congr text.toList (hsame text rfl)]
  | _ => rfl

include hfile in
theorem evaluateMerged_congr {value : Yaml.Value}
    (hsame : (Part.mapping (entriesUnder value)).SameIn scope other) :
    evaluateMerged scope value = evaluateMerged other value := by
  cases value with
  | mapping entries =>
      rw [evaluateMerged, evaluateMerged]
      exact hsame
  | null => rfl
  | _ => exact fail_congr hfile _

theorem sizeOf_untagged_le (value : Yaml.Value) : sizeOf value.untagged ≤ sizeOf value := by
  induction value using Yaml.Value.untagged.induct with
  | case1 tag content ih =>
      rw [Yaml.Value.untagged, Yaml.Value.tagged.sizeOf_spec]
      omega
  | case2 value htag =>
      rw [Yaml.Value.untagged]
      exact htag

theorem sizeOf_bodyItems_le (body : Yaml.Value) : sizeOf (bodyItems body) ≤ sizeOf body + 2 := by
  cases body with
  | sequence items =>
      rw [bodyItems, Yaml.Value.sequence.sizeOf_spec]
      omega
  | null =>
      rw [bodyItems, List.nil.sizeOf_spec]
      omega
  | _ =>
      simp only [bodyItems, List.cons.sizeOf_spec, List.nil.sizeOf_spec]
      omega

/-- A directive is larger than the items under it. -/
theorem sizeOf_itemsUnder_lt {item : Yaml.Value} {directive : Directive}
    (hitem : Directive.ofItem? item = some directive) : sizeOf (itemsUnder item) < sizeOf item := by
  have hsize := sizeOf_untagged_le item
  unfold Directive.ofItem? at hitem
  unfold itemsUnder
  unfold Yaml.Value.entries? at hitem ⊢
  cases huntagged : item.untagged with
  | mapping entries =>
      rw [huntagged] at hitem hsize
      rcases entries with _ | ⟨⟨key, body⟩, _ | ⟨second, others⟩⟩
      · cases hitem
      · have hbody := sizeOf_bodyItems_le body
        simp only [Yaml.Value.mapping.sizeOf_spec, List.cons.sizeOf_spec, List.nil.sizeOf_spec,
          Prod.mk.sizeOf_spec] at hsize
        exact Nat.lt_of_le_of_lt hbody (by omega)
      · cases hitem
  | _ =>
      rw [huntagged] at hitem
      cases hitem

theorem sizeOf_entriesUnder_le (value : Yaml.Value) :
    sizeOf (entriesUnder value) ≤ sizeOf value := by
  cases value with
  | mapping entries =>
      rw [entriesUnder, Yaml.Value.mapping.sizeOf_spec]
      omega
  | _ =>
      change sizeOf ([] : Yaml.Entries) ≤ _
      simp +arith

end Same

end Course

/-- An expansion depends on the expressions that it visits and on nothing else: in another scope of
the same file it comes to the same if these come to the same there with the bindings on the way to
them. -/
theorem sameIn_of_visits {scope other : Scope} (hfile : scope.file = other.file) : (part : Part) →
    (hsame : ∀ bindings expression, Visits scope part bindings expression →
      (scope.inside bindings).eval expression = (other.inside bindings).eval expression) →
    part.SameIn scope other
  | .node (.string text), hsame => by
      change evaluate scope (.string text) = evaluate other (.string text)
      rw [evaluate, evaluate]
      exact evaluateText_congr fun expression => hsame [] expression
  | .node (.sequence items), hsame => by
      have hitems : evaluateItems scope none items = evaluateItems other none items :=
        sameIn_of_visits hfile (.sequence items) fun bindings expression hvisits =>
          hsame bindings expression (.sequence hvisits)
      change evaluate scope (.sequence items) = evaluate other (.sequence items)
      rw [evaluate, evaluate, hitems]
  | .node (.mapping entries), hsame => by
      have hentries : evaluateEntries scope none [] entries = evaluateEntries other none [] entries :=
        sameIn_of_visits hfile (.mapping entries) fun bindings expression hvisits =>
          hsame bindings expression (.mapping hvisits)
      change evaluate scope (.mapping entries) = evaluate other (.mapping entries)
      rw [evaluate, evaluate, hentries]
  | .node .null, _ | .node (.bool _), _ | .node (.int _), _ | .node (.float _), _
  | .node (.tagged _ _), _ => rfl
  | .sequence items, hsame => by
      rw [Part.SameIn, evaluateItems_eq, evaluateItems_eq]
      refine congrArg (Prod.fst <$> ·) (Pass.run_congr fun before item after hsplit next hrun => ?_)
      have hsize : sizeOf item < sizeOf items :=
        List.sizeOf_lt_of_mem (hsplit ▸ List.mem_append_right before List.mem_cons_self)
      subst hsplit
      cases hitem : Directive.ofItem? item with
      | none =>
          have hvalue : evaluate scope item = evaluate other item :=
            sameIn_of_visits hfile (.node item) fun bindings expression hvisits =>
              hsame bindings expression (.item before after hitem hvisits)
          rw [Pass.step_plain next hitem, Pass.step_plain next hitem]
          change (·, none) <$> (next.1 ++ ·) <$> evaluateItem scope item =
            (·, none) <$> (next.1 ++ ·) <$> evaluateItem other item
          rw [evaluateItem_eq, evaluateItem_eq, hvalue]
      | some directive =>
          have hmeets : itemsPass.Meets scope [] before item next.2 directive :=
            ⟨hitem, next.1, hrun⟩
          have hunder := sizeOf_itemsUnder_lt hitem
          refine Pass.step_directive_congr hfile hitem (fun expression hexpression =>
            hsame [] expression (.itemDirective before after hmeets hexpression))
            fun outer hruns => ?_
          have hbody : evaluateItems (scope.inside outer) none (itemsUnder item) =
              evaluateItems (other.inside outer) none (itemsUnder item) :=
            sameIn_of_visits (by simpa using hfile) (.sequence (itemsUnder item))
              fun inner expression hvisits => by
                rw [← Scope.inside_append, ← Scope.inside_append]
                exact hsame (inner ++ outer) expression
                  (.itemBody before after hmeets hruns hvisits)
          rw [← evaluateBranch_eq, ← evaluateBranch_eq] at hbody
          exact hbody
  | .mapping entries, hsame => by
      rw [Part.SameIn, ← result_entriesPass, ← result_entriesPass]
      refine congrArg (Prod.fst <$> ·) (Pass.run_congr fun before entry after hsplit next hrun => ?_)
      obtain ⟨key, value⟩ := entry
      have hsize : 1 + sizeOf key + sizeOf value < sizeOf entries :=
        List.sizeOf_lt_of_mem (hsplit ▸ List.mem_append_right before List.mem_cons_self)
      subst hsplit
      cases hkey : Directive.ofYamlKey? key with
      | none =>
          have hname : scope.evaluateKey key = other.evaluateKey key :=
            evaluateKey_congr fun text htext expression hfills => by
              subst htext
              exact hsame [] expression (.key before after hkey hfills)
          have hvalue : evaluate scope value = evaluate other value :=
            sameIn_of_visits hfile (.node value) fun bindings expression hvisits =>
              hsame bindings expression (.entry before after hkey hvisits)
          rw [Pass.step_plain next hkey, Pass.step_plain next hkey]
          simp only [entriesPass, hname, hvalue]
      | some directive =>
          have hmeets : entriesPass.Meets scope [] before (key, value) next.2 directive :=
            ⟨hkey, next.1, hrun⟩
          have hunder := sizeOf_entriesUnder_le value
          refine Pass.step_directive_congr hfile hkey (fun expression hexpression =>
            hsame [] expression (.entryDirective before after hmeets hexpression))
            fun outer hruns => evaluateMerged_congr (by simpa using hfile) ?_
          exact sameIn_of_visits (by simpa using hfile) (.mapping (entriesUnder value))
            fun inner expression hvisits => by
              rw [← Scope.inside_append, ← Scope.inside_append]
              exact hsame (inner ++ outer) expression
                (.entryBody before after hmeets hruns hvisits)
termination_by part => sizeOf part
decreasing_by
  all_goals
    simp only [Part.node.sizeOf_spec, Part.sequence.sizeOf_spec, Part.mapping.sizeOf_spec,
      Yaml.Value.sequence.sizeOf_spec, Yaml.Value.mapping.sizeOf_spec]
    omega

end BuildPipeline.Template
