import BuildPipeline.Expression.Document
import BuildPipeline.Expression.Evaluation
import BuildPipeline.Expression.Segment
import BuildPipeline.Template.Directive
import BuildPipeline.Template.Error

/-!
# Evaluating templates

Directives are carried out and expansion spans replaced in a YAML value.  A text that is one span
becomes the value of its expression, and if that is a list, a sequence takes its items in.  In any
other text each span becomes a text.  Runtime spans and variable spans stay as written.

The values of the entries under a directive are set in the mapping around it, one after the other.
-/

namespace BuildPipeline.Template

/-- What the expressions of one template can observe. -/
structure Scope where
  context : Expression.Context
  /-- The file of the template, for errors. -/
  file : String

def Scope.withLocal (scope : Scope) (name : String) (value : Expression.Value) : Scope :=
  { scope with context := scope.context.withLocal name value }

def Scope.fail {α : Type} (scope : Scope) (problem : Problem) : Except Error α :=
  failAt scope.file problem

/-! ## Expressions and texts -/

def Scope.eval (scope : Scope) (expression : String) : Except Error Expression.Value :=
  match Expression.evaluateText scope.context expression with
  | .ok value => .ok value
  | .error error => scope.fail (.evaluation expression error.detail)

/-- Replace the spans in a text by texts, from left to right. -/
def Scope.interpolateChars (scope : Scope) (text : List Char) : Except Error (List Char) :=
  match text with
  | [] => .ok []
  | c :: rest =>
    match _hopen : Text.stripStart? "$\x7b\x7b".toList (c :: rest) with
    | none => do return c :: (← scope.interpolateChars rest)
    | some body =>
      match _hclose : Expression.closeBraces? false body with
      | none => .ok (c :: rest)
      | some (expression, after) => do
        let value ← scope.eval (Expression.trimmedBody expression)
        return value.asText.toList ++ (← scope.interpolateChars after)
termination_by text.length
decreasing_by
  · simp
  · have hbody := Text.stripStart?_length _hopen
    have hafter := Expression.closeBraces?_length _hclose
    have hmark : "$\x7b\x7b".toList.length = 3 := by decide
    omega

def Scope.interpolate (scope : Scope) (text : String) : Except Error String := do
  return String.ofList (← scope.interpolateChars text.toList)

/-- The value of a text. -/
def Scope.evaluateText (scope : Scope) (text : String) : Except Error Yaml.Value :=
  if Expression.hasExpansion text then
    match Expression.soleExpansion? text with
    | some expression => do return (← scope.eval expression).toYaml
    | none => do return .string (← scope.interpolate text)
  else .ok (.string text)

/-! ## Directives -/

/-- Whether an earlier branch of the chain was taken; nothing outside a chain. -/
abbrev Chain := Option Bool

def Scope.holds (scope : Scope) (condition : String) : Except Error Bool := do
  return (← scope.eval condition).isTruthy

def Scope.chained (scope : Scope) (chain : Chain) (directive : String) : Except Error Bool :=
  match chain with
  | some taken => .ok taken
  | none => scope.fail (.unchainedDirective directive)

/-- The values that `each` binds its variable to. -/
def Scope.iterate (scope : Scope) (collection : String) :
    Except Error (List Expression.Value) := do
  match ← scope.eval collection with
  | .array items => return items
  | .object fields =>
    return fields.map fun (key, value) => .object [("key", .string key), ("value", value)]
  | .null => return []
  | other => scope.fail (.notIterable collection other.asText)

/-- What a directive contributes, given what its body does, and the chain behind it. -/
def Scope.runDirective {α : Type} (scope : Scope) (chain : Chain) (directive : Directive)
    (body : Scope → Except Error (List α)) : Except Error (List α × Chain) :=
  match directive with
  | .onlyIf condition => do
    if ← scope.holds condition then return (← body scope, some true) else return ([], some false)
  | .elseIf condition => do
    let taken ← scope.chained chain "elseif"
    if taken then return ([], chain)
    else if ← scope.holds condition then return (← body scope, some true)
    else return ([], chain)
  | .otherwise => do
    if ← scope.chained chain "else" then return ([], none) else return (← body scope, none)
  | .each name collection => do
    let bindings ← scope.iterate collection
    let results ← bindings.mapM fun binding => body (scope.withLocal name binding)
    return (results.flatten, none)

def Scope.evaluateKey (scope : Scope) : Yaml.Value → Except Error Yaml.Value
  | .string text => do return .string (← scope.interpolate text)
  | key => .ok key

/-- Set entries one after the other. -/
def setAll (target : Yaml.Entries) (entries : Yaml.Entries) : Yaml.Entries :=
  entries.foldl (fun target entry => Yaml.Value.insert entry.1 entry.2 target) target

mutual

def evaluate (scope : Scope) : Yaml.Value → Except Error Yaml.Value
  | .sequence items => do return .sequence (← evaluateItems scope none items)
  | .mapping entries => do return .mapping (← evaluateEntries scope none [] entries)
  | .string text => scope.evaluateText text
  | other => .ok other

/-- The items that a sequence becomes. -/
def evaluateItems (scope : Scope) (chain : Chain) :
    List Yaml.Value → Except Error (List Yaml.Value)
  | [] => .ok []
  | item :: rest => do
    let (values, chain) ←
      match Directive.ofItem? item with
      | some directive => scope.runDirective chain directive fun scope => evaluateBranch scope item
      | none => do pure (← evaluateItem scope item, none)
    return values ++ (← evaluateItems scope chain rest)

/-- What an item that is no directive becomes. -/
def evaluateItem (scope : Scope) : Yaml.Value → Except Error (List Yaml.Value)
  | .string text => do
    match (Expression.soleExpansion? text).isSome, ← scope.evaluateText text with
    | true, .sequence values => return values
    | _, value => return [value]
  | .sequence items => do return [.sequence (← evaluateItems scope none items)]
  | .mapping entries => do return [.mapping (← evaluateEntries scope none [] entries)]
  | other => .ok [other]

/-- The items under a directive that is an item itself. -/
def evaluateBranch (scope : Scope) : Yaml.Value → Except Error (List Yaml.Value)
  | .mapping [(_, body)] => evaluateBody scope body
  | .tagged _ content => evaluateBranch scope content
  | _ => .ok []

/-- The items that the value of a directive stands for. -/
def evaluateBody (scope : Scope) : Yaml.Value → Except Error (List Yaml.Value)
  | .null => .ok []
  | .sequence items => evaluateItems scope none items
  | .mapping entries =>
    match Directive.ofItem? (.mapping entries) with
    | some directive => do
      return (← scope.runDirective none directive fun scope => evaluateOnly scope entries).1
    | none => do return [.mapping (← evaluateEntries scope none [] entries)]
  | .tagged tag content =>
    match Directive.ofItem? (.tagged tag content) with
    | some directive => do
      return (← scope.runDirective none directive fun scope => evaluateBranch scope content).1
    | none => .ok [.tagged tag content]
  | .string text => do
    match (Expression.soleExpansion? text).isSome, ← scope.evaluateText text with
    | true, .sequence values => return values
    | _, value => return [value]
  | other => .ok [other]

/-- The items under the only entry of a mapping. -/
def evaluateOnly (scope : Scope) : List (Yaml.Value × Yaml.Value) → Except Error (List Yaml.Value)
  | [(_, body)] => evaluateBody scope body
  | _ => .ok []

/-- The entries that a mapping becomes, on top of those in `target`. -/
def evaluateEntries (scope : Scope) (chain : Chain) (target : Yaml.Entries) :
    List (Yaml.Value × Yaml.Value) → Except Error Yaml.Entries
  | [] => .ok target
  | (key, value) :: rest => do
    match Directive.ofYamlKey? key with
    | some directive =>
      let (entries, chain) ←
        scope.runDirective chain directive fun scope => evaluateMerged scope value
      evaluateEntries scope chain (setAll target entries) rest
    | none =>
      let key ← scope.evaluateKey key
      let value ← evaluate scope value
      evaluateEntries scope none (Yaml.Value.insert key value target) rest

/-- The entries under a directive that is a key. -/
def evaluateMerged (scope : Scope) : Yaml.Value → Except Error Yaml.Entries
  | .null => .ok []
  | .mapping entries => evaluateEntries scope none [] entries
  | _ => scope.fail .bodyNotMapping

end

end BuildPipeline.Template
