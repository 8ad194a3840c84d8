import BuildPipeline.Proofs.Expression.Embedding
import BuildPipeline.Proofs.Template.EntrySetting

/-!
# Literal variables

The variables of a document are read twice.  Before the document is expanded, those that are written
out are collected for the expressions in it and in the templates; and what the section comes to is
read again by the typed pipeline.  This module is about the first reading.

* `Table.exists_last_of_get?_ofList`: what a table has under a key comes from the last element with
  that key.
* `LastLiteral` is a variable that is written out, with its definition and what stands behind it in
  the section.  `exists_lastLiteral` finds it for every variable that is collected.
* `Library.HasScope` are the scopes of an expansion, which all have these variables.
* `Library.HasScope.evaluateText_variable`: a span around a path below `variables` comes to the text
  of the variable that the path names.
-/

namespace BuildPipeline

namespace Table

variable {α β : Type}

theorem ofList_append_singleton (entries : List (String × β)) (entry : String × β) :
    ofList (entries ++ [entry]) = (ofList entries).insert entry.1 entry.2 := by
  rw [ofList, List.foldl_append]
  rfl

/-- What a table has under a key is the last value that was set there. -/
theorem exists_last_of_get?_ofList {f : α → Option (String × β)} {items : List α} {key : String}
    {value : β} (hfound : (ofList (items.filterMap f)).get? key = some value) :
    ∃ before item after, items = before ++ item :: after ∧ f item = some (key, value) ∧
      (ofList (after.filterMap f)).get? key = none := by
  -- From the back, since the last element is the one that was set last.
  induction items using List.reverseRecOn with
  | nil => cases hfound
  | append_singleton items last ih =>
      rw [List.filterMap_append] at hfound
      cases hlast : f last with
      | none =>
          have hnothing : [last].filterMap f = [] := by simp [hlast]
          rw [hnothing, List.append_nil] at hfound
          obtain ⟨before, item, after, rfl, hitem, hafter⟩ := ih hfound
          refine ⟨before, item, after ++ [last], by simp, hitem, ?_⟩
          rw [List.filterMap_append, hnothing, List.append_nil, hafter]
      | some entry =>
          obtain ⟨other, content⟩ := entry
          have hsingle : [last].filterMap f = [(other, content)] := by simp [hlast]
          rw [hsingle, ofList_append_singleton, get?_insert] at hfound
          split at hfound
          case isTrue hsame =>
              cases hfound
              exact ⟨items, last, [], rfl, hsame ▸ hlast, rfl⟩
          case isFalse hother =>
              obtain ⟨before, item, after, rfl, hitem, hafter⟩ := ih hfound
              refine ⟨before, item, after ++ [last], by simp, hitem, ?_⟩
              rw [List.filterMap_append, hsingle, ofList_append_singleton, get?_insert,
                if_neg hother, hafter]

end Table

namespace Template

open Expression (parse evaluateNames)
open Yaml.Value (lookUp?)

/-! ## The last literal definition -/

/-- The literal variable of an entry in the short form. -/
def literalEntry? (entry : Yaml.Value × Yaml.Value) : Option (String × String) := do
  let name ← entry.1.scalarText?
  let value ← entry.2.scalarText?
  if Text.startsWith "$\x7b\x7b".toList name.toList then none else some (name, value)

/-- In the section `body` the variable is written out as a definition with these fields, and behind
it, in `behind`, it is not written out again.  An entry in the short form has two fields. -/
inductive LastLiteral (name value : String) :
    (body : Yaml.Value) → (fields : Yaml.Entries) → (behind : Yaml.Value) → Prop
  | listed {before after : List Yaml.Value} {item : Yaml.Value} {fields : Yaml.Entries}
      (hfields : item.entries? = some fields)
      (hliteral : literalDefinition? item = some (name, value))
      (hlast : (literalVariables (some (.sequence after))).get? name = none) :
      LastLiteral name value (.sequence (before ++ item :: after)) fields (.sequence after)
  | mapped {before after : Yaml.Entries} {key content : Yaml.Value}
      (hliteral : literalEntry? (key, content) = some (name, value))
      (hlast : (literalVariables (some (.mapping after))).get? name = none) :
      LastLiteral name value (.mapping (before ++ (key, content) :: after))
        [(.string "name", key), (.string "value", content)] (.mapping after)

theorem exists_of_literalDefinition? {item : Yaml.Value} {name value : String}
    (hliteral : literalDefinition? item = some (name, value)) :
    ∃ fields label source, item.entries? = some fields ∧
      lookUp? "name" fields = some label ∧ label.scalarText? = some name ∧
      lookUp? "value" fields = some source ∧ source.scalarText? = some value := by
  obtain ⟨label, hlabel, hliteral⟩ := Option.bind_eq_some_iff.mp hliteral
  obtain ⟨_, hname, hliteral⟩ := Option.bind_eq_some_iff.mp hliteral
  obtain ⟨source, hsource, hliteral⟩ := Option.bind_eq_some_iff.mp hliteral
  obtain ⟨_, hvalue, hliteral⟩ := Option.bind_eq_some_iff.mp hliteral
  cases hliteral
  obtain ⟨fields, hfields, hlabel⟩ := Option.bind_eq_some_iff.mp hlabel
  rw [Yaml.Value.get?, hfields] at hsource
  exact ⟨fields, label, source, hfields, hlabel, hname, hsource, hvalue⟩

theorem scalarTexts_of_literalEntry? {key content : Yaml.Value} {name value : String}
    (hliteral : literalEntry? (key, content) = some (name, value)) :
    key.scalarText? = some name ∧ content.scalarText? = some value := by
  obtain ⟨_, hname, hliteral⟩ := Option.bind_eq_some_iff.mp hliteral
  obtain ⟨_, hvalue, hliteral⟩ := Option.bind_eq_some_iff.mp hliteral
  split at hliteral
  case isTrue => cases hliteral
  case isFalse =>
      cases hliteral
      exact ⟨hname, hvalue⟩

theorem exists_lastLiteral {body? : Option Yaml.Value} {name value : String}
    (hfound : (literalVariables body?).get? name = some value) :
    ∃ body fields behind, body? = some body ∧ LastLiteral name value body fields behind := by
  cases body? with
  | none => cases hfound
  | some body =>
      cases body with
      | sequence items =>
          obtain ⟨before, item, after, rfl, hliteral, hlast⟩ :=
            Table.exists_last_of_get?_ofList hfound
          obtain ⟨fields, _, _, hfields, -⟩ := exists_of_literalDefinition? hliteral
          exact ⟨_, _, _, rfl, .listed hfields hliteral hlast⟩
      | mapping entries =>
          have hentries : (Table.ofList (entries.filterMap literalEntry?)).get? name =
              some value := hfound
          obtain ⟨before, ⟨key, content⟩, after, rfl, hliteral, hlast⟩ :=
            Table.exists_last_of_get?_ofList hentries
          exact ⟨_, _, _, rfl, .mapped hliteral hlast⟩
      | _ => cases hfound

/-! ## References to variables -/

/-- The scopes of an expansion: those of its documents, and those of the loops in them. -/
inductive Library.HasScope (library : Library) : Scope → Prop
  | document (arguments : Arguments) (file : String) :
      library.HasScope (library.scope arguments file)
  | loop {scope : Scope} (name : String) (value : Expression.Value)
      (hscope : library.HasScope scope) : library.HasScope (scope.withLocal name value)

/-- The expression is a path below `variables`, and its parts make up this name. -/
def NamesVariable (context : Expression.Context) (text name : String) : Prop :=
  ∃ root path parts, parse text = .ok (.reference root path) ∧
    Text.equalsIgnoringAsciiCase root "variables" = true ∧
    evaluateNames context path = .ok parts ∧ parts ≠ [] ∧ Text.joinWith "." parts = name

namespace Library.HasScope

variable {library : Library} {scope : Scope}

theorem vars_eq (hscope : library.HasScope scope) :
    scope.context.vars = library.vars.mapValues .string := by
  induction hscope with
  | document arguments file => rfl
  | loop name value hscope ih => exact ih

/-- A span around the name of a variable comes to its text, wherever it stands. -/
theorem evaluateText_variable (hscope : library.HasScope scope) {text name value : String}
    (hvalue : library.vars.get? name = some value)
    (hnames : NamesVariable scope.context text name) :
    scope.evaluateText ("$\x7b\x7b" ++ text ++ "\x7d\x7d") = .ok (.string value) := by
  obtain ⟨root, path, parts, hparse, hroot, hparts, hsome, rfl⟩ := hnames
  have hvariable : Expression.variableValue scope.context parts = .string value := by
    cases parts with
    | nil => exact absurd rfl hsome
    | cons part parts =>
        rw [Expression.variableValue, hscope.vars_eq, Table.get?_mapValues, hvalue]
        · rfl
        · exact List.cons_ne_nil part parts
  have hevaluate : Expression.evaluate scope.context (.reference root path) =
      .ok (.string value) := by
    rw [Expression.evaluate, if_pos hroot, hparts, ← hvariable]
    rfl
  exact Expression.evaluateText_expansion hparse scope.context scope.file hevaluate

end Library.HasScope

end Template

end BuildPipeline
