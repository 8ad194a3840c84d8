import BuildPipeline.Proofs.Template.Interpolation
import BuildPipeline.Proofs.Template.Resolution
import BuildPipeline.Proofs.Template.Reuse
import BuildPipeline.Proofs.Yaml.DistinctKeys

/-!
# Documents that use no templates

A document in which nothing is to be filled in and nothing is referred to comes out of an expansion
as it went in, down to the order of its entries, its nulls, its numbers and its tags.

* `Yaml.Value.Everywhere` asks something of all texts and all mappings in a value, the ones in keys
  and under tags included; `IsConcrete` and `KeysDiffer` are two such properties.
* `evaluate_of_isConcrete` and its companions: evaluating writes every mapping anew, entry by entry,
  and comes to the mapping it read, since no entry takes the place of another.
* `resolve_of_isConcrete`: replacing references sets every list anew, to the nodes that it had.
* `concrete_documents_expand_to_themselves` puts the two together.
-/

namespace BuildPipeline

open Yaml (Entries)

namespace Yaml.Value

/-- The text opens no expansion span. -/
def OpensNothing (text : String) : Prop :=
  ¬ Expression.expansionMark <:+: text.toList

instance : DecidablePred OpensNothing := fun text =>
  inferInstanceAs (Decidable ¬ Expression.expansionMark <:+: text.toList)

/-- The mapping has no text under `template`. -/
def RefersToNothing (entries : Entries) : Prop :=
  (lookUp? "template" entries).bind text? = none

instance : DecidablePred RefersToNothing := fun entries =>
  inferInstanceAs (Decidable ((lookUp? "template" entries).bind text? = none))

/-- No text in the value, a key or not, opens an expansion span, and no mapping in it refers to a
template. -/
abbrev IsConcrete : Value → Prop :=
  Everywhere OpensNothing RefersToNothing

/-! ## Setting again what is there -/

theorem insert_of_lookUp? {name : String} {value : Value} {entries : Entries}
    (hfound : lookUp? name entries = some value) :
    insert (.string name) value entries = entries := by
  induction entries with
  | nil => cases hfound
  | cons entry entries ih =>
      rw [lookUp?_cons] at hfound
      rw [insert, same_string]
      split
      case isTrue hkey =>
          rw [if_pos hkey] at hfound
          cases hfound
          rfl
      case isFalse hkey =>
          rw [if_neg hkey] at hfound
          rw [ih hfound]

end Yaml.Value

open Expression Text
open Yaml.Value (OpensNothing RefersToNothing HasDistinctKeys EverywhereInEntries)

/-! ## Texts without an opening -/

theorem Expression.hasExpansion_of_unopened {text : String}
    (htext : ¬ expansionMark <:+: text.toList) : hasExpansion text = false := by
  rw [hasExpansion_eq]
  generalize text.toList = chars at htext
  induction chars using segmentsOf.induct with
  | case1 => simp
  | case2 c rest segment after hopen ih =>
      rw [segmentsOf_of_open hopen, List.any_cons, Bool.or_eq_false_iff]
      rcases openSpan?_cases hopen with
        ⟨span, _, hspan, -, -⟩ | ⟨opening, closing, body, hspan, hkind⟩
      · exact absurd ⟨[], span, by rw [hspan, List.nil_append]⟩ htext
      · refine ⟨by rcases hkind with ⟨-, -, rfl⟩ | ⟨-, -, rfl⟩ <;> rfl, ih fun hafter => htext ?_⟩
        rw [hspan]
        exact hafter.trans ⟨'$' :: opening :: (body ++ [closing]), [], by simp⟩
  | case3 c rest hopen ih =>
      rw [segmentsOf_of_plain hopen, any_pushPlain c _ fun _ => rfl]
      exact ih fun hrest => htext (List.infix_cons hrest)

theorem Expression.soleExpansion?_of_unopened {text : String}
    (htext : ¬ expansionMark <:+: text.toList) : soleExpansion? text = none := by
  cases hsole : soleExpansion? text with
  | none => rfl
  | some expression =>
      have hspan := hasExpansion_of_soleExpansion? hsole
      rw [hasExpansion_of_unopened htext] at hspan
      cases hspan

namespace Template

theorem Scope.interpolateChars_of_unopened (scope : Scope) {text : List Char}
    (htext : ¬ expansionMark <:+: text) : scope.interpolateChars text = .ok text := by
  induction text with
  | nil => exact interpolateChars_nil
  | cons c rest ih =>
      have hmark : ¬ expansionMark <+: c :: rest := fun hstart => htext hstart.isInfix
      rw [interpolateChars_of_not_mark hmark, ih fun hrest => htext (List.infix_cons hrest)]
      rfl

theorem Scope.evaluateText_of_unopened (scope : Scope) {text : String}
    (htext : ¬ expansionMark <:+: text.toList) : scope.evaluateText text = .ok (.string text) := by
  rw [evaluateText, hasExpansion_of_unopened htext]
  rfl

/-- A directive opens an expansion span. -/
theorem Directive.ofKey?_of_unopened {key : String} (hkey : ¬ expansionMark <:+: key.toList) :
    Directive.ofKey? key = none := by
  have hstrip : stripStart? expansionMark (trimChars key.toList) = none := by
    refine Option.eq_none_iff_forall_ne_some.mpr fun rest hrest => hkey ?_
    obtain ⟨before, after, -, -, htrim⟩ := exists_trimChars_between_blanks key.toList
    rw [htrim, stripStart?_eq_some_iff.mp hrest]
    exact ⟨before, rest ++ after, by simp⟩
  rw [expansionMark] at hstrip
  rw [Directive.ofKey?, hstrip]
  rfl

/-! ## Evaluating -/

section Evaluating

variable (scope : Scope)

theorem ofYamlKey?_of_isConcrete {key : Yaml.Value} (hkey : key.IsConcrete) :
    Directive.ofYamlKey? key = none := by
  rw [Directive.ofYamlKey?]
  cases htext : key.text? with
  | none => rfl
  | some text => exact Directive.ofKey?_of_unopened (hkey.text? htext)

/-- Only an entry whose key opens a span makes a directive of a mapping. -/
theorem ofItem?_of_keys {item : Yaml.Value} (hkeys : ∀ entries, item.entries? = some entries →
    ∀ entry ∈ entries, entry.1.IsConcrete) : Directive.ofItem? item = none := by
  unfold Directive.ofItem?
  split
  case h_1 key value hentries =>
      exact ofYamlKey?_of_isConcrete (hkeys _ hentries _ (List.mem_singleton_self _))
  case h_2 => rfl

theorem ofItem?_of_isConcrete {item : Yaml.Value} (hitem : item.IsConcrete) :
    Directive.ofItem? item = none :=
  ofItem?_of_keys fun _ hentries entry hmem =>
    (Yaml.Value.everywhereInEntries_iff.mp (hitem.entries? hentries).2 entry hmem).1

theorem evaluateKey_of_isConcrete {key : Yaml.Value} (hkey : key.IsConcrete) :
    scope.evaluateKey key = .ok key := by
  cases key with
  | string text =>
      have hcopied : scope.interpolate text = .ok text :=
        Scope.interpolate_eq_ok_iff.mpr (scope.interpolateChars_of_unopened hkey)
      rw [Scope.evaluateKey, hcopied]
      rfl
  | _ => rfl

/-- An item that is no expression is evaluated like any other value. -/
theorem evaluateItem_of_isConcrete {item : Yaml.Value} (hitem : item.IsConcrete) :
    evaluateItem scope item = (evaluate scope item).map ([·]) := by
  cases item with
  | string text =>
      rw [evaluateItem, evaluate, soleExpansion?_of_unopened hitem,
        scope.evaluateText_of_unopened hitem]
      rfl
  | sequence items =>
      rw [evaluateItem, evaluate]
      cases evaluateItems scope none items <;> rfl
  | mapping entries =>
      rw [evaluateItem, evaluate]
      cases evaluateEntries scope none [] entries <;> rfl
  | _ => rfl

mutual

theorem evaluate_of_isConcrete :
    (value : Yaml.Value) → value.IsConcrete → value.KeysDiffer → evaluate scope value = .ok value
  | .sequence items, hconcrete, hdiffer => by
      rw [evaluate, evaluateItems_of_isConcrete items hconcrete hdiffer]
      rfl
  | .mapping entries, ⟨_, hconcrete⟩, ⟨hkeys, hdiffer⟩ => by
      rw [evaluate, evaluateEntries_of_isConcrete [] entries hconcrete hdiffer hkeys]
      rfl
  | .string text, hconcrete, _ => by
      rw [evaluate, scope.evaluateText_of_unopened hconcrete]
  | .null, _, _ | .bool _, _, _ | .int _, _, _ | .float _, _, _ | .tagged _ _, _, _ => rfl

theorem evaluateItems_of_isConcrete :
    (items : List Yaml.Value) → (Yaml.Value.sequence items).IsConcrete →
    (Yaml.Value.sequence items).KeysDiffer → evaluateItems scope none items = .ok items
  | [], _, _ => rfl
  | item :: rest, ⟨hitem, hrest⟩, ⟨hitemKeys, hrestKeys⟩ => by
      have hothers := evaluateItems_of_isConcrete rest hrest hrestKeys
      rw [evaluateItems, ofItem?_of_isConcrete hitem, evaluateItem_of_isConcrete scope hitem,
        evaluate_of_isConcrete item hitem hitemKeys]
      change evaluateItems scope none rest >>= (fun others => pure ([item] ++ others)) = _
      rw [hothers]
      rfl

/-- The entries are written behind those that are there, as long as all the keys are different. -/
theorem evaluateEntries_of_isConcrete (target : Entries) :
    (entries : List (Yaml.Value × Yaml.Value)) →
    EverywhereInEntries OpensNothing RefersToNothing entries →
    EverywhereInEntries (fun _ => True) HasDistinctKeys entries →
    HasDistinctKeys (target ++ entries) →
    evaluateEntries scope none target entries = .ok (target ++ entries)
  | [], _, _, _ => by rw [evaluateEntries, List.append_nil]
  | (key, value) :: rest, ⟨hkey, hvalue, hrest⟩, ⟨_, hvalueKeys, hrestKeys⟩, hkeys => by
      have hnew : ∀ entry ∈ target, key.same entry.1 = false := fun entry hmem =>
        (List.pairwise_append.mp hkeys).2.2 entry hmem (key, value) List.mem_cons_self
      rw [List.append_cons] at hkeys ⊢
      rw [evaluateEntries, ofYamlKey?_of_isConcrete hkey, evaluateKey_of_isConcrete scope hkey,
        evaluate_of_isConcrete value hvalue hvalueKeys]
      dsimp only [bind, Except.bind]
      rw [Yaml.Value.insert_of_new hnew]
      exact evaluateEntries_of_isConcrete (target ++ [(key, value)]) rest hrest hrestKeys hkeys

end

end Evaluating

/-! ## Replacing references -/

theorem reference?_of_refersToNothing (level : Level) {item : Yaml.Value} {entries : Entries}
    (hentries : item.entries? = some entries) (hrefers : RefersToNothing entries) :
    reference? level item = none := by
  rw [RefersToNothing] at hrefers
  cases htemplate : Yaml.Value.lookUp? "template" entries with
  | none => simp [reference?, hentries, htemplate]
  | some template =>
      rw [htemplate, Option.bind_some] at hrefers
      simp [reference?, hentries, htemplate, hrefers]

theorem reference?_of_isConcrete (level : Level) {item : Yaml.Value} (hitem : item.IsConcrete) :
    reference? level item = none := by
  cases hentries : item.entries? with
  | none => simp [reference?, hentries]
  | some entries => exact reference?_of_refersToNothing level hentries (hitem.entries? hentries).1

/-- The piece as the nodes of a list. -/
def Piece.asNodes : Piece → List Yaml.Value
  | .nodes _ items => items
  | .node _ entries => [.mapping entries]

/-- Where nothing refers to a template, an expansion comes to the piece itself. -/
theorem Expansion.eq_asNodes [Yaml.Codec] {library : Library} {stack : Stack} {file : String}
    {piece : Piece} {outcome : Except Error (List Yaml.Value)} {trail : List Stack}
    (hexpansion : Expansion library stack file piece outcome trail)
    (hpiece : (Yaml.Value.sequence piece.asNodes).IsConcrete) : outcome = .ok piece.asNodes := by
  induction hexpansion with
  | empty level => rfl
  | refused rest hreference | bodiless rest hreference | includedError rest hreference
  | included hreference =>
      cases hreference.symm.trans (reference?_of_isConcrete _ hpiece.1)
  | nodeError rest hreference hinner ih => cases ih ⟨hpiece.1, trivial⟩
  | node hreference hinner hrest ih ihRest =>
      obtain ⟨hnode, hafter⟩ := hpiece
      cases ih ⟨hnode, trivial⟩
      rw [ihRest hafter]
      rfl
  | leaf hreference hleaf hrest ih =>
      rw [ih hpiece.2]
      rfl
  | complete entries => rfl
  | listError levels hlist hinner ih =>
      cases ih (Yaml.Value.Everywhere.lookUp? hpiece.1.2 hlist)
  | list hlist hinner hrest ih ihRest =>
      -- The list is set to the nodes that it had, so the entries are the ones that were there.
      cases ih (Yaml.Value.Everywhere.lookUp? hpiece.1.2 hlist)
      rw [Piece.asNodes, Yaml.Value.insert_of_lookUp? hlist] at ihRest
      exact ihRest hpiece
  | noList hlist hrest ih => exact ih hpiece

theorem resolveLists_of_isConcrete [Yaml.Codec] (library : Library) (stack : Stack) (file : String)
    (levels : List Level) {entries : Entries} (hentries : (Yaml.Value.mapping entries).IsConcrete) :
    resolveLists library stack file levels entries = .ok entries := by
  obtain ⟨trail, hexpansion⟩ := exists_expansion library stack file (.node levels entries)
  have houtcome := hexpansion.eq_asNodes ⟨hentries, trivial⟩
  rw [Piece.outcome_node] at houtcome
  obtain ⟨resolved, hresolved, hsame⟩ := exists_of_map_eq_ok houtcome
  cases hsame
  exact hresolved

/-! ## Whole documents -/

/-- A document in which no text and no key opens an expansion span and no mapping refers to a
template expands to itself, in any engine and whatever the parameters and the files are: every
mapping with its entries in their order, every list, every scalar and every tag. -/
theorem concrete_documents_expand_to_themselves [Yaml.Codec] (files : Files) (engine : Engine)
    (arguments : Arguments) (file : String) {root : Entries}
    (hconcrete : (Yaml.Value.mapping root).IsConcrete)
    (hdiffer : (Yaml.Value.mapping root).KeysDiffer) :
    engine.expandRoot files arguments file root = engine.done (.ok root) := by
  have hevaluated := evaluateEntries_of_isConcrete ((engine.library files).scope arguments file) []
    root hconcrete.2 hdiffer.2 hdiffer.1
  rw [Engine.expandRoot, hevaluated]
  exact ((Engine.resolve_engine (engine.library files)).2 engine.stack file _ root).trans
    (congrArg engine.done (resolveLists_of_isConcrete _ _ _ _ hconcrete))

namespace Matrix

/-- Runtime spans, a variable, tags, a null, numbers and a key that is a list; and a `template` that
is no text. -/
def root : Entries := [
  (.string "trigger", .null),
  (.string "variables", .sequence [.mapping [(.string "name", .string "flavor"),
    (.string "value", .float (.ofInt 1))]]),
  (.string "jobs", .sequence [
    .mapping [(.string "job", .string "build"), (.string "template", .null),
      (.string "condition", .string "$[ eq(variables.flavor, '1') ]"),
      (.string "steps", .sequence [
        .mapping [(.string "script", .string "make $(flavor) $"), (.int 0, .bool false)],
        .tagged "late" (.mapping [(.sequence [.null], .string "\x7b\x7b \x7d\x7d")])])],
    .tagged "none" .null])]

end Matrix

theorem concrete_documents_expand_to_themselves_matrix :
    (Yaml.Value.mapping Matrix.root).IsConcrete ∧ (Yaml.Value.mapping Matrix.root).KeysDiffer ∧
      Engine.expandRoot {} { repository := "/" } [] "/pipeline.yml" Matrix.root =
        Engine.done { repository := "/" } (.ok Matrix.root) := by
  have hconcrete : (Yaml.Value.mapping Matrix.root).IsConcrete := by decide +kernel
  have hdiffer : (Yaml.Value.mapping Matrix.root).KeysDiffer := by decide +kernel
  exact ⟨hconcrete, hdiffer, concrete_documents_expand_to_themselves _ _ _ _ hconcrete hdiffer⟩

end Template

end BuildPipeline
