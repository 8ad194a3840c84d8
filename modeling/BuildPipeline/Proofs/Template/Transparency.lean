import BuildPipeline.Proofs.Template.Inclusion

/-!
# Transparent values

Typed data is read through local tags, and an entry of a list of variables may name its fields by
number.  The search for references sees less: it leaves tagged nodes and lists alone, and finds
lists and references by text only.  A value is transparent if that makes no difference.

* `Yaml.Value.IsTransparent` says so of a value, by recursion into it.
* `Expression.Value.isTransparent_toYaml`: whatever an expression puts into a document is
  transparent, since expressions know no tags.  So nothing is asked of parameters.
* `Template.entriesAreTransparent_evaluateEntries` and its companions follow the evaluation of a
  document, one for each function.  Directives add nothing of their own
  (`Template.Scope.forall_runDirective`).
-/

namespace BuildPipeline

namespace Yaml.Value

mutual

/-- Nothing in the value hides from the search for references: there are no local tags and no keys
`0`. -/
def IsTransparent : Value → Prop
  | .sequence items => AreTransparent items
  | .mapping entries => EntriesAreTransparent entries
  | .tagged _ _ => False
  | _ => True

def AreTransparent : List Value → Prop
  | [] => True
  | item :: items => item.IsTransparent ∧ AreTransparent items

def EntriesAreTransparent : List (Value × Value) → Prop
  | [] => True
  | (key, value) :: entries =>
    (key ≠ .int 0 ∧ key.IsTransparent) ∧ value.IsTransparent ∧ EntriesAreTransparent entries

end

/-- A key that stands for no field but the one of its name. -/
def IsTransparentKey (key : Value) : Prop :=
  key ≠ .int 0 ∧ key.IsTransparent

theorem isTransparentKey_string (text : String) : (Value.string text).IsTransparentKey :=
  ⟨nofun, trivial⟩

theorem IsTransparent.untagged {value : Value} (hvalue : value.IsTransparent) :
    value.untagged = value := by
  cases value with
  | tagged tag content => exact hvalue.elim
  | _ => rfl

theorem areTransparent_iff {items : List Value} :
    AreTransparent items ↔ ∀ item ∈ items, item.IsTransparent := by
  induction items with
  | nil => simp [AreTransparent]
  | cons item items ih => rw [AreTransparent, ih, List.forall_mem_cons]

theorem entriesAreTransparent_iff {entries : Entries} :
    EntriesAreTransparent entries ↔
      ∀ entry ∈ entries, entry.1.IsTransparentKey ∧ entry.2.IsTransparent := by
  induction entries with
  | nil => simp [EntriesAreTransparent]
  | cons entry entries ih =>
      rw [EntriesAreTransparent, ih, List.forall_mem_cons]
      exact and_assoc.symm

theorem AreTransparent.append {items others : List Value} (hitems : AreTransparent items)
    (hothers : AreTransparent others) : AreTransparent (items ++ others) :=
  areTransparent_iff.mpr (List.forall_mem_append.mpr
    ⟨areTransparent_iff.mp hitems, areTransparent_iff.mp hothers⟩)

theorem EntriesAreTransparent.insert {key value : Value} {entries : Entries}
    (hentries : EntriesAreTransparent entries) (hkey : key.IsTransparentKey)
    (hvalue : value.IsTransparent) : EntriesAreTransparent (Value.insert key value entries) := by
  induction entries with
  | nil => exact ⟨hkey, hvalue, hentries⟩
  | cons entry entries ih =>
      obtain ⟨hfirst, hsecond, hrest⟩ := hentries
      rw [Value.insert]
      split
      · exact ⟨hfirst, hvalue, hrest⟩
      · exact ⟨hfirst, hsecond, ih hrest⟩

theorem EntriesAreTransparent.lookUp? {key : String} {value : Value} {entries : Entries}
    (hentries : EntriesAreTransparent entries) (hfound : Value.lookUp? key entries = some value) :
    value.IsTransparent := by
  obtain ⟨entry, hfind, rfl⟩ := Option.map_eq_some_iff.mp hfound
  exact (entriesAreTransparent_iff.mp hentries entry (List.mem_of_find?_eq_some hfind)).2

end Yaml.Value

open Yaml (Entries)
open Yaml.Value (AreTransparent EntriesAreTransparent areTransparent_iff entriesAreTransparent_iff)

/-! ## Values of expressions -/

namespace Expression.Value

mutual

/-- Expressions know no tags, and the fields of their objects have texts as names. -/
theorem isTransparent_toYaml : (value : Value) → value.toYaml.IsTransparent
  | .null => trivial
  | .bool _ => trivial
  | .number value => by
      rw [toYaml, numberToYaml]
      split <;> trivial
  | .string _ => trivial
  | .array items => areTransparent_itemsToYaml items
  | .object fields => entriesAreTransparent_fieldsToYaml fields

theorem areTransparent_itemsToYaml : (items : List Value) → AreTransparent (itemsToYaml items)
  | [] => trivial
  | item :: items => ⟨isTransparent_toYaml item, areTransparent_itemsToYaml items⟩

theorem entriesAreTransparent_fieldsToYaml :
    (fields : List (String × Value)) → EntriesAreTransparent (fieldsToYaml fields)
  | [] => trivial
  | (name, value) :: fields =>
      ⟨Yaml.Value.isTransparentKey_string name, isTransparent_toYaml value,
        entriesAreTransparent_fieldsToYaml fields⟩

end

end Expression.Value

namespace Template

/-! ## Evaluation -/

theorem Scope.isTransparent_evaluateText {scope : Scope} {text : String} {value : Yaml.Value}
    (hvalue : scope.evaluateText text = .ok value) : value.IsTransparent := by
  unfold evaluateText at hvalue
  split at hvalue
  case isTrue =>
      split at hvalue
      case h_1 =>
          obtain ⟨result, -, hvalue⟩ := bind_eq_ok_iff.mp hvalue
          cases hvalue
          exact result.isTransparent_toYaml
      case h_2 =>
          obtain ⟨result, -, hvalue⟩ := bind_eq_ok_iff.mp hvalue
          cases hvalue
          trivial
  case isFalse => cases hvalue; trivial

theorem exists_of_mem_mapM {α β : Type} {f : α → Except Error β} {inputs : List α}
    {results : List β} (hresults : inputs.mapM f = .ok results) :
    ∀ result ∈ results, ∃ input, f input = .ok result := by
  induction inputs generalizing results with
  | nil => cases hresults; exact fun _ hmem => absurd hmem List.not_mem_nil
  | cons input inputs ih =>
      rw [List.mapM_cons] at hresults
      obtain ⟨first, hfirst, hresults⟩ := bind_eq_ok_iff.mp hresults
      obtain ⟨others, hothers, hresults⟩ := bind_eq_ok_iff.mp hresults
      cases hresults
      exact List.forall_mem_cons.mpr ⟨⟨input, hfirst⟩, ih hothers⟩

/-- A directive contributes what its body does, and nothing else. -/
theorem Scope.forall_runDirective {α : Type} {p : α → Prop} {scope : Scope} {chain next : Chain}
    {directive : Directive} {body : Scope → Except Error (List α)} {values : List α}
    (hbody : ∀ scope values, body scope = .ok values → ∀ value ∈ values, p value)
    (hrun : scope.runDirective chain directive body = .ok (values, next)) :
    ∀ value ∈ values, p value := by
  have hnothing : ∀ value ∈ ([] : List α), p value := fun _ hmem => absurd hmem List.not_mem_nil
  cases directive with
  | onlyIf condition =>
      obtain ⟨holds, -, hrun⟩ := bind_eq_ok_iff.mp hrun
      split at hrun
      case isTrue =>
          obtain ⟨results, hresults, hrun⟩ := bind_eq_ok_iff.mp hrun
          cases hrun
          exact hbody _ _ hresults
      case isFalse => cases hrun; exact hnothing
  | elseIf condition =>
      obtain ⟨taken, -, hrun⟩ := bind_eq_ok_iff.mp hrun
      split at hrun
      case isTrue => cases hrun; exact hnothing
      case isFalse =>
          obtain ⟨holds, -, hrun⟩ := bind_eq_ok_iff.mp hrun
          split at hrun
          case isTrue =>
              obtain ⟨results, hresults, hrun⟩ := bind_eq_ok_iff.mp hrun
              cases hrun
              exact hbody _ _ hresults
          case isFalse => cases hrun; exact hnothing
  | otherwise =>
      obtain ⟨taken, -, hrun⟩ := bind_eq_ok_iff.mp hrun
      split at hrun
      case isTrue => cases hrun; exact hnothing
      case isFalse =>
          obtain ⟨results, hresults, hrun⟩ := bind_eq_ok_iff.mp hrun
          cases hrun
          exact hbody _ _ hresults
  | each name collection =>
      obtain ⟨bindings, -, hrun⟩ := bind_eq_ok_iff.mp hrun
      obtain ⟨results, hresults, hrun⟩ := bind_eq_ok_iff.mp hrun
      cases hrun
      -- Every value comes from the body as it was evaluated for one of the bindings.
      intro value hmem
      obtain ⟨inner, hinner, hmem⟩ := List.mem_flatten.mp hmem
      obtain ⟨binding, hvalues⟩ := exists_of_mem_mapM hresults inner hinner
      exact hbody _ _ hvalues value hmem

theorem isTransparentKey_of_evaluateKey {scope : Scope} {key result : Yaml.Value}
    (hkey : key.IsTransparentKey) (hresult : scope.evaluateKey key = .ok result) :
    result.IsTransparentKey := by
  cases key with
  | string text =>
      obtain ⟨result, -, hresult⟩ := bind_eq_ok_iff.mp hresult
      cases hresult
      exact Yaml.Value.isTransparentKey_string result
  | _ => cases hresult; exact hkey

theorem entriesAreTransparent_setAll {target entries : Entries}
    (htarget : EntriesAreTransparent target)
    (hentries : ∀ entry ∈ entries, entry.1.IsTransparentKey ∧ entry.2.IsTransparent) :
    EntriesAreTransparent (setAll target entries) := by
  induction entries generalizing target with
  | nil => exact htarget
  | cons entry entries ih =>
      obtain ⟨hentry, hrest⟩ := List.forall_mem_cons.mp hentries
      exact ih (htarget.insert hentry.1 hentry.2) hrest

/-- The items that a text becomes. -/
theorem areTransparent_of_text {scope : Scope} {text : String} {results : List Yaml.Value}
    (hresults : (do
      match (Expression.soleExpansion? text).isSome, ← scope.evaluateText text with
      | true, .sequence values => return values
      | _, value => return [value]) = .ok results) : AreTransparent results := by
  obtain ⟨value, hvalue, hresults⟩ := bind_eq_ok_iff.mp hresults
  have htransparent := Scope.isTransparent_evaluateText hvalue
  split at hresults
  case h_1 values _ => cases hresults; exact htransparent
  case h_2 => cases hresults; exact ⟨htransparent, trivial⟩

mutual

-- One theorem for each function of the evaluation; a tagged value is excluded from the start.

theorem isTransparent_evaluate (scope : Scope) : (value : Yaml.Value) → value.IsTransparent →
    ∀ {result : Yaml.Value}, evaluate scope value = .ok result → result.IsTransparent
  | .sequence items, hvalue, result, hresult => by
      rw [evaluate] at hresult
      obtain ⟨results, hresults, hresult⟩ := bind_eq_ok_iff.mp hresult
      cases hresult
      exact areTransparent_evaluateItems scope none items hvalue hresults
  | .mapping entries, hvalue, result, hresult => by
      rw [evaluate] at hresult
      obtain ⟨results, hresults, hresult⟩ := bind_eq_ok_iff.mp hresult
      cases hresult
      exact entriesAreTransparent_evaluateEntries scope none [] entries hvalue trivial hresults
  | .string text, _, result, hresult => by
      rw [evaluate] at hresult
      exact Scope.isTransparent_evaluateText hresult
  | .null, hvalue, result, hresult => by cases hresult; exact hvalue
  | .bool value, hvalue, result, hresult => by cases hresult; exact hvalue
  | .int value, hvalue, result, hresult => by cases hresult; exact hvalue
  | .float value, hvalue, result, hresult => by cases hresult; exact hvalue
  | .tagged _ _, hvalue, _, _ => hvalue.elim
termination_by structural x => x

theorem areTransparent_evaluateItems (scope : Scope) (chain : Chain) :
    (items : List Yaml.Value) → AreTransparent items →
    ∀ {results : List Yaml.Value}, evaluateItems scope chain items = .ok results →
      AreTransparent results
  | [], _, results, hresults => by cases hresults; trivial
  | item :: rest, ⟨hitem, hrest⟩, results, hresults => by
      rw [evaluateItems] at hresults
      split at hresults
      case h_1 directive _ =>
          obtain ⟨⟨values, next⟩, hvalues, hresults⟩ := bind_eq_ok_iff.mp hresults
          obtain ⟨others, hothers, hresults⟩ := bind_eq_ok_iff.mp hresults
          cases hresults
          -- What a directive adds comes from its branch, which is a part of this item.
          have hfirst := Scope.forall_runDirective (fun scope values hbody => areTransparent_iff.mp
            (areTransparent_evaluateBranch scope item hitem hbody)) hvalues
          exact (areTransparent_iff.mpr hfirst).append
            (areTransparent_evaluateItems scope next rest hrest hothers)
      case h_2 =>
          obtain ⟨values, hvalues, hresults⟩ := bind_eq_ok_iff.mp hresults
          obtain ⟨pair, hpair, hresults⟩ := bind_eq_ok_iff.mp hresults
          cases hpair
          obtain ⟨others, hothers, hresults⟩ := bind_eq_ok_iff.mp hresults
          cases hresults
          exact (areTransparent_evaluateItem scope item hitem hvalues).append
            (areTransparent_evaluateItems scope none rest hrest hothers)
termination_by structural x => x

theorem areTransparent_evaluateItem (scope : Scope) : (item : Yaml.Value) → item.IsTransparent →
    ∀ {results : List Yaml.Value}, evaluateItem scope item = .ok results → AreTransparent results
  | .sequence items, hitem, results, hresults => by
      rw [evaluateItem] at hresults
      obtain ⟨values, hvalues, hresults⟩ := bind_eq_ok_iff.mp hresults
      cases hresults
      exact ⟨areTransparent_evaluateItems scope none items hitem hvalues, trivial⟩
  | .mapping entries, hitem, results, hresults => by
      rw [evaluateItem] at hresults
      obtain ⟨values, hvalues, hresults⟩ := bind_eq_ok_iff.mp hresults
      cases hresults
      exact ⟨entriesAreTransparent_evaluateEntries scope none [] entries hitem trivial hvalues,
        trivial⟩
  | .string text, _, results, hresults => by
      rw [evaluateItem] at hresults
      exact areTransparent_of_text hresults
  | .null, hitem, results, hresults => by cases hresults; exact ⟨hitem, trivial⟩
  | .bool _, hitem, results, hresults => by cases hresults; exact ⟨hitem, trivial⟩
  | .int _, hitem, results, hresults => by cases hresults; exact ⟨hitem, trivial⟩
  | .float _, hitem, results, hresults => by cases hresults; exact ⟨hitem, trivial⟩
  | .tagged _ _, hitem, _, _ => hitem.elim
termination_by structural x => x

theorem areTransparent_evaluateBranch (scope : Scope) : (item : Yaml.Value) →
    item.IsTransparent → ∀ {results : List Yaml.Value},
      evaluateBranch scope item = .ok results → AreTransparent results
  | .mapping [(_, body)], ⟨_, hbody, _⟩, results, hresults => by
      rw [evaluateBranch] at hresults
      exact areTransparent_evaluateBody scope body hbody hresults
  | .mapping [], _, results, hresults => by cases hresults; trivial
  | .mapping (_ :: _ :: _), _, results, hresults => by cases hresults; trivial
  | .sequence _, _, results, hresults => by cases hresults; trivial
  | .string _, _, results, hresults => by cases hresults; trivial
  | .null, _, results, hresults => by cases hresults; trivial
  | .bool _, _, results, hresults => by cases hresults; trivial
  | .int _, _, results, hresults => by cases hresults; trivial
  | .float _, _, results, hresults => by cases hresults; trivial
  | .tagged _ _, hitem, _, _ => hitem.elim
termination_by structural x => x

theorem areTransparent_evaluateBody (scope : Scope) : (body : Yaml.Value) → body.IsTransparent →
    ∀ {results : List Yaml.Value}, evaluateBody scope body = .ok results → AreTransparent results
  | .null, _, results, hresults => by cases hresults; trivial
  | .sequence items, hbody, results, hresults => by
      rw [evaluateBody] at hresults
      exact areTransparent_evaluateItems scope none items hbody hresults
  | .mapping entries, hbody, results, hresults => by
      rw [evaluateBody] at hresults
      split at hresults
      case h_1 directive _ =>
          obtain ⟨⟨values, next⟩, hvalues, hresults⟩ := bind_eq_ok_iff.mp hresults
          cases hresults
          exact areTransparent_iff.mpr (Scope.forall_runDirective (fun scope values hinner =>
            areTransparent_iff.mp (areTransparent_evaluateOnly scope entries hbody hinner)) hvalues)
      case h_2 =>
          obtain ⟨values, hvalues, hresults⟩ := bind_eq_ok_iff.mp hresults
          cases hresults
          exact ⟨entriesAreTransparent_evaluateEntries scope none [] entries hbody trivial hvalues,
            trivial⟩
  | .string text, _, results, hresults => by
      rw [evaluateBody] at hresults
      exact areTransparent_of_text hresults
  | .bool _, hbody, results, hresults => by cases hresults; exact ⟨hbody, trivial⟩
  | .int _, hbody, results, hresults => by cases hresults; exact ⟨hbody, trivial⟩
  | .float _, hbody, results, hresults => by cases hresults; exact ⟨hbody, trivial⟩
  | .tagged _ _, hbody, _, _ => hbody.elim
termination_by structural x => x

theorem areTransparent_evaluateOnly (scope : Scope) : (entries : Entries) →
    EntriesAreTransparent entries → ∀ {results : List Yaml.Value},
      evaluateOnly scope entries = .ok results → AreTransparent results
  | [(_, body)], ⟨_, hbody, _⟩, results, hresults => by
      rw [evaluateOnly] at hresults
      exact areTransparent_evaluateBody scope body hbody hresults
  | [], _, results, hresults => by cases hresults; trivial
  | _ :: _ :: _, _, results, hresults => by cases hresults; trivial
termination_by structural x => x

theorem entriesAreTransparent_evaluateEntries (scope : Scope) (chain : Chain) (target : Entries) :
    (entries : Entries) → EntriesAreTransparent entries → EntriesAreTransparent target →
    ∀ {results : Entries}, evaluateEntries scope chain target entries = .ok results →
      EntriesAreTransparent results
  | [], _, htarget, results, hresults => by cases hresults; exact htarget
  | (key, value) :: rest, ⟨hkey, hvalue, hrest⟩, htarget, results, hresults => by
      rw [evaluateEntries] at hresults
      split at hresults
      case h_1 directive _ =>
          obtain ⟨⟨merged, next⟩, hmerged, hresults⟩ := bind_eq_ok_iff.mp hresults
          have hentries := Scope.forall_runDirective (fun scope entries hbody =>
            entriesAreTransparent_iff.mp
              (entriesAreTransparent_evaluateMerged scope value hvalue hbody)) hmerged
          exact entriesAreTransparent_evaluateEntries scope next _ rest hrest
            (entriesAreTransparent_setAll htarget hentries) hresults
      case h_2 =>
          obtain ⟨name, hname, hresults⟩ := bind_eq_ok_iff.mp hresults
          obtain ⟨evaluated, hevaluated, hresults⟩ := bind_eq_ok_iff.mp hresults
          exact entriesAreTransparent_evaluateEntries scope none _ rest hrest
            (htarget.insert (isTransparentKey_of_evaluateKey hkey hname)
              (isTransparent_evaluate scope value hvalue hevaluated)) hresults
termination_by structural x => x

theorem entriesAreTransparent_evaluateMerged (scope : Scope) : (value : Yaml.Value) →
    value.IsTransparent → ∀ {results : Entries}, evaluateMerged scope value = .ok results →
      EntriesAreTransparent results
  | .null, _, results, hresults => by cases hresults; trivial
  | .mapping entries, hvalue, results, hresults => by
      rw [evaluateMerged] at hresults
      exact entriesAreTransparent_evaluateEntries scope none [] entries hvalue trivial hresults
  | .sequence _, _, results, hresults => by cases hresults
  | .string _, _, results, hresults => by cases hresults
  | .bool _, _, results, hresults => by cases hresults
  | .int _, _, results, hresults => by cases hresults
  | .float _, _, results, hresults => by cases hresults
  | .tagged _ _, hvalue, _, _ => hvalue.elim
termination_by structural x => x

end

end Template

end BuildPipeline
