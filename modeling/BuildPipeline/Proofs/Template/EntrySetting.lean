import BuildPipeline.Proofs.Template.Collections
import BuildPipeline.Proofs.Template.ConcreteDocuments

/-!
# Entries set on top of others

The entries of a mapping are evaluated one after the other, and each of them sets its key in what
the ones before have come to.  So a key has the value that was set last, at the place where it was
set first.

* `evaluateEntries_together`: the same entries may be set on top of anything, and what every single
  setting keeps between two mappings holds between the results.
* `Scope.Sets` says that some entries set a key; `lookUp?_of_not_sets` is the case of two mappings
  of which one is empty.
* `lookUp?_evaluateEntries_last`: an entry keeps its value if nothing behind it sets its key.
* `lookUp?_evaluateEntries_plain`: where no key opens a span, every key keeps its place.
-/

namespace BuildPipeline

open Yaml (Entries)
open Yaml.Value (lookUp? HasDistinctKeys)

namespace Yaml.Value

theorem eq_string_of_isKey {key : Value} {name : String} (hkey : key.isKey name = true) :
    key = .string name := by
  cases key with
  | string text => rw [eq_of_beq hkey]
  | _ => cases hkey

theorem isKey_of_same {key other : Value} {name : String} (hsame : key.same other = true)
    (hother : other.isKey name = true) : key.isKey name = true := by
  rw [eq_string_of_isKey hother] at hsame
  cases key with
  | string text => exact hsame
  | _ => simp [same] at hsame

theorem exists_split_of_lookUp? {name : String} {value : Value} {entries : Entries}
    (hfound : lookUp? name entries = some value) :
    ∃ front behind, entries = front ++ (.string name, value) :: behind := by
  obtain ⟨⟨key, _⟩, hentry, rfl⟩ := Option.map_eq_some_iff.mp hfound
  obtain ⟨hkey, front, behind, hsplit, -⟩ := List.find?_eq_some_iff_append.mp hentry
  have hname : key = .string name := eq_string_of_isKey hkey
  exact ⟨front, behind, hname ▸ hsplit⟩

/-- What is found under a name after a key is set. -/
theorem lookUp?_insert (name : String) (key value : Value) (entries : Entries) :
    lookUp? name (insert key value entries) =
      if key.isKey name then some value else lookUp? name entries := by
  split
  case isTrue hkey => rw [eq_string_of_isKey hkey, lookUp?_insert_self]
  case isFalse hkey =>
      induction entries with
      | nil => rw [insert, lookUp?_cons, if_neg hkey]
      | cons entry entries ih =>
          rw [insert]
          split
          case isTrue hsame =>
              have hother : ¬ entry.1.isKey name = true := fun hfound =>
                hkey (isKey_of_same hsame hfound)
              rw [lookUp?_cons, lookUp?_cons, if_neg hother, if_neg hother]
          case isFalse => rw [lookUp?_cons, lookUp?_cons, ih]

/-- Setting an entry adds no key but its own. -/
theorem key_of_mem_insert {key value : Value} {entry : Value × Value} {entries : Entries}
    (hmem : entry ∈ insert key value entries) :
    entry.1 = key ∨ ∃ old ∈ entries, old.1 = entry.1 := by
  induction entries with
  | nil =>
      rw [insert, List.mem_singleton] at hmem
      exact .inl (congrArg Prod.fst hmem)
  | cons other entries ih =>
      rw [insert] at hmem
      split at hmem
      case isTrue =>
          rcases List.mem_cons.mp hmem with rfl | hrest
          · exact .inr ⟨other, List.mem_cons_self, rfl⟩
          · exact .inr ⟨entry, List.mem_cons_of_mem _ hrest, rfl⟩
      case isFalse =>
          rcases List.mem_cons.mp hmem with rfl | hrest
          · exact .inr ⟨_, List.mem_cons_self, rfl⟩
          · refine (ih hrest).imp_right fun hold => ?_
            obtain ⟨old, hold, hsame⟩ := hold
            exact ⟨old, List.mem_cons_of_mem _ hold, hsame⟩

/-- Setting an entry takes no key away. -/
theorem exists_mem_insert {entry : Value × Value} {entries : Entries} (hmem : entry ∈ entries)
    (key value : Value) : ∃ new ∈ insert key value entries, new.1 = entry.1 := by
  induction entries with
  | nil => cases hmem
  | cons other entries ih =>
      rw [insert]
      split
      case isTrue =>
          rcases List.mem_cons.mp hmem with rfl | hrest
          · exact ⟨_, List.mem_cons_self, rfl⟩
          · exact ⟨entry, List.mem_cons_of_mem _ hrest, rfl⟩
      case isFalse =>
          rcases List.mem_cons.mp hmem with rfl | hrest
          · exact ⟨_, List.mem_cons_self, rfl⟩
          · obtain ⟨new, hnew, hsame⟩ := ih hrest
            exact ⟨new, List.mem_cons_of_mem _ hnew, hsame⟩

theorem exists_mem_insert_self (key value : Value) (entries : Entries) :
    ∃ entry ∈ insert key value entries, entry.1 = key ∨ key.same entry.1 = true := by
  induction entries with
  | nil => exact ⟨(key, value), List.mem_singleton_self _, .inl rfl⟩
  | cons other entries ih =>
      rw [insert]
      split
      case isTrue hsame => exact ⟨_, List.mem_cons_self, .inr hsame⟩
      case isFalse =>
          obtain ⟨entry, hmem, hentry⟩ := ih
          exact ⟨entry, List.mem_cons_of_mem _ hmem, hentry⟩

theorem HasDistinctKeys.insert {entries : Entries} (hdistinct : HasDistinctKeys entries)
    (key value : Value) : HasDistinctKeys (Value.insert key value entries) := by
  induction entries with
  | nil => exact List.pairwise_singleton _ _
  | cons entry entries ih =>
      obtain ⟨hfirst, hrest⟩ := List.pairwise_cons.mp hdistinct
      rw [Value.insert]
      split
      case isTrue => exact List.pairwise_cons.mpr ⟨hfirst, hrest⟩
      case isFalse hnew =>
          refine List.pairwise_cons.mpr ⟨fun other hmem => ?_, ih hrest⟩
          rcases key_of_mem_insert hmem with hkey | ⟨old, hold, hkey⟩
          · rw [hkey]
            exact Bool.eq_false_iff.mpr hnew
          · rw [← hkey]
            exact hfirst old hold

theorem mem_of_mem_takeOut {name : String} {entry : Value × Value} {entries : Entries}
    (hmem : entry ∈ takeOut name entries) : entry ∈ entries := by
  unfold takeOut at hmem
  split at hmem
  case h_1 => exact hmem
  case h_2 =>
      split at hmem
      case h_1 => exact hmem
      case h_2 last hlast =>
          rcases List.mem_or_eq_of_mem_set (List.mem_of_mem_dropLast hmem) with hold | rfl
          · exact hold
          · exact List.mem_of_getLast? hlast

end Yaml.Value

namespace Template

section Setting

variable {scope : Scope} {name : String} {target result entries : Entries}

/-- Setting the same entries keeps what every setting keeps. -/
theorem setAll_together {R : Entries → Entries → Prop}
    (hinsert : ∀ {left right : Entries} (key value : Yaml.Value), R left right →
      R (Yaml.Value.insert key value left) (Yaml.Value.insert key value right))
    {left right : Entries} (hrelated : R left right) (entries : Entries) :
    R (setAll left entries) (setAll right entries) := by
  induction entries generalizing left right with
  | nil => exact hrelated
  | cons entry entries ih => exact ih (hinsert entry.1 entry.2 hrelated)

/-- Entries that can be set on top of one mapping can be set on top of any other.  What they come to
does not depend on what they are set on, so a relation that every setting keeps is kept. -/
theorem evaluateEntries_together {R : Entries → Entries → Prop}
    (hinsert : ∀ {left right : Entries} (key value : Yaml.Value), R left right →
      R (Yaml.Value.insert key value left) (Yaml.Value.insert key value right))
    {chain : Chain} (other : Entries) (hrelated : R target other)
    (hresult : evaluateEntries scope chain target entries = .ok result) :
    ∃ others, evaluateEntries scope chain other entries = .ok others ∧ R result others := by
  induction entries generalizing chain target other with
  | nil =>
      rw [evaluateEntries] at hresult
      cases hresult
      exact ⟨other, by rw [evaluateEntries], hrelated⟩
  | cons entry entries ih =>
      obtain ⟨key, value⟩ := entry
      rw [evaluateEntries] at hresult ⊢
      cases hdirective : Directive.ofYamlKey? key with
      | some directive =>
          simp only [hdirective] at hresult ⊢
          obtain ⟨⟨added, next⟩, hadded, hresult⟩ := bind_eq_ok_iff.mp hresult
          rw [hadded]
          exact ih _ (setAll_together hinsert hrelated added) hresult
      | none =>
          simp only [hdirective] at hresult ⊢
          obtain ⟨newKey, hkey, hresult⟩ := bind_eq_ok_iff.mp hresult
          obtain ⟨newValue, hvalue, hresult⟩ := bind_eq_ok_iff.mp hresult
          rw [hkey]
          dsimp only [bind, Except.bind]
          rw [hvalue]
          exact ih _ (hinsert newKey newValue hrelated) hresult

/-- What every setting keeps holds of what entries come to. -/
theorem evaluateEntries_keeps {p : Entries → Prop}
    (hinsert : ∀ {entries : Entries} (key value : Yaml.Value), p entries →
      p (Yaml.Value.insert key value entries))
    {chain : Chain} (htarget : p target)
    (hresult : evaluateEntries scope chain target entries = .ok result) : p result := by
  obtain ⟨-, -, hkept⟩ := evaluateEntries_together (R := fun left _ => p left)
    (fun key value => hinsert key value) [] htarget hresult
  exact hkept

/-- The entries set this name, by whatever they come to. -/
def Scope.Sets (scope : Scope) (name : String) (entries : Entries) : Prop :=
  ∃ others, evaluateEntries scope none [] entries = .ok others ∧ lookUp? name others ≠ none

/-- A name that entries do not set is what it was before them. -/
theorem lookUp?_of_not_sets (hsets : ¬ scope.Sets name entries)
    (hresult : evaluateEntries scope none target entries = .ok result) :
    lookUp? name result = lookUp? name target := by
  -- Whatever is set, is set in an empty mapping too; so what is not set there is not set at all.
  let Unchanged (left right : Entries) : Prop :=
    lookUp? name right = none → lookUp? name left = lookUp? name target
  have hinsert {left right : Entries} (key value : Yaml.Value) (hrelated : Unchanged left right) :
      Unchanged (Yaml.Value.insert key value left) (Yaml.Value.insert key value right) := by
    intro hnone
    rw [Yaml.Value.lookUp?_insert] at hnone ⊢
    split at hnone
    case isTrue => cases hnone
    case isFalse hkey => rw [if_neg hkey, hrelated hnone]
  have hstart : Unchanged target [] := fun _ => rfl
  obtain ⟨others, hothers, hkept⟩ := evaluateEntries_together hinsert [] hstart hresult
  exact hkept (by_contra fun hset => hsets ⟨others, hothers, hset⟩)

/-- A key that opens no span stays a key, and the entries behind it are set on top of it. -/
theorem exists_of_evaluateEntries_append {before after : Entries} {key value : Yaml.Value}
    (hplain : Directive.ofYamlKey? key = none) (hkey : scope.evaluateKey key = .ok key)
    (hresult : evaluateEntries scope none [] (before ++ (key, value) :: after) = .ok result) :
    ∃ front evaluated, evaluate scope value = .ok evaluated ∧
      evaluateEntries scope none (Yaml.Value.insert key evaluated front) after = .ok result := by
  rw [← result_entriesPass, Pass.result_append] at hresult
  obtain ⟨⟨front, chain⟩, -, hresult⟩ := bind_eq_ok_iff.mp hresult
  rw [result_entriesPass, evaluateEntries, hplain, hkey] at hresult
  obtain ⟨_, hsame, hresult⟩ := bind_eq_ok_iff.mp hresult
  cases hsame
  obtain ⟨evaluated, hvalue, hresult⟩ := bind_eq_ok_iff.mp hresult
  exact ⟨front, evaluated, hvalue, hresult⟩

/-- An entry has its own value in the end, unless its name is set again. -/
theorem lookUp?_evaluateEntries_last {before after : Entries} {value : Yaml.Value}
    (hname : Yaml.Value.OpensNothing name) (hsets : ¬ scope.Sets name after)
    (hresult :
      evaluateEntries scope none [] (before ++ (.string name, value) :: after) = .ok result) :
    ∃ evaluated, evaluate scope value = .ok evaluated ∧ lookUp? name result = some evaluated := by
  have hkey : (Yaml.Value.string name).IsConcrete := hname
  obtain ⟨front, evaluated, hvalue, hrest⟩ := exists_of_evaluateEntries_append
    (ofYamlKey?_of_isConcrete hkey) (evaluateKey_of_isConcrete scope hkey) hresult
  refine ⟨evaluated, hvalue, ?_⟩
  rw [lookUp?_of_not_sets hsets hrest, Yaml.Value.lookUp?_insert_self]

/-! ## Keys without spans -/

/-- What stands under a name before the entries are evaluated, and what stands there afterwards. -/
theorem lookUp?_evaluateEntries_plain (hkeys : ∀ entry ∈ entries, entry.1.IsConcrete)
    (hdistinct : HasDistinctKeys entries)
    (hresult : evaluateEntries scope none target entries = .ok result) (name : String) :
    (lookUp? name entries = none → lookUp? name result = lookUp? name target) ∧
      ∀ value, lookUp? name entries = some value →
        ∃ evaluated, evaluate scope value = .ok evaluated ∧
          lookUp? name result = some evaluated := by
  induction entries generalizing target with
  | nil =>
      rw [evaluateEntries] at hresult
      cases hresult
      exact ⟨fun _ => rfl, fun value hvalue => by cases hvalue⟩
  | cons entry entries ih =>
      obtain ⟨key, value⟩ := entry
      obtain ⟨hkey, hkeys⟩ := List.forall_mem_cons.mp hkeys
      obtain ⟨hnew, hdistinct⟩ := List.pairwise_cons.mp hdistinct
      rw [evaluateEntries, ofYamlKey?_of_isConcrete hkey,
        evaluateKey_of_isConcrete scope hkey] at hresult
      obtain ⟨_, hsame, hresult⟩ := bind_eq_ok_iff.mp hresult
      cases hsame
      obtain ⟨evaluated, hvalue, hresult⟩ := bind_eq_ok_iff.mp hresult
      obtain ⟨hmissing, hfound⟩ := ih hkeys hdistinct hresult
      rw [Yaml.Value.lookUp?_cons]
      rw [Yaml.Value.lookUp?_insert] at hmissing
      split
      case isTrue hname =>
          -- No later entry has this key, so the value stays.
          have hlast : lookUp? name entries = none := by
            rw [lookUp?, Option.map_eq_none_iff, List.find?_eq_none]
            intro other hother hsame
            have hdiffers := hnew other hother
            rw [Yaml.Value.eq_string_of_isKey hsame, Yaml.Value.same_string, hname] at hdiffers
            cases hdiffers
          refine ⟨fun hnone => (by cases hnone), ?_⟩
          rintro _ ⟨⟩
          exact ⟨evaluated, hvalue, by rw [hmissing hlast, if_pos hname]⟩
      case isFalse hname =>
          rw [if_neg hname] at hmissing
          exact ⟨hmissing, hfound⟩

end Setting

end Template

end BuildPipeline
