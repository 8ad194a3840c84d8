import BuildPipeline.Proofs.Pipeline.Concreteness
import BuildPipeline.Proofs.Template.EntrySetting

/-!
# Reading sections of variables

Variables are written as a list of definitions or as a mapping from names to scalars.

* `Reader.Gives.exists_field`: what stands under the name of a field is what the field is read from.
* `Variable.exists_split_of_list` cuts the variables that are read from a list at one of its nodes.
* `Variable.forall₂_of_mapping` matches those that are read from a mapping with its entries, and
  `Variable.exists_split_of_mapping` cuts them at one of these.
* `Variable.eq_definition`: what a node with a name and a value is read as.
-/

namespace BuildPipeline

open Template (reference?)
open Yaml (Entries Reader Source Result)
open Yaml.Value (EntriesAreTransparent lookUp? RefersToNothing)

/-! ## Fields that are there -/

namespace Yaml.Reader

section Fields

variable {α β δ : Type} {step : δ → String → Entry → Result (Option δ)} {name : String}
  {field : δ → Option β} {read : Reader β}

/-- A field is filled from the entry with its name; no other entry is read as the same field. -/
theorem HasField.foldEntries_of_lookUp? (hfield : HasField step name field read) {place : Place}
    {expected : String} {draft result : δ} {source : Value} {entries : Entries} {left right : Nat}
    (hsource : Value.lookUp? name entries = some source)
    (hread : foldEntries (textAs expected) (recordStep step) place draft (heldEntries entries)
      left = .ok (result, right)) :
    ∃ value, field result = some value ∧ read.Gives source value := by
  induction entries generalizing draft left with
  | nil => cases hsource
  | cons entry entries ih =>
      obtain ⟨text, middle, htext, hrest⟩ := Result.bind_eq_ok hread
      obtain ⟨next, last, hnext, hothers⟩ := Result.bind_eq_ok hrest
      rw [Value.lookUp?_cons] at hsource
      split at hsource
      case isTrue hkey =>
          cases hsource
          have huntagged : entry.1.untagged = entry.1 := by
            rw [Value.eq_string_of_isKey hkey]
            rfl
          have hname : Value.string name = .string text :=
            (Value.eq_string_of_isKey hkey).symm.trans (eq_string_of_textAs huntagged htext)
          cases hname
          obtain ⟨-, value, stop, hvalue, hgives⟩ := hfield.recordStep_own hnext
          exact ⟨value, hfield.foldEntries_of_some hvalue hothers, _, _, _, hgives⟩
      case isFalse => exact ih hsource hothers

/-- A record is finished from a draft in which the fields are filled whose names are found. -/
theorem Gives.exists_field {expected : String} {start : δ} {finish : δ → Result α}
    {entries : Entries} {result : α}
    (hgives : (Reader.record expected start step finish).Gives (.mapping entries) result) :
    ∃ draft left right, finish draft left = .ok (result, right) ∧
      ∀ {source : Value}, HasField step name field read →
        Value.lookUp? name entries = some source →
          ∃ value, field draft = some value ∧ read.Gives source value := by
  obtain ⟨place, left, right, hread⟩ := hgives
  rw [record_eq] at hread
  obtain ⟨draft, middle, hdraft, hread⟩ := Result.bind_eq_ok hread
  exact ⟨draft, middle, right, hread, fun hfield hsource =>
    hfield.foldEntries_of_lookUp? hsource hdraft⟩

end Fields

/-! ## Lists, cut at an item -/

/-- What is read from a list, cut at one of the items. -/
theorem exists_split_of_readItems {α : Type} {read : Reader α} {place : Place}
    {index left right : Nat} {front behind : List Value} {item : Value} {results : List α}
    (hread : readItems read place index ((front ++ item :: behind).map .held) left =
      .ok (results, right)) :
    ∃ earlier result later, results = earlier ++ result :: later ∧ read.Gives item result ∧
      ∀ part ∈ later, ∃ node ∈ behind, read.Gives node part := by
  induction front generalizing index left right results with
  | nil =>
      obtain ⟨first, middle, hfirst, hread⟩ := Result.bind_eq_ok hread
      obtain ⟨later, last, hlater, hread⟩ := Result.bind_eq_ok hread
      obtain ⟨rfl, -⟩ := Result.pure_eq_ok hread
      exact ⟨[], first, later, rfl, ⟨_, _, _, hfirst⟩, exists_gives_of_readItems hlater⟩
  | cons other front ih =>
      rw [List.cons_append] at hread
      obtain ⟨first, middle, hfirst, hread⟩ := Result.bind_eq_ok hread
      obtain ⟨others, last, hothers, hread⟩ := Result.bind_eq_ok hread
      obtain ⟨rfl, -⟩ := Result.pure_eq_ok hread
      obtain ⟨earlier, result, later, rfl, hitem, hlater⟩ := ih hothers
      exact ⟨first :: earlier, result, later, rfl, hitem, hlater⟩

end Yaml.Reader

/-! ## The variables of a pipeline -/

/-- The variables are read from the section with their name. -/
theorem Pipeline.gives_vars {entries : Entries} {pipeline : Pipeline} {source : Yaml.Value}
    (hgives : Pipeline.reader.Gives (.mapping entries) pipeline)
    (hsource : lookUp? "variables" entries = some source) :
    Variable.listReader.Gives source pipeline.vars := by
  obtain ⟨draft, left, right, hfinish, hfields⟩ := hgives.exists_field
  obtain ⟨vars, hvars, hread⟩ := hfields Pipeline.hasField_vars hsource
  cases hfinish
  rw [hvars]
  exact hread

namespace Variable

theorem exists_split_of_list {front behind : List Yaml.Value} {node : Yaml.Value}
    {vars : List Variable}
    (hgives : listReader.Gives (.sequence (front ++ node :: behind)) vars) :
    ∃ earlier var later, vars = earlier ++ var :: later ∧ reader.Gives node var ∧
      ∀ other ∈ later, ∃ item ∈ behind, reader.Gives item other := by
  obtain ⟨place, left, right, hread⟩ := hgives
  exact Reader.exists_split_of_readItems hread

/-- A definition in the short form. -/
def IsShort (entry : Yaml.Value × Yaml.Value) (var : Variable) : Prop :=
  ∃ name value, entry.1.text? = some name ∧ entry.2.scalarText? = some value ∧
    var = .definition name value false

theorem text?_of_text {place : Yaml.Place} {key : Yaml.Value} {text : String} {left right : Nat}
    (hread : Reader.text place (.held key) left = .ok (text, right)) : key.text? = some text := by
  rw [Yaml.Value.text?]
  cases huntagged : key.untagged with
  | string content =>
      simp only [Reader.text, Reader.textAs, huntagged] at hread
      rw [(Result.pure_eq_ok hread).1]
  | _ =>
      simp only [Reader.text, Reader.textAs, huntagged] at hread
      exact absurd hread Yaml.refuse_ne_ok

/-- What the entry of a mapping in the short form adds. -/
def shortStep (vars : List Variable) (name : String) (entry : Reader.Entry) :
    Result (List Variable) := do
  match (← entry.read .value).scalarText? with
  | some value => return vars ++ [.definition name value false]
  | none => Yaml.refuse (.refused ("variable '" ++ name ++ "' must be a scalar"))

theorem exists_of_shortStep {vars next : List Variable} {name : String} {place : Yaml.Place}
    {value : Yaml.Value} {left right : Nat}
    (hstep : shortStep vars name ⟨place, .held value⟩ left = .ok (next, right)) :
    ∃ text, value.scalarText? = some text ∧ next = vars ++ [.definition name text false] := by
  obtain ⟨content, middle, hcontent, hstep⟩ := Result.bind_eq_ok hstep
  obtain ⟨rfl, -⟩ := Result.pure_eq_ok hcontent
  cases hscalar : value.scalarText? with
  | none =>
      rw [hscalar] at hstep
      exact absurd hstep Yaml.refuse_ne_ok
  | some text =>
      rw [hscalar] at hstep
      exact ⟨text, rfl, (Result.pure_eq_ok hstep).1.symm⟩

theorem exists_append_of_foldEntries {place : Yaml.Place} {start vars : List Variable}
    {entries : Entries} {left right : Nat}
    (hread : Reader.foldEntries Reader.text shortStep place start (Yaml.heldEntries entries) left =
      .ok (vars, right)) :
    ∃ added, vars = start ++ added ∧ List.Forall₂ IsShort entries added := by
  induction entries generalizing start left with
  | nil =>
      obtain ⟨rfl, -⟩ := Result.pure_eq_ok hread
      exact ⟨[], (List.append_nil _).symm, .nil⟩
  | cons entry entries ih =>
      obtain ⟨name, _, hname, hread⟩ := Result.bind_eq_ok hread
      obtain ⟨next, _, hnext, hread⟩ := Result.bind_eq_ok hread
      obtain ⟨added, rfl, hadded⟩ := ih hread
      obtain ⟨value, hvalue, rfl⟩ := exists_of_shortStep hnext
      exact ⟨_ :: added, List.append_assoc _ _ _,
        .cons ⟨name, value, text?_of_text hname, hvalue, rfl⟩ hadded⟩

/-- The entries of a mapping are read one after the other. -/
theorem forall₂_of_mapping {entries : Entries} {vars : List Variable}
    (hgives : listReader.Gives (.mapping entries) vars) : List.Forall₂ IsShort entries vars := by
  obtain ⟨place, left, right, hread⟩ := hgives
  obtain ⟨draft, middle, hdraft, hread⟩ := Result.bind_eq_ok hread
  obtain ⟨rfl, -⟩ := Result.pure_eq_ok hread
  obtain ⟨added, rfl, hadded⟩ := exists_append_of_foldEntries hdraft
  exact hadded

theorem exists_of_forall₂ {entries : Entries} {vars : List Variable}
    (hshort : List.Forall₂ IsShort entries vars) : ∀ var ∈ vars, ∃ entry ∈ entries,
      IsShort entry var := by
  induction hshort with
  | nil => exact fun _ hmem => absurd hmem List.not_mem_nil
  | @cons entry var entries vars hentry _ ih =>
      refine List.forall_mem_cons.mpr ⟨⟨entry, List.mem_cons_self, hentry⟩, fun other hmem => ?_⟩
      obtain ⟨source, hsource, hread⟩ := ih other hmem
      exact ⟨source, List.mem_cons_of_mem entry hsource, hread⟩

theorem exists_split_of_mapping {front behind : Entries} {entry : Yaml.Value × Yaml.Value}
    {vars : List Variable} (hgives : listReader.Gives (.mapping (front ++ entry :: behind)) vars) :
    ∃ earlier var later, vars = earlier ++ var :: later ∧ IsShort entry var ∧
      ∀ other ∈ later, ∃ source ∈ behind, IsShort source other := by
  have hshort := forall₂_of_mapping hgives
  clear hgives
  induction front generalizing vars with
  | nil =>
      cases hshort with
      | cons hentry hbehind => exact ⟨[], _, _, rfl, hentry, exists_of_forall₂ hbehind⟩
  | cons other front ih =>
      cases hshort with
      | cons hother hrest =>
          obtain ⟨earlier, var, later, rfl, hentry, hlater⟩ := ih hrest
          exact ⟨_ :: earlier, var, later, rfl, hentry, hlater⟩

/-- A known field is the one that is found under its name. -/
theorem lookup_of_fields? {known : List String} {name : String} {entries : Entries}
    {fields : List (String × Yaml.Value)} {value : Yaml.Value} (hknown : known.contains name = true)
    (hfields : Form.fields? known entries = some fields)
    (hfound : lookUp? name entries = some value) : fields.lookup name = some value := by
  induction entries generalizing fields with
  | nil => cases hfound
  | cons entry entries ih =>
      obtain ⟨text, htext, hfields⟩ := Option.bind_eq_some_iff.mp hfields
      obtain ⟨others, hothers, hfields⟩ := Option.bind_eq_some_iff.mp hfields
      split at hfields
      case isTrue => cases hfields
      case isFalse hnew =>
          cases hfields
          rw [Yaml.Value.lookUp?_cons] at hfound
          rw [List.lookup_cons]
          split at hfound
          case isTrue hkey =>
              rw [Yaml.Value.eq_string_of_isKey hkey] at htext
              cases htext
              rw [beq_self_eq_true]
              exact hfound
          case isFalse =>
              -- The same field a second time would have been refused.
              have hlater := ih hothers hfound
              have hother : name ≠ text := by
                rintro rfl
                exact hnew (by rw [hknown, hlater]; rfl)
              rw [beq_false_of_ne hother]
              exact hlater

/-- The fields of a definition are found under their names. -/
theorem exists_of_definitionForm? {fields : Entries} {label source : Yaml.Value}
    {name value : String} {var : Variable} (hlabel : lookUp? "name" fields = some label)
    (hname : label.scalarText? = some name) (hsource : lookUp? "value" fields = some source)
    (hvalue : source.scalarText? = some value) (hform : definitionForm? fields = some var) :
    ∃ lock, var = .definition name value lock ∧
      (lookUp? "readonly" fields = some (.bool true) → lock = true) := by
  obtain ⟨known, hknown, hform⟩ := Option.bind_eq_some_iff.mp hform
  obtain ⟨text, htext, hform⟩ := Option.bind_eq_some_iff.mp hform
  obtain ⟨content, hcontent, hform⟩ := Option.bind_eq_some_iff.mp hform
  rw [lookup_of_fields? (by decide) hknown hlabel, Option.bind_some] at htext
  rw [lookup_of_fields? (by decide) hknown hsource, Option.bind_some, hvalue] at hcontent
  cases hcontent
  have hsame : text = name := by
    cases label with
    | string _ =>
        cases htext
        exact Option.some.inj hname
    | _ => cases htext
  subst hsame
  dsimp only at hform
  split at hform
  case h_1 hnone =>
      cases hform
      refine ⟨false, rfl, fun hreadonly => ?_⟩
      cases hnone.symm.trans (lookup_of_fields? (by decide) hknown hreadonly)
  case h_2 lock hlock =>
      cases hform
      refine ⟨lock, rfl, fun hreadonly => ?_⟩
      cases hlock.symm.trans (lookup_of_fields? (by decide) hknown hreadonly)
      rfl
  case h_3 => cases hform

/-- A node with a name and a value that refers to no template is read as a definition. -/
theorem eq_definition {fields : Entries} {label source : Yaml.Value} {name value : String}
    {var : Variable} (htransparent : EntriesAreTransparent fields)
    (hrefers : RefersToNothing fields) (hlabel : lookUp? "name" fields = some label)
    (hname : label.scalarText? = some name) (hsource : lookUp? "value" fields = some source)
    (hvalue : source.scalarText? = some value) (hgives : reader.Gives (.mapping fields) var) :
    ∃ lock, var = .definition name value lock ∧
      (lookUp? "readonly" fields = some (.bool true) → lock = true) := by
  rcases Option.or_eq_some_iff.mp hgives.form with hform | ⟨-, hform⟩
  · exact exists_of_definitionForm? hlabel hname hsource hvalue hform
  · cases var with
    | definition other content lock =>
        -- The form for references gives references only.
        obtain ⟨_, -, hform⟩ := Option.bind_eq_some_iff.mp hform
        obtain ⟨_, -, hform⟩ := Option.bind_eq_some_iff.mp hform
        obtain ⟨_, -, hform⟩ := Option.bind_eq_some_iff.mp hform
        cases hform
    | template path parameters =>
        rw [RefersToNothing, lookUp?_of_templateForm? htransparent hform] at hrefers
        cases hrefers

end Variable

end BuildPipeline
