import BuildPipeline.Yaml.Reader
import Mathlib.Tactic.Common

/-!
# Reading held data

A reader that succeeds on a held value says something about the value.  This module turns a result
around into what it was read from, one lemma for each way readers are put together.

* `Reader.Gives` forgets the place of a value and the aliases that may still be followed, which do
  not matter for what is held.
* `Reader.Gives.list`, `Reader.Gives.nullOr`, `Reader.Gives.form` and `Reader.Gives.mapping` are the
  inversions.
* `Reader.HasField` is what a record promises about one of its fields: it is read at most once and
  by its own name only.  The fold over the entries keeps a field that is filled, so
  `Reader.Gives.record` finds what a field was read from by looking its name up.

Names may be tagged, and a tagged name is not looked up.  So the names of a record are supposed to
be untagged here.
-/

namespace BuildPipeline.Yaml

/-! ## Results -/

section Results

variable {α β : Type} {left right : Nat}

theorem Result.bind_eq_ok {outcome : Result α} {next : α → Result β} {result : β}
    (hresult : (outcome >>= next) left = .ok (result, right)) :
    ∃ value middle, outcome left = .ok (value, middle) ∧
      next value middle = .ok (result, right) := by
  have hunfold : (outcome >>= next) left =
      (outcome left).bind fun pair => next pair.1 pair.2 := rfl
  rw [hunfold] at hresult
  cases houtcome : outcome left with
  | error error => rw [houtcome] at hresult; cases hresult
  | ok pair =>
      rw [houtcome] at hresult
      exact ⟨pair.1, pair.2, rfl, hresult⟩

theorem Result.pure_eq_ok {value result : α}
    (hresult : (pure value : Result α) left = .ok (result, right)) :
    value = result ∧ left = right := by
  cases hresult
  exact ⟨rfl, rfl⟩

theorem refuse_ne_ok {cause : Cause} {result : α} :
    (refuse cause : Result α) left ≠ .ok (result, right) :=
  fun hresult => nomatch hresult

end Results

/-- The entries of a held mapping, as they are read. -/
def heldEntries (entries : Entries) : List (Source × Source) :=
  entries.map fun entry => (.held entry.1, .held entry.2)

namespace Reader

variable {α β δ : Type}

/-- The reader makes this of a held value, wherever it stands. -/
def Gives (read : Reader α) (value : Value) (result : α) : Prop :=
  ∃ place left right, read place (.held value) left = .ok (result, right)

theorem gives_of_readHeld {read : Reader α} {value : Value} {result : α}
    (hread : readHeld read value = .ok result) : read.Gives value result := by
  cases hvalue : read {} (.held value) 0 with
  | error error =>
      rw [readHeld, StateT.run', hvalue] at hread
      cases hread
  | ok pair =>
      rw [readHeld, StateT.run', hvalue] at hread
      exact ⟨{}, 0, pair.2, hvalue.trans (by rw [← Except.ok.inj hread])⟩

/-! ## Lists and forms -/

theorem exists_gives_of_readItems {read : Reader α} {place : Place} {index left right : Nat}
    {items : List Value} {results : List α}
    (hread : readItems read place index (items.map .held) left = .ok (results, right)) :
    ∀ result ∈ results, ∃ item ∈ items, read.Gives item result := by
  induction items generalizing index left right results with
  | nil =>
      obtain ⟨rfl, -⟩ := Result.pure_eq_ok hread
      exact fun _ hmem => absurd hmem List.not_mem_nil
  | cons item items ih =>
      obtain ⟨first, middle, hfirst, hread⟩ := Result.bind_eq_ok hread
      obtain ⟨others, last, hothers, hread⟩ := Result.bind_eq_ok hread
      obtain ⟨rfl, -⟩ := Result.pure_eq_ok hread
      refine List.forall_mem_cons.mpr ⟨⟨item, List.mem_cons_self, _, _, _, hfirst⟩, ?_⟩
      intro result hmem
      obtain ⟨source, hsource, hgives⟩ := ih hothers result hmem
      exact ⟨source, List.mem_cons_of_mem item hsource, hgives⟩

/-- Every element of a list is read from an item of the sequence. -/
theorem Gives.list {read : Reader α} {value : Value} {results : List α}
    (hgives : (Reader.list read).Gives value results) :
    ∀ result ∈ results, ∃ items, value.untagged = .sequence items ∧
      ∃ item ∈ items, read.Gives item result := by
  obtain ⟨place, left, right, hread⟩ := hgives
  cases hvalue : value.untagged with
  | sequence items =>
      simp only [Reader.list, hvalue] at hread
      intro result hmem
      exact ⟨items, rfl, exists_gives_of_readItems hread result hmem⟩
  | null =>
      simp only [Reader.list, hvalue] at hread
      obtain ⟨rfl, -⟩ := Result.pure_eq_ok hread
      exact fun _ hmem => absurd hmem List.not_mem_nil
  | _ =>
      simp only [Reader.list, hvalue] at hread
      exact absurd hread refuse_ne_ok

theorem Gives.nullOr {expected : String} {none result : α} {items entries : Reader α}
    {value : Value} (hgives : (Reader.nullOr expected none items entries).Gives value result) :
    result = none ∨ items.Gives value result ∨ entries.Gives value result := by
  obtain ⟨place, left, right, hread⟩ := hgives
  cases value with
  | null => exact .inl (Result.pure_eq_ok hread).1.symm
  | sequence values => exact .inr (.inl ⟨place, left, right, hread⟩)
  | mapping values => exact .inr (.inr ⟨place, left, right, hread⟩)
  | _ => exact absurd hread refuse_ne_ok

/-- A form is chosen by the value as it is, in which nothing is tagged. -/
theorem Gives.form {type : String} {choose : Value → Option α} {value : Value} {result : α}
    (hgives : (Reader.form type choose).Gives value result) : choose value = some result := by
  obtain ⟨place, left, right, hread⟩ := hgives
  obtain ⟨plain, middle, hplain, hread⟩ := Result.bind_eq_ok hread
  unfold matchable at hplain
  dsimp only at hplain
  split at hplain
  case isTrue => exact absurd hplain refuse_ne_ok
  case isFalse =>
      obtain ⟨rfl, -⟩ := Result.pure_eq_ok hplain
      cases hchosen : choose value with
      | none =>
          rw [hchosen] at hread
          exact absurd hread refuse_ne_ok
      | some chosen =>
          rw [hchosen] at hread
          rw [(Result.pure_eq_ok hread).1]

/-! ## Mappings -/

/-- What every step keeps holds of what the entries come to. -/
theorem of_foldEntries {key : Reader String} {step : δ → String → Entry → Result δ}
    {p : δ → Prop} {place : Place} {start result : δ} {entries : List (Source × Source)}
    {left right : Nat} (hstart : p start)
    (hstep : ∀ {state next : δ} {text : String} {entry : Entry} {left right : Nat}, p state →
      step state text entry left = .ok (next, right) → p next)
    (hread : foldEntries key step place start entries left = .ok (result, right)) : p result := by
  induction entries generalizing start left with
  | nil =>
      obtain ⟨rfl, -⟩ := Result.pure_eq_ok hread
      exact hstart
  | cons entry entries ih =>
      obtain ⟨text, middle, -, hread⟩ := Result.bind_eq_ok hread
      obtain ⟨next, last, hnext, hread⟩ := Result.bind_eq_ok hread
      exact ih (hstep hstart hnext) hread

/-- What a mapping gives is made of what its entries come to. -/
theorem Gives.mapping {expected : String} {key : Reader String} {start : δ}
    {step : δ → String → Entry → Result δ} {finish : δ → Result α} {value : Value} {result : α}
    (hgives : (Reader.mapping expected key start step finish).Gives value result) :
    ∃ draft middle right, finish draft middle = .ok (result, right) ∧
      (draft = start ∨ ∃ entries, value.untagged = .mapping entries ∧ ∃ place left,
        foldEntries key step place start (heldEntries entries) left = .ok (draft, middle)) := by
  obtain ⟨place, left, right, hread⟩ := hgives
  cases hvalue : value.untagged with
  | mapping entries =>
      simp only [Reader.mapping, hvalue] at hread
      obtain ⟨draft, middle, hdraft, hread⟩ := Result.bind_eq_ok hread
      exact ⟨draft, middle, right, hread, .inr ⟨entries, rfl, place, left, hdraft⟩⟩
  | null =>
      simp only [Reader.mapping, hvalue] at hread
      exact ⟨start, left, right, hread, .inl rfl⟩
  | _ =>
      simp only [Reader.mapping, hvalue] at hread
      exact absurd hread refuse_ne_ok

/-! ## Fields of records -/

/-- A step that reads one field of a draft by this reader, at most once, and only under its name. -/
structure HasField (step : δ → String → Entry → Result (Option δ)) (name : String)
    (field : δ → Option α) (read : Reader α) : Prop where
  own : ∀ {draft : δ} {entry : Entry} {left right : Nat} {outcome : Option δ},
    step draft name entry left = .ok (outcome, right) →
      field draft = none ∧ ∃ next value middle, outcome = some next ∧ field next = some value ∧
        entry.read read left = .ok (value, middle)
  others : ∀ {draft next : δ} {other : String} {entry : Entry} {left right : Nat}, other ≠ name →
    step draft other entry left = .ok (some next, right) → field next = field draft

theorem once_eq_ok {seen result : Option α} {name : String} {entry : Entry} {read : Reader α}
    {left right : Nat} (honce : once seen name entry read left = .ok (result, right)) :
    seen = none ∧ ∃ value, result = some value ∧ entry.read read left = .ok (value, right) := by
  unfold once at honce
  split at honce
  case isTrue => exact absurd honce refuse_ne_ok
  case isFalse hseen =>
      rw [map_eq_pure_bind] at honce
      obtain ⟨value, middle, hvalue, hresult⟩ := Result.bind_eq_ok honce
      obtain ⟨rfl, rfl⟩ := Result.pure_eq_ok hresult
      exact ⟨by simpa using hseen, value, rfl, hvalue⟩

/-- A step that sets its field to what is read once. -/
theorem HasField.of_once {step : δ → String → Entry → Result (Option δ)} {name : String}
    {field : δ → Option α} {read : Reader α} (set : δ → Option α → δ)
    (hset : ∀ draft seen, field (set draft seen) = seen)
    (hown : ∀ draft entry, step draft name entry =
      do return some (set draft (← once (field draft) name entry read)))
    (hothers : ∀ {draft next : δ} {other : String} {entry : Entry} {left right : Nat},
      other ≠ name → step draft other entry left = .ok (some next, right) →
        field next = field draft) : HasField step name field read where
  own := by
    intro draft entry left right outcome hstep
    rw [hown] at hstep
    obtain ⟨seen, middle, hseen, hstep⟩ := Result.bind_eq_ok hstep
    obtain ⟨rfl, rfl⟩ := Result.pure_eq_ok hstep
    obtain ⟨hdraft, value, rfl, hvalue⟩ := once_eq_ok hseen
    exact ⟨hdraft, _, value, middle, rfl, hset draft _, hvalue⟩
  others := hothers

/-- A step that sets something else. -/
theorem exists_of_set {set : α → δ} {outcome : Result α} {next : δ} {left right : Nat}
    (hstep : (do return some (set (← outcome)) : Result (Option δ)) left =
      .ok (some next, right)) : ∃ value, next = set value := by
  obtain ⟨value, middle, -, hstep⟩ := Result.bind_eq_ok hstep
  exact ⟨value, (Option.some.inj (Result.pure_eq_ok hstep).1).symm⟩

/-- A step of a record, which skips what it does not know. -/
def recordStep (step : δ → String → Entry → Result (Option δ)) (draft : δ) (name : String)
    (entry : Entry) : Result δ := do
  match ← step draft name entry with
  | some draft => return draft
  | none =>
    entry.skip
    return draft

theorem record_eq (expected : String) (start : δ)
    (step : δ → String → Entry → Result (Option δ)) (finish : δ → Result α) :
    record expected start step finish =
      Reader.mapping expected (textAs "field identifier") start (recordStep step) finish := rfl

theorem eq_string_of_textAs {expected text : String} {place : Place} {key : Value}
    {left right : Nat} (hkey : key.untagged = key)
    (hread : textAs expected place (.held key) left = .ok (text, right)) : key = .string text := by
  simp only [textAs, hkey] at hread
  cases key with
  | string _ => rw [(Result.pure_eq_ok hread).1]
  | _ => exact absurd hread refuse_ne_ok

section HasField

variable {step : δ → String → Entry → Result (Option δ)} {name : String} {field : δ → Option α}
  {read : Reader α}

theorem HasField.recordStep_own (hfield : HasField step name field read) {draft next : δ}
    {entry : Entry} {left right : Nat}
    (hstep : recordStep step draft name entry left = .ok (next, right)) :
    field draft = none ∧ ∃ value middle, field next = some value ∧
      entry.read read left = .ok (value, middle) := by
  obtain ⟨outcome, middle, houtcome, hstep⟩ := Result.bind_eq_ok hstep
  obtain ⟨hdraft, filled, value, last, rfl, hvalue, hread⟩ := hfield.own houtcome
  obtain ⟨rfl, -⟩ := Result.pure_eq_ok hstep
  exact ⟨hdraft, value, last, hvalue, hread⟩

theorem HasField.recordStep_others (hfield : HasField step name field read) {draft next : δ}
    {other : String} {entry : Entry} {left right : Nat} (hother : other ≠ name)
    (hstep : recordStep step draft other entry left = .ok (next, right)) :
    field next = field draft := by
  obtain ⟨outcome, middle, houtcome, hstep⟩ := Result.bind_eq_ok hstep
  cases outcome with
  | some filled =>
      obtain ⟨rfl, -⟩ := Result.pure_eq_ok hstep
      exact hfield.others hother houtcome
  | none =>
      obtain ⟨_, _, -, hskipped⟩ := Result.bind_eq_ok hstep
      rw [(Result.pure_eq_ok hskipped).1]

/-- A field that is filled stays as it is. -/
theorem HasField.foldEntries_of_some (hfield : HasField step name field read) {place : Place}
    {draft result : δ} {value : α} {entries : List (Source × Source)} {left right : Nat}
    {key : Reader String} (hvalue : field draft = some value)
    (hread : foldEntries key (recordStep step) place draft entries left = .ok (result, right)) :
    field result = some value := by
  refine of_foldEntries (p := fun draft => field draft = some value) hvalue ?_ hread
  intro state next text entry left right hstate hstep
  rcases eq_or_ne text name with rfl | hother
  · -- The name again: the step would have found the field empty.
    cases hstate.symm.trans (hfield.recordStep_own hstep).1
  · rw [hfield.recordStep_others hother hstep, hstate]

/-- A field that comes to be filled is read from the entry with its name. -/
theorem HasField.foldEntries_of_none (hfield : HasField step name field read) {place : Place}
    {expected : String} {draft result : δ} {value : α} {entries : Entries} {left right : Nat}
    (hkeys : ∀ entry ∈ entries, entry.1.untagged = entry.1) (hdraft : field draft = none)
    (hread : foldEntries (textAs expected) (recordStep step) place draft (heldEntries entries)
      left = .ok (result, right)) (hvalue : field result = some value) :
    ∃ source, Value.lookUp? name entries = some source ∧ read.Gives source value := by
  induction entries generalizing draft left with
  | nil =>
      obtain ⟨rfl, -⟩ := Result.pure_eq_ok hread
      cases hdraft.symm.trans hvalue
  | cons entry entries ih =>
      obtain ⟨hkey, hrest⟩ := List.forall_mem_cons.mp hkeys
      obtain ⟨text, middle, htext, hread⟩ := Result.bind_eq_ok hread
      obtain ⟨next, last, hnext, hread⟩ := Result.bind_eq_ok hread
      -- The name that is read is the one that is looked up, since it is not tagged.
      have hname : entry.1.isKey name = (text == name) := by
        rw [eq_string_of_textAs hkey htext, Value.isKey]
      rw [Value.lookUp?, List.find?_cons, hname]
      rcases eq_or_ne text name with rfl | hother
      · obtain ⟨-, first, stop, hfirst, hsource⟩ := hfield.recordStep_own hnext
        rw [hfield.foldEntries_of_some hfirst hread, Option.some.injEq] at hvalue
        rw [beq_self_eq_true]
        exact ⟨entry.2, rfl, _, _, _, hvalue ▸ hsource⟩
      · rw [beq_false_of_ne hother]
        exact ih hrest ((hfield.recordStep_others hother hnext).trans hdraft) hread

end HasField

/-- A record whose names are plain texts is finished from fields that its entries give. -/
theorem Gives.record {expected : String} {start : δ}
    {step : δ → String → Entry → Result (Option δ)} {finish : δ → Result α} {value : Value}
    {result : α} (hgives : (Reader.record expected start step finish).Gives value result)
    (hkeys : ∀ entries, value.untagged = .mapping entries →
      ∀ entry ∈ entries, entry.1.untagged = entry.1) :
    ∃ draft left right, finish draft left = .ok (result, right) ∧
      ∀ {β : Type} {name : String} {field : δ → Option β} {read : Reader β} {part : β},
        HasField step name field read → field start = none → field draft = some part →
          ∃ entries source, value.untagged = .mapping entries ∧
            Value.lookUp? name entries = some source ∧ read.Gives source part := by
  rw [record_eq] at hgives
  obtain ⟨draft, middle, right, hfinish, hdraft⟩ := hgives.mapping
  refine ⟨draft, middle, right, hfinish, fun hfield hstart hpart => ?_⟩
  rcases hdraft with rfl | ⟨entries, hentries, place, left, hfold⟩
  · cases hstart.symm.trans hpart
  · obtain ⟨source, hsource, hgives⟩ :=
      hfield.foldEntries_of_none (hkeys entries hentries) hstart hfold hpart
    exact ⟨entries, source, hentries, hsource, hgives⟩

end Reader

end BuildPipeline.Yaml
