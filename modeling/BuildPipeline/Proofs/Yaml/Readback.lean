import BuildPipeline.Pipeline.Writing
import BuildPipeline.Proofs.Expression.Documents
import BuildPipeline.Proofs.Yaml.Records
import Mathlib.Data.List.Forall2

/-!
# Reading what was written

A value that was written from typed data is read back as that data, if every part of the data is one
that can come of reading.  Both halves of this are put together from small pieces, as readers are.

* `Reader.Reads` says that a reader makes something of a held value wherever it stands.  It goes
  through lists, tables and forms, and `Reader.Absorbs` takes it through the fields of a mapping one
  after the other, so that a record is read as it was written: by appending fields.
* `Reader.Yields` is a property of everything that a reader can make of held values.  It goes
  through the same constructions, and `of_foldHeld` carries it through the fields of a draft.

Tables are written in ascending order, in which they are also kept, so no order is lost.
-/

namespace BuildPipeline.Yaml

namespace Reader

variable {α β δ : Type}

/-! ## What is read of a value -/

/-- The reader makes this of a held value, wherever it stands, and follows no alias for it. -/
def Reads (read : Reader α) (value : Value) (result : α) : Prop :=
  ∀ place left, read place (.held value) left = .ok (result, left)

theorem Reads.readHeld {read : Reader α} {value : Value} {result : α}
    (hreads : read.Reads value result) : readHeld read value = .ok result := by
  rw [Yaml.readHeld, StateT.run', hreads]
  rfl

theorem reads_value (value : Value) : Reader.value.Reads value value :=
  fun _ _ => rfl

theorem reads_text (text : String) : Reader.text.Reads (.string text) text :=
  fun _ _ => rfl

theorem reads_bool (value : Bool) : Reader.bool.Reads (.bool value) value :=
  fun _ _ => rfl

theorem reads_word32 (word : UInt32) : Reader.word32.Reads (.int word.toNat) word := by
  intro place left
  have hrange : checkRange (word.toNat : Int) left = .ok (word, left) := by
    rw [checkRange, if_pos ⟨Int.natCast_nonneg _, word.toNat_lt⟩, Int.toNat_natCast,
      UInt32.ofNat_toNat]
    rfl
  exact hrange

theorem Reads.optional {read : Reader α} {value : Value} {result : α}
    (hreads : read.Reads value result) (hpresent : value ≠ .null) :
    (optional read).Reads value (some result) := by
  intro place left
  cases value with
  | null => exact absurd rfl hpresent
  | _ =>
      change (some <$> read place _) left = _
      rw [map_eq_pure_bind]
      change (read place _ left).bind _ = _
      rw [hreads place left]
      rfl

theorem reads_list {read : Reader α} {items : List Value} {results : List α}
    (hreads : List.Forall₂ read.Reads items results) :
    (list read).Reads (.sequence items) results := by
  have hitems : ∀ place index left,
      readItems read place index (items.map .held) left = .ok (results, left) := by
    induction hreads with
    | nil => exact fun _ _ _ => rfl
    | @cons item result items results hitem _ ih =>
        intro place index left
        change (read (place.item index) (.held item) left).bind _ = _
        rw [hitem]
        change (readItems read place (index + 1) (items.map .held) left).bind _ = _
        rw [ih]
        rfl
  exact fun place left => hitems place 0 left

theorem reads_form {type : String} {choose : Value → Option α} {value : Value} {result : α}
    (hchosen : choose value = some result) (hplain : value.hasTag = false) :
    (form type choose).Reads value result := by
  intro place left
  have hmatchable : matchable place (.held value) left = .ok (value, left) := by
    simp only [matchable, hplain, Bool.false_eq_true, if_false]
    rfl
  change (matchable place (.held value) left).bind _ = _
  rw [hmatchable]
  simp only [Except.bind, hchosen]
  rfl

theorem reads_word {words : List (String × α)} {name : String} {result : α}
    (hfound : words.lookup name = some result) : (word words).Reads (.string name) result := by
  intro place left
  simp only [word, hfound]
  rfl

/-! ## Fields one after the other -/

/-- Going through some fields of a held mapping takes one draft to another. -/
def Absorbs (step : δ → String → Entry → Result δ) (draft : δ) (fields : Entries) (next : δ) :
    Prop :=
  ∀ expected place left,
    foldEntries (textAs expected) step place draft (heldEntries fields) left = .ok (next, left)

theorem foldEntries_append {key : Reader String} {step : δ → String → Entry → Result δ}
    {place : Place} (draft : δ) (front back : List (Source × Source)) :
    foldEntries key step place draft (front ++ back) =
      foldEntries key step place draft front >>= fun next =>
        foldEntries key step place next back := by
  induction front generalizing draft with
  | nil => simp only [List.nil_append, foldEntries, pure_bind]
  | cons entry front ih => simp only [List.cons_append, foldEntries, bind_assoc, ih]

section Absorbs

variable {step : δ → String → Entry → Result δ} {draft middle next : δ} {front back : Entries}

theorem Absorbs.nil : Absorbs step draft [] draft :=
  fun _ _ _ => rfl

theorem Absorbs.append (hfront : Absorbs step draft front middle)
    (hback : Absorbs step middle back next) : Absorbs step draft (front ++ back) next := by
  intro expected place left
  have hsplit : heldEntries (front ++ back) = heldEntries front ++ heldEntries back :=
    List.map_append
  rw [hsplit, foldEntries_append]
  change (foldEntries _ _ _ _ _ left).bind _ = _
  rw [hfront]
  exact hback expected place left

theorem absorbs_field {name : String} {value : Value}
    (hstep : ∀ place left, step draft name ⟨place, .held value⟩ left = .ok (next, left)) :
    Absorbs step draft (yamlField name value) next := by
  intro expected place left
  change (step draft name ⟨_, .held value⟩ left).bind _ = _
  rw [hstep]
  rfl

theorem Absorbs.mapping {expected : String} {finish : δ → Result α} {result : α}
    (habsorbs : Absorbs step draft front next) (hfinish : finish next = pure result)
    (label : String) :
    (Reader.mapping expected (textAs label) draft step finish).Reads (.mapping front) result := by
  intro place left
  change (foldEntries _ _ _ _ (heldEntries front) left).bind _ = _
  rw [habsorbs]
  simp only [Except.bind, hfinish]
  rfl

/-- A record reads the fields that its step reads. -/
theorem Absorbs.record {step : δ → String → Entry → Result (Option δ)} {expected : String}
    {finish : δ → Result α} {result : α} (habsorbs : Absorbs (recordStep step) draft front next)
    (hfinish : finish next = pure result) :
    (Reader.record expected draft step finish).Reads (.mapping front) result :=
  habsorbs.mapping hfinish "field identifier"

end Absorbs

/-- A step takes a field under its name, at most once. -/
def Takes (step : δ → String → Entry → Result δ) (name : String) (get : δ → Option α)
    (set : δ → Option α → δ) (read : Reader α) : Prop :=
  ∀ draft entry, step draft name entry = do return set draft (← once (get draft) name entry read)

theorem Takes.mapping {step : δ → String → Entry → Result δ} {read : Reader α}
    (name : String) (get : δ → Option α) (set : δ → Option α → δ)
    (htakes : ∀ draft entry, step draft name entry =
      do return set draft (← once (get draft) name entry read)) :
    Takes step name get set read :=
  htakes

/-- The same for a record, which skips the fields that its step does not know. -/
theorem Takes.record {step : δ → String → Entry → Result (Option δ)} {read : Reader α}
    (name : String) (get : δ → Option α) (set : δ → Option α → δ)
    (htakes : ∀ draft entry, step draft name entry =
      do return some (set draft (← once (get draft) name entry read))) :
    Takes (recordStep step) name get set read := by
  intro draft entry
  simp only [recordStep, htakes, bind_assoc, pure_bind]

/-- What is written of a list: nothing, if it is empty. -/
def unlessEmpty (items : List α) : Option (List α) :=
  if items.isEmpty then none else some items

@[simp] theorem getD_unlessEmpty (items : List α) : (unlessEmpty items).getD [] = items := by
  cases items <;> rfl

@[simp] theorem join_map_some (value : Option α) : (value.map some).join = value := by
  cases value <;> rfl

namespace Absorbs

variable {step : δ → String → Entry → Result δ} {name : String} {start draft : δ} {front : Entries}

theorem field {get : δ → Option α} {set : δ → Option α → δ} {read : Reader α} {value : Value}
    {result : α} (habsorbs : Absorbs step start front draft)
    (htakes : Takes step name get set read) (hempty : get draft = none)
    (hreads : read.Reads value result) :
    Absorbs step start (front ++ yamlField name value) (set draft (some result)) := by
  refine habsorbs.append (absorbs_field fun place left => ?_)
  rw [htakes, hempty]
  change ((some <$> read place (.held value)) left).bind _ = _
  rw [map_eq_pure_bind]
  change ((read place (.held value) left).bind _).bind _ = _
  rw [hreads]
  rfl

theorem skip (habsorbs : Absorbs step start front draft) : Absorbs step start (front ++ []) draft :=
  habsorbs.append .nil

/-- A field that is left out leaves the draft as it is. -/
theorem optional {get : δ → Option (Option α)} {set : δ → Option (Option α) → δ}
    {read : Reader α} {encode : α → Value} (habsorbs : Absorbs step start front draft)
    (htakes : Takes step name get set (.optional read)) (hempty : get draft = none)
    (hsame : set draft none = draft) (value : Option α)
    (hreads : ∀ present ∈ value, read.Reads (encode present) present ∧ encode present ≠ .null) :
    Absorbs step start (front ++ yamlOptional name encode value) (set draft (value.map some)) := by
  cases value with
  | none =>
      rw [Option.map_none, hsame]
      exact habsorbs.skip
  | some present =>
      obtain ⟨hread, hpresent⟩ := hreads present rfl
      exact habsorbs.field htakes hempty (hread.optional hpresent)

theorem text {get : δ → Option (Option String)} {set : δ → Option (Option String) → δ}
    (habsorbs : Absorbs step start front draft) (htakes : Takes step name get set (.optional .text))
    (hempty : get draft = none) (hsame : set draft none = draft) (value : Option String) :
    Absorbs step start (front ++ yamlText name value) (set draft (value.map some)) :=
  habsorbs.optional htakes hempty hsame value fun text _ =>
    ⟨reads_text text, fun heq => nomatch heq⟩

theorem word {get : δ → Option (Option UInt32)} {set : δ → Option (Option UInt32) → δ}
    (habsorbs : Absorbs step start front draft)
    (htakes : Takes step name get set (.optional .word32)) (hempty : get draft = none)
    (hsame : set draft none = draft) (value : Option UInt32) :
    Absorbs step start (front ++ yamlWord name value) (set draft (value.map some)) :=
  habsorbs.optional htakes hempty hsame value fun word _ =>
    ⟨reads_word32 word, fun heq => nomatch heq⟩

/-- A value that is null is written like any other, and it is read as one that is missing. -/
theorem exists_value {get : δ → Option (Option Value)} {set : δ → Option (Option Value) → δ}
    (habsorbs : Absorbs step start front draft)
    (htakes : Takes step name get set (.optional .value)) (hempty : get draft = none)
    (hsame : set draft none = draft) (value : Option Value) :
    ∃ written, Absorbs step start (front ++ yamlOptional name id value) (set draft written) ∧
      written.join = value.filter (· ≠ .null) := by
  cases value with
  | none =>
      refine ⟨none, ?_, rfl⟩
      rw [hsame]
      exact habsorbs.skip
  | some value =>
      by_cases hnull : value = .null
      · subst hnull
        refine ⟨some none, ?_, rfl⟩
        have hreads : (Reader.optional .value).Reads .null none := fun _ _ => rfl
        exact habsorbs.field htakes hempty hreads
      · refine ⟨some (some value), ?_, by simp [Option.filter, hnull]⟩
        exact habsorbs.field htakes hempty ((reads_value value).optional hnull)

/-- A list that is read in a way of its own. -/
theorem items {get : δ → Option (List α)} {set : δ → Option (List α) → δ} {read : Reader (List α)}
    {encode : α → Value} {items : List α} (habsorbs : Absorbs step start front draft)
    (htakes : Takes step name get set read) (hempty : get draft = none)
    (hsame : set draft none = draft) (hreads : read.Reads (.sequence (items.map encode)) items) :
    Absorbs step start (front ++ yamlItems name (items.map encode))
      (set draft (unlessEmpty items)) := by
  cases items with
  | nil =>
      rw [show unlessEmpty ([] : List α) = none from rfl, hsame]
      exact habsorbs.skip
  | cons item items => exact habsorbs.field htakes hempty hreads

/-- A list whose items are read one by one. -/
theorem results {get : δ → Option (List α)} {set : δ → Option (List α) → δ} {read : Reader α}
    {values : List Value} {results : List α} (habsorbs : Absorbs step start front draft)
    (htakes : Takes step name get set (.list read)) (hempty : get draft = none)
    (hsame : set draft none = draft) (hreads : List.Forall₂ read.Reads values results) :
    Absorbs step start (front ++ yamlItems name values) (set draft (unlessEmpty results)) := by
  cases hreads with
  | nil =>
      rw [show unlessEmpty ([] : List α) = none from rfl, hsame]
      exact habsorbs.skip
  | cons hitem hrest => exact habsorbs.field htakes hempty (reads_list (.cons hitem hrest))

theorem list {get : δ → Option (List α)} {set : δ → Option (List α) → δ} {read : Reader α}
    {encode : α → Value} {items : List α} (habsorbs : Absorbs step start front draft)
    (htakes : Takes step name get set (.list read)) (hempty : get draft = none)
    (hsame : set draft none = draft) (hreads : ∀ item ∈ items, read.Reads (encode item) item) :
    Absorbs step start (front ++ yamlItems name (items.map encode))
      (set draft (unlessEmpty items)) := by
  refine habsorbs.results htakes hempty hsame ?_
  rw [List.forall₂_map_left_iff]
  exact List.forall₂_same.mpr hreads

end Absorbs

/-! ## Tables -/

theorem absorbs_table {read : Reader α} {encode : α → Value} (front back : Table α)
    (hascending : Table.Ascending (front ++ back))
    (hreads : ∀ entry ∈ back, read.Reads (encode entry.2) entry.2) :
    Absorbs (fun entries key entry => return Table.insert key (← entry.read read) entries) front
      (back.map fun entry => (.string entry.1, encode entry.2)) (front ++ back) := by
  induction back generalizing front with
  | nil =>
      rw [List.append_nil]
      exact .nil
  | cons entry back ih =>
      intro expected place left
      obtain ⟨hentry, hback⟩ := List.forall_mem_cons.mp hreads
      have hlast : ∀ other ∈ front, other.1 < entry.1 := by
        rw [Table.Ascending, List.map_append, List.pairwise_append] at hascending
        exact fun other hmem => hascending.2.2 _ (List.mem_map_of_mem hmem) _ (by simp)
      have hsplit : front ++ entry :: back = front ++ [entry] ++ back := by simp
      change (((read _ (.held (encode entry.2))) left).bind _).bind _ = _
      rw [hentry]
      change foldEntries _ _ _ (Table.insert entry.1 entry.2 front) _ left = _
      rw [Table.insert_of_forall_lt entry.2 hlast, hsplit]
      exact ih (front ++ [entry]) (hsplit ▸ hascending) hback expected place left

/-- A table is read from its entries in order. -/
theorem reads_table {read : Reader α} {encode : α → Value} {table : Table α}
    (hascending : Table.Ascending table)
    (hreads : ∀ entry ∈ table, read.Reads (encode entry.2) entry.2) :
    (Reader.table read).Reads (.mapping (table.map fun entry => (.string entry.1, encode entry.2)))
      table :=
  (absorbs_table [] table hascending hreads).mapping rfl "a string"

theorem Absorbs.table {step : δ → String → Entry → Result δ} {name : String} {start draft : δ}
    {front : Entries} {get : δ → Option (Table α)} {set : δ → Option (Table α) → δ}
    {read : Reader α} {encode : α → Value} {table : Table α}
    (habsorbs : Absorbs step start front draft) (htakes : Takes step name get set (.table read))
    (hempty : get draft = none) (hsame : set draft none = draft)
    (hascending : Table.Ascending table) (hreads : ∀ value, read.Reads (encode value) value) :
    Absorbs step start (front ++ yamlTable name (table.mapValues encode))
      (set draft (unlessEmpty table)) := by
  cases table with
  | nil =>
      rw [show unlessEmpty ([] : Table α) = none from rfl, hsame]
      exact habsorbs.skip
  | cons entry rest =>
      have hread := reads_table hascending fun entry _ => hreads entry.2
      have hwritten : (Table.mapValues encode (entry :: rest)).map (fun entry =>
          (Value.string entry.1, entry.2)) =
            (entry :: rest).map fun entry => (Value.string entry.1, encode entry.2) := by
        simp [Table.mapValues]
      exact habsorbs.field htakes hempty (hwritten ▸ hread)

theorem Absorbs.texts {step : δ → String → Entry → Result δ} {name : String} {start draft : δ}
    {front : Entries} {get : δ → Option (Table String)} {set : δ → Option (Table String) → δ}
    {table : Table String} (habsorbs : Absorbs step start front draft)
    (htakes : Takes step name get set (.table .text)) (hempty : get draft = none)
    (hsame : set draft none = draft) (hascending : Table.Ascending table) :
    Absorbs step start (front ++ yamlTexts name table) (set draft (unlessEmpty table)) :=
  habsorbs.table htakes hempty hsame hascending reads_text

theorem mapValues_id (table : Table α) : table.mapValues id = table := by
  simp [Table.mapValues]

theorem Absorbs.values {step : δ → String → Entry → Result δ} {name : String} {start draft : δ}
    {front : Entries} {get : δ → Option (Table Value)} {set : δ → Option (Table Value) → δ}
    {table : Table Value} (habsorbs : Absorbs step start front draft)
    (htakes : Takes step name get set (.table .value)) (hempty : get draft = none)
    (hsame : set draft none = draft) (hascending : Table.Ascending table) :
    Absorbs step start (front ++ yamlTable name table) (set draft (unlessEmpty table)) := by
  have hfields := habsorbs.table htakes hempty hsame hascending reads_value
  rwa [show Table.mapValues (fun value => value) table = table from mapValues_id table] at hfields

/-! ## What comes of reading -/

/-- Everything that a reader makes of held values has a property. -/
def Yields (read : Reader α) (p : α → Prop) : Prop :=
  ∀ value result, read.Gives value result → p result

theorem Yields.imp {read : Reader α} {p q : α → Prop} (hyields : read.Yields p)
    (himp : ∀ result, p result → q result) : read.Yields q :=
  fun value result hgives => himp result (hyields value result hgives)

theorem yields_true (read : Reader α) : read.Yields fun _ => True :=
  fun _ _ _ => trivial

theorem yields_list {read : Reader α} {p : α → Prop} (hyields : read.Yields p) :
    (list read).Yields fun results => ∀ result ∈ results, p result := by
  intro value results hgives result hresult
  obtain ⟨items, -, item, -, hitem⟩ := hgives.list result hresult
  exact hyields item result hitem

theorem yields_optional {read : Reader α} {p : α → Prop}
    (hyields : ∀ value result, value ≠ .null → read.Gives value result → p result) :
    (optional read).Yields fun outcome => ∀ result ∈ outcome, p result := by
  rintro value outcome ⟨place, left, right, hread⟩ result hresult
  by_cases hnull : value = .null
  · subst hnull
    obtain ⟨rfl, -⟩ := Result.pure_eq_ok hread
    cases hresult
  · have hunfold : optional read place (.held value) =
        (do return some (← read place (.held value))) := by
      cases value <;> first | rfl | exact absurd rfl hnull
    rw [hunfold] at hread
    obtain ⟨inner, middle, hinner, hread⟩ := Result.bind_eq_ok hread
    obtain ⟨rfl, -⟩ := Result.pure_eq_ok hread
    obtain rfl := Option.some.inj hresult
    exact hyields value inner hnull ⟨place, left, middle, hinner⟩

/-- A value that is read where null counts as nothing is not null. -/
theorem yields_optional_value :
    (optional .value).Yields fun outcome => outcome ≠ some .null := by
  intro value outcome hgives hnull
  refine yields_optional (p := fun result => result ≠ .null) ?_ value outcome hgives .null hnull rfl
  rintro held result hpresent ⟨place, left, right, hread⟩
  rw [← (Result.pure_eq_ok hread).1]
  exact hpresent

/-- What is read to be matched has no tags. -/
theorem hasTag_of_matchable {place : Place} {value result : Value} {left right : Nat}
    (hread : matchable place (.held value) left = .ok (result, right)) : result.hasTag = false := by
  unfold matchable at hread
  dsimp only at hread
  split at hread
  · exact absurd hread refuse_ne_ok
  · next htag =>
      rw [← (Result.pure_eq_ok hread).1]
      exact Bool.eq_false_iff.mpr htag

/-- What a form is chosen from has no tags. -/
theorem Gives.hasTag_form {type : String} {choose : Value → Option α} {value : Value} {result : α}
    (hgives : (Reader.form type choose).Gives value result) : value.hasTag = false := by
  obtain ⟨place, left, right, hread⟩ := hgives
  obtain ⟨plain, middle, hplain, -⟩ := Result.bind_eq_ok hread
  have htag := hasTag_of_matchable hplain
  unfold matchable at hplain
  dsimp only at hplain
  split at hplain
  · exact absurd hplain refuse_ne_ok
  · rwa [(Result.pure_eq_ok hplain).1]

/-- What every step keeps holds of what the entries of a held mapping come to. -/
theorem of_foldHeld {key : Reader String} {step : δ → String → Entry → Result δ} {p : δ → Prop}
    {place : Place} {start result : δ} {entries : Entries} {left right : Nat} (hstart : p start)
    (hstep : ∀ {state next : δ} {text : String} {place : Place} {value : Value} {left right : Nat},
      p state → step state text ⟨place, .held value⟩ left = .ok (next, right) → p next)
    (hread : foldEntries key step place start (heldEntries entries) left = .ok (result, right)) :
    p result := by
  induction entries generalizing start left with
  | nil =>
      obtain ⟨rfl, -⟩ := Result.pure_eq_ok hread
      exact hstart
  | cons entry entries ih =>
      obtain ⟨text, middle, -, hread⟩ := Result.bind_eq_ok hread
      obtain ⟨next, last, hnext, hread⟩ := Result.bind_eq_ok hread
      exact ih (hstep hstart hnext) hread

theorem yields_mapping {expected : String} {key : Reader String} {start : δ}
    {step : δ → String → Entry → Result δ} {finish : δ → Result α} {p : δ → Prop} {q : α → Prop}
    (hstart : p start)
    (hstep : ∀ {state next : δ} {text : String} {place : Place} {value : Value} {left right : Nat},
      p state → step state text ⟨place, .held value⟩ left = .ok (next, right) → p next)
    (hfinish : ∀ {draft : δ} {result : α} {left right : Nat}, p draft →
      finish draft left = .ok (result, right) → q result) :
    (Reader.mapping expected key start step finish).Yields q := by
  intro value result hgives
  obtain ⟨draft, middle, right, hresult, hdraft⟩ := hgives.mapping
  refine hfinish ?_ hresult
  rcases hdraft with rfl | ⟨entries, -, place, left, hfold⟩
  · exact hstart
  · exact of_foldHeld hstart hstep hfold

/-- A record whose step keeps a property of the draft, where it knows the field. -/
theorem yields_record {expected : String} {start : δ}
    {step : δ → String → Entry → Result (Option δ)} {finish : δ → Result α} {p : δ → Prop}
    {q : α → Prop} (hstart : p start)
    (hstep : ∀ {state next : δ} {text : String} {place : Place} {value : Value} {left right : Nat},
      p state → step state text ⟨place, .held value⟩ left = .ok (some next, right) → p next)
    (hfinish : ∀ {draft : δ} {result : α} {left right : Nat}, p draft →
      finish draft left = .ok (result, right) → q result) :
    (Reader.record expected start step finish).Yields q := by
  rw [record_eq]
  refine yields_mapping hstart ?_ hfinish
  intro state next text place value left right hstate hread
  obtain ⟨outcome, middle, houtcome, hread⟩ := Result.bind_eq_ok hread
  cases outcome with
  | some filled =>
      obtain ⟨rfl, -⟩ := Result.pure_eq_ok hread
      exact hstep hstate houtcome
  | none =>
      obtain ⟨_, _, -, hskipped⟩ := Result.bind_eq_ok hread
      rw [← (Result.pure_eq_ok hskipped).1]
      exact hstate

/-- A field that is read once holds something that its reader yields. -/
theorem exists_of_once {γ : Type} {seen : Option α} {name : String} {place : Place} {value : Value}
    {read : Reader α} {p : α → Prop} {set : Option α → γ} {result : γ} {left right : Nat}
    (hyields : read.Yields p)
    (honce : (do return set (← once seen name ⟨place, .held value⟩ read)) left =
      .ok (result, right)) : ∃ part, p part ∧ result = set (some part) := by
  obtain ⟨outcome, middle, houtcome, hresult⟩ := Result.bind_eq_ok honce
  obtain ⟨rfl, -⟩ := Result.pure_eq_ok hresult
  obtain ⟨-, part, rfl, hpart⟩ := once_eq_ok houtcome
  exact ⟨part, hyields value part ⟨place, left, middle, hpart⟩, rfl⟩

theorem yields_table (read : Reader α) : (Reader.table read).Yields Table.Ascending := by
  refine yields_mapping (p := Table.Ascending) List.Pairwise.nil ?_ ?_
  · intro state next text place value left right hstate hstep
    obtain ⟨part, middle, -, hstep⟩ := Result.bind_eq_ok hstep
    obtain ⟨rfl, -⟩ := Result.pure_eq_ok hstep
    exact hstate.insert text part
  · intro draft result left right hdraft hfinish
    rw [← (Result.pure_eq_ok hfinish).1]
    exact hdraft

end Reader
end BuildPipeline.Yaml
