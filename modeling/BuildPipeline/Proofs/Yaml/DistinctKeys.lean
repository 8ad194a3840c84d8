import BuildPipeline.Proofs.Yaml.Records
import BuildPipeline.Yaml.Codec

/-!
# Keys of a mapping

Mappings are lists of entries here.  What keeps a key from standing in one twice is how they are
made: a reader refuses a key that is the same as one before it, and setting an entry looks for its
key first.

* `Everywhere` asks something of all texts and all mappings in a value, the ones in keys and under
  tags included; `KeysDiffer` is one such property.
* `keysDiffer_of_readValue`: it holds of every value that is read from a text.  Of another reader
  that has to be known (`Codec.TellsKeysApart`).
* `insert_of_new`: where all keys differ, setting entries one by one writes them one behind the
  other.
-/

namespace BuildPipeline.Yaml

namespace Value

/-! ## All over a value -/

section Everywhere

variable (texts : String → Prop) (mappings : Entries → Prop)

mutual

/-- All texts and all mappings in the value have these properties. -/
def Everywhere : Value → Prop
  | .string text => texts text
  | .sequence items => EverywhereInItems items
  | .mapping entries => mappings entries ∧ EverywhereInEntries entries
  | .tagged _ content => content.Everywhere
  | _ => True

def EverywhereInItems : List Value → Prop
  | [] => True
  | item :: items => item.Everywhere ∧ EverywhereInItems items

def EverywhereInEntries : List (Value × Value) → Prop
  | [] => True
  | (key, value) :: entries =>
    key.Everywhere ∧ value.Everywhere ∧ EverywhereInEntries entries

end

mutual

instance decidableEverywhere [DecidablePred texts] [DecidablePred mappings] :
    (value : Value) → Decidable (value.Everywhere texts mappings)
  | .string text => inferInstanceAs (Decidable (texts text))
  | .sequence items => decidableEverywhereInItems items
  | .mapping entries =>
    haveI := decidableEverywhereInEntries entries
    inferInstanceAs (Decidable (mappings entries ∧ EverywhereInEntries texts mappings entries))
  | .tagged _ content => decidableEverywhere content
  | .null | .bool _ | .int _ | .float _ => .isTrue trivial

instance decidableEverywhereInItems [DecidablePred texts] [DecidablePred mappings] :
    (items : List Value) → Decidable (EverywhereInItems texts mappings items)
  | [] => .isTrue trivial
  | item :: items =>
    haveI := decidableEverywhere item
    haveI := decidableEverywhereInItems items
    inferInstanceAs (Decidable (item.Everywhere texts mappings ∧ _))

instance decidableEverywhereInEntries [DecidablePred texts] [DecidablePred mappings] :
    (entries : List (Value × Value)) → Decidable (EverywhereInEntries texts mappings entries)
  | [] => .isTrue trivial
  | (key, value) :: entries =>
    haveI := decidableEverywhere key
    haveI := decidableEverywhere value
    haveI := decidableEverywhereInEntries entries
    inferInstanceAs
      (Decidable (key.Everywhere texts mappings ∧ value.Everywhere texts mappings ∧ _))

end

variable {texts : String → Prop} {mappings : Entries → Prop}

theorem everywhereInItems_iff {items : List Value} :
    EverywhereInItems texts mappings items ↔ ∀ item ∈ items, item.Everywhere texts mappings := by
  induction items with
  | nil => simp [EverywhereInItems]
  | cons item items ih => rw [EverywhereInItems, ih, List.forall_mem_cons]

theorem everywhereInEntries_iff {entries : Entries} :
    EverywhereInEntries texts mappings entries ↔
      ∀ entry ∈ entries, entry.1.Everywhere texts mappings ∧
        entry.2.Everywhere texts mappings := by
  induction entries with
  | nil => simp [EverywhereInEntries]
  | cons entry entries ih =>
      rw [EverywhereInEntries, ih, List.forall_mem_cons]
      exact and_assoc.symm

theorem Everywhere.untagged {value : Value} (hvalue : value.Everywhere texts mappings) :
    value.untagged.Everywhere texts mappings := by
  induction value using Value.untagged.induct with
  | case1 tag content ih => exact ih hvalue
  | case2 value huntagged => rwa [Value.untagged.eq_2 value huntagged]

theorem Everywhere.text? {value : Value} {text : String} (hvalue : value.Everywhere texts mappings)
    (htext : value.text? = some text) : texts text := by
  have huntagged := hvalue.untagged
  unfold Value.text? at htext
  split at htext
  case h_1 content hcontent => cases htext; rwa [hcontent] at huntagged
  case h_2 => cases htext

theorem Everywhere.entries? {value : Value} {entries : Entries}
    (hvalue : value.Everywhere texts mappings) (hentries : value.entries? = some entries) :
    mappings entries ∧ EverywhereInEntries texts mappings entries := by
  have huntagged := hvalue.untagged
  unfold Value.entries? at hentries
  split at hentries
  case h_1 content hcontent => cases hentries; rwa [hcontent] at huntagged
  case h_2 => cases hentries

theorem Everywhere.lookUp? {key : String} {value : Value} {entries : Entries}
    (hentries : EverywhereInEntries texts mappings entries)
    (hfound : Value.lookUp? key entries = some value) : value.Everywhere texts mappings := by
  obtain ⟨entry, hfind, rfl⟩ := Option.map_eq_some_iff.mp hfound
  exact (everywhereInEntries_iff.mp hentries entry (List.mem_of_find?_eq_some hfind)).2

end Everywhere

/-- No key is the same as one before it. -/
def HasDistinctKeys (entries : Entries) : Prop :=
  entries.Pairwise fun earlier later => later.1.same earlier.1 = false

instance : DecidablePred HasDistinctKeys := fun entries =>
  inferInstanceAs (Decidable (entries.Pairwise fun earlier later => later.1.same earlier.1 = false))

/-- The keys of every mapping in the value are different. -/
abbrev KeysDiffer : Value → Prop :=
  Everywhere (fun _ => True) HasDistinctKeys

theorem insert_of_new {key value : Value} {entries : Entries}
    (hnew : ∀ entry ∈ entries, key.same entry.1 = false) :
    insert key value entries = entries ++ [(key, value)] := by
  induction entries with
  | nil => rfl
  | cons entry entries ih =>
      obtain ⟨hentry, hrest⟩ := List.forall_mem_cons.mp hnew
      rw [insert, hentry, if_neg Bool.false_ne_true, ih hrest, List.cons_append]

end Value

/-! ## What is read -/

section Reading

variable {α : Type} {left right : Nat}

theorem located_eq_ok {place : Place} {mark : Mark} {outcome : Result α} {result : α}
    (hread : located place mark outcome left = .ok (result, right)) :
    outcome left = .ok (result, right) := by
  unfold located at hread
  cases houtcome : outcome left with
  | error error => rw [houtcome] at hread; cases hread
  | ok pair => rw [houtcome] at hread; exact hread

theorem exists_of_entering {place : Place} {mark : Mark} {read : Place → Result α} {result : α}
    (hread : entering place mark read left = .ok (result, right)) :
    ∃ inner, read inner left = .ok (result, right) := by
  unfold entering at hread
  cases hdepth : place.depth with
  | zero => rw [hdepth] at hread; cases hread
  | succ depth => rw [hdepth] at hread; exact ⟨_, hread⟩

open Value (KeysDiffer HasDistinctKeys EverywhereInItems EverywhereInEntries)

mutual

-- One theorem for each function of the reader.

theorem keysDiffer_of_toValue : (node : Node) → {place : Place} → {left right : Nat} →
    {value : Value} → node.toValue .value place left = .ok (value, right) → value.KeysDiffer
  | .scalar mark tag style text, place, left, right, value, hread => by
      rw [Node.toValue] at hread
      obtain ⟨resolved, middle, -, hread⟩ := Result.bind_eq_ok (located_eq_ok hread)
      cases resolved with
      | wide value => exact absurd hread refuse_ne_ok
      | _ =>
          obtain ⟨rfl, -⟩ := Result.pure_eq_ok hread
          trivial
  | .sequence mark items, place, left, right, value, hread => by
      rw [Node.toValue] at hread
      obtain ⟨inner, hread⟩ := exists_of_entering (located_eq_ok hread)
      obtain ⟨values, middle, hvalues, hread⟩ := Result.bind_eq_ok hread
      obtain ⟨rfl, -⟩ := Result.pure_eq_ok hread
      exact keysDiffer_of_itemsToValues items hvalues
  | .mapping mark entries, place, left, right, value, hread => by
      rw [Node.toValue] at hread
      obtain ⟨inner, hread⟩ := exists_of_entering (located_eq_ok hread)
      obtain ⟨values, middle, hvalues, hread⟩ := Result.bind_eq_ok hread
      obtain ⟨rfl, -⟩ := Result.pure_eq_ok hread
      exact keysDiffer_of_entriesToValues entries List.Pairwise.nil hvalues
  | .tagged mark tag content, place, left, right, value, hread => by
      rw [Node.toValue] at hread
      have hread := located_eq_ok hread
      split at hread
      case isTrue => exact absurd hread refuse_ne_ok
      case isFalse =>
          obtain ⟨inner, middle, hinner, hread⟩ := Result.bind_eq_ok hread
          obtain ⟨rfl, -⟩ := Result.pure_eq_ok hread
          have hcontent := keysDiffer_of_toValue content hinner
          exact hcontent
  | .reference target, place, left, right, value, hread => by
      rw [Node.toValue] at hread
      obtain ⟨_, middle, -, hread⟩ := Result.bind_eq_ok hread
      exact keysDiffer_of_toValue target hread
  | .void mark, place, left, right, value, hread => by
      rw [Node.toValue] at hread
      obtain ⟨rfl, -⟩ := Result.pure_eq_ok hread
      trivial
  | .broken fault, place, left, right, value, hread => by
      rw [Node.toValue] at hread
      cases hread

theorem keysDiffer_of_itemsToValues : (items : List Node) → {place : Place} → {index : Nat} →
    {left right : Nat} → {values : List Value} →
    Node.itemsToValues .value place index items left = .ok (values, right) →
    EverywhereInItems (fun _ => True) HasDistinctKeys values
  | [], place, index, left, right, values, hread => by
      rw [Node.itemsToValues] at hread
      obtain ⟨rfl, -⟩ := Result.pure_eq_ok hread
      trivial
  | item :: items, place, index, left, right, values, hread => by
      rw [Node.itemsToValues] at hread
      obtain ⟨value, middle, hvalue, hread⟩ := Result.bind_eq_ok hread
      obtain ⟨others, last, hothers, hread⟩ := Result.bind_eq_ok hread
      obtain ⟨rfl, -⟩ := Result.pure_eq_ok hread
      exact ⟨keysDiffer_of_toValue item hvalue, keysDiffer_of_itemsToValues items hothers⟩

/-- A key is compared with the ones before it. -/
theorem keysDiffer_of_entriesToValues : (entries : List (Node × Node)) → {place : Place} →
    {seen : Entries} → {left right : Nat} → {values : Entries} → HasDistinctKeys seen →
    Node.entriesToValues .value place seen entries left = .ok (values, right) →
    HasDistinctKeys (seen ++ values) ∧
      EverywhereInEntries (fun _ => True) HasDistinctKeys values
  | [], place, seen, left, right, values, hseen, hread => by
      rw [Node.entriesToValues] at hread
      obtain ⟨rfl, -⟩ := Result.pure_eq_ok hread
      exact ⟨by rwa [List.append_nil], trivial⟩
  | (key, value) :: entries, place, seen, left, right, values, hseen, hread => by
      rw [Node.entriesToValues] at hread
      obtain ⟨k, middle, hk, hread⟩ := Result.bind_eq_ok hread
      split at hread
      case isTrue => cases hread
      case isFalse hhas =>
          obtain ⟨v, last, hv, hread⟩ := Result.bind_eq_ok hread
          obtain ⟨others, last, hothers, hread⟩ := Result.bind_eq_ok hread
          obtain ⟨rfl, -⟩ := Result.pure_eq_ok hread
          have hfresh : ∀ entry ∈ seen, k.same entry.1 = false := by
            simpa [Value.hasKey] using hhas
          have hlonger : HasDistinctKeys (seen ++ [(k, v)]) := by
            refine List.pairwise_append.mpr ⟨hseen, List.pairwise_singleton _ _, ?_⟩
            exact fun entry hmem => List.forall_mem_singleton.mpr (hfresh entry hmem)
          obtain ⟨hkeys, hrest⟩ := keysDiffer_of_entriesToValues entries hlonger hothers
          rw [List.append_assoc, List.singleton_append] at hkeys
          exact ⟨hkeys, keysDiffer_of_toValue key hk, keysDiffer_of_toValue value hv, hrest⟩

end

theorem keysDiffer_of_readValue {text : String} {value : Value}
    (hread : readValue text = .ok value) : value.KeysDiffer := by
  unfold readValue readText at hread
  cases hroot : (Reader.value {} (.written (compose text).root)).run (compose text).followLimit with
  | error error => simp [hroot, bind, Except.bind] at hread
  | ok pair =>
      simp only [hroot, bind, Except.bind] at hread
      have hvalue : value = pair.1 := by
        split at hread
        · cases hread
        · split at hread
          · cases hread
          · exact (Except.ok.inj hread).symm
      rw [hvalue]
      exact keysDiffer_of_toValue _ hroot

end Reading

/-- What reads texts refuses a mapping with two keys that are the same. -/
def Codec.TellsKeysApart [Codec] : Prop :=
  ∀ text value, Codec.read text = .ok value → value.KeysDiffer

theorem tellsKeysApart : Codec.TellsKeysApart :=
  fun _ _ => keysDiffer_of_readValue

end BuildPipeline.Yaml
