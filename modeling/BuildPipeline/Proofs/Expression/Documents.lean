import Mathlib.Data.String.Basic
import BuildPipeline.Expression.Document

/-!
# What a document value keeps as the value of an expression

A value of a document that becomes the value of an expression and then a value of a document again
may come back changed: numbers are binary64 on the way, an object lists its fields by name, and
there are no tags.

* `Binary64.smallInteger?_ofInt` says that integers below `10 ^ 15` in magnitude are kept, since
  each of them has a binary64 number of its own.
* `Table.ofList_of_ascending` and `Table.ascending_ofList` say that a table keeps the order of
  entries that ascend, and no other.
* `toYaml_ofYaml_eq_iff` says which values come back unchanged: those that `IsPlain` describes.
-/

namespace BuildPipeline

/-! ## Integers as binary64 numbers -/

namespace Binary64

theorem natAbs_lt_of_smallInteger? {x : Binary64} {i : Int} (hsmall : x.smallInteger? = some i) :
    i.natAbs < Nat.pow 10 15 := by
  unfold smallInteger? at hsmall
  split at hsmall
  case isTrue =>
      obtain ⟨-, hbound⟩ := Option.filter_eq_some_iff.mp hsmall
      exact of_decide_eq_true hbound
  case isFalse => cases hsmall

theorem scaled_natCast (num den shift : Nat) :
    scaled num den shift = (num, den * 2 ^ shift) := by
  simp [scaled]

theorem scaled_neg_natCast (num den shift : Nat) :
    scaled num den (-(shift : Int)) = (num * 2 ^ shift, den) := by
  simp [scaled]

theorem roundHalfEven_one (num : Nat) : roundHalfEven num 1 = num := by
  simp [roundHalfEven, Nat.mod_one]

/-- A positive integer below `2 ^ 53`, shifted by what its significand lacks, fills 53 bits. -/
theorem shifted_bounds {n : Nat} (hpos : n ≠ 0) (hsmall : n < 2 ^ 53) :
    2 ^ 52 ≤ n * 2 ^ (52 - n.log2) ∧ n * 2 ^ (52 - n.log2) < 2 ^ 53 := by
  have hlog : n.log2 < 53 := (Nat.log2_lt hpos).mpr hsmall
  have hpositive : 0 < 2 ^ (52 - n.log2) := Nat.two_pow_pos _
  constructor
  · calc 2 ^ 52 = 2 ^ n.log2 * 2 ^ (52 - n.log2) := by
          rw [← Nat.pow_add, Nat.add_sub_cancel' (Nat.le_of_lt_succ hlog)]
      _ ≤ n * 2 ^ (52 - n.log2) := Nat.mul_le_mul_right _ (Nat.log2_self_le hpos)
  · calc n * 2 ^ (52 - n.log2) < 2 ^ (n.log2 + 1) * 2 ^ (52 - n.log2) :=
          Nat.mul_lt_mul_of_pos_right Nat.lt_log2_self hpositive
      _ = 2 ^ 53 := by
          rw [← Nat.pow_add]
          congr 1
          omega

theorem exponentOf_nat {n : Nat} (hpos : n ≠ 0) (hsmall : n < 2 ^ 53) :
    exponentOf n 1 = -((52 - n.log2 : Nat) : Int) := by
  have hlog : n.log2 < 53 := (Nat.log2_lt hpos).mpr hsmall
  have hguess : (n.log2 : Int) - (Nat.log2 1 : Nat) - 52 = -((52 - n.log2 : Nat) : Int) := by
    have hone : Nat.log2 1 = 0 := by decide
    omega
  have hfull : ¬ n * 2 ^ (52 - n.log2) < 2 ^ 52 := Nat.not_lt.mpr (shifted_bounds hpos hsmall).1
  rw [exponentOf, hguess]
  simp only [scaled_neg_natCast, Nat.div_one, Nat.pow_eq, if_neg hfull]
  omega

theorem ofRatio_nat (negative : Bool) {n : Nat} (hpos : n ≠ 0) (hsmall : n < 2 ^ 53) :
    ∃ canonical, ofRatio negative n 1 =
      .finite negative (n * 2 ^ (52 - n.log2)) (-((52 - n.log2 : Nat) : Int)) canonical := by
  obtain ⟨hlow, hhigh⟩ := shifted_bounds hpos hsmall
  have hcanonical :
      IsCanonical (n * 2 ^ (52 - n.log2)) (-((52 - n.log2 : Nat) : Int)) :=
    ⟨hhigh, by omega, by omega, Or.inl hlow⟩
  refine ⟨hcanonical, ?_⟩
  simp only [ofRatio, if_neg hpos, exponentOf_nat hpos hsmall, scaled_neg_natCast,
    roundHalfEven_one, Nat.pow_eq, if_neg (Nat.ne_of_lt hhigh), ofParts, dif_pos hcanonical]

/-- A significand that is a multiple of the power of two it is divided by. -/
theorem smallInteger?_finite (negative : Bool) {n shift : Nat}
    (canonical : IsCanonical (n * 2 ^ shift) (-(shift : Int))) (hsmall : n < Nat.pow 10 15) :
    (finite negative (n * 2 ^ shift) (-(shift : Int)) canonical).smallInteger? =
      some (if negative then -(n : Int) else n) := by
  have hpositive : 0 < 2 ^ shift := Nat.two_pow_pos _
  have hbound : (if negative then -(n : Int) else n).natAbs < Nat.pow 10 15 := by
    split <;> simpa using hsmall
  rw [smallInteger?, isIntegral, truncate?]
  simp only [Int.neg_neg, scaled_natCast, Nat.one_mul, Nat.mul_mod_left,
    Nat.mul_div_cancel n hpositive, beq_self_eq_true, if_true]
  exact Option.filter_eq_some_iff.mpr ⟨rfl, decide_eq_true hbound⟩

/-- An integer below `10 ^ 15` in magnitude is a binary64 number, and no other integer is. -/
theorem smallInteger?_ofInt {i : Int} (hsmall : i.natAbs < Nat.pow 10 15) :
    (ofInt i).smallInteger? = some i := by
  by_cases hzero : i = 0
  · subst hzero
    decide +kernel
  · have hpos : i.natAbs ≠ 0 := Int.natAbs_ne_zero.mpr hzero
    have hfits : i.natAbs < 2 ^ 53 := Nat.lt_trans hsmall (by decide)
    obtain ⟨canonical, hnumber⟩ := ofRatio_nat (i < 0) hpos hfits
    rw [ofInt, hnumber, smallInteger?_finite _ canonical hsmall]
    congr 1
    split <;> rename_i hsign <;> simp only [decide_eq_true_eq] at hsign <;> omega

end Binary64

/-! ## Tables in order -/

namespace Table

variable {α : Type}

/-- Entries in strictly ascending order of their keys. -/
def Ascending (entries : List (String × α)) : Prop :=
  (entries.map Prod.fst).Pairwise (· < ·)

theorem insert_of_forall_lt {key : String} (value : α) {table : Table α}
    (hlast : ∀ entry ∈ table, entry.1 < key) :
    table.insert key value = table ++ [(key, value)] := by
  induction table with
  | nil => rfl
  | cons entry rest ih =>
      obtain ⟨k, v⟩ := entry
      obtain ⟨hless, hrest⟩ := List.forall_mem_cons.mp hlast
      rw [insert, if_neg hless.ne', if_neg hless.not_gt, ih hrest, List.cons_append]

theorem mem_keys_insert {key other : String} {value : α} {table : Table α} :
    other ∈ (table.insert key value).map Prod.fst ↔ other = key ∨ other ∈ table.map Prod.fst := by
  induction table with
  | nil => simp [insert]
  | cons entry rest ih =>
      obtain ⟨k, v⟩ := entry
      unfold insert
      split
      case isTrue heq => simp [heq]
      case isFalse =>
          split
          case isTrue => simp
          case isFalse =>
              rw [List.map_cons, List.mem_cons, ih, List.map_cons, List.mem_cons, or_left_comm]

theorem Ascending.insert {table : Table α} (hascending : Ascending table) (key : String)
    (value : α) : Ascending (table.insert key value) := by
  induction table with
  | nil => simp [Ascending, Table.insert]
  | cons entry rest ih =>
      obtain ⟨k, v⟩ := entry
      obtain ⟨hfirst, hrest⟩ := List.pairwise_cons.mp hascending
      unfold Table.insert
      split
      case isTrue heq =>
          subst heq
          exact hascending
      case isFalse hne =>
          split
          case isTrue hless =>
              refine List.pairwise_cons.mpr ⟨fun other hmem => ?_, hascending⟩
              rcases List.mem_cons.mp hmem with rfl | hlater
              · exact hless
              · exact hless.trans (hfirst other hlater)
          case isFalse hnot =>
              have hgreater : k < key := lt_of_le_of_ne (le_of_not_gt hnot) (Ne.symm hne)
              refine List.pairwise_cons.mpr ⟨fun other hmem => ?_, ih hrest⟩
              rcases mem_keys_insert.mp hmem with rfl | hlater
              · exact hgreater
              · exact hfirst other hlater

theorem Ascending.foldl_insert {ι : Type} (key : ι → String) (value : ι → α) (items : List ι)
    {table : Table α} (hascending : Ascending table) :
    Ascending (items.foldl (fun table item => Table.insert (key item) (value item) table) table) := by
  induction items generalizing table with
  | nil => exact hascending
  | cons item rest ih => exact ih (hascending.insert (key item) (value item))

theorem ascending_ofList (entries : List (String × α)) : Ascending (ofList entries) :=
  Ascending.foldl_insert Prod.fst Prod.snd entries List.Pairwise.nil

/-- Entries that ascend are a table as they stand. -/
theorem ofList_of_ascending {entries : List (String × α)} (hascending : Ascending entries) :
    ofList entries = entries := by
  -- While entries ascend, each one is put behind all that are in the table.
  suffices hfold : ∀ table : Table α, Ascending (table ++ entries) →
      entries.foldl (fun table entry => Table.insert entry.1 entry.2 table) table =
        table ++ entries from
    hfold [] hascending
  induction entries with
  | nil => exact fun table _ => (List.append_nil table).symm
  | cons entry rest ih =>
      intro table htable
      have hlast : ∀ other ∈ table, other.1 < entry.1 := by
        rw [Ascending, List.map_append, List.pairwise_append] at htable
        exact fun other hmem => htable.2.2 _ (List.mem_map_of_mem hmem) _ (by simp)
      have hsplit : table ++ entry :: rest = table ++ [entry] ++ rest := by simp
      rw [List.foldl_cons, insert_of_forall_lt entry.2 hlast, hsplit]
      exact ih (hascending.sublist (by simp)) _ (hsplit ▸ htable)

end Table

/-! ## Values that come back -/

namespace Yaml.Value

/-- Entries whose keys are texts in strictly ascending order. -/
def HasAscendingTexts (entries : Entries) : Prop :=
  ∃ names : List String, entries.map Prod.fst = names.map Value.string ∧ names.Pairwise (· < ·)

mutual

/-- A value without tags, with integers below `10 ^ 15` in magnitude, no binary64 number that is
such an integer, and mappings from texts in ascending order. -/
def IsPlain : Value → Prop
  | .null | .bool _ | .string _ => True
  | .int value => value.natAbs < Nat.pow 10 15
  | .float value => value.smallInteger? = none
  | .sequence items => ItemsArePlain items
  | .mapping entries => HasAscendingTexts entries ∧ ValuesArePlain entries
  | .tagged _ _ => False

def ItemsArePlain : List Value → Prop
  | [] => True
  | item :: items => item.IsPlain ∧ ItemsArePlain items

def ValuesArePlain : List (Value × Value) → Prop
  | [] => True
  | (_, value) :: entries => value.IsPlain ∧ ValuesArePlain entries

end

end Yaml.Value

namespace Expression.Value

open Yaml.Value

theorem numberToYaml_ofInt_eq_iff {i : Int} :
    numberToYaml (.ofInt i) = .int i ↔ i.natAbs < Nat.pow 10 15 := by
  constructor
  · intro hkept
    unfold numberToYaml at hkept
    split at hkept
    case h_1 small hsmall =>
        cases hkept
        exact Binary64.natAbs_lt_of_smallInteger? hsmall
    case h_2 => cases hkept
  · intro hsmall
    rw [numberToYaml, Binary64.smallInteger?_ofInt hsmall]

theorem numberToYaml_eq_float_iff {x : Binary64} :
    numberToYaml x = .float x ↔ x.smallInteger? = none := by
  unfold numberToYaml
  cases x.smallInteger? <;> simp

theorem keys_fieldsToYaml (fields : List (String × Value)) :
    (fieldsToYaml fields).map Prod.fst = (fields.map Prod.fst).map Yaml.Value.string := by
  induction fields with
  | nil => rfl
  | cons field fields ih => rw [fieldsToYaml, List.map_cons, ih, List.map_cons, List.map_cons]

theorem entriesOfYaml_string (name : String) (value : Yaml.Value) (entries : Yaml.Entries) :
    entriesOfYaml ((.string name, value) :: entries) =
      (name, ofYaml value) :: entriesOfYaml entries := by
  rw [entriesOfYaml]
  rfl

/-- No entry is dropped where all keys are texts. -/
theorem keys_entriesOfYaml {entries : Yaml.Entries} {names : List String}
    (hkeys : entries.map Prod.fst = names.map Yaml.Value.string) :
    (entriesOfYaml entries).map Prod.fst = names := by
  induction entries generalizing names with
  | nil => simpa [entriesOfYaml, eq_comm] using hkeys
  | cons entry entries ih =>
      obtain ⟨key, value⟩ := entry
      cases names with
      | nil => cases hkeys
      | cons name names =>
          obtain ⟨rfl, hrest⟩ := List.cons.inj hkeys
          rw [entriesOfYaml_string, List.map_cons, ih hrest]

theorem toYaml_ne_tagged (value : Value) {tag : String} {content : Yaml.Value} :
    value.toYaml ≠ .tagged tag content := by
  cases value with
  | number x =>
      rw [toYaml, numberToYaml]
      split <;> exact fun heq => by cases heq
  | _ => exact fun heq => by cases heq

mutual

/-- A value comes back unchanged exactly when it is plain. -/
theorem toYaml_ofYaml_eq_iff : ∀ y : Yaml.Value, (ofYaml y).toYaml = y ↔ y.IsPlain
  | .null => by simp [ofYaml, toYaml, IsPlain]
  | .bool _ => by simp [ofYaml, toYaml, IsPlain]
  | .string _ => by simp [ofYaml, toYaml, IsPlain]
  | .int i => by rw [ofYaml, toYaml, IsPlain, numberToYaml_ofInt_eq_iff]
  | .float x => by rw [ofYaml, toYaml, IsPlain, numberToYaml_eq_float_iff]
  | .sequence items => by
      rw [ofYaml, toYaml, IsPlain, Yaml.Value.sequence.injEq, itemsToYaml_itemsOfYaml_eq_iff]
  | .mapping entries => by
      rw [ofYaml, toYaml, IsPlain, Yaml.Value.mapping.injEq]
      -- Either side says that the keys are texts in order, and then the table changes nothing.
      have hordered : HasAscendingTexts entries →
          (fieldsToYaml (Table.ofList (entriesOfYaml entries)) = entries ↔
            ValuesArePlain entries) := by
        rintro ⟨names, hkeys, hascending⟩
        have htable : Table.Ascending (entriesOfYaml entries) := by
          rw [Table.Ascending, keys_entriesOfYaml hkeys]
          exact hascending
        rw [Table.ofList_of_ascending htable]
        exact fieldsToYaml_entriesOfYaml_eq_iff entries hkeys
      refine ⟨fun hkept => ?_, fun ⟨hkeys, hvalues⟩ => (hordered hkeys).mpr hvalues⟩
      have hkeys : HasAscendingTexts entries := by
        refine ⟨_, ?_, Table.ascending_ofList (entriesOfYaml entries)⟩
        rw [← keys_fieldsToYaml, hkept]
      exact ⟨hkeys, (hordered hkeys).mp hkept⟩
  | .tagged tag content => by
      rw [ofYaml, IsPlain, iff_false]
      exact toYaml_ne_tagged (ofYaml content)

theorem itemsToYaml_itemsOfYaml_eq_iff :
    ∀ items : List Yaml.Value, itemsToYaml (itemsOfYaml items) = items ↔ ItemsArePlain items
  | [] => by simp [itemsOfYaml, itemsToYaml, ItemsArePlain]
  | item :: items => by
      rw [itemsOfYaml, itemsToYaml, ItemsArePlain, List.cons.injEq, toYaml_ofYaml_eq_iff item,
        itemsToYaml_itemsOfYaml_eq_iff items]

theorem fieldsToYaml_entriesOfYaml_eq_iff :
    ∀ (entries : List (Yaml.Value × Yaml.Value)) {names : List String},
      entries.map Prod.fst = names.map Yaml.Value.string →
        (fieldsToYaml (entriesOfYaml entries) = entries ↔ ValuesArePlain entries)
  | [], _, _ => by simp [entriesOfYaml, fieldsToYaml, ValuesArePlain]
  | (key, value) :: entries, [], hkeys => by cases hkeys
  | (key, value) :: entries, name :: names, hkeys => by
      obtain ⟨rfl, hrest⟩ := List.cons.inj hkeys
      rw [entriesOfYaml_string, fieldsToYaml, ValuesArePlain, List.cons.injEq, Prod.mk.injEq,
        toYaml_ofYaml_eq_iff value, fieldsToYaml_entriesOfYaml_eq_iff entries hrest]
      simp

end

end Expression.Value

end BuildPipeline
