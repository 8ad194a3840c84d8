import BuildPipeline.Proofs.Expression.Documents
import BuildPipeline.Proofs.Expression.LooseEquality
import BuildPipeline.Proofs.Number.RationalValue
import BuildPipeline.Proofs.Yaml.DistinctKeys

/-!
# Values through a document

A value of an expression that is put into a document and read from it again is the value it was.
What is in the way are the numbers, which become integers where they are whole and small, and the
fields of objects, which are put into a table again.

* `Binary64.ofInt_of_smallInteger?`: the integer that a number becomes is read as this number, with
  one exception, which is the negative zero: it comes back as zero.
* `ofYaml_toYaml`: so a value comes back with its negative zeros replaced, at any depth.
* `same_withoutNegativeZeros`: that is the same value, when numbers are compared as numbers.
* `keysDiffer_toYaml`: the keys of every mapping that is written are different.
* `values_come_back_from_documents` is the result.
-/

namespace BuildPipeline

/-! ## Numbers -/

namespace Binary64

/-- The number with `zero` for either zero. -/
def withoutNegativeZero (x : Binary64) : Binary64 :=
  if x.isZero then zero else x

/-- A number is the one that its integer is read as. -/
theorem ofInt_of_smallInteger? {x : Binary64} {i : Int} (hsmall : x.smallInteger? = some i) :
    ofInt i = x.withoutNegativeZero := by
  have hvalue := value?_of_smallInteger? hsmall
  unfold withoutNegativeZero
  by_cases hzero : i = 0
  · subst hzero
    rw [if_pos (isZero_iff.mpr (by simpa using hvalue))]
    decide +kernel
  · have hread : (ofInt i).value? = some (i : ℚ) :=
      value?_of_smallInteger? (smallInteger?_ofInt (natAbs_lt_of_smallInteger? hsmall))
    have hnonzero : (i : ℚ) ≠ 0 := Int.cast_ne_zero.mpr hzero
    have hsign : x.isZero ≠ true := fun hisZero =>
      hnonzero (Option.some.inj (hvalue.symm.trans (isZero_iff.mp hisZero)))
    rw [if_neg hsign, eq_of_value? hread hvalue hnonzero]

/-- Either zero is a small integer. -/
theorem withoutNegativeZero_of_not_small {x : Binary64} (hlarge : x.smallInteger? = none) :
    x.withoutNegativeZero = x := by
  refine if_neg fun hzero => ?_
  cases x with
  | finite negative significand exponent hcanonical =>
      obtain rfl : significand = 0 := beq_iff_eq.mp hzero
      cases negative <;> simp [smallInteger?, isIntegral, truncate?, scaled] at hlarge
  | nan | infinite => cases hzero

theorem equals_self {x : Binary64} (hfinite : x.isFinite = true) : x.equals x = true := by
  cases x with
  | finite => simp [equals, compare?]
  | nan | infinite => cases hfinite

theorem withoutNegativeZero_equals {x : Binary64} (hfinite : x.isFinite = true) :
    x.withoutNegativeZero.equals x = true := by
  unfold withoutNegativeZero
  split
  case isFalse => exact equals_self hfinite
  case isTrue hzero =>
      cases x with
      | finite negative significand exponent hcanonical =>
          obtain rfl : significand = 0 := beq_iff_eq.mp hzero
          cases negative <;> simp [zero, equals, compare?, signedAt]
      | nan | infinite => cases hzero

end Binary64

namespace Expression.Value

/-! ## Values -/

mutual

/-- The fields of every object in a value stand in the order of their keys, each key once. -/
def IsOrdered : Value → Prop
  | .array items => ItemsAreOrdered items
  | .object fields => Table.Ascending fields ∧ FieldsAreOrdered fields
  | _ => True

def ItemsAreOrdered : List Value → Prop
  | [] => True
  | item :: items => item.IsOrdered ∧ ItemsAreOrdered items

def FieldsAreOrdered : List (String × Value) → Prop
  | [] => True
  | (_, value) :: fields => value.IsOrdered ∧ FieldsAreOrdered fields

end

mutual

/-- Two values have the same kind and content.  Numbers are compared as numbers, so the two zeros are
the same and a NaN is not the same as itself. -/
def same : Value → Value → Bool
  | .null, .null => true
  | .bool a, .bool b => a == b
  | .number a, .number b => a.equals b
  | .string a, .string b => a == b
  | .array a, .array b => sameItems a b
  | .object a, .object b => sameFields a b
  | _, _ => false

def sameItems : List Value → List Value → Bool
  | [], [] => true
  | a :: as, b :: bs => same a b && sameItems as bs
  | _, _ => false

def sameFields : List (String × Value) → List (String × Value) → Bool
  | [], [] => true
  | (key, a) :: as, (other, b) :: bs => key == other && same a b && sameFields as bs
  | _, _ => false

end

mutual

/-- The value with `Binary64.zero` for every zero in it. -/
def withoutNegativeZeros : Value → Value
  | .number x => .number x.withoutNegativeZero
  | .array items => .array (itemsWithoutNegativeZeros items)
  | .object fields => .object (fieldsWithoutNegativeZeros fields)
  | value => value

def itemsWithoutNegativeZeros : List Value → List Value
  | [] => []
  | item :: items => item.withoutNegativeZeros :: itemsWithoutNegativeZeros items

def fieldsWithoutNegativeZeros : List (String × Value) → List (String × Value)
  | [] => []
  | (key, value) :: fields =>
    (key, value.withoutNegativeZeros) :: fieldsWithoutNegativeZeros fields

end

@[simp]
theorem keys_fieldsWithoutNegativeZeros (fields : List (String × Value)) :
    (fieldsWithoutNegativeZeros fields).map Prod.fst = fields.map Prod.fst := by
  induction fields with
  | nil => rfl
  | cons field fields ih => rw [fieldsWithoutNegativeZeros, List.map_cons, ih, List.map_cons]

mutual

theorem same_withoutNegativeZeros : ∀ {v : Value}, v.hasFiniteNumbers = true →
    v.withoutNegativeZeros.same v = true
  | .null, _ => rfl
  | .bool _, _ => beq_self_eq_true _
  | .number _, hfinite => Binary64.withoutNegativeZero_equals hfinite
  | .string _, _ => beq_self_eq_true _
  | .array _, hfinite => sameItems_withoutNegativeZeros hfinite
  | .object _, hfinite => sameFields_withoutNegativeZeros hfinite

theorem sameItems_withoutNegativeZeros : ∀ {items : List Value}, haveFiniteNumbers items = true →
    sameItems (itemsWithoutNegativeZeros items) items = true
  | [], _ => rfl
  | item :: items, hfinite => by
      obtain ⟨hitem, hitems⟩ := Bool.and_eq_true_iff.mp hfinite
      rw [itemsWithoutNegativeZeros, sameItems, same_withoutNegativeZeros hitem,
        sameItems_withoutNegativeZeros hitems, Bool.and_true]

theorem sameFields_withoutNegativeZeros : ∀ {fields : List (String × Value)},
    fieldsHaveFiniteNumbers fields = true →
    sameFields (fieldsWithoutNegativeZeros fields) fields = true
  | [], _ => rfl
  | (key, value) :: fields, hfinite => by
      obtain ⟨hvalue, hfields⟩ := Bool.and_eq_true_iff.mp hfinite
      rw [fieldsWithoutNegativeZeros, sameFields, same_withoutNegativeZeros hvalue,
        sameFields_withoutNegativeZeros hfields, beq_self_eq_true, Bool.and_true, Bool.and_true]

end

/-! ## Out and in again -/

theorem ofYaml_numberToYaml (x : Binary64) :
    ofYaml (numberToYaml x) = .number x.withoutNegativeZero := by
  unfold numberToYaml
  split
  case h_1 i hsmall => rw [ofYaml, Binary64.ofInt_of_smallInteger? hsmall]
  case h_2 hlarge => rw [ofYaml, Binary64.withoutNegativeZero_of_not_small hlarge]

mutual

theorem ofYaml_toYaml : ∀ {v : Value}, v.IsOrdered → ofYaml v.toYaml = v.withoutNegativeZeros
  | .null, _ | .bool _, _ | .string _, _ => rfl
  | .number x, _ => ofYaml_numberToYaml x
  | .array items, hordered => by
      rw [toYaml, ofYaml, itemsOfYaml_itemsToYaml hordered, withoutNegativeZeros]
  | .object fields, ⟨hascending, hordered⟩ => by
      have htable : Table.Ascending (fieldsWithoutNegativeZeros fields) := by
        rwa [Table.Ascending, keys_fieldsWithoutNegativeZeros]
      rw [toYaml, ofYaml, entriesOfYaml_fieldsToYaml hordered, Table.ofList_of_ascending htable,
        withoutNegativeZeros]

theorem itemsOfYaml_itemsToYaml : ∀ {items : List Value}, ItemsAreOrdered items →
    itemsOfYaml (itemsToYaml items) = itemsWithoutNegativeZeros items
  | [], _ => rfl
  | item :: items, ⟨hitem, hitems⟩ => by
      rw [itemsToYaml, itemsOfYaml, ofYaml_toYaml hitem, itemsOfYaml_itemsToYaml hitems,
        itemsWithoutNegativeZeros]

theorem entriesOfYaml_fieldsToYaml : ∀ {fields : List (String × Value)}, FieldsAreOrdered fields →
    entriesOfYaml (fieldsToYaml fields) = fieldsWithoutNegativeZeros fields
  | [], _ => rfl
  | (key, value) :: fields, ⟨hvalue, hfields⟩ => by
      rw [fieldsToYaml, entriesOfYaml_string, ofYaml_toYaml hvalue,
        entriesOfYaml_fieldsToYaml hfields, fieldsWithoutNegativeZeros]

end

/-! ## Keys -/

open Yaml.Value (KeysDiffer HasDistinctKeys EverywhereInItems EverywhereInEntries)

theorem hasDistinctKeys_fieldsToYaml {fields : List (String × Value)}
    (hascending : Table.Ascending fields) : HasDistinctKeys (fieldsToYaml fields) := by
  induction fields with
  | nil => exact List.Pairwise.nil
  | cons field fields ih =>
      obtain ⟨key, value⟩ := field
      obtain ⟨hfirst, hrest⟩ := List.pairwise_cons.mp hascending
      refine List.pairwise_cons.mpr ⟨fun later hmem => ?_, ih hrest⟩
      -- A later key is a text that is greater.
      have hkey : later.1 ∈ (fieldsToYaml fields).map Prod.fst := List.mem_map_of_mem hmem
      rw [keys_fieldsToYaml] at hkey
      obtain ⟨name, hname, hlater⟩ := List.mem_map.mp hkey
      rw [← hlater]
      exact beq_eq_false_iff_ne.mpr (hfirst name hname).ne'

mutual

theorem keysDiffer_toYaml : ∀ {v : Value}, v.IsOrdered → v.toYaml.KeysDiffer
  | .null, _ | .bool _, _ | .string _, _ => trivial
  | .number x, _ => by
      rw [toYaml, numberToYaml]
      split <;> trivial
  | .array _, hordered => keysDiffer_itemsToYaml hordered
  | .object _, ⟨hascending, hordered⟩ =>
      ⟨hasDistinctKeys_fieldsToYaml hascending, keysDiffer_fieldsToYaml hordered⟩

theorem keysDiffer_itemsToYaml : ∀ {items : List Value}, ItemsAreOrdered items →
    EverywhereInItems (fun _ => True) HasDistinctKeys (itemsToYaml items)
  | [], _ => trivial
  | _ :: _, ⟨hitem, hitems⟩ => ⟨keysDiffer_toYaml hitem, keysDiffer_itemsToYaml hitems⟩

theorem keysDiffer_fieldsToYaml : ∀ {fields : List (String × Value)}, FieldsAreOrdered fields →
    EverywhereInEntries (fun _ => True) HasDistinctKeys (fieldsToYaml fields)
  | [], _ => trivial
  | (_, _) :: _, ⟨hvalue, hfields⟩ =>
      ⟨trivial, keysDiffer_toYaml hvalue, keysDiffer_fieldsToYaml hfields⟩

end

/-- A value whose numbers are finite is read back from the document that it is written to.  As
numbers go it is the same value; to the bit, its negative zeros have become zeros.  No key is lost
in between, since the keys of each mapping in the document are different. -/
theorem values_come_back_from_documents (v : Value) (hordered : v.IsOrdered)
    (hfinite : v.hasFiniteNumbers = true) :
    (ofYaml v.toYaml).same v = true ∧ ofYaml v.toYaml = v.withoutNegativeZeros ∧
      v.toYaml.KeysDiffer := by
  have hback := ofYaml_toYaml hordered
  refine ⟨?_, hback, keysDiffer_toYaml hordered⟩
  rw [hback]
  exact same_withoutNegativeZeros hfinite

/-- Limits of which one is a negative zero, beside the text that they are for. -/
def negativeLimits : Value :=
  .object [("limits", .array [.number (.ofParts true 0 (-1074)), .number .one]),
    ("os", .string "linux")]

theorem values_come_back_from_documents_limits :
    negativeLimits.IsOrdered ∧ negativeLimits.hasFiniteNumbers = true ∧
      (ofYaml negativeLimits.toYaml).same negativeLimits = true ∧
      ofYaml negativeLimits.toYaml =
        .object [("limits", .array [.number .zero, .number .one]), ("os", .string "linux")] ∧
      negativeLimits.toYaml.KeysDiffer := by
  have hascending : ["limits", "os"].Pairwise (· < ·) := by decide +kernel
  have hordered : negativeLimits.IsOrdered :=
    ⟨hascending, ⟨trivial, trivial, trivial⟩, trivial, trivial⟩
  have hfinite : negativeLimits.hasFiniteNumbers = true := rfl
  exact ⟨hordered, hfinite, values_come_back_from_documents negativeLimits hordered hfinite⟩

end Expression.Value

end BuildPipeline
