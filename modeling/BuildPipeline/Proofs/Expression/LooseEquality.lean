import BuildPipeline.Proofs.Expression.OperatorForms
import BuildPipeline.Proofs.Expression.PropertyReference
import BuildPipeline.Proofs.Number.Closeness
import BuildPipeline.Proofs.Text.Casing

/-!
# Loose equality

Equality on values lets numbers and truth values equal texts, so it is no equivalence.  What is left
of one depends on the kinds of the two sides.

* `equals_comm`: the sides may change places.  Every mixed pair is decided by the same test in both
  orders, at every depth of arrays.
* `membership_tests_agree`: `contains`, `containsValue` and `in` put the item and the value on
  different sides of the test and answer the same, and `notIn` the opposite.
* `equals_self` says which values equal themselves, and `equals_self_of_equals` that the others
  equal nothing.
* `equality_is_reflexive_iff` says what follows for `eq(x, x)` and for the items of a list;
  `object_differs_from_itself` is a value that is read twice and found different.
-/

namespace BuildPipeline.Expression

open Value

/-! ## Symmetry -/

mutual

theorem equals_comm (a b : Value) : a.equals b = b.equals a := by
  cases a with
  | bool x =>
    cases b with
    | bool y => rw [equals, equals, Bool.beq_comm]
    | _ => rfl
  | number x =>
    cases b with
    | number y => rw [equals, equals, Binary64.isClose_comm]
    | _ => rfl
  | string text =>
    cases b with
    | string other => rw [equals, equals, Text.equalsIgnoringAsciiCase_comm]
    | _ => rfl
  | array items =>
    cases b with
    | array others => rw [equals, equals, equalItems_comm]
    | _ => rfl
  | null | object => cases b <;> rfl

theorem equalItems_comm (items others : List Value) :
    equalItems items others = equalItems others items := by
  cases items with
  | nil => cases others <;> rfl
  | cons item items =>
    cases others with
    | nil => rfl
    | cons other others => rw [equalItems, equalItems, equals_comm, equalItems_comm]

end

/-! ## Membership -/

section Membership

variable (context : Context) (items : List Value) (needle : Value)

theorem callFunction_contains :
    callFunction context "contains" [.array items, needle] =
      .ok (.bool (items.any (·.equals needle))) := by
  have hname : Text.lower "contains" = "contains" := by decide
  unfold callFunction
  simp only [hname]
  rfl

theorem callFunction_containsValue :
    callFunction context "containsValue" [.array items, needle] =
      .ok (.bool (items.any (·.equals needle))) := by
  have hname : Text.lower "containsValue" = "containsvalue" := by decide
  unfold callFunction
  simp only [hname]
  rfl

theorem isAmong_array : isAmong needle [.array items] = items.any (·.equals needle) := by
  have hsides : needle.equals = (·.equals needle) := funext (equals_comm needle)
  simp only [isAmong, List.any_cons, List.any_nil, Bool.or_false, hsides]

theorem callFunction_in :
    callFunction context "in" [needle, .array items] =
      .ok (.bool (items.any (·.equals needle))) := by
  have hname : Text.lower "in" = "in" := by decide
  unfold callFunction
  simp only [hname, membership, isAmong_array]
  rfl

theorem callFunction_notIn :
    callFunction context "notIn" [needle, .array items] =
      .ok (.bool !items.any (·.equals needle)) := by
  have hname : Text.lower "notIn" = "notin" := by decide
  unfold callFunction
  simp only [hname, membership, isAmong_array]
  rfl

end Membership

/-- Loose equality is symmetric, so it does not matter on which side of the test a function puts the
item. -/
theorem membership_tests_agree (context : Context) :
    (∀ a b : Value, a.equals b = b.equals a) ∧
    ∀ items needle, ∃ found,
      callFunction context "contains" [.array items, needle] = .ok (.bool found) ∧
      callFunction context "containsValue" [.array items, needle] = .ok (.bool found) ∧
      callFunction context "in" [needle, .array items] = .ok (.bool found) ∧
      callFunction context "notIn" [needle, .array items] = .ok (.bool !found) ∧
      (found = true ↔ ∃ item ∈ items, item.equals needle = true) :=
  ⟨equals_comm, fun items needle =>
    ⟨_, callFunction_contains context items needle, callFunction_containsValue context items needle,
      callFunction_in context items needle, callFunction_notIn context items needle,
      List.any_eq_true⟩⟩

/-! ## Reflexivity -/

namespace Value

mutual

/-- Every number in a value is finite, whatever it is nested in. -/
def hasFiniteNumbers : Value → Bool
  | .number x => x.isFinite
  | .array items => haveFiniteNumbers items
  | .object fields => fieldsHaveFiniteNumbers fields
  | _ => true

def haveFiniteNumbers : List Value → Bool
  | [] => true
  | item :: items => item.hasFiniteNumbers && haveFiniteNumbers items

def fieldsHaveFiniteNumbers : List (String × Value) → Bool
  | [] => true
  | (_, value) :: fields => value.hasFiniteNumbers && fieldsHaveFiniteNumbers fields

end

mutual

/-- A value is an object or an array that holds one, at any depth. -/
def holdsObject : Value → Bool
  | .array items => holdObject items
  | .object _ => true
  | _ => false

def holdObject : List Value → Bool
  | [] => false
  | item :: items => item.holdsObject || holdObject items

end

end Value

mutual

theorem equals_self (v : Value) : v.equals v = (v.hasFiniteNumbers && !v.holdsObject) := by
  cases v with
  | null => rfl
  | bool value => cases value <;> rfl
  | number x =>
    simp only [equals, hasFiniteNumbers, holdsObject, Bool.not_false, Bool.and_true,
      Binary64.isClose_self]
  | string text => exact Text.equalsIgnoringAsciiCase_self text
  | array items => rw [equals, hasFiniteNumbers, holdsObject, equalItems_self]
  | object fields => simp [equals, holdsObject]

theorem equalItems_self (items : List Value) :
    equalItems items items = (haveFiniteNumbers items && !holdObject items) := by
  cases items with
  | nil => rfl
  | cons item items =>
    rw [equalItems, equals_self, equalItems_self, haveFiniteNumbers, holdObject, Bool.not_or]
    ac_rfl

end

mutual

/-- A value that differs from itself equals nothing. -/
theorem equals_self_of_equals {a b : Value} (h : a.equals b = true) : a.equals a = true := by
  cases a with
  | null => rfl
  | bool value => cases value <;> rfl
  | number x =>
    rw [equals, Binary64.isClose_self]
    cases b with
    | number y => exact Binary64.isFinite_of_isClose h
    | string text =>
      rw [equals, textIsNumber] at h
      split at h
      · exact Binary64.isFinite_of_isClose h
      · cases h
    | _ => cases h
  | string text => exact Text.equalsIgnoringAsciiCase_self text
  | array items =>
    cases b with
    | array others =>
      rw [equals] at h ⊢
      exact equalItems_self_of_equalItems h
    | _ => cases h
  | object fields => cases b <;> cases h

theorem equalItems_self_of_equalItems {items others : List Value}
    (h : equalItems items others = true) : equalItems items items = true := by
  cases items with
  | nil => rfl
  | cons item items =>
    cases others with
    | nil => cases h
    | cons other others =>
      rw [equalItems, Bool.and_eq_true] at h ⊢
      exact ⟨equals_self_of_equals h.1, equalItems_self_of_equalItems h.2⟩

end

/-- A list contains one of its items exactly if the item equals itself. -/
theorem any_equals_of_mem {items : List Value} {item : Value} (hmem : item ∈ items) :
    items.any (·.equals item) = item.equals item := by
  rw [Bool.eq_iff_iff, List.any_eq_true]
  constructor
  · rintro ⟨other, -, hequal⟩
    rw [equals_comm] at hequal
    exact equals_self_of_equals hequal
  · exact fun hself => ⟨item, hmem, hself⟩

theorem evaluate_eq_self {context : Context} {expression : Expr} {v : Value}
    (hvalue : evaluate context expression = .ok v) :
    evaluate context (.call "eq" [expression, expression]) = .ok (.bool (v.equals v)) := by
  have hname : Text.lower "eq" = BinaryOp.equal.functionName := BinaryOp.lower_functionName .equal
  rw [evaluate_call_comparison hname rfl]
  simp only [evaluate, hvalue]
  rfl

/-- A value equals itself exactly if its numbers are finite and no object is in it.  So of the
values with finite numbers the objects differ from themselves, and the arrays with an object at some
depth, and no list contains them. -/
theorem equality_is_reflexive_iff (context : Context) :
    (∀ v : Value, v.equals v = true ↔ v.hasFiniteNumbers = true ∧ v.holdsObject = false) ∧
    (∀ expression v, evaluate context expression = .ok v →
      evaluate context (.call "eq" [expression, expression]) =
        .ok (.bool (v.hasFiniteNumbers && !v.holdsObject))) ∧
    ∀ items, ∀ item ∈ items,
      callFunction context "contains" [.array items, item] =
        .ok (.bool (item.hasFiniteNumbers && !item.holdsObject)) := by
  refine ⟨fun v => ?_, fun expression v hvalue => ?_, fun items item hmem => ?_⟩
  · rw [equals_self, Bool.and_eq_true, Bool.not_eq_true']
  · rw [evaluate_eq_self hvalue, equals_self]
  · rw [callFunction_contains, any_equals_of_mem hmem, equals_self]

/-- A parameter with a list of lists and numbers. -/
theorem equality_is_reflexive_iff_matrix :
    evaluate { parameters := [("matrix", .array [.array [.string "x64", .number .one], .null])] }
        (.reference "parameters" [.property "matrix"]) =
      .ok (.array [.array [.string "x64", .number .one], .null]) ∧
    evaluate { parameters := [("matrix", .array [.array [.string "x64", .number .one], .null])] }
        (.call "eq" [.reference "parameters" [.property "matrix"],
          .reference "parameters" [.property "matrix"]]) = .ok (.bool true) ∧
    Value.array [.string "x64", .number .one] ∈
      [Value.array [.string "x64", .number .one], .null] ∧
    callFunction {} "contains" [.array [.array [.string "x64", .number .one], .null],
      .array [.string "x64", .number .one]] = .ok (.bool true) := by
  have hvalue : evaluate
      { parameters := [("matrix", .array [.array [.string "x64", .number .one], .null])] }
      (.reference "parameters" [.property "matrix"]) =
        .ok (.array [.array [.string "x64", .number .one], .null]) :=
    evaluate_parameterReference rfl "matrix"
  have hmem : Value.array [.string "x64", .number .one] ∈
      [Value.array [.string "x64", .number .one], .null] := List.mem_cons_self
  obtain ⟨-, heq, -⟩ := equality_is_reflexive_iff
    { parameters := [("matrix", .array [.array [.string "x64", .number .one], .null])] }
  exact ⟨hvalue, heq _ _ hvalue, hmem, (equality_is_reflexive_iff {}).2.2 _ _ hmem⟩

/-- An object has finite numbers, and it is read twice and found different. -/
theorem object_differs_from_itself :
    (Value.object [("os", .string "linux")]).hasFiniteNumbers = true ∧
    (Value.object [("os", .string "linux")]).equals (.object [("os", .string "linux")]) = false ∧
    evaluate { parameters := [("pool", .object [("os", .string "linux")])] }
        (.call "eq" [.reference "parameters" [.property "pool"],
          .reference "parameters" [.property "pool"]]) = .ok (.bool false) ∧
    callFunction {} "contains" [.array [.object [("os", .string "linux")]],
      .object [("os", .string "linux")]] = .ok (.bool false) :=
  ⟨rfl, rfl, evaluate_eq_self (evaluate_parameterReference rfl "pool"),
    callFunction_contains {} _ _⟩

end BuildPipeline.Expression
