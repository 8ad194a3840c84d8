import BuildPipeline.Proofs.Expression.OperatorForms
import BuildPipeline.Proofs.Number.Closeness
import BuildPipeline.Proofs.Number.Reading

/-!
# Order and equality of texts

Two texts are compared as numbers if both read as numbers, and otherwise by their lower case in all
scripts.  Equality on texts knows no numbers and folds the letters of ASCII only.

* `compare?_eq_of_equalsIgnoringAsciiCase`: texts that are equal are neither above nor below each
  other, unless the comparison fails.
* `text_order_and_equality` says when neither of two texts is above the other, and where this is the
  same as equality.  `equal_numbers_differ_as_texts` are two texts for which it is not.
-/

namespace BuildPipeline.Expression

variable {context : Context} {a b : String} {ordering : Ordering}

/-! ## Comparison of texts -/

theorem compareTexts_eq_iff {a b : String} : Value.compareTexts a b = .eq ↔ a = b := by
  unfold Value.compareTexts
  constructor
  · intro h
    split at h
    · cases h
    · split at h
      · assumption
      · cases h
  · rintro rfl
    rw [if_neg (String.lt_irrefl a), if_pos rfl]

theorem compare?_of_numbers {x y : Binary64} (ha : (Value.string a).asNumber? = some x)
    (hb : (Value.string b).asNumber? = some y) :
    (Value.string a).compare? (.string b) = x.compare? y := by
  rw [Value.compare?, ha, hb]

theorem compare?_of_not_numbers
    (hnone : (Value.string a).asNumber? = none ∨ (Value.string b).asNumber? = none) :
    (Value.string a).compare? (.string b) =
      some (Value.compareTexts (Text.lower a) (Text.lower b)) := by
  rw [Value.compare?]
  rcases hnone with ha | hb
  · rw [ha]
    rfl
  · rw [hb]
    cases (Value.string a).asNumber? <;> rfl

theorem compare?_eq_of_equalsIgnoringAsciiCase
    (hequal : Text.equalsIgnoringAsciiCase a b = true)
    (hcompare : (Value.string a).compare? (.string b) = some ordering) : ordering = .eq := by
  have hnumbers : (Value.string a).asNumber? = (Value.string b).asNumber? :=
    Binary64.read?_trim_eq_of_equalsIgnoringAsciiCase hequal
  cases hb : (Value.string b).asNumber? with
  | some x =>
    rw [compare?_of_numbers (hnumbers.trans hb) hb] at hcompare
    exact Binary64.compare?_self hcompare
  | none =>
    rw [compare?_of_not_numbers (.inr hb), Option.some.injEq] at hcompare
    rw [← hcompare, compareTexts_eq_iff]
    exact Text.lower_eq_of_equalsIgnoringAsciiCase hequal

/-! ## Calls on texts -/

/-- The call of a function on two texts is true. -/
def TextsSatisfy (context : Context) (function a b : String) : Prop :=
  callFunction context function [.string a, .string b] = .ok (.bool true)

/-- One of three statements is true and the others are not. -/
def ExactlyOne (p q r : Prop) : Prop :=
  (p ∧ ¬ q ∧ ¬ r) ∨ (¬ p ∧ q ∧ ¬ r) ∨ (¬ p ∧ ¬ q ∧ r)

theorem textsSatisfy_iff (context : Context) {op : BinaryOp} (hop : op.decider? = none)
    {result : Bool} (hresult : op.compare (.string a) (.string b) = .ok result) :
    TextsSatisfy context op.functionName a b ↔ result = true := by
  rw [TextsSatisfy, callFunction_comparison op.lower_functionName hop, hresult]
  simp [Except.map]

theorem textsSatisfy_eq_iff :
    TextsSatisfy context "eq" a b ↔ Text.equalsIgnoringAsciiCase a b = true := by
  have hresult : BinaryOp.equal.compare (.string a) (.string b) =
      .ok (Text.equalsIgnoringAsciiCase a b) := by
    rw [BinaryOp.compare, Value.equals]
  exact textsSatisfy_iff context rfl hresult

/-- Where the comparison does not fail, its four forms are four questions about its result. -/
theorem textsSatisfy_order (context : Context)
    (hcompare : compareValues (.string a) (.string b) = .ok ordering) :
    (TextsSatisfy context "lt" a b ↔ ordering = .lt) ∧
    (TextsSatisfy context "le" a b ↔ ordering ≠ .gt) ∧
    (TextsSatisfy context "gt" a b ↔ ordering = .gt) ∧
    (TextsSatisfy context "ge" a b ↔ ordering ≠ .lt) := by
  have hless : BinaryOp.less.compare (.string a) (.string b) = .ok (ordering == .lt) := by
    rw [BinaryOp.compare, hcompare, Except.map]
  have hlessEqual : BinaryOp.lessEqual.compare (.string a) (.string b) =
      .ok (ordering != .gt) := by
    rw [BinaryOp.compare, hcompare, Except.map]
  have hgreater : BinaryOp.greater.compare (.string a) (.string b) = .ok (ordering == .gt) := by
    rw [BinaryOp.compare, hcompare, Except.map]
  have hgreaterEqual : BinaryOp.greaterEqual.compare (.string a) (.string b) =
      .ok (ordering != .lt) := by
    rw [BinaryOp.compare, hcompare, Except.map]
  exact ⟨(textsSatisfy_iff context rfl hless).trans beq_iff_eq,
    (textsSatisfy_iff context rfl hlessEqual).trans bne_iff_ne,
    (textsSatisfy_iff context rfl hgreater).trans beq_iff_eq,
    (textsSatisfy_iff context rfl hgreaterEqual).trans bne_iff_ne⟩

theorem textsSatisfy_le_and_ge_iff (context : Context)
    (hcompare : compareValues (.string a) (.string b) = .ok ordering) :
    TextsSatisfy context "le" a b ∧ TextsSatisfy context "ge" a b ↔ ordering = .eq := by
  obtain ⟨-, hlessEqual, -, hgreaterEqual⟩ := textsSatisfy_order context hcompare
  rw [hlessEqual, hgreaterEqual]
  cases ordering <;> simp

theorem compareValues_eq_ok_iff {a b : Value} :
    compareValues a b = .ok ordering ↔ a.compare? b = some ordering := by
  rw [compareValues]
  cases a.compare? b <;> simp

/-! ## Order and equality -/

/-- Where a comparison of two texts does not fail, one of them is below the other or neither is, and
equal texts are of the second kind.  Two numbers are of it exactly if they are equal as numbers,
whatever their texts are.  Other texts are if they have the same lower case, which is the same as
equality when they have no capitals beyond ASCII. -/
theorem text_order_and_equality (context : Context)
    (hcompare : compareValues (.string a) (.string b) = .ok ordering) :
    ExactlyOne (TextsSatisfy context "lt" a b)
      (TextsSatisfy context "le" a b ∧ TextsSatisfy context "ge" a b)
      (TextsSatisfy context "gt" a b) ∧
    (TextsSatisfy context "eq" a b →
      TextsSatisfy context "le" a b ∧ TextsSatisfy context "ge" a b) ∧
    (∀ x y, (Value.string a).asNumber? = some x → (Value.string b).asNumber? = some y →
      (TextsSatisfy context "le" a b ∧ TextsSatisfy context "ge" a b ↔ x.equals y = true)) ∧
    ((Value.string a).asNumber? = none ∨ (Value.string b).asNumber? = none →
      (TextsSatisfy context "le" a b ∧ TextsSatisfy context "ge" a b ↔
        Text.lower a = Text.lower b) ∧
      (Text.IsLowerBeyondAscii a → Text.IsLowerBeyondAscii b →
        (TextsSatisfy context "le" a b ∧ TextsSatisfy context "ge" a b ↔
          TextsSatisfy context "eq" a b) ∧
        ExactlyOne (TextsSatisfy context "lt" a b) (TextsSatisfy context "eq" a b)
          (TextsSatisfy context "gt" a b))) := by
  obtain ⟨hless, -, hgreater, -⟩ := textsSatisfy_order context hcompare
  have hneither := textsSatisfy_le_and_ge_iff context hcompare
  have hordering := compareValues_eq_ok_iff.mp hcompare
  have hone : ExactlyOne (TextsSatisfy context "lt" a b)
      (TextsSatisfy context "le" a b ∧ TextsSatisfy context "ge" a b)
      (TextsSatisfy context "gt" a b) := by
    rw [ExactlyOne, hless, hneither, hgreater]
    cases ordering <;> simp
  refine ⟨hone, fun hequal => ?_, fun x y hx hy => ?_, fun hnone => ?_⟩
  · exact hneither.mpr
      (compare?_eq_of_equalsIgnoringAsciiCase (textsSatisfy_eq_iff.mp hequal) hordering)
  · rw [compare?_of_numbers hx hy] at hordering
    rw [hneither, Binary64.equals, hordering, beq_iff_eq, Option.some.injEq]
  · have hlower : TextsSatisfy context "le" a b ∧ TextsSatisfy context "ge" a b ↔
        Text.lower a = Text.lower b := by
      rw [compare?_of_not_numbers hnone, Option.some.injEq] at hordering
      rw [hneither, ← hordering, compareTexts_eq_iff]
    refine ⟨hlower, fun ha hb => ?_⟩
    have hequal : TextsSatisfy context "le" a b ∧ TextsSatisfy context "ge" a b ↔
        TextsSatisfy context "eq" a b := by
      rw [hlower, Text.lower_eq_lower_iff ha hb, textsSatisfy_eq_iff]
    rw [hequal] at hone
    exact ⟨hequal, hone⟩

/-- A word and a number, each in two spellings. -/
theorem text_order_and_equality_spellings :
    compareValues (.string "Größe") (.string "GRößE") = .ok .eq ∧
    (Value.string "Größe").asNumber? = none ∧
    Text.IsLowerBeyondAscii "Größe" ∧ Text.IsLowerBeyondAscii "GRößE" ∧
    TextsSatisfy {} "eq" "Größe" "GRößE" ∧
    TextsSatisfy {} "le" "Größe" "GRößE" ∧ TextsSatisfy {} "ge" "Größe" "GRößE" ∧
    compareValues (.string "1e2") (.string "100") = .ok .eq ∧
    (Value.string "1e2").asNumber? = some (.ofNat 100) ∧
    (Value.string "100").asNumber? = some (.ofNat 100) ∧
    TextsSatisfy {} "le" "1e2" "100" ∧ TextsSatisfy {} "ge" "1e2" "100" := by
  have hword : compareValues (.string "Größe") (.string "GRößE") = .ok .eq :=
    compareValues_eq_ok_iff.mpr (by decide +kernel)
  have hnone : (Value.string "Größe").asNumber? = none := by decide +kernel
  have hfirst : Text.IsLowerBeyondAscii "Größe" := by decide +kernel
  have hsecond : Text.IsLowerBeyondAscii "GRößE" := by decide +kernel
  have hequal : TextsSatisfy {} "eq" "Größe" "GRößE" := textsSatisfy_eq_iff.mpr (by decide +kernel)
  have hnumber : compareValues (.string "1e2") (.string "100") = .ok .eq :=
    compareValues_eq_ok_iff.mpr (by decide +kernel)
  have hleft : (Value.string "1e2").asNumber? = some (.ofNat 100) := by decide +kernel
  have hright : (Value.string "100").asNumber? = some (.ofNat 100) := by decide +kernel
  obtain ⟨-, -, -, hwords⟩ := text_order_and_equality {} hword
  obtain ⟨hlessEqual, hgreaterEqual⟩ := ((hwords (.inl hnone)).2 hfirst hsecond).1.mpr hequal
  obtain ⟨-, -, hnumbers, -⟩ := text_order_and_equality {} hnumber
  exact ⟨hword, hnone, hfirst, hsecond, hequal, hlessEqual, hgreaterEqual, hnumber, hleft, hright,
    (hnumbers _ _ hleft hright).mpr (by decide +kernel)⟩

/-- Two texts of one number are not above or below each other, and they are not equal. -/
theorem equal_numbers_differ_as_texts :
    compareValues (.string "1") (.string "1.0") = .ok .eq ∧
    TextsSatisfy {} "le" "1" "1.0" ∧ TextsSatisfy {} "ge" "1" "1.0" ∧
    ¬ TextsSatisfy {} "eq" "1" "1.0" ∧
    ¬ ExactlyOne (TextsSatisfy {} "lt" "1" "1.0") (TextsSatisfy {} "eq" "1" "1.0")
      (TextsSatisfy {} "gt" "1" "1.0") := by
  have hcompare : compareValues (.string "1") (.string "1.0") = .ok .eq :=
    compareValues_eq_ok_iff.mpr (by decide +kernel)
  have hequal : ¬ TextsSatisfy {} "eq" "1" "1.0" := fun h =>
    absurd (textsSatisfy_eq_iff.mp h) (by decide)
  obtain ⟨hlessEqual, hgreaterEqual⟩ := (textsSatisfy_le_and_ge_iff {} hcompare).mpr rfl
  obtain ⟨hless, -, hgreater, -⟩ := textsSatisfy_order {} hcompare
  refine ⟨hcompare, hlessEqual, hgreaterEqual, hequal, ?_⟩
  rw [ExactlyOne, hless, hgreater]
  simp [hequal]

end BuildPipeline.Expression
