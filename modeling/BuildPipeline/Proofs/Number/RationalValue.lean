import Mathlib.Algebra.Order.Field.Power
import Mathlib.Algebra.Order.Floor.Semifield
import Mathlib.Data.Nat.Cast.Field
import Mathlib.Data.Rat.Floor
import BuildPipeline.Number.Binary64

/-!
# The rational value of a number

A finite binary64 number is a rational number, and what the conversions to integers do is said best
about that.

* `value?` is the rational value; a NaN and the infinities have none.
* `eq_of_value?`: two numbers with one value other than zero are the same.  Their exponents cannot
  differ, since the significand at the greater exponent is full.
* `value?_of_smallInteger?`: what is read as a small integer has this integer as its value.
* `toPosition?_of_value?`: a position is the value cut off to a natural number, and a negative value
  is cut off to the first position like any value below one.
-/

namespace BuildPipeline

namespace Binary64

/-- The rational number that a finite number is. -/
def value? : Binary64 → Option ℚ
  | .finite negative significand exponent _ =>
    some (if negative then -(significand * 2 ^ exponent) else significand * 2 ^ exponent)
  | _ => none

/-! ## One number for one value -/

/-- A greater exponent has a full significand, which leaves no room for a lesser one. -/
theorem exponent_le_of_value_eq {significand other : Nat} {exponent lower : Int}
    (hcanonical : IsCanonical significand exponent) (hother : IsCanonical other lower)
    (hvalue : (significand * 2 ^ exponent : ℚ) = other * 2 ^ lower) : exponent ≤ lower := by
  obtain ⟨-, -, -, hfull⟩ := hcanonical
  obtain ⟨hsmall, hleast, -, -⟩ := hother
  by_contra hless
  obtain ⟨shift, rfl⟩ : ∃ shift : Nat, exponent = lower + 1 + shift :=
    ⟨(exponent - lower - 1).toNat, by omega⟩
  have hshifted : significand * 2 ^ (1 + shift) = other := by
    have hpower : (2 : ℚ) ^ lower ≠ 0 := by positivity
    have hsame : (significand * 2 ^ (1 + shift) : ℚ) * 2 ^ lower = other * 2 ^ lower := by
      rw [← hvalue, add_assoc, zpow_add₀ two_ne_zero, mul_comm ((2 : ℚ) ^ lower), ← mul_assoc]
      norm_cast
    exact_mod_cast mul_right_cancel₀ hpower hsame
  have hdouble : significand * 2 ≤ other := by
    rw [← hshifted, pow_add, pow_one, ← mul_assoc]
    exact Nat.le_mul_of_pos_right _ (Nat.two_pow_pos shift)
  simp only [Nat.pow_eq] at hsmall hfull
  omega

theorem parts_eq_of_value_eq {significand other : Nat} {exponent lower : Int}
    (hcanonical : IsCanonical significand exponent) (hother : IsCanonical other lower)
    (hvalue : (significand * 2 ^ exponent : ℚ) = other * 2 ^ lower) :
    significand = other ∧ exponent = lower := by
  have hexponent : exponent = lower := le_antisymm
    (exponent_le_of_value_eq hcanonical hother hvalue)
    (exponent_le_of_value_eq hother hcanonical hvalue.symm)
  subst hexponent
  have hpower : (2 : ℚ) ^ exponent ≠ 0 := by positivity
  exact ⟨by exact_mod_cast mul_right_cancel₀ hpower hvalue, rfl⟩

/-- The two zeros have one value, and no other two numbers have. -/
theorem eq_of_value? {x y : Binary64} {q : ℚ} (hx : x.value? = some q) (hy : y.value? = some q)
    (hq : q ≠ 0) : x = y := by
  cases x with
  | finite negative significand exponent hcanonical =>
      cases y with
      | finite other significand' exponent' hcanonical' =>
          have hmagnitude : (0 : ℚ) ≤ significand * 2 ^ exponent := by positivity
          have hmagnitude' : (0 : ℚ) ≤ significand' * 2 ^ exponent' := by positivity
          have hvalue := Option.some.inj (hx.trans hy.symm)
          have hsame : (significand * 2 ^ exponent : ℚ) = significand' * 2 ^ exponent' ∧
              negative = other := by
            obtain rfl := Option.some.inj hx
            cases negative <;> cases other <;>
              simp only [Bool.false_eq_true, if_true, if_false] at hvalue hq ⊢
            · exact ⟨hvalue, trivial⟩
            · exact absurd (le_antisymm (by linarith) hmagnitude) hq
            · exact absurd (by linarith [le_antisymm (by linarith) hmagnitude]) hq
            · exact ⟨neg_inj.mp hvalue, trivial⟩
          obtain ⟨rfl, rfl⟩ := parts_eq_of_value_eq hcanonical hcanonical' hsame.1
          rw [hsame.2]
      | nan | infinite => cases hy
  | nan | infinite => cases hx

theorem isZero_iff {x : Binary64} : x.isZero = true ↔ x.value? = some 0 := by
  cases x with
  | finite negative significand exponent hcanonical =>
      have hpower : (2 : ℚ) ^ exponent ≠ 0 := by positivity
      cases negative <;> simp [isZero, value?, hpower]
  | nan | infinite => simp [isZero, value?]

/-! ## Integers -/

theorem scaled_value (significand : Nat) (exponent : Int) :
    (significand * 2 ^ exponent : ℚ) =
      (scaled significand 1 (-exponent)).1 / (scaled significand 1 (-exponent)).2 := by
  obtain ⟨shift, rfl | rfl⟩ := exponent.eq_nat_or_neg
  · simp [scaled]
  · simp [scaled, div_eq_mul_inv]

/-- The natural number below the magnitude. -/
def wholePart (significand : Nat) (exponent : Int) : Nat :=
  (scaled significand 1 (-exponent)).1 / (scaled significand 1 (-exponent)).2

theorem truncate?_finite {negative : Bool} {significand : Nat} {exponent : Int}
    (canonical : IsCanonical significand exponent) :
    (finite negative significand exponent canonical).truncate? =
      some (if negative then -(wholePart significand exponent : Int)
        else wholePart significand exponent) :=
  rfl

/-- A number that is read as a small integer is this integer. -/
theorem value?_of_smallInteger? {x : Binary64} {i : Int} (hsmall : x.smallInteger? = some i) :
    x.value? = some (i : ℚ) := by
  unfold smallInteger? at hsmall
  split at hsmall
  case isFalse => cases hsmall
  case isTrue hintegral =>
      obtain ⟨htruncate, -⟩ := Option.filter_eq_some_iff.mp hsmall
      cases x with
      | finite negative significand exponent hcanonical =>
          have hdvd : (scaled significand 1 (-exponent)).2 ∣ (scaled significand 1 (-exponent)).1 :=
            Nat.dvd_of_mod_eq_zero (beq_iff_eq.mp hintegral)
          have hwhole : (significand * 2 ^ exponent : ℚ) = wholePart significand exponent := by
            rw [scaled_value, wholePart, Nat.cast_div_charZero hdvd]
          rw [truncate?_finite] at htruncate
          obtain rfl := Option.some.inj htruncate
          rw [value?, hwhole]
          cases negative <;> simp
      | nan | infinite => cases htruncate

/-- A position is the value cut off, from zero on. -/
theorem toPosition?_of_value? {x : Binary64} {q : ℚ} (hvalue : x.value? = some q) :
    x.toPosition? = some ⌊q⌋₊ := by
  cases x with
  | finite negative significand exponent hcanonical =>
      obtain rfl := Option.some.inj hvalue
      have hfloor : ⌊(significand * 2 ^ exponent : ℚ)⌋₊ = wholePart significand exponent := by
        rw [scaled_value, Nat.floor_div_eq_div, wholePart]
      cases negative with
      | false =>
          simp only [toPosition?, truncate?_finite, Bool.false_eq_true, if_false, hfloor,
            Option.map_some, Int.toNat_natCast]
      | true =>
          have hnonpos : -(significand * 2 ^ exponent : ℚ) ≤ 0 := by
            rw [neg_nonpos]
            positivity
          simp only [toPosition?, truncate?_finite, if_true, Nat.floor_of_nonpos hnonpos,
            Option.map_some, Int.toNat_neg_natCast]
  | nan | infinite => cases hvalue

end Binary64

end BuildPipeline
