import Mathlib.Algebra.Order.Field.Power
import Mathlib.Data.Nat.Cast.Field
import Mathlib.Tactic.Linarith
import Mathlib.Tactic.NormNum
import Mathlib.Tactic.Ring
import BuildPipeline.Number.Decimal

/-!
# The digits that are written

A number is written with the fewest digits that read back to it, so no digit is superfluous.

* `isSome_onGrid?` and `last_grid_is_fine`: the grids that are tried become finer than the interval
  of the numbers that round to the one written, so one of them holds a point that reads back.
* `shortest_mod_ten`: the last digit is not a zero.
* `eq_nil_of_writeChars`: a written fraction ends in a zero only if it is that zero alone.
-/

namespace BuildPipeline.Binary64

/-! ## Magnitudes -/

/-- A quotient of two natural numbers lies between the powers of ten that its digits give. -/
theorem integerDigits_bounds {a b : Nat} (hquotient : a / b ≠ 0) :
    (10 : ℚ) ^ ((integerDigits a b : ℤ) - 1) ≤ a / b ∧
      (a / b : ℚ) < 10 ^ (integerDigits a b : ℤ) := by
  have hb : 0 < b := Nat.pos_of_ne_zero fun hzero => hquotient (by rw [hzero, Nat.div_zero])
  have hb' : (0 : ℚ) < b := by exact_mod_cast hb
  obtain ⟨length, hlength⟩ : ∃ length, integerDigits a b = length + 1 :=
    Nat.exists_eq_add_one_of_ne_zero Nat.length_toDigits_pos.ne'
  rw [hlength, Nat.cast_add_one, add_sub_cancel_right]
  constructor
  · have hlow : 10 ^ length ≤ a / b := by
      rcases Nat.eq_zero_or_pos length with rfl | hpos
      · exact Nat.pos_of_ne_zero hquotient
      · by_contra hless
        have hshort := (Nat.length_toDigits_le_iff (b := 10) (by decide) hpos).mpr (not_le.mp hless)
        rw [integerDigits] at hlength
        omega
    rw [le_div_iff₀ hb', zpow_natCast]
    exact_mod_cast (Nat.le_div_iff_mul_le hb).mp hlow
  · have hhigh : a / b < 10 ^ (length + 1) :=
      (Nat.length_toDigits_le_iff (b := 10) (by decide) length.succ_pos).mp hlength.le
    rw [div_lt_iff₀ hb']
    exact_mod_cast (Nat.div_lt_iff_lt_mul hb).mp hhigh

/-- The position of the first grid that `shortest` tries. -/
def leadingPosition (a b : Nat) : Int :=
  if a / b ≠ 0 then integerDigits a b else 1 - (integerDigits b a : Int) + 1

theorem leadingPosition_bounds {a b : Nat} (ha : a ≠ 0) (hb : b ≠ 0) :
    (10 : ℚ) ^ (leadingPosition a b - 2) ≤ a / b ∧ (a / b : ℚ) < 10 ^ leadingPosition a b := by
  by_cases hquotient : a / b = 0
  · have hless : a < b := (Nat.div_eq_zero_iff.mp hquotient).resolve_left hb
    have hinverse : b / a ≠ 0 := (Nat.div_pos hless.le (Nat.pos_of_ne_zero ha)).ne'
    obtain ⟨hlow, hhigh⟩ := integerDigits_bounds hinverse
    have ha' : (0 : ℚ) < a := by exact_mod_cast Nat.pos_of_ne_zero ha
    have hb' : (0 : ℚ) < b := by exact_mod_cast Nat.pos_of_ne_zero hb
    rw [leadingPosition, if_neg (not_not.mpr hquotient), ← inv_div]
    constructor
    · rw [← inv_inv (10 ^ _), ← zpow_neg]
      refine inv_anti₀ (div_pos hb' ha') (hhigh.le.trans_eq ?_)
      congr 1
      ring
    · rw [← inv_inv (10 ^ _), ← zpow_neg]
      refine inv_strictAnti₀ (by positivity) (lt_of_lt_of_le ?_ hlow)
      exact zpow_lt_zpow_right₀ (by norm_num) (by omega)
  · obtain ⟨hlow, hhigh⟩ := integerDigits_bounds hquotient
    rw [leadingPosition, if_pos hquotient]
    exact ⟨(zpow_le_zpow_right₀ (by norm_num) (by omega)).trans hlow, hhigh⟩

/-! ## Grids -/

section Grids

variable {r : Rounding} {num den digits : Nat} {tie : Tie} {exponent : Int}

/-- The ratio of the two units in which a grid is compared with a number. -/
theorem unit_div_step (num den : Nat) (exponent : Int) :
    ((num * Nat.pow 10 (-exponent).toNat : Nat) : ℚ) / (den * Nat.pow 10 exponent.toNat : Nat) =
      num / den * 10 ^ (-exponent) := by
  obtain ⟨shift, rfl | rfl⟩ := exponent.eq_nat_or_neg
  · have hzero : (-(shift : Int)).toNat = 0 := by omega
    rw [hzero, Int.toNat_natCast, zpow_neg, zpow_natCast, ← div_eq_mul_inv, div_div]
    simp
  · have hzero : (-(shift : Int)).toNat = 0 := by omega
    rw [hzero, neg_neg, Int.toNat_natCast, zpow_natCast, div_mul_eq_mul_div]
    simp

/-- A point of a grid that reads back is positive, and next to the number. -/
theorem onGrid?_bounds (hgrid : r.onGrid? num den tie exponent = some digits) :
    0 < digits ∧ digits ≤
      r.value * (num * Nat.pow 10 (-exponent).toNat) / (den * Nat.pow 10 exponent.toNat) + 1 := by
  unfold Rounding.onGrid? at hgrid
  dsimp only at hgrid
  generalize num * Nat.pow 10 (-exponent).toNat = unit at hgrid ⊢
  generalize den * Nat.pow 10 exponent.toNat = step at hgrid ⊢
  generalize r.value * unit / step = below at hgrid ⊢
  split at hgrid
  case isTrue hboth =>
    have hbelow : 0 < below := by
      simp only [Bool.and_eq_true, decide_eq_true_eq] at hboth
      exact hboth.1.2
    have hnear : digits = below ∨ digits = below + 1 := by
      repeat' split at hgrid
      all_goals simp only [Option.some.injEq] at hgrid; omega
    omega
  case isFalse =>
    split at hgrid
    case isTrue hlow =>
      simp only [Bool.and_eq_true, decide_eq_true_eq] at hlow
      cases hgrid
      exact ⟨hlow.2, Nat.le_succ _⟩
    case isFalse =>
      split at hgrid
      case isTrue => cases hgrid; exact ⟨Nat.succ_pos _, Nat.le_refl _⟩
      case isFalse => cases hgrid

/-- A grid that is finer than the interval above the number holds a point that reads back. -/
theorem isSome_onGrid? (tie : Tie) (hlow : r.low < r.value) (hhigh : r.value + 2 ≤ r.high)
    (hden : den ≠ 0)
    (hfine : den * Nat.pow 10 exponent.toNat < 2 * (num * Nat.pow 10 (-exponent).toNat)) :
    (r.onGrid? num den tie exponent).isSome = true := by
  have hstep : 0 < den * Nat.pow 10 exponent.toNat :=
    Nat.mul_pos (Nat.pos_of_ne_zero hden) (Nat.pow_pos (by decide))
  unfold Rounding.onGrid?
  dsimp only
  generalize num * Nat.pow 10 (-exponent).toNat = unit at hfine ⊢
  generalize den * Nat.pow 10 exponent.toNat = step at hfine hstep ⊢
  -- The point above the number is less than two units away.
  have hholds : r.holds ((r.value * unit / step + 1) * step) unit = true := by
    have habove : r.value * unit < (r.value * unit / step + 1) * step := by
      rw [Nat.add_one_mul]
      exact Nat.lt_div_mul_add hstep
    have hnear : (r.value * unit / step + 1) * step ≤ r.value * unit + step := by
      rw [Nat.add_one_mul]
      exact Nat.add_le_add_right (Nat.div_mul_le_self _ _) _
    have hlow' : r.low * unit ≤ r.value * unit := Nat.mul_le_mul_right _ hlow.le
    have hhigh' : r.value * unit + 2 * unit ≤ r.high * unit := by
      rw [← Nat.add_mul]
      exact Nat.mul_le_mul_right _ hhigh
    rw [Rounding.holds]
    split
    all_goals
      simp only [Bool.and_eq_true, decide_eq_true_eq]
      omega
  rw [hholds]
  repeat' split
  all_goals first | rfl | contradiction

/-- The digits are those of one of the grids that are tried, if any of them holds a point. -/
theorem firstGrid_eq (exponent : Int) {grids steps : Nat} (hsteps : steps < grids)
    (hsome : (r.onGrid? num den tie (exponent - steps)).isSome = true) :
    ∃ tried < grids, r.onGrid? num den tie (exponent - tried) =
      some (r.firstGrid num den tie grids exponent).digits := by
  induction grids generalizing exponent steps with
  | zero => exact absurd hsteps (Nat.not_lt_zero _)
  | succ grids ih =>
      rw [Rounding.firstGrid]
      cases hgrid : r.onGrid? num den tie exponent with
      | some digits => exact ⟨0, Nat.succ_pos _, by simpa using hgrid⟩
      | none =>
          cases steps with
          | zero => simp [hgrid] at hsome
          | succ steps =>
              obtain ⟨tried, htried, hfound⟩ := ih (exponent - 1)
                (Nat.lt_of_succ_lt_succ hsteps)
                (by rwa [show exponent - 1 - steps = exponent - (steps + 1 : Nat) by omega])
              refine ⟨tried + 1, Nat.succ_lt_succ htried, ?_⟩
              rwa [show exponent - (tried + 1 : Nat) = exponent - 1 - tried by omega]

end Grids

/-- No zero is left at the end once there were fewer digits than rounds to drop them in. -/
theorem strip_mod_ten {rounds : Nat} {d : Decimal} (hpos : 0 < d.digits)
    (hsmall : d.digits < 10 ^ (rounds + 1)) : (d.strip rounds).digits % 10 ≠ 0 := by
  induction rounds generalizing d with
  | zero =>
      rw [Decimal.strip]
      omega
  | succ rounds ih =>
      rw [Decimal.strip]
      split
      case isTrue hzero =>
        refine ih (show 0 < d.digits / 10 by omega) ?_
        exact Nat.div_lt_of_lt_mul (by rwa [← Nat.pow_succ'])
      case isFalse hlast => omega

section Leading

variable {value num den : Nat}

/-- So far behind the first grid, a point below the number has no more digits than this. -/
theorem below_lt_pow (hvalue : value ≠ 0) (hnum : num ≠ 0) (hden : den ≠ 0) (tried : Nat) :
    value * (num * Nat.pow 10 (-(leadingPosition (value * num) den - tried)).toNat) /
        (den * Nat.pow 10 (leadingPosition (value * num) den - tried).toNat) < 10 ^ tried := by
  obtain ⟨-, hhigh⟩ := leadingPosition_bounds (Nat.mul_ne_zero hvalue hnum) hden
  have hratio := unit_div_step num den (leadingPosition (value * num) den - tried)
  generalize leadingPosition (value * num) den = leading at hhigh hratio ⊢
  generalize num * Nat.pow 10 (-(leading - tried)).toNat = unit at hratio ⊢
  have hstep : 0 < den * Nat.pow 10 (leading - tried).toNat :=
    Nat.mul_pos (Nat.pos_of_ne_zero hden) (Nat.pow_pos (by decide))
  generalize den * Nat.pow 10 (leading - tried).toNat = step at hratio hstep ⊢
  have hstep' : (0 : ℚ) < step := by exact_mod_cast hstep
  rw [Nat.div_lt_iff_lt_mul hstep]
  have hless : (value * unit : ℚ) / step < 10 ^ tried := calc
    (value * unit : ℚ) / step = (value * num : Nat) / den * 10 ^ (-(leading - tried)) := by
      rw [mul_div_assoc, hratio, Nat.cast_mul]
      ring
    _ < 10 ^ leading * 10 ^ (-(leading - tried)) := by
      exact mul_lt_mul_of_pos_right hhigh (by positivity)
    _ = 10 ^ tried := by
      rw [← zpow_add₀ (by norm_num), ← zpow_natCast]
      congr 1
      ring
  rw [div_lt_iff₀ hstep'] at hless
  exact_mod_cast hless

/-- The twentieth grid is finer than half a unit. -/
theorem last_grid_is_fine (hvalue : value ≠ 0) (hsmall : value < 4 * Nat.pow 2 53) (hnum : num ≠ 0)
    (hden : den ≠ 0) :
    den * Nat.pow 10 (leadingPosition (value * num) den - 19).toNat <
      2 * (num * Nat.pow 10 (-(leadingPosition (value * num) den - 19)).toNat) := by
  obtain ⟨hlow, -⟩ := leadingPosition_bounds (Nat.mul_ne_zero hvalue hnum) hden
  have hratio := unit_div_step num den (leadingPosition (value * num) den - 19)
  generalize leadingPosition (value * num) den = leading at hlow hratio ⊢
  generalize num * Nat.pow 10 (-(leading - 19)).toNat = unit at hratio ⊢
  have hstep : 0 < den * Nat.pow 10 (leading - 19).toNat :=
    Nat.mul_pos (Nat.pos_of_ne_zero hden) (Nat.pow_pos (by decide))
  generalize den * Nat.pow 10 (leading - 19).toNat = step at hratio hstep ⊢
  have hstep' : (0 : ℚ) < step := by exact_mod_cast hstep
  have hvalue' : (0 : ℚ) < value := by exact_mod_cast Nat.pos_of_ne_zero hvalue
  -- The number has at least 17 digits before the point of this grid, and 2 ^ 55 has fewer.
  have hdigits : (10 : ℚ) ^ 17 ≤ value * (unit / step) := calc
    (10 : ℚ) ^ 17 = 10 ^ (leading - 2) * 10 ^ (-(leading - 19)) := by
      rw [← zpow_add₀ (by norm_num), ← zpow_natCast]
      congr 1
      push_cast
      ring
    _ ≤ (value * num : Nat) / den * 10 ^ (-(leading - 19)) := by
      exact mul_le_mul_of_nonneg_right hlow (by positivity)
    _ = value * (unit / step) := by
      rw [hratio, Nat.cast_mul]
      ring
  have hsmall' : (value : ℚ) < 4 * 2 ^ 53 := by exact_mod_cast hsmall
  have hfine : 1 / 2 < (unit / step : ℚ) := by
    by_contra hless
    have hproduct : value * (unit / step : ℚ) ≤ value * (1 / 2) :=
      mul_le_mul_of_nonneg_left (not_lt.mp hless) hvalue'.le
    linarith [hdigits.trans hproduct]
  rw [lt_div_iff₀ hstep'] at hfine
  have hdouble : (step : ℚ) < 2 * unit := by linarith
  exact_mod_cast hdouble

end Leading

/-- The digits of a number other than zero do not end in a zero. -/
theorem shortest_mod_ten {significand : Nat} {exponent : Int} (tie : Tie)
    (hcanonical : IsCanonical significand exponent) (hsignificand : significand ≠ 0) :
    (shortest tie significand exponent).digits % 10 ≠ 0 := by
  let r := Rounding.of significand exponent
  obtain ⟨num, den, hscaled, hnum, hden⟩ : ∃ num den, scaled 1 1 (2 - exponent) = (num, den) ∧
      num ≠ 0 ∧ den ≠ 0 := by
    refine ⟨_, _, rfl, ?_, ?_⟩ <;> simp
  have hshortest : shortest tie significand exponent =
      (r.firstGrid num den tie 20 (leadingPosition (r.value * num) den)).strip 20 := by
    rw [shortest, hscaled]
    rfl
  have hvalue : r.value ≠ 0 := Nat.mul_ne_zero (by decide) hsignificand
  have hsmall : r.value < 4 * Nat.pow 2 53 := Nat.mul_lt_mul_of_pos_left hcanonical.1 (by decide)
  have hlow : r.low < r.value := by
    have : r.value = 4 * significand := rfl
    have : r.low = if significand = Nat.pow 2 52 ∧ exponent ≠ -1074 then 4 * significand - 1
      else 4 * significand - 2 := rfl
    split at this <;> omega
  obtain ⟨tried, htried, hgrid⟩ := firstGrid_eq _ (show 19 < 20 by decide)
    (isSome_onGrid? tie hlow (Nat.le_refl _) hden
      (last_grid_is_fine hvalue hsmall hnum hden))
  obtain ⟨hpos, hnear⟩ := onGrid?_bounds hgrid
  have hbelow := below_lt_pow hvalue hnum hden tried
  have hpower : 10 ^ tried ≤ 10 ^ 20 := Nat.pow_le_pow_right (by decide) htried.le
  rw [hshortest]
  exact strip_mod_ten hpos (by omega)

/-! ## Text -/

section Text

variable {l : Layout} {front more digits : List Char} {position : Int}

theorem getLast?_toDigits (n : Nat) :
    (Nat.toDigits 10 n).getLast? = some (Nat.digitChar (n % 10)) := by
  rw [Nat.toDigits_eq_if (by decide)]
  split
  case isTrue hless => rw [Nat.mod_eq_of_lt hless]; rfl
  case isFalse => rw [List.getLast?_concat]

theorem getLast?_toDigits_ne_zero {n : Nat} (hlast : n % 10 ≠ 0) :
    (Nat.toDigits 10 n).getLast? ≠ some '0' := by
  have hdigit : ∀ digit < 10, digit ≠ 0 → Nat.digitChar digit ≠ '0' := by decide
  rw [getLast?_toDigits]
  exact fun hzero => hdigit _ (Nat.mod_lt n (by decide)) hlast (Option.some.inj hzero)

theorem getLast?_fraction (front more : List Char) :
    (front ++ '.' :: (more ++ ['0'])).getLast? = some '0' := by
  rw [← List.cons_append, ← List.append_assoc, List.getLast?_concat]

theorem getLast?_append_right (left : List Char) {right : List Char} (hright : right ≠ []) :
    (left ++ right).getLast? = right.getLast? := by
  rw [List.getLast?_append, List.getLast?_eq_some_getLast hright, Option.some_or]

theorem notMem_of_isDigit {c : Char} (hdigits : ∀ c ∈ digits, c.isDigit = true)
    (hc : c.isDigit = false) : c ∉ digits :=
  fun hmem => by rw [hdigits c hmem] at hc; cases hc

/-- Digits with a point are written to their last one, or with one zero behind the point. -/
theorem eq_nil_of_writePositional (hdigits : ∀ c ∈ digits, c.isDigit = true) (hsome : digits ≠ [])
    (hlast : digits.getLast? = some '0' → digits.length ≤ position.toNat)
    (hmore : ∀ c ∈ more, c.isDigit = true)
    (hwrite : l.writePositional digits position = front ++ '.' :: (more ++ ['0'])) : more = [] := by
  have hend := getLast?_fraction front more
  rw [← hwrite] at hend
  rw [Layout.writePositional] at hend hwrite
  split at hend
  case isTrue hleft =>
    rw [← List.cons_append, ← List.cons_append, getLast?_append_right _ hsome] at hend
    have hlength := hlast hend
    have hpos := List.length_pos_iff.mpr hsome
    omega
  case isFalse hright =>
    rw [if_neg hright] at hwrite
    split at hend
    case isFalse hinside =>
      have htail : digits.drop position.toNat ≠ [] := by simpa using hinside
      rw [getLast?_append_right _ (List.cons_ne_nil _ _), List.getLast?_cons_of_ne_nil htail,
        ← getLast?_append_right (digits.take position.toNat) htail,
        List.take_append_drop] at hend
      exact absurd (hlast hend) hinside
    case isTrue hbeyond =>
      rw [if_pos hbeyond] at hwrite
      have hpoint : '.' ∉ digits ++ List.replicate (position.toNat - digits.length) '0' := by
        rw [List.mem_append, not_or, List.mem_replicate]
        exact ⟨notMem_of_isDigit hdigits rfl, fun h => nomatch h.2⟩
      generalize digits ++ List.replicate (position.toNat - digits.length) '0' = whole
        at hwrite hpoint
      cases hkeeps : l.keepsPoint with
      | false =>
          -- There is no point at all.
          rw [hkeeps] at hwrite
          refine absurd ?_ hpoint
          rw [show whole = _ by simpa using hwrite]
          simp
      | true =>
          rw [hkeeps, if_pos rfl] at hwrite
          by_contra hmany
          have hshorter : whole ++ ['.'] = front ++ '.' :: more := by
            have hzero : whole ++ ['.'] ++ ['0'] = front ++ '.' :: more ++ ['0'] := by
              simpa using hwrite
            exact List.append_cancel_right hzero
          have hpoint := congrArg List.getLast? hshorter
          rw [List.getLast?_concat, getLast?_append_right _ (List.cons_ne_nil _ _),
            List.getLast?_cons_of_ne_nil hmany] at hpoint
          have hdigit := hmore '.' (List.mem_of_getLast? hpoint.symm)
          cases hdigit

/-- Behind the point there are digits and the letter of the exponent. -/
theorem writeScientific_ne (hmore : ∀ c ∈ more, c.isDigit = true) :
    l.writeScientific digits position ≠ front ++ '.' :: (more ++ ['0']) := by
  let exponent := position - 1
  let sign : List Char :=
    if exponent < 0 then ['-'] else if l.signsExponent then ['+'] else []
  let lead : List Char :=
    digits.take 1 ++ if digits.length ≤ 1 then [] else '.' :: digits.drop 1
  intro hwrite
  have hsplit : lead ++ 'e' :: (sign ++ Nat.toDigits 10 exponent.natAbs) =
      front ++ '.' :: (more ++ ['0']) := by
    rw [← hwrite, Layout.writeScientific]
    simp [lead, sign, exponent]
  have hpoint : '.' ∉ sign ++ Nat.toDigits 10 exponent.natAbs := by
    rw [List.mem_append, not_or]
    refine ⟨?_, notMem_of_isDigit
      (fun c => Nat.isDigit_of_mem_toDigits (by decide) (by decide)) rfl⟩
    simp only [sign]
    split
    · decide
    · split <;> decide
  have hletter : 'e' ∉ more ++ ['0'] := by
    rw [List.mem_append, not_or]
    exact ⟨notMem_of_isDigit hmore rfl, by decide⟩
  rcases List.append_eq_append_iff.mp hsplit with ⟨between, -, hrest⟩ | ⟨between, -, hrest⟩
  · cases between with
    | nil => cases hrest
    | cons c between =>
        obtain ⟨-, hrest⟩ := List.cons.inj hrest
        exact hpoint (by rw [hrest]; simp)
  · cases between with
    | nil => cases hrest
    | cons c between =>
        obtain ⟨-, hrest⟩ := List.cons.inj hrest
        exact hletter (by rw [hrest]; simp)

theorem eq_nil_of_writeDecimal {d : Decimal} (hlast : d.digits % 10 ≠ 0 ∨ d = ⟨0, 0⟩)
    (hmore : ∀ c ∈ more, c.isDigit = true)
    (hwrite : l.writeDecimal d = front ++ '.' :: (more ++ ['0'])) : more = [] := by
  have hpositional (hwrite : l.writePositional (Nat.toDigits 10 d.digits)
      ((Nat.toDigits 10 d.digits).length + d.exponent) = front ++ '.' :: (more ++ ['0'])) :
      more = [] := by
    refine eq_nil_of_writePositional
      (fun c => Nat.isDigit_of_mem_toDigits (by decide) (by decide)) Nat.toDigits_ne_nil
      (fun hzero => ?_) hmore hwrite
    rcases hlast with hlast | rfl
    · exact absurd hzero (getLast?_toDigits_ne_zero hlast)
    · decide
  rw [Layout.writeDecimal] at hwrite
  split at hwrite
  case h_1 => exact hpositional hwrite
  case h_2 =>
    split at hwrite
    case isTrue => exact hpositional hwrite
    case isFalse => exact absurd hwrite (writeScientific_ne hmore)

end Text

/-- A fraction is written without a zero at its end, unless the zero is all of it. -/
theorem eq_nil_of_writeChars {front more : List Char} {x : Binary64}
    (hmore : ∀ c ∈ more, c.isDigit = true)
    (hwrite : x.writeChars .yaml = front ++ '.' :: (more ++ ['0'])) : more = [] := by
  have hword (word : List Char) (hend : word.getLast? ≠ some '0')
      (hwrite : word = front ++ '.' :: (more ++ ['0'])) : more = [] :=
    absurd (hwrite ▸ getLast?_fraction front more) hend
  cases x with
  | nan => exact hword _ (by decide) hwrite
  | infinite negative =>
      cases negative <;> exact hword _ (by decide) hwrite
  | finite negative significand exponent hcanonical =>
      have hbody {front : List Char}
          (hwrite : (if significand = 0 then Layout.yaml.writeDecimal ⟨0, 0⟩
            else Layout.yaml.writeDecimal (shortest Layout.yaml.tie significand exponent)) =
              front ++ '.' :: (more ++ ['0'])) : more = [] := by
        split at hwrite
        case isTrue => exact eq_nil_of_writeDecimal (.inr rfl) hmore hwrite
        case isFalse hpositive =>
          exact eq_nil_of_writeDecimal (.inl (shortest_mod_ten _ hcanonical hpositive)) hmore hwrite
      cases negative with
      | false => exact hbody hwrite
      | true =>
          -- The sign is not the point.
          cases front with
          | nil => cases hwrite
          | cons c front => exact hbody (List.cons.inj hwrite).2

end BuildPipeline.Binary64
