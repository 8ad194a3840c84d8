import BuildPipeline.Number.Binary64

/-!
# Close numbers

Two numbers count as one when their rounded difference is below `Binary64.epsilon`.  The difference
is rounded once, so the two orders of subtraction differ in the sign only.

* `abs_sub_comm` and `isClose_comm`: the order does not matter.
* `isClose_self`: exactly the finite numbers are close to themselves, and
  `isFinite_of_isClose`: nothing is close to a number that is not finite.
* `compare?_self`: a number that is no NaN is neither above nor below itself.
-/

namespace BuildPipeline.Binary64

/-! ## Signs -/

@[simp]
theorem abs_ofParts (negative : Bool) (significand : Nat) (exponent : Int) :
    (ofParts negative significand exponent).abs = ofParts false significand exponent := by
  unfold ofParts
  split <;> rfl

@[simp]
theorem abs_ofRatio (negative : Bool) (num den : Nat) :
    (ofRatio negative num den).abs = ofRatio false num den := by
  simp only [ofRatio, apply_ite abs, abs_ofParts]

/-! ## Distance -/

/-- Only the sign of a difference depends on the order. -/
theorem abs_sub_comm (a b : Binary64) : (a.sub b).abs = (b.sub a).abs := by
  cases a with
  | nan => cases b <;> rfl
  | infinite sa =>
    cases b with
    | infinite sb => cases sa <;> cases sb <;> rfl
    | _ => rfl
  | finite sa ma ea ha =>
    cases b with
    | finite sb mb eb hb =>
      have hbase : min eb ea = min ea eb := Int.min_comm eb ea
      have hopposite : signedAt sb mb eb (min ea eb) - signedAt sa ma ea (min ea eb) =
          -(signedAt sa ma ea (min ea eb) - signedAt sb mb eb (min ea eb)) := by
        omega
      simp only [sub, hbase, hopposite, Int.neg_eq_zero, Int.natAbs_neg, apply_ite abs,
        abs_ofParts, abs_ofRatio]
    | _ => rfl

theorem isClose_comm (a b : Binary64) : a.isClose b = b.isClose a := by
  rw [isClose, isClose, abs_sub_comm]

/-- Nothing is close to a NaN or an infinity. -/
theorem isFinite_of_isClose {a b : Binary64} (hclose : a.isClose b = true) :
    a.isFinite = true := by
  cases a with
  | nan => cases hclose
  | infinite negative =>
    cases b with
    | infinite other => cases negative <;> cases other <;> cases hclose
    | _ => cases negative <;> cases hclose
  | finite => rfl

theorem sub_self_of_isFinite {a : Binary64} (hfinite : a.isFinite = true) : a.sub a = zero := by
  cases a with
  | finite negative significand exponent h =>
    simp only [sub, Int.sub_self, if_true]
    cases negative <;> rfl
  | _ => cases hfinite

theorem isClose_self (a : Binary64) : a.isClose a = a.isFinite := by
  cases hfinite : a.isFinite with
  | true =>
    rw [isClose, sub_self_of_isFinite hfinite]
    decide +kernel
  | false =>
    refine Bool.eq_false_iff.mpr fun hclose => ?_
    rw [isFinite_of_isClose hclose] at hfinite
    cases hfinite

/-! ## Order -/

theorem compare?_self {a : Binary64} {ordering : Ordering} (h : a.compare? a = some ordering) :
    ordering = .eq := by
  cases a with
  | nan => cases h
  | infinite negative => simpa [compare?] using h.symm
  | finite => simpa [compare?] using h.symm

end BuildPipeline.Binary64
