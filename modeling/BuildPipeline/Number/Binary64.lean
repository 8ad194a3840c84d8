/-!
# Binary64 numbers

The numbers of expressions and of documents: sign, 53-bit significand and power of two, with the
two infinities and one NaN.  A finite number has exactly one representation, so equality of values
of this type is equality of numbers, except that the two zeros stay apart.

Every operation is exact integer arithmetic followed by one rounding, to the nearest number and to
the even significand on a tie.  Only what pipelines need is here: rounding of a ratio, subtraction,
comparison and conversion to integers.  There is no addition, multiplication or square root.
-/

namespace BuildPipeline

/-- The pairs that stand for a number: a full significand, or the least exponent. -/
def IsCanonical (significand : Nat) (exponent : Int) : Prop :=
  significand < Nat.pow 2 53 ∧ -1074 ≤ exponent ∧ exponent ≤ 971 ∧
    (Nat.pow 2 52 ≤ significand ∨ exponent = -1074)

instance (significand : Nat) (exponent : Int) : Decidable (IsCanonical significand exponent) := by
  unfold IsCanonical
  infer_instance

/-- A binary64 number; `finite` stands for `± significand * 2 ^ exponent`. -/
inductive Binary64 where
  | nan
  | infinite (negative : Bool)
  | finite (negative : Bool) (significand : Nat) (exponent : Int)
      (canonical : IsCanonical significand exponent)
  deriving DecidableEq

namespace Binary64

def zero : Binary64 := .finite false 0 (-1074) (by decide)

def one : Binary64 := .finite false (Nat.pow 2 52) (-52) (by decide)

instance : Inhabited Binary64 := ⟨zero⟩

/-- The number with these parts; what has no representation is beyond the largest number. -/
def ofParts (negative : Bool) (significand : Nat) (exponent : Int) : Binary64 :=
  if h : IsCanonical significand exponent then .finite negative significand exponent h
  else .infinite negative

/-! ## Rounding -/

/-- The integer nearest to `num / den`, a tie going to the even one. -/
def roundHalfEven (num den : Nat) : Nat :=
  let quotient := num / den
  let remainder := num % den
  if 2 * remainder > den ∨ (2 * remainder = den ∧ quotient % 2 = 1) then quotient + 1 else quotient

/-- Numerator and denominator of `num / (den * 2 ^ exponent)`. -/
def scaled (num den : Nat) (exponent : Int) : Nat × Nat :=
  (num * Nat.pow 2 (-exponent).toNat, den * Nat.pow 2 exponent.toNat)

/-- The exponent at which `num / den` has a 53-bit integer part, but never below the least one. -/
def exponentOf (num den : Nat) : Int :=
  let guess : Int := (num.log2 : Int) - den.log2 - 52
  let (n, d) := scaled num den guess
  max (if n / d < Nat.pow 2 52 then guess - 1 else guess) (-1074)

/-- The number nearest to `± num / den`. -/
def ofRatio (negative : Bool) (num den : Nat) : Binary64 :=
  if num = 0 then ofParts negative 0 (-1074)
  else
    let exponent := exponentOf num den
    let (n, d) := scaled num den exponent
    let significand := roundHalfEven n d
    if significand = Nat.pow 2 53 then ofParts negative (Nat.pow 2 52) (exponent + 1)
    else ofParts negative significand exponent

/-- The number nearest to an integer. -/
def ofInt (i : Int) : Binary64 :=
  ofRatio (i < 0) i.natAbs 1

def ofNat (n : Nat) : Binary64 :=
  ofRatio false n 1

/-! ## Sign and order -/

def isNaN : Binary64 → Bool
  | .nan => true
  | _ => false

def isFinite : Binary64 → Bool
  | .finite .. => true
  | _ => false

/-- Both zeros, and nothing else. -/
def isZero : Binary64 → Bool
  | .finite _ significand _ _ => significand == 0
  | _ => false

def abs : Binary64 → Binary64
  | .nan => .nan
  | .infinite _ => .infinite false
  | .finite _ significand exponent h => .finite false significand exponent h

/-- The signed multiple of `2 ^ base` that a finite number is, for a `base` not above its own
exponent. -/
def signedAt (negative : Bool) (significand : Nat) (exponent base : Int) : Int :=
  let magnitude : Int := (significand * Nat.pow 2 (exponent - base).toNat : Nat)
  if negative then -magnitude else magnitude

/-- The order of two numbers; a NaN stands in no order to anything. -/
def compare? : Binary64 → Binary64 → Option Ordering
  | .nan, _ | _, .nan => none
  | .infinite a, .infinite b => some (if a = b then .eq else if a then .lt else .gt)
  | .infinite a, .finite .. => some (if a then .lt else .gt)
  | .finite .., .infinite b => some (if b then .gt else .lt)
  | .finite sa ma ea _, .finite sb mb eb _ =>
    let base := min ea eb
    some (compare (signedAt sa ma ea base) (signedAt sb mb eb base))

def lt (a b : Binary64) : Bool :=
  a.compare? b == some .lt

/-- Numeric equality: the zeros are equal and a NaN equals nothing. -/
def equals (a b : Binary64) : Bool :=
  a.compare? b == some .eq

/-! ## Difference -/

/-- The number nearest to `a - b`. -/
def sub : Binary64 → Binary64 → Binary64
  | .nan, _ | _, .nan => .nan
  | .infinite a, .infinite b => if a = b then .nan else .infinite a
  | .infinite a, .finite .. => .infinite a
  | .finite .., .infinite b => .infinite (!b)
  | .finite sa ma ea _, .finite sb mb eb _ =>
    let base := min ea eb
    let difference := signedAt sa ma ea base - signedAt sb mb eb base
    if difference = 0 then ofParts (sa && !sb && ma == 0) 0 (-1074)
    else
      let (num, den) := scaled difference.natAbs 1 (-base)
      ofRatio (difference < 0) num den

/-- The distance below which two numbers count as one: `2 ^ -52`. -/
def epsilon : Binary64 := .finite false (Nat.pow 2 52) (-104) (by decide)

/-- Whether the rounded difference is smaller than `epsilon`. -/
def isClose (a b : Binary64) : Bool :=
  (a.sub b).abs.lt epsilon

/-! ## Integers -/

/-- The integer part, cut off towards zero; nothing for a NaN and the infinities. -/
def truncate? : Binary64 → Option Int
  | .finite negative significand exponent _ =>
    let (num, den) := scaled significand 1 (-exponent)
    let magnitude : Int := (num / den : Nat)
    some (if negative then -magnitude else magnitude)
  | _ => none

/-- Whether the number is finite and has no fractional part. -/
def isIntegral : Binary64 → Bool
  | .finite _ significand exponent _ =>
    let (num, den) := scaled significand 1 (-exponent)
    num % den == 0
  | _ => false

/-- The integer that a number is, where it is below `10 ^ 15` in magnitude. -/
def smallInteger? (x : Binary64) : Option Int :=
  if x.isIntegral then x.truncate?.filter (·.natAbs < Nat.pow 10 15) else none

/-- The number as a position: cut off towards zero, negative numbers and NaN giving the first
position, and nothing for what no list can reach. -/
def toPosition? : Binary64 → Option Nat
  | .nan => some 0
  | .infinite negative => if negative then some 0 else none
  | x => x.truncate?.map Int.toNat

end Binary64

end BuildPipeline
