import BuildPipeline.Number.Binary64

/-!
# Decimal text of binary64 numbers

Reading rounds the decimal number that was written.  Writing chooses the fewest digits that read
back to the same number, the nearest of those, and lays them out as a `Layout` says; the three
layouts in use are `Layout.plain`, `Layout.json` and `Layout.yaml`.

Hexadecimal numbers, digit separators and surrounding blanks are not decimal text.
-/

namespace BuildPipeline.Binary64

/-! ## Reading -/

/-- The value of a run of ASCII digits read after `start`. -/
def digitsValue (start : Nat) (digits : List Char) : Nat :=
  digits.foldl (fun value digit => 10 * value + (digit.toNat - '0'.toNat)) start

/-- The number nearest to `± digits * 10 ^ exponent`.  Exponents far outside the range are decided
without computing the power. -/
def ofDecimal (negative : Bool) (digits : Nat) (exponent : Int) : Binary64 :=
  let magnitude : Int := (Nat.toDigits 10 digits).length + exponent
  if digits = 0 ∨ magnitude < -400 then ofParts negative 0 (-1074)
  else if magnitude > 400 then .infinite negative
  else ofRatio negative (digits * Nat.pow 10 exponent.toNat) (Nat.pow 10 (-exponent).toNat)

/-- An optional sign and what follows it. -/
def splitSign : List Char → Bool × List Char
  | '-' :: rest => (true, rest)
  | '+' :: rest => (false, rest)
  | text => (false, text)

/-- The exponent part of decimal text: nothing, or `e` and a signed run of digits. -/
def readExponent? : List Char → Option Int
  | [] => some 0
  | mark :: rest =>
    if mark = 'e' ∨ mark = 'E' then
      let (negative, digits) := splitSign rest
      if digits ≠ [] ∧ digits.all Char.isDigit then
        let value : Int := digitsValue 0 digits
        some (if negative then -value else value)
      else none
    else none

/-- Digits with at most one point among them and at least one digit, then an exponent. -/
def readUnsigned? (negative : Bool) (text : List Char) : Option Binary64 :=
  let whole := text.takeWhile Char.isDigit
  let afterWhole := text.dropWhile Char.isDigit
  let (fraction, rest) :=
    match afterWhole with
    | '.' :: tail => (tail.takeWhile Char.isDigit, tail.dropWhile Char.isDigit)
    | tail => ([], tail)
  if whole = [] ∧ fraction = [] then none
  else
    (readExponent? rest).map fun exponent =>
      ofDecimal negative (digitsValue (digitsValue 0 whole) fraction) (exponent - fraction.length)

/-- Read a number: decimal text, or `inf`, `infinity` and `nan` in any letter case, with a sign. -/
def readChars? (text : List Char) : Option Binary64 :=
  let (negative, body) := splitSign text
  let word := body.map Char.toLower
  if word = "inf".toList ∨ word = "infinity".toList then some (.infinite negative)
  else if word = "nan".toList then some .nan
  else readUnsigned? negative body

def read? (text : String) : Option Binary64 :=
  readChars? text.toList

/-! ## Shortest digits -/

/-- Which of two equally near candidates is written. -/
inductive Tie where
  | up
  | toEven
  deriving DecidableEq, Repr

/-- Digits and the power of ten that their integer is multiplied with. -/
structure Decimal where
  digits : Nat
  exponent : Int
  deriving DecidableEq, Repr

/-- The numbers that round to a significand and exponent, as multiples of `2 ^ (exponent - 2)`: the
number itself and the two ends of the interval. -/
structure Rounding where
  low : Nat
  value : Nat
  high : Nat
  /-- The ends themselves round to an even significand. -/
  closed : Bool

def Rounding.of (significand : Nat) (exponent : Int) : Rounding where
  low := if significand = Nat.pow 2 52 ∧ exponent ≠ -1074 then 4 * significand - 1
    else 4 * significand - 2
  value := 4 * significand
  high := 4 * significand + 2
  closed := significand % 2 == 0

/-- Whether the grid point `point / unit` lies in the interval. -/
def Rounding.holds (r : Rounding) (point unit : Nat) : Bool :=
  if r.closed then r.low * unit ≤ point && point ≤ r.high * unit
  else r.low * unit < point && point < r.high * unit

/-- The point of the grid of multiples of `10 ^ exponent` that reads back and is nearest, if there
is one.  `num / den` is the unit of `r`. -/
def Rounding.onGrid? (r : Rounding) (num den : Nat) (tie : Tie) (exponent : Int) : Option Nat :=
  let step := den * Nat.pow 10 exponent.toNat
  let unit := num * Nat.pow 10 (-exponent).toNat
  let below := r.value * unit / step
  let downward := r.value * unit - below * step
  let upward := (below + 1) * step - r.value * unit
  let lowHolds := r.holds (below * step) unit && 0 < below
  let highHolds := r.holds ((below + 1) * step) unit
  if lowHolds && highHolds then
    if downward < upward then some below
    else if upward < downward then some (below + 1)
    else match tie with
      | .up => some (below + 1)
      | .toEven => some (if below % 2 = 0 then below else below + 1)
  else if lowHolds then some below
  else if highHolds then some (below + 1)
  else none

/-- The first grid, from coarse to fine, that holds a point reading back. -/
def Rounding.firstGrid (r : Rounding) (num den : Nat) (tie : Tie) : Nat → Int → Decimal
  | 0, exponent => ⟨r.value * num / (den * Nat.pow 10 exponent.toNat), exponent⟩
  | grids + 1, exponent =>
    match r.onGrid? num den tie exponent with
    | some digits => ⟨digits, exponent⟩
    | none => r.firstGrid num den tie grids (exponent - 1)

/-- Drop trailing zeros into the exponent. -/
def Decimal.strip (d : Decimal) : Nat → Decimal
  | 0 => d
  | rounds + 1 =>
    if d.digits % 10 = 0 ∧ d.digits ≠ 0 then
      Decimal.strip ⟨d.digits / 10, d.exponent + 1⟩ rounds
    else d

/-- The number of decimal digits before the point of `num / den`, at least one. -/
def integerDigits (num den : Nat) : Nat :=
  (Nat.toDigits 10 (num / den)).length

/-- The fewest digits that read back to a number other than zero. -/
def shortest (tie : Tie) (significand : Nat) (exponent : Int) : Decimal :=
  let (num, den) := scaled 1 1 (2 - exponent)
  let r := Rounding.of significand exponent
  let whole := integerDigits (r.value * num) den
  let leading : Int :=
    if r.value * num / den ≠ 0 then whole
    else 1 - (integerDigits den (r.value * num) : Int) + 1
  (r.firstGrid num den tie 20 leading).strip 20

/-! ## Layouts -/

/-- How digits become text. -/
structure Layout where
  tie : Tie
  /-- Least and greatest position of the point that are written without an exponent, counted from
  the first digit; `none` when every number is. -/
  positional : Option (Int × Int)
  /-- A whole number ends in `.0`. -/
  keepsPoint : Bool
  /-- A positive exponent has a sign. -/
  signsExponent : Bool
  infinityText : String
  nanText : String

/-- Never an exponent, and no point without a fraction. -/
def Layout.plain : Layout where
  tie := .up
  positional := none
  keepsPoint := false
  signsExponent := false
  infinityText := "inf"
  nanText := "NaN"

/-- Positional from `0.00001` to below `10 ^ 16`; what is not finite has no number and is null. -/
def Layout.json : Layout where
  tie := .toEven
  positional := some (-4, 16)
  keepsPoint := true
  signsExponent := true
  infinityText := "null"
  nanText := "null"

/-- Positional from `0.00001` to below `10 ^ 16`, and the words for what is not finite. -/
def Layout.yaml : Layout where
  tie := .toEven
  positional := some (-4, 16)
  keepsPoint := true
  signsExponent := false
  infinityText := ".inf"
  nanText := ".nan"

/-- Digits with the point at `position` places after the first one's left side. -/
def Layout.writePositional (l : Layout) (digits : List Char) (position : Int) : List Char :=
  if position ≤ 0 then
    '0' :: '.' :: (List.replicate (-position).toNat '0' ++ digits)
  else if digits.length ≤ position.toNat then
    digits ++ List.replicate (position.toNat - digits.length) '0' ++
      (if l.keepsPoint then ['.', '0'] else [])
  else
    digits.take position.toNat ++ '.' :: digits.drop position.toNat

/-- One digit, the others after a point, and the exponent. -/
def Layout.writeScientific (l : Layout) (digits : List Char) (position : Int) : List Char :=
  let exponent := position - 1
  let sign : List Char :=
    if exponent < 0 then ['-'] else if l.signsExponent then ['+'] else []
  let fraction : List Char := if digits.length ≤ 1 then [] else '.' :: digits.drop 1
  digits.take 1 ++ fraction ++ 'e' :: sign ++ Nat.toDigits 10 exponent.natAbs

def Layout.writeDecimal (l : Layout) (d : Decimal) : List Char :=
  let digits := Nat.toDigits 10 d.digits
  let position : Int := digits.length + d.exponent
  match l.positional with
  | none => l.writePositional digits position
  | some (least, greatest) =>
    if least ≤ position ∧ position ≤ greatest then l.writePositional digits position
    else l.writeScientific digits position

/-- The text of a number.  A sign stands before every negative one, the zero included. -/
def writeChars (l : Layout) : Binary64 → List Char
  | .nan => l.nanText.toList
  | .infinite negative =>
    if negative ∧ l.infinityText ≠ l.nanText then '-' :: l.infinityText.toList
    else l.infinityText.toList
  | .finite negative significand exponent _ =>
    let body :=
      if significand = 0 then l.writeDecimal ⟨0, 0⟩
      else l.writeDecimal (shortest l.tie significand exponent)
    if negative then '-' :: body else body

def write (l : Layout) (x : Binary64) : String :=
  String.ofList (x.writeChars l)

end BuildPipeline.Binary64
