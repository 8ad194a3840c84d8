import BuildPipeline.Number.Decimal
import BuildPipeline.Proofs.Text.Casing

/-!
# Letter case of numbers

A number in a text has letters in its exponent and in the words for what is not finite, and both are
read in any case.  So folding the ASCII letters of a text changes no number that is read from it:
`read?_trim_eq_of_equalsIgnoringAsciiCase`.
-/

namespace BuildPipeline.Binary64

open Text

/-! ## Parts of a number -/

theorem map_toLower_of_isDigit {digits : List Char} (hdigits : ∀ c ∈ digits, c.isDigit = true) :
    digits.map Char.toLower = digits := by
  have hsame (c : Char) (hc : c.isDigit = true) : c.toLower = c := by
    rcases toLower_cases c with hsame | ⟨n, hn, rfl, -⟩
    · exact hsame
    · have hletter : ∀ n < 26, (Char.ofNat (65 + n)).isDigit = false := by decide
      rw [hletter n hn] at hc
      cases hc
  exact (List.map_congr_left fun c hmem => hsame c (hdigits c hmem)).trans (List.map_id digits)

theorem takeWhile_isDigit_map_toLower (text : List Char) :
    (text.map Char.toLower).takeWhile Char.isDigit = text.takeWhile Char.isDigit := by
  rw [takeWhile_map_toLower isDigit_toLower]
  exact map_toLower_of_isDigit fun c hmem => List.all_eq_true.mp List.all_takeWhile c hmem

theorem splitSign_cons (c : Char) (rest : List Char) :
    splitSign (c :: rest) =
      if c = '-' then (true, rest) else if c = '+' then (false, rest) else (false, c :: rest) := by
  unfold splitSign
  split <;> simp_all

theorem splitSign_map_toLower (text : List Char) :
    splitSign (text.map Char.toLower) =
      ((splitSign text).1, (splitSign text).2.map Char.toLower) := by
  cases text with
  | nil => rfl
  | cons c rest =>
    have hminus : c.toLower = '-' ↔ c = '-' := toLower_eq_iff (by decide) c
    have hplus : c.toLower = '+' ↔ c = '+' := toLower_eq_iff (by decide) c
    rw [List.map_cons, splitSign_cons, splitSign_cons]
    simp only [hminus, hplus]
    split
    · rfl
    · split <;> rfl

theorem all_isDigit_map_toLower (text : List Char) :
    (text.map Char.toLower).all Char.isDigit = text.all Char.isDigit := by
  rw [List.all_map]
  exact congrArg text.all (funext isDigit_toLower)

theorem readExponent?_map_toLower (text : List Char) :
    readExponent? (text.map Char.toLower) = readExponent? text := by
  cases text with
  | nil => rfl
  | cons mark rest =>
    have hmark : (mark.toLower = 'e' ∨ mark.toLower = 'E') ↔ (mark = 'e' ∨ mark = 'E') :=
      decide_eq_decide.mp
        (apply_toLower (f := fun c => decide (c = 'e' ∨ c = 'E')) (by decide) mark)
    rw [List.map_cons, readExponent?, readExponent?, splitSign_map_toLower]
    simp only [hmark, ne_eq, List.map_eq_nil_iff, all_isDigit_map_toLower]
    split
    · split
      case isTrue _ hdigits =>
        rw [map_toLower_of_isDigit (List.all_eq_true.mp hdigits.2)]
      case isFalse => rfl
    · rfl

/-- The digits behind a point, if there is one, and what follows them. -/
def splitFraction : List Char → List Char × List Char
  | '.' :: tail => (tail.takeWhile Char.isDigit, tail.dropWhile Char.isDigit)
  | tail => ([], tail)

theorem splitFraction_cons (c : Char) (tail : List Char) :
    splitFraction (c :: tail) =
      if c = '.' then (tail.takeWhile Char.isDigit, tail.dropWhile Char.isDigit)
      else ([], c :: tail) := by
  unfold splitFraction
  split <;> simp_all

theorem splitFraction_map_toLower (text : List Char) :
    splitFraction (text.map Char.toLower) =
      ((splitFraction text).1, (splitFraction text).2.map Char.toLower) := by
  cases text with
  | nil => rfl
  | cons c tail =>
    have hpoint : c.toLower = '.' ↔ c = '.' := toLower_eq_iff (by decide) c
    rw [List.map_cons, splitFraction_cons, splitFraction_cons, takeWhile_isDigit_map_toLower,
      dropWhile_map_toLower isDigit_toLower]
    simp only [hpoint]
    split <;> rfl

theorem readUnsigned?_eq (negative : Bool) (text : List Char) :
    readUnsigned? negative text =
      if text.takeWhile Char.isDigit = [] ∧ (splitFraction (text.dropWhile Char.isDigit)).1 = []
      then none
      else
        (readExponent? (splitFraction (text.dropWhile Char.isDigit)).2).map fun exponent =>
          ofDecimal negative
            (digitsValue (digitsValue 0 (text.takeWhile Char.isDigit))
              (splitFraction (text.dropWhile Char.isDigit)).1)
            (exponent - (splitFraction (text.dropWhile Char.isDigit)).1.length) := rfl

theorem readUnsigned?_map_toLower (negative : Bool) (text : List Char) :
    readUnsigned? negative (text.map Char.toLower) = readUnsigned? negative text := by
  simp only [readUnsigned?_eq, takeWhile_isDigit_map_toLower,
    dropWhile_map_toLower isDigit_toLower, splitFraction_map_toLower, readExponent?_map_toLower]

/-! ## Numbers -/

theorem readChars?_map_toLower (text : List Char) :
    readChars? (text.map Char.toLower) = readChars? text := by
  have htwice : Char.toLower ∘ Char.toLower = Char.toLower := funext toLower_toLower
  simp only [readChars?, splitSign_map_toLower, readUnsigned?_map_toLower, List.map_map, htwice]

theorem read?_trim_eq_of_equalsIgnoringAsciiCase {a b : String}
    (hequal : equalsIgnoringAsciiCase a b = true) : read? (trim a) = read? (trim b) := by
  have hread (text : String) :
      read? (trim text) = readChars? (trimChars (text.toList.map Char.toLower)) := by
    rw [trimChars_map_toLower, readChars?_map_toLower, read?, trim, String.toList_ofList]
  rw [hread a, hread b, equalsIgnoringAsciiCase_iff.mp hequal]

end BuildPipeline.Binary64
