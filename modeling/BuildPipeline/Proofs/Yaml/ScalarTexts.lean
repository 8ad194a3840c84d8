import BuildPipeline.Proofs.Number.Shortest
import BuildPipeline.Proofs.Outcomes
import BuildPipeline.Proofs.Yaml.PlainScalars
import BuildPipeline.Yaml.Codec
import Mathlib.Data.List.Basic

/-!
# Plain scalars that are written as they are read

A plain scalar is read as a value, and the value has a text of its own, which need not be the one
that was read.

* `Codec.ReadsPlainScalars` is what has to be known of a reader: that it reads a plain scalar as a
  scalar, a word as the word, and decimal numbers as the numbers they are.  Which other words are
  null or a number is left to the reader.
* `PlainScalar.denoted` is the text of the value that is read, or the text of the scalar if it is
  refused.
* `toDigits_ofDigitChars`: decimal digits are the text of their number, unless a zero leads them.
  So an integer keeps its text exactly if it is written in decimal digits without a plus sign
  (`toString_eq_iff_isPlainInteger`).
* `PlainScalar.denoted_eq_text_iff` says of every scalar on one line whether it keeps its text, and
  `PlainScalar.denoted_ne_text_of_trailing_zero` that no number does that is written with a
  superfluous zero.
* `readsPlainScalars`: the reader of this library is one of these.
-/

namespace BuildPipeline.Yaml

/-! ## Readers -/

/-- A reader takes plain scalars for what YAML says that they are.  Nothing is asked here of the
words for null, of other bases, of signs in front of digits around a point, or of exponents. -/
structure Codec.ReadsPlainScalars [Codec] : Prop where
  /-- A plain scalar is no list, no mapping and nothing with a tag. -/
  scalar : ∀ (s : PlainScalar) value, Codec.read s.text = .ok value → value.scalarText?.isSome
  /-- A string is what the scalar says. -/
  string : ∀ (s : PlainScalar) text, Codec.read s.text = .ok (.string text) → text = s.content
  /-- A truth value is written in lower case, in upper case, or capitalized. -/
  bool : ∀ (s : PlainScalar) value, Codec.read s.text = .ok (.bool value) →
    boolWord? s.content = some value
  /-- Decimal digits that are an integer do not begin with a zero, unless it is all of them. -/
  natural : ∀ (s : PlainScalar) value, Codec.read s.text = .ok (.int value) →
    (∀ c ∈ s.content.toList, c.isDigit = true) →
      isPaddedNumber s.content.toList = false ∧ value = Nat.ofDigitChars 10 s.content.toList 0
  /-- The same holds behind a minus sign. -/
  negative : ∀ (s : PlainScalar) value digits, Codec.read s.text = .ok (.int value) →
    s.content.toList = '-' :: digits → (∀ c ∈ digits, c.isDigit = true) →
      isPaddedNumber digits = false ∧ value = -(Nat.ofDigitChars 10 digits 0 : Int)
  /-- Digits around a point are the number of double precision that is nearest, if that is finite. -/
  decimal : ∀ (s : PlainScalar) front more number,
    s.content.toList = front ++ '.' :: more → front ≠ [] → (∀ c ∈ front, c.isDigit = true) →
    more ≠ [] → (∀ c ∈ more, c.isDigit = true) →
    Binary64.readChars? s.content.toList = some number → number.isFinite = true →
      Codec.read s.text = .ok (.float number)

/-! ## Integers -/

/-- Decimal digits, perhaps behind a minus sign, but no negative zero. -/
def IsPlainInteger (text : List Char) : Prop :=
  text ≠ ['-', '0'] ∧ ∃ digits, digits ≠ [] ∧ (∀ c ∈ digits, c.isDigit = true) ∧
    (text = digits ∨ text = '-' :: digits)

section Integers

variable {digits text : List Char}

theorem digitIn?_of_isDigit {c : Char} (hc : c.isDigit = true) :
    digitIn? 10 c = some (c.toNat - '0'.toNat) ∧ c.toNat - '0'.toNat < 10 ∧
      Nat.digitChar (c.toNat - '0'.toNat) = c := by
  obtain ⟨digit, hdigit, rfl⟩ : ∃ digit < 10, c = Char.ofNat (48 + digit) := by
    obtain ⟨hlow, hhigh⟩ : 48 ≤ c.toNat ∧ c.toNat ≤ 57 := Char.isDigit_iff_toNat.mp hc
    refine ⟨c.toNat - 48, by omega, ?_⟩
    rw [Nat.add_sub_of_le hlow, Char.ofNat_toNat]
  clear hc
  revert digit
  decide

/-- Digits behind a positive number go on with its text. -/
theorem toDigits_ofDigitChars_of_pos {start : Nat} (hstart : 0 < start)
    (hdigits : ∀ c ∈ digits, c.isDigit = true) :
    Nat.toDigits 10 (Nat.ofDigitChars 10 digits start) = Nat.toDigits 10 start ++ digits := by
  induction digits generalizing start with
  | nil => rw [Nat.ofDigitChars_nil, List.append_nil]
  | cons c digits ih =>
      obtain ⟨hc, hdigits⟩ := List.forall_mem_cons.mp hdigits
      obtain ⟨-, hsmall, hchar⟩ := digitIn?_of_isDigit hc
      rw [Nat.ofDigitChars_cons, ih (by omega) hdigits,
        ← Nat.toDigits_append_toDigits (by decide) hstart hsmall, Nat.toDigits_of_lt_base hsmall,
        hchar, List.append_assoc, List.singleton_append]

/-- Digits without a leading zero are the text of their number. -/
theorem toDigits_ofDigitChars (hsome : digits ≠ []) (hdigits : ∀ c ∈ digits, c.isDigit = true)
    (hpadded : isPaddedNumber digits = false) :
    Nat.toDigits 10 (Nat.ofDigitChars 10 digits 0) = digits := by
  cases digits with
  | nil => exact absurd rfl hsome
  | cons c digits =>
      obtain ⟨hc, hrest⟩ := List.forall_mem_cons.mp hdigits
      obtain ⟨-, hsmall, hchar⟩ := digitIn?_of_isDigit hc
      rw [Nat.ofDigitChars_cons, Nat.mul_zero, Nat.zero_add]
      rcases Nat.eq_zero_or_pos (c.toNat - '0'.toNat) with hzero | hpos
      · -- A zero is followed by nothing.
        rw [hzero] at hchar
        obtain rfl : c = '0' := hchar.symm
        cases digits with
        | nil => rfl
        | cons d digits =>
            have hpadding : isPaddedNumber ('0' :: d :: digits) = true := List.all_eq_true.mpr hrest
            rw [hpadding] at hpadded
            cases hpadded
      · rw [toDigits_ofDigitChars_of_pos hpos hrest, Nat.toDigits_of_lt_base hsmall, hchar,
          List.singleton_append]

/-- The text of an integer has a minus sign or none. -/
theorem toList_toString (i : Int) :
    (toString i).toList =
      if 0 ≤ i then Nat.toDigits 10 i.natAbs else '-' :: Nat.toDigits 10 i.natAbs := by
  rw [Int.toString_eq_repr, Int.repr_eq_if]
  split
  case isTrue hnonneg =>
    rw [Nat.toList_repr, show i.toNat = i.natAbs by omega]
  case isFalse hnegative =>
    rw [String.toList_append, Nat.toList_repr, show (-i).toNat = i.natAbs by omega]
    rfl

/-- The text of an integer is decimal digits, perhaps behind a minus sign, and no negative zero. -/
theorem isPlainInteger_toString (i : Int) : IsPlainInteger (toString i).toList := by
  have hdigits (c : Char) (hc : c ∈ Nat.toDigits 10 i.natAbs) : c.isDigit = true :=
    Nat.isDigit_of_mem_toDigits (by decide) (by decide) hc
  rw [toList_toString]
  split
  case isTrue =>
    refine ⟨fun hminus => ?_, _, Nat.toDigits_ne_nil, hdigits, .inl rfl⟩
    cases hdigits '-' (by rw [hminus]; exact List.mem_cons_self)
  case isFalse hnegative =>
    refine ⟨fun hminus => ?_, _, Nat.toDigits_ne_nil, hdigits, .inr rfl⟩
    have hzero : Nat.toDigits 10 i.natAbs = Nat.toDigits 10 0 := (List.cons.inj hminus).2
    have hsame := congrArg (Nat.ofDigitChars 10 · 0) hzero
    simp only [Nat.ofDigitChars_ten_toDigits] at hsame
    omega

/-- Digits without a leading zero are the text of a number that is not negative. -/
theorem toList_toString_ofDigitChars (hsome : digits ≠ [])
    (hdigits : ∀ c ∈ digits, c.isDigit = true) (hpadded : isPaddedNumber digits = false) :
    (toString (Nat.ofDigitChars 10 digits 0 : Int)).toList = digits := by
  rw [toList_toString, if_pos (Int.natCast_nonneg _), Int.natAbs_natCast,
    toDigits_ofDigitChars hsome hdigits hpadded]

/-- With a minus sign they are the text of a negative number, unless they are a zero. -/
theorem toList_toString_neg_ofDigitChars (hsome : digits ≠ []) (hzero : digits ≠ ['0'])
    (hdigits : ∀ c ∈ digits, c.isDigit = true) (hpadded : isPaddedNumber digits = false) :
    (toString (-(Nat.ofDigitChars 10 digits 0 : Int))).toList = '-' :: digits := by
  have htext := toDigits_ofDigitChars hsome hdigits hpadded
  have hpos : Nat.ofDigitChars 10 digits 0 ≠ 0 := fun hnone => by
    rw [hnone] at htext
    exact hzero htext.symm
  rw [toList_toString, if_neg (by omega), Int.natAbs_neg, Int.natAbs_natCast, htext]

end Integers

/-! ## The text of the value -/

namespace PlainScalar

variable (s : PlainScalar)

section Denoted

variable [Codec]

/-- The text of the value that a plain scalar is read as.  What is refused keeps the text it has. -/
def denoted : String :=
  match Codec.read s.text with
  | .ok .null => ""
  | .ok (.bool value) => if value then "true" else "false"
  | .ok (.int value) => toString value
  | .ok (.float value) => value.write .yaml
  | .ok _ => s.content
  | .error _ => s.text

/-- Whether the value that a scalar is read as has this same text. -/
def KeepsText : Prop :=
  match Codec.read s.text with
  | .ok .null => False
  | .ok (.bool _) => s.text = "true" ∨ s.text = "false"
  | .ok (.int _) => IsPlainInteger s.text.toList
  | .ok (.float value) => s.text = value.write .yaml
  | .ok _ | .error _ => True

end Denoted

theorem text_ne_empty : s.text ≠ "" := by
  intro hempty
  have hnil : s.first ++ written s.others = [] := by
    rw [← String.toList_ofList (l := s.first ++ written s.others)]
    exact congrArg String.toList hempty
  exact s.isWord.nonempty (List.append_eq_nil_iff.mp hnil).1

theorem lineEndings_eq_nil {gap : List Char} (hline : ∀ c ∈ gap, isBreak c = false) :
    lineEndings gap = [] := by
  induction gap with
  | nil => rfl
  | cons c gap ih =>
      obtain ⟨hc, hgap⟩ := List.forall_mem_cons.mp hline
      rw [lineEndings.eq_2, if_neg (by simp [hc]), ih hgap]
      rintro rest rfl
      cases hc

/-- On one line a scalar says what is written. -/
theorem content_eq_text (hline : ∀ c ∈ s.text.toList, isBreak c = false) : s.content = s.text := by
  have hgaps : ∀ part ∈ s.others, foldGap part.1 ++ part.2 = part.1 ++ part.2 := by
    intro part hpart
    have hgap : ∀ c ∈ part.1, isBreak c = false := by
      intro c hc
      refine hline c ?_
      rw [text, String.toList_ofList, List.mem_append]
      exact .inr (List.mem_flatMap.mpr ⟨part, hpart, List.mem_append_left _ hc⟩)
    rw [foldGap, lineEndings_eq_nil hgap]
  rw [content, text, folded, written, List.flatMap_congr hgaps]

section Reading

variable [Codec] (hreads : Codec.ReadsPlainScalars)

include hreads

/-- What is read is a scalar with the text that is denoted. -/
theorem scalarText?_of_read {value : Value} (hread : Codec.read s.text = .ok value) :
    value.scalarText? = some s.denoted := by
  have hscalar := hreads.scalar s value hread
  rw [denoted, hread]
  cases value with
  | null | bool | int | float => rfl
  | string text => exact congrArg some (hreads.string s text hread)
  | sequence | mapping | tagged => cases hscalar

variable {s} (hline : ∀ c ∈ s.text.toList, isBreak c = false)

include hline

/-- An integer keeps its text if it is written in decimal digits without a plus sign. -/
theorem toString_eq_iff_isPlainInteger {i : Int} (hread : Codec.read s.text = .ok (.int i)) :
    toString i = s.text ↔ IsPlainInteger s.text.toList := by
  have hcontent := s.content_eq_text hline
  constructor
  · intro htext
    rw [← htext]
    exact isPlainInteger_toString i
  · rintro ⟨hzero, digits, hsome, hdigits, htext | htext⟩
    · have hnatural := hreads.natural s i hread
      rw [hcontent, htext] at hnatural
      obtain ⟨hpadded, rfl⟩ := hnatural hdigits
      rw [← String.toList_inj, htext, toList_toString_ofDigitChars hsome hdigits hpadded]
    · obtain ⟨hpadded, rfl⟩ := hreads.negative s i digits hread (hcontent.symm ▸ htext) hdigits
      have hsomething : digits ≠ ['0'] := by
        rintro rfl
        exact hzero htext
      rw [← String.toList_inj, htext,
        toList_toString_neg_ofDigitChars hsome hsomething hdigits hpadded]

/-- On one line it is decided for every scalar whether it keeps its text. -/
theorem denoted_eq_text_iff : s.denoted = s.text ↔ s.KeepsText := by
  have hcontent := s.content_eq_text hline
  rw [denoted, KeepsText]
  cases hread : Codec.read s.text with
  | error error => exact iff_of_true rfl trivial
  | ok value =>
      cases value with
      | null => exact iff_of_false (Ne.symm s.text_ne_empty) not_false
      | bool value =>
          have hword := hreads.bool s value hread
          rw [hcontent] at hword
          constructor
          · intro htext
            cases value
            · exact .inr htext.symm
            · exact .inl htext.symm
          · rintro (htext | htext)
            · rw [htext] at hword ⊢
              cases hword
              rfl
            · rw [htext] at hword ⊢
              cases hword
              rfl
      | int value => exact toString_eq_iff_isPlainInteger hreads hline hread
      | float value => exact eq_comm
      | string | sequence | mapping | tagged => exact iff_of_true hcontent trivial

/-- A number with a superfluous zero behind its point does not keep its text. -/
theorem denoted_ne_text_of_trailing_zero {value : Binary64} {front more : List Char}
    (hread : Codec.read s.text = .ok (.float value)) (hmore : ∀ c ∈ more, c.isDigit = true)
    (hsome : more ≠ []) (htext : s.text.toList = front ++ '.' :: (more ++ ['0'])) :
    s.denoted ≠ s.text := by
  intro hsame
  rw [denoted_eq_text_iff hreads hline, KeepsText, hread] at hsame
  rw [hsame, Binary64.write, String.toList_ofList] at htext
  exact hsome (Binary64.eq_nil_of_writeChars hmore htext)

end Reading

end PlainScalar

/-! ## The reader of this library -/

section Resolution

variable {digits front more : List Char} {text : String}

theorem digitsFrom?_of_isDigit {start : Nat} (hdigits : ∀ c ∈ digits, c.isDigit = true) :
    digitsFrom? 10 start digits = some (Nat.ofDigitChars 10 digits start) := by
  induction digits generalizing start with
  | nil => rfl
  | cons c digits ih =>
      obtain ⟨hc, hdigits⟩ := List.forall_mem_cons.mp hdigits
      rw [digitsFrom?, (digitIn?_of_isDigit hc).1, Option.bind_some, ih hdigits,
        Nat.ofDigitChars_cons]

theorem based?_eq_none (hdigits : ∀ c ∈ digits, c.isDigit = true) : based? digits = none := by
  unfold based?
  split
  case h_4 => rfl
  all_goals exact absurd (hdigits _ (List.mem_cons_of_mem _ List.mem_cons_self)) (by decide)

/-- Digits have no sign and no mark of a base, so they are a decimal number. -/
theorem unsigned?_of_isDigit {bound : Nat} (hdigits : ∀ c ∈ digits, c.isDigit = true) :
    unsigned? bound digits = if isPaddedNumber digits then none
      else ((natural? 10 digits).filter (· < bound)).map Int.ofNat := by
  have hbased := based?_eq_none hdigits
  unfold unsigned?
  split
  case h_1 => cases hdigits '+' List.mem_cons_self
  case h_2 => simp [hbased]

/-- With a minus sign nothing is read as an unsigned number. -/
theorem unsigned?_minus (bound : Nat) (digits : List Char) :
    unsigned? bound ('-' :: digits) = none := by
  have hnatural : natural? 10 ('-' :: digits) = none := rfl
  simp [unsigned?, based?, hnatural]

/-- A digit is not a second sign. -/
theorem isPaddedNumber_minus (hdigits : ∀ c ∈ digits, c.isDigit = true) :
    isPaddedNumber ('-' :: digits) = isPaddedNumber digits := by
  cases digits with
  | nil => rfl
  | cons c digits =>
      have hminus : c ≠ '-' := by
        rintro rfl
        cases hdigits '-' List.mem_cons_self
      have hplus : c ≠ '+' := by
        rintro rfl
        cases hdigits '+' List.mem_cons_self
      simp [isPaddedNumber, hminus, hplus]

theorem negative?_of_isDigit {bound : Nat} (hdigits : ∀ c ∈ digits, c.isDigit = true) :
    negative? bound ('-' :: digits) = if isPaddedNumber digits then none
      else ((natural? 10 digits).filter (· ≤ bound)).map fun n : Nat => -(n : Int) := by
  simp only [negative?, based?_eq_none hdigits, isPaddedNumber_minus hdigits]
  cases (natural? 10 digits).filter (· ≤ bound) <;> rfl

theorem negative?_eq_none {bound : Nat} {word : List Char} (hminus : word.head? ≠ some '-') :
    negative? bound word = none := by
  unfold negative?
  split
  case h_1 => exact absurd rfl hminus
  case h_2 => rfl

/-- Digits that are read are not led by a zero, and are the number that they say. -/
theorem eq_of_read {i : Int} {accepts : Nat → Bool} {sign : Nat → Int}
    (hdigits : ∀ c ∈ digits, c.isDigit = true)
    (hread : (if isPaddedNumber digits then none
      else ((natural? 10 digits).filter accepts).map sign) = some i) :
    isPaddedNumber digits = false ∧ i = sign (Nat.ofDigitChars 10 digits 0) := by
  split at hread
  case isTrue => cases hread
  case isFalse hpadded =>
    obtain ⟨n, hn, rfl⟩ := Option.map_eq_some_iff.mp hread
    have hn := (Option.filter_eq_some_iff.mp hn).1
    rw [natural?] at hn
    split at hn
    case isTrue => cases hn
    case isFalse =>
      rw [digitsFrom?_of_isDigit hdigits] at hn
      exact ⟨Bool.not_eq_true _ ▸ hpadded, congrArg sign (Option.some.inj hn).symm⟩

theorem or_eq_some_of_resolve {i : Int} (hresolve : resolve text = .int i) :
    (unsigned? (Nat.pow 2 64) text.toList).or (negative? (Nat.pow 2 63) text.toList) =
      some i := by
  have hword : integerWord? text.toList = some (.int i) := by
    unfold resolve at hresolve
    grind
  unfold integerWord? at hword
  split at hword
  case h_1 heq =>
    cases hword
    exact heq
  case h_2 =>
    obtain ⟨value, -, hwide⟩ := Option.map_eq_some_iff.mp hword
    cases hwide

theorem boolWord?_of_resolve {value : Bool} (hresolve : resolve text = .bool value) :
    boolWord? text = some value := by
  unfold resolve at hresolve
  split at hresolve
  case isTrue => cases hresolve
  case isFalse =>
    split at hresolve
    case h_1 heq => cases hresolve; exact heq
    case h_2 => grind

/-! ### Digits around a point -/

theorem digitsFrom?_point {base start : Nat} :
    digitsFrom? base start (front ++ '.' :: more) = none := by
  induction front generalizing start with
  | nil => simp [digitsFrom?, digitIn?]
  | cons c front ih =>
      rw [List.cons_append, digitsFrom?]
      cases digitIn? base c with
      | none => rfl
      | some digit => exact ih

theorem natural?_point {base : Nat} : natural? base (front ++ '.' :: more) = none := by
  rw [natural?, digitsFrom?_point, ite_self]

theorem isPaddedNumber_point : isPaddedNumber (front ++ '.' :: more) = false := by
  have hpoint : '.' ∈ front ++ '.' :: more := List.mem_append_right _ List.mem_cons_self
  generalize front ++ '.' :: more = word at hpoint
  unfold isPaddedNumber
  dsimp only
  split
  next c rest heq =>
    -- Behind a zero, with a sign or without one, the point is not a digit.
    refine List.all_eq_false.mpr ⟨'.', ?_, by decide⟩
    split at heq
    next => simpa [heq] using hpoint
    next => simpa [heq] using hpoint
    next => simpa [heq] using hpoint
  next => rfl

theorem based?_point (hfront : ∀ c ∈ front, c.isDigit = true) :
    based? (front ++ '.' :: more) = none := by
  have hmark (mark : Char) (hletter : mark.isDigit = false) (hpoint : mark ≠ '.')
      (rest : List Char) : front ++ '.' :: more ≠ '0' :: mark :: rest := by
    rintro heq
    match front with
    | [] => cases heq
    | [_] => cases heq; exact hpoint rfl
    | c :: d :: front =>
        cases heq
        cases hletter.symm.trans (hfront mark (by simp))
  unfold based?
  split
  case h_1 heq => exact absurd heq (hmark 'x' rfl (by decide) _)
  case h_2 heq => exact absurd heq (hmark 'o' rfl (by decide) _)
  case h_3 heq => exact absurd heq (hmark 'b' rfl (by decide) _)
  case h_4 => rfl

section Leading

variable (hsome : front ≠ []) (hfront : ∀ c ∈ front, c.isDigit = true)

include hsome hfront

theorem head?_point_ne {c : Char} (hc : c.isDigit = false) :
    (front ++ '.' :: more).head? ≠ some c := by
  obtain ⟨d, rest, rfl⟩ := List.exists_cons_of_ne_nil hsome
  rintro ⟨⟩
  cases hc.symm.trans (hfront c List.mem_cons_self)

theorem unsigned?_point {bound : Nat} : unsigned? bound (front ++ '.' :: more) = none := by
  have hbased : based? (front ++ '.' :: more) = none := based?_point hfront
  have hplus : (front ++ '.' :: more).head? ≠ some '+' := head?_point_ne hsome hfront rfl
  unfold unsigned?
  split
  case h_1 heq => exact absurd (by rw [heq]; rfl) hplus
  case h_2 => simp [hbased, natural?_point]

/-- A point is in no integer. -/
theorem integerWord?_point : integerWord? (front ++ '.' :: more) = none := by
  have hminus : (front ++ '.' :: more).head? ≠ some '-' := head?_point_ne hsome hfront rfl
  simp only [integerWord?, unsigned?_point hsome hfront, negative?_eq_none hminus,
    Option.or_none, Option.map_none]

theorem floatWord?_point :
    floatWord? (front ++ '.' :: more) =
      (Binary64.readChars? (front ++ '.' :: more)).filter Binary64.isFinite := by
  obtain ⟨c, rest, rfl⟩ := List.exists_cons_of_ne_nil hsome
  have hne (mark : Char) (hmark : mark.isDigit = false) : c ≠ mark := by
    rintro rfl
    cases hmark.symm.trans (hfront c List.mem_cons_self)
  simp [floatWord?, hne '+' rfl, (hne '-' rfl).symm, (hne '.' rfl).symm]

/-- Digits around a point are the number that they say. -/
theorem resolve_point {number : Binary64} (htext : text.toList = front ++ '.' :: more)
    (hread : Binary64.readChars? text.toList = some number) (hfinite : number.isFinite = true) :
    resolve text = .float number := by
  have hne (word : String) (hhead : word.toList.head?.any Char.isDigit = false) :
      text ≠ word := by
    rintro rfl
    obtain ⟨c, rest, rfl⟩ := List.exists_cons_of_ne_nil hsome
    rw [htext, List.cons_append, List.head?_cons, Option.any_some,
      hfront c List.mem_cons_self] at hhead
    cases hhead
  have hnull : isNullWord text = false := by
    simp (disch := decide) [isNullWord, hne]
  have hbool : boolWord? text = none := by
    simp (disch := decide) [boolWord?, hne]
  rw [resolve, if_neg (by simp (disch := decide) [hne, hnull]), hbool]
  simp only
  rw [htext] at hread ⊢
  rw [integerWord?_point hsome hfront, isPaddedNumber_point, floatWord?_point hsome hfront, hread,
    Option.filter_some, hfinite]
  rfl

end Leading

end Resolution

theorem value?_of_read {s : PlainScalar} {value : Value} (hread : Codec.read s.text = .ok value) :
    (resolve s.content).value? s.content = some value :=
  s.readValue_text.symm.trans (congrArg Except.toOption hread)

theorem resolve_eq_int {s : PlainScalar} {i : Int} (hread : Codec.read s.text = .ok (.int i)) :
    resolve s.content = .int i := by
  have hvalue := value?_of_read hread
  cases hresolve : resolve s.content <;> rw [hresolve] at hvalue <;> cases hvalue
  rfl

/-- The reader of this library reads plain scalars. -/
theorem readsPlainScalars : Codec.ReadsPlainScalars where
  scalar s value hread := by
    have hvalue := value?_of_read hread
    cases hresolve : resolve s.content <;> rw [hresolve] at hvalue <;> cases hvalue <;> rfl
  string s text hread := by
    have hvalue := value?_of_read hread
    cases hresolve : resolve s.content <;> rw [hresolve] at hvalue <;> cases hvalue
    rfl
  bool s value hread := by
    have hvalue := value?_of_read hread
    cases hresolve : resolve s.content <;> rw [hresolve] at hvalue <;> cases hvalue
    exact boolWord?_of_resolve hresolve
  natural s value hread hdigits := by
    have hinteger := or_eq_some_of_resolve (resolve_eq_int hread)
    have hminus : s.content.toList.head? ≠ some '-' := by
      intro hhead
      cases hdigits '-' (List.mem_of_head? hhead)
    rw [negative?_eq_none hminus, Option.or_none, unsigned?_of_isDigit hdigits] at hinteger
    exact eq_of_read hdigits hinteger
  negative s value digits hread htext hdigits := by
    have hinteger := or_eq_some_of_resolve (resolve_eq_int hread)
    rw [htext, unsigned?_minus, Option.none_or, negative?_of_isDigit hdigits] at hinteger
    exact eq_of_read hdigits hinteger
  decimal s front more number htext hsome hfront _ _ hnumber hfinite := by
    have hvalue : (Codec.read s.text).toOption = some (.float number) := by
      refine s.readValue_text.trans ?_
      rw [resolve_point hsome hfront htext hnumber hfinite]
      rfl
    exact eq_ok_of_toOption hvalue

end BuildPipeline.Yaml
