import Mathlib.Data.List.Infix
import Mathlib.Data.List.TakeWhile
import BuildPipeline.Expression.Function
import BuildPipeline.Proofs.Expression.Spans

/-!
# Filling placeholders

`format` puts in one argument after another, each for every placeholder of it that the text has by
then.  `fillAtOnce` puts them all in at once: it looks at every character of the template and at no
character of an argument.

* A placeholder begins with a brace and has no other, so no two of them share a character:
  `occurrences_placeholder_append` counts them in a text from its start.
* `occurrences_le_fillAtOnce`: filling some arguments at once leaves the placeholders of every other
  argument in their places.  It may bring further ones, out of a value or out of a value and the
  characters around it.
* `replaceAll_fillAtOnce_iff`: replacing the placeholders of one more argument is filling it at
  once with those before it, exactly if these brought no placeholder of it.
* `format_fills_at_once` says so of all arguments; `format_fills_inserted_placeholder` is a call in
  which the first argument brings a placeholder of the second one.
-/

namespace BuildPipeline.Expression

open Text

/-! ## At once -/

/-- The value of the argument whose placeholder the text starts with, and what follows it. -/
def filling? (values : List (List Char)) (text : List Char) : Option (List Char × List Char) :=
  values.zipIdx.findSome? fun (value, index) =>
    (stripStart? (placeholder index) text).map fun after => (value, after)

theorem exists_of_filling? {values : List (List Char)} {text value after : List Char}
    (hfilling : filling? values text = some (value, after)) :
    ∃ index, values[index]? = some value ∧ text = placeholder index ++ after := by
  obtain ⟨⟨found, index⟩, hmem, hfound⟩ := List.exists_of_findSome?_eq_some hfilling
  obtain ⟨rest, hstrip, heq⟩ := Option.map_eq_some_iff.mp hfound
  obtain ⟨rfl, rfl⟩ := Prod.mk.inj heq
  exact ⟨index, List.mem_zipIdx_iff_getElem?.mp hmem, stripStart?_eq_some_iff.mp hstrip⟩

theorem filling?_length {values : List (List Char)} {text value after : List Char}
    (hfilling : filling? values text = some (value, after)) : after.length < text.length := by
  obtain ⟨index, -, rfl⟩ := exists_of_filling? hfilling
  simp [placeholder]
  omega

/-- Put every value in the place of its placeholders in the text. -/
def fillAtOnce (values : List (List Char)) (text : List Char) : List Char :=
  match text with
  | [] => []
  | c :: rest =>
    match _hfilling : filling? values (c :: rest) with
    | some (value, after) => value ++ fillAtOnce values after
    | none => c :: fillAtOnce values rest
termination_by text.length
decreasing_by
  · exact filling?_length _hfilling
  · simp

/-- In how many places a pattern stands in a text. -/
def occurrences (pattern text : List Char) : Nat :=
  text.tails.countP (startsWith pattern)

/-- Filling in the arguments before it brings no further placeholder of any argument. -/
def FillsCleanly (values : List (List Char)) (template : List Char) : Prop :=
  ∀ index < values.length,
    occurrences (placeholder index) (fillAtOnce (values.take index) template) =
      occurrences (placeholder index) template

instance (values : List (List Char)) (template : List Char) :
    Decidable (FillsCleanly values template) :=
  inferInstanceAs (Decidable (∀ index < values.length, _ = _))

/-! ## Placeholders -/

section Placeholders

variable {index other : Nat} {text rest value : List Char}

/-- No character behind the first one opens a placeholder. -/
theorem exists_placeholder_eq (index : Nat) :
    ∃ body, placeholder index = '\x7b' :: body ∧ '\x7b' ∉ body := by
  refine ⟨(toString index).toList ++ ['\x7d'], rfl, fun hmem => ?_⟩
  rw [Nat.toString_eq_repr, Nat.toList_repr] at hmem
  rcases List.mem_append.mp hmem with hdigit | hclosing
  · exact absurd (Nat.isDigit_of_mem_toDigits (by decide) (by decide) hdigit) (by decide)
  · exact absurd (List.mem_singleton.mp hclosing) (by decide)

/-- No placeholder is the start of another one. -/
theorem placeholder_prefix_iff :
    placeholder other <+: placeholder index ++ rest ↔ other = index := by
  constructor
  · rintro ⟨further, heq⟩
    have hdigits (number : Nat) (behind : List Char) :
        (Nat.toDigits 10 number ++ '\x7d' :: behind).takeWhile Char.isDigit =
          Nat.toDigits 10 number := by
      rw [List.takeWhile_append_of_pos fun c hmem =>
          Nat.isDigit_of_mem_toDigits (by decide) (by decide) hmem,
        List.takeWhile_cons_of_neg (by decide), List.append_nil]
    simp only [placeholder, Nat.toString_eq_repr, Nat.toList_repr, List.cons_append,
      List.append_assoc, List.nil_append, List.cons.injEq, true_and] at heq
    have hsame : Nat.toDigits 10 other = Nat.toDigits 10 index := by
      rw [← hdigits other further, ← hdigits index rest]
      exact congrArg (List.takeWhile Char.isDigit) heq
    calc
      other = Nat.ofDigitChars 10 (Nat.toDigits 10 other) 0 := Nat.ofDigitChars_ten_toDigits.symm
      _ = Nat.ofDigitChars 10 (Nat.toDigits 10 index) 0 := by rw [hsame]
      _ = index := Nat.ofDigitChars_ten_toDigits
  · rintro rfl
    exact List.prefix_append _ _

theorem not_prefix_of_ne {c : Char} (hc : c ≠ '\x7b') :
    ¬ placeholder index <+: c :: rest := by
  obtain ⟨body, hbody, -⟩ := exists_placeholder_eq index
  rw [hbody, List.cons_prefix_cons]
  exact fun hstart => hc hstart.1.symm

theorem filling?_eq_some_iff {values : List (List Char)} {after : List Char} :
    filling? values text = some (value, after) ↔
      ∃ index, values[index]? = some value ∧ text = placeholder index ++ after := by
  refine ⟨exists_of_filling?, ?_⟩
  rintro ⟨index, hvalue, rfl⟩
  have hsome : (filling? values (placeholder index ++ after)).isSome := by
    rw [filling?, List.findSome?_isSome_iff]
    refine ⟨(value, index), List.mem_zipIdx_iff_getElem?.mpr hvalue, ?_⟩
    simp [stripStart?_eq_some_iff.mpr rfl]
  -- What was found is of the same placeholder, since no other one starts the text.
  obtain ⟨⟨found, behind⟩, hfound⟩ := Option.isSome_iff_exists.mp hsome
  obtain ⟨other, hother, heq⟩ := exists_of_filling? hfound
  obtain rfl : other = index := placeholder_prefix_iff.mp ⟨behind, heq.symm⟩
  obtain rfl := List.append_cancel_left heq
  obtain rfl := Option.some.inj (hvalue.symm.trans hother)
  exact hfound

theorem filling?_eq_none_iff {values : List (List Char)} :
    filling? values text = none ↔ ∀ index < values.length, ¬ placeholder index <+: text := by
  rw [Option.eq_none_iff_forall_ne_some]
  constructor
  · rintro hnone index hindex ⟨after, rfl⟩
    exact hnone (values[index], after)
      (filling?_eq_some_iff.mpr ⟨index, List.getElem?_eq_getElem hindex, rfl⟩)
  · rintro hnone ⟨found, after⟩ hfound
    obtain ⟨index, hvalue, rfl⟩ := exists_of_filling? hfound
    exact hnone index (List.getElem?_eq_some_iff.mp hvalue).1 (List.prefix_append _ _)

/-! ## Counting placeholders -/

theorem occurrences_placeholder_nil : occurrences (placeholder index) [] = 0 := rfl

theorem occurrences_cons (pattern : List Char) (c : Char) :
    occurrences pattern (c :: rest) =
      occurrences pattern rest + if pattern <+: c :: rest then 1 else 0 := by
  simp [occurrences, List.countP_cons, startsWith_iff_prefix]

theorem occurrences_le_append (pattern value rest : List Char) :
    occurrences pattern rest ≤ occurrences pattern (value ++ rest) := by
  induction value with
  | nil => exact le_rfl
  | cons c value ih =>
      rw [List.cons_append, occurrences_cons]
      exact Nat.le_add_right_of_le ih

theorem occurrences_append_of_not_mem (hvalue : '\x7b' ∉ value) :
    occurrences (placeholder index) (value ++ rest) = occurrences (placeholder index) rest := by
  induction value with
  | nil => rfl
  | cons c value ih =>
      rw [List.mem_cons, not_or] at hvalue
      rw [List.cons_append, occurrences_cons, if_neg (not_prefix_of_ne (Ne.symm hvalue.1)),
        Nat.add_zero, ih hvalue.2]

theorem occurrences_placeholder_append :
    occurrences (placeholder index) (placeholder other ++ rest) =
      occurrences (placeholder index) rest + if index = other then 1 else 0 := by
  obtain ⟨body, hbody, hopen⟩ := exists_placeholder_eq other
  have hsame : placeholder index <+: placeholder other ++ rest ↔ index = other :=
    placeholder_prefix_iff
  rw [hbody, List.cons_append] at hsame ⊢
  rw [occurrences_cons, occurrences_append_of_not_mem hopen]
  simp only [hsame]

/-! ## Filling from the start of a text -/

section Filling

variable {values : List (List Char)} {after : List Char} {c : Char}

@[simp]
theorem fillAtOnce_nil : fillAtOnce values [] = [] := by
  rw [fillAtOnce]

theorem fillAtOnce_of_some (hfilling : filling? values text = some (value, after)) :
    fillAtOnce values text = value ++ fillAtOnce values after := by
  cases text with
  | nil => exact absurd (filling?_length hfilling) (Nat.not_lt_zero _)
  | cons c rest =>
      rw [fillAtOnce]
      split
      case h_1 found behind hfound =>
          obtain ⟨rfl, rfl⟩ := Prod.mk.inj (Option.some.inj (hfilling.symm.trans hfound))
          rfl
      case h_2 hnone => rw [hfilling] at hnone; cases hnone

theorem fillAtOnce_of_none (hfilling : filling? values (c :: rest) = none) :
    fillAtOnce values (c :: rest) = c :: fillAtOnce values rest := by
  rw [fillAtOnce]
  split
  case h_1 hsome => rw [hfilling] at hsome; cases hsome
  case h_2 => rfl

theorem fillAtOnce_append_of_not_mem {plain : List Char} (hplain : '\x7b' ∉ plain) :
    fillAtOnce values (plain ++ rest) = plain ++ fillAtOnce values rest := by
  induction plain with
  | nil => rfl
  | cons c plain ih =>
      rw [List.mem_cons, not_or] at hplain
      have hnone : filling? values (c :: (plain ++ rest)) = none :=
        filling?_eq_none_iff.mpr fun _ _ => not_prefix_of_ne (Ne.symm hplain.1)
      rw [List.cons_append, fillAtOnce_of_none hnone, ih hplain.2]
      rfl

/-- The placeholder of an argument that is not filled in stays. -/
theorem fillAtOnce_placeholder_append (hindex : values.length ≤ index) :
    fillAtOnce values (placeholder index ++ rest) =
      placeholder index ++ fillAtOnce values rest := by
  have hnone : filling? values (placeholder index ++ rest) = none := by
    refine filling?_eq_none_iff.mpr fun other hother hstart => ?_
    obtain rfl := placeholder_prefix_iff.mp hstart
    omega
  obtain ⟨body, hbody, hopen⟩ := exists_placeholder_eq index
  rw [hbody, List.cons_append] at hnone ⊢
  rw [fillAtOnce_of_none hnone, fillAtOnce_append_of_not_mem hopen]
  rfl

/-- Without arguments there is nothing to fill in. -/
theorem fillAtOnce_no_values (text : List Char) : fillAtOnce [] text = text := by
  induction text with
  | nil => exact fillAtOnce_nil
  | cons c rest ih => rw [fillAtOnce_of_none rfl, ih]

end Filling

/-! ## Replacing from the start of a text -/

theorem replaceFrom_length (pattern replacement skipped text : List Char) :
    replaceFrom pattern replacement skipped.length (skipped ++ text) =
      replaceAll pattern replacement text := by
  induction skipped with
  | nil => rfl
  | cons c skipped ih => exact ih

theorem replaceAll_placeholder_append (index : Nat) (value rest : List Char) :
    replaceAll (placeholder index) value (placeholder index ++ rest) =
      value ++ replaceAll (placeholder index) value rest := by
  obtain ⟨body, hbody, -⟩ := exists_placeholder_eq index
  have hstarts := startsWith_iff_prefix.mpr (List.prefix_append (placeholder index) rest)
  rw [hbody, List.cons_append] at hstarts ⊢
  rw [replaceAll, replaceFrom, if_pos hstarts, List.length_cons, Nat.add_sub_cancel,
    replaceFrom_length]

theorem replaceAll_cons_of_not_start {pattern : List Char} {c : Char}
    (hstart : ¬ pattern <+: c :: rest) :
    replaceAll pattern value (c :: rest) = c :: replaceAll pattern value rest := by
  rw [← startsWith_iff_prefix] at hstart
  rw [replaceAll, replaceFrom, if_neg hstart, replaceAll]

/-- A front in which no pattern begins stays as it is. -/
theorem replaceAll_append_of_occurrences_eq {pattern front : List Char}
    (hfront : occurrences pattern (front ++ rest) = occurrences pattern rest) :
    replaceAll pattern value (front ++ rest) = front ++ replaceAll pattern value rest := by
  induction front with
  | nil => rfl
  | cons c front ih =>
      have hle := occurrences_le_append pattern front rest
      rw [List.cons_append, occurrences_cons] at hfront
      split at hfront
      case isTrue => omega
      case isFalse hstart =>
          rw [List.cons_append, replaceAll_cons_of_not_start hstart, ih hfront, List.cons_append]

end Placeholders

/-! ## One more argument -/

section OneMore

variable {front : List (List Char)} {value after : List Char}

/-- Induction over a text along the placeholders of the first `count` arguments and of the next one:
what stands at its start is a placeholder of one of those, the next one, or neither. -/
theorem filling_induction {motive : List Char → Prop} (front : List (List Char))
    (nil : motive [])
    (filled : ∀ found text after, filling? front text = some (found, after) → motive after →
      motive text)
    (next : ∀ after, motive after → motive (placeholder front.length ++ after))
    (plain : ∀ c rest, filling? front (c :: rest) = none →
      ¬ placeholder front.length <+: c :: rest → motive rest → motive (c :: rest))
    (text : List Char) : motive text := by
  induction hlength : text.length using Nat.strong_induction_on generalizing text with
  | _ length ih =>
      subst hlength
      cases hfilling : filling? front text with
      | some found => exact filled _ _ _ hfilling (ih _ (filling?_length hfilling) _ rfl)
      | none =>
          cases text with
          | nil => exact nil
          | cons c rest =>
              by_cases hnext : placeholder front.length <+: c :: rest
              · obtain ⟨after, heq⟩ := hnext
                rw [← heq] at ih ⊢
                refine next after (ih _ ?_ _ rfl)
                simp [placeholder]
                omega
              · exact plain c rest hfilling hnext (ih _ (by simp) _ rfl)

theorem filling?_concat_of_some {found : List Char} {text : List Char}
    (hfilling : filling? front text = some (found, after)) :
    filling? (front ++ [value]) text = some (found, after) := by
  obtain ⟨index, hvalue, htext⟩ := filling?_eq_some_iff.mp hfilling
  refine filling?_eq_some_iff.mpr ⟨index, ?_, htext⟩
  rw [List.getElem?_append_left (List.getElem?_eq_some_iff.mp hvalue).1, hvalue]

theorem filling?_concat_placeholder :
    filling? (front ++ [value]) (placeholder front.length ++ after) = some (value, after) :=
  filling?_eq_some_iff.mpr ⟨front.length, List.getElem?_concat_length, rfl⟩

theorem filling?_concat_of_none {text : List Char} (hfilling : filling? front text = none)
    (hnext : ¬ placeholder front.length <+: text) : filling? (front ++ [value]) text = none := by
  rw [filling?_eq_none_iff] at hfilling ⊢
  intro index hindex
  rw [List.length_append, List.length_singleton, Nat.lt_succ_iff_lt_or_eq] at hindex
  rcases hindex with hindex | rfl
  · exact hfilling index hindex
  · exact hnext

/-- The first character of a placeholder is no part of a placeholder in front of it. -/
theorem occurrences_of_filling? {found text : List Char}
    (hfilling : filling? front text = some (found, after)) :
    occurrences (placeholder front.length) text =
      occurrences (placeholder front.length) after := by
  obtain ⟨index, hvalue, rfl⟩ := filling?_eq_some_iff.mp hfilling
  have hindex := (List.getElem?_eq_some_iff.mp hvalue).1
  rw [occurrences_placeholder_append, if_neg (by omega), Nat.add_zero]

/-- Filling the arguments before the next one leaves its placeholders in their places. -/
theorem occurrences_le_fillAtOnce (front : List (List Char)) (text : List Char) :
    occurrences (placeholder front.length) text ≤
      occurrences (placeholder front.length) (fillAtOnce front text) := by
  induction text using filling_induction front with
  | nil => simp
  | filled found text after hfilling ih =>
      rw [fillAtOnce_of_some hfilling, occurrences_of_filling? hfilling]
      exact ih.trans (occurrences_le_append _ _ _)
  | next after ih =>
      rw [fillAtOnce_placeholder_append le_rfl, occurrences_placeholder_append,
        occurrences_placeholder_append]
      omega
  | plain c rest hfilling hnext ih =>
      rw [fillAtOnce_of_none hfilling, occurrences_cons, occurrences_cons, if_neg hnext]
      omega

/-- If those before it brought no placeholder of it, the next argument is filled in at once with
them. -/
theorem replaceAll_fillAtOnce {text : List Char}
    (hclean : occurrences (placeholder front.length) (fillAtOnce front text) =
      occurrences (placeholder front.length) text) :
    replaceAll (placeholder front.length) value (fillAtOnce front text) =
      fillAtOnce (front ++ [value]) text := by
  -- Along the template, not along the filled text: a placeholder that the values bring would show
  -- in the count, so each of those that are replaced stands in the template.
  induction text using filling_induction front with
  | nil => simp [replaceAll, replaceFrom]
  | filled found text after hfilling ih =>
      rw [fillAtOnce_of_some hfilling, occurrences_of_filling? hfilling] at hclean
      -- The count grows neither in the value nor behind it.
      have hvalue := occurrences_le_append (placeholder front.length) found
        (fillAtOnce front after)
      have hbehind := occurrences_le_fillAtOnce front after
      rw [fillAtOnce_of_some hfilling, fillAtOnce_of_some (filling?_concat_of_some hfilling),
        replaceAll_append_of_occurrences_eq (by omega), ih (by omega)]
  | next after ih =>
      rw [fillAtOnce_placeholder_append le_rfl, occurrences_placeholder_append,
        occurrences_placeholder_append, Nat.add_right_cancel_iff] at hclean
      rw [fillAtOnce_placeholder_append le_rfl, replaceAll_placeholder_append, ih hclean,
        fillAtOnce_of_some filling?_concat_placeholder]
  | plain c rest hfilling hnext ih =>
      have hbehind := occurrences_le_fillAtOnce front rest
      rw [fillAtOnce_of_none hfilling, occurrences_cons, occurrences_cons, if_neg hnext] at hclean
      split at hclean
      case isTrue => omega
      case isFalse hstart =>
          rw [fillAtOnce_of_none hfilling, replaceAll_cons_of_not_start hstart, ih hclean,
            fillAtOnce_of_none (filling?_concat_of_none hfilling hnext)]

end OneMore

/-! ## Telling texts apart -/

/-- How far two texts are apart, where every place in which the pattern stands in the one and the
value in the other brings them apart by the same step. -/
structure Gap (pattern value : List Char) where
  between : List Char → List Char → Int
  step : Int
  step_ne_zero : step ≠ 0
  between_self : ∀ text, between text text = 0
  between_append : ∀ start left right,
    between (start ++ left) (start ++ right) = between left right
  between_replaced : ∀ left right,
    between (pattern ++ left) (value ++ right) = between left right + step

/-- The difference of their lengths is such a gap or, where the pattern and the value are of the
same length, the number of places in which they differ. -/
theorem nonempty_gap {pattern value : List Char} (hne : value ≠ pattern) :
    Nonempty (Gap pattern value) := by
  by_cases hlength : pattern.length = value.length
  · let between (left right : List Char) : Int :=
      (left.zip right).countP fun (c, d) => c != d
    have hself (text : List Char) : between text text = 0 := by
      simp [between, List.countP_eq_zero, List.zip, List.zipWith_self]
    have happend {start start' : List Char} (hstart : start.length = start'.length)
        (left right : List Char) :
        between (start ++ left) (start' ++ right) = between left right + between start start' := by
      simp only [between, List.zip_append hstart, List.countP_append]
      omega
    have hstep : between pattern value ≠ 0 := by
      intro hzero
      have hsame : ∀ pair ∈ pattern.zip value, pair.1 = pair.2 := by
        simpa [between, List.countP_eq_zero] using hzero
      refine hne ?_
      calc
        value = (pattern.zip value).map Prod.snd := (List.map_snd_zip hlength.ge).symm
        _ = (pattern.zip value).map Prod.fst :=
          List.map_congr_left fun pair hmem => (hsame pair hmem).symm
        _ = pattern := List.map_fst_zip hlength.le
    exact ⟨between, _, hstep, hself, fun start left right => by rw [happend rfl, hself]; omega,
      happend hlength⟩
  · let between (left right : List Char) : Int := right.length - left.length
    have hself (text : List Char) : between text text = 0 := Int.sub_self _
    have happend (start start' left right : List Char) :
        between (start ++ left) (start' ++ right) = between left right + between start start' := by
      simp only [between, List.length_append]
      omega
    have hstep : between pattern value ≠ 0 := by
      simp only [between]
      omega
    exact ⟨between, _, hstep, hself, fun start left right => by rw [happend, hself]; omega,
      happend pattern value⟩

namespace Gap

variable {front : List (List Char)} {value : List Char}

theorem between_cons (gap : Gap (placeholder front.length) value) (c : Char)
    (left right : List Char) : gap.between (c :: left) (c :: right) = gap.between left right :=
  gap.between_append [c] left right

/-- Replacing a placeholder takes one step for each of them in the text. -/
theorem between_replaceAll (gap : Gap (placeholder front.length) value) (text : List Char) :
    gap.between text (replaceAll (placeholder front.length) value text) =
      occurrences (placeholder front.length) text * gap.step := by
  induction text using filling_induction front with
  | nil => simpa [replaceAll, replaceFrom, occurrences_placeholder_nil] using gap.between_self []
  | filled found text after hfilling ih =>
      have hcount := occurrences_of_filling? hfilling
      obtain ⟨index, -, rfl⟩ := filling?_eq_some_iff.mp hfilling
      rw [replaceAll_append_of_occurrences_eq hcount, gap.between_append, ih, hcount]
  | next after ih =>
      rw [replaceAll_placeholder_append, gap.between_replaced, ih, occurrences_placeholder_append,
        if_pos rfl, Int.natCast_succ, Int.add_mul, Int.one_mul]
  | plain c rest hfilling hnext ih =>
      rw [replaceAll_cons_of_not_start hnext, gap.between_cons, ih, occurrences_cons,
        if_neg hnext, Nat.add_zero]

/-- Filling one more argument at once takes one step for each of its placeholders in the text. -/
theorem between_fillAtOnce (gap : Gap (placeholder front.length) value) (text : List Char) :
    gap.between (fillAtOnce front text) (fillAtOnce (front ++ [value]) text) =
      occurrences (placeholder front.length) text * gap.step := by
  induction text using filling_induction front with
  | nil => simpa [occurrences_placeholder_nil] using gap.between_self []
  | filled found text after hfilling ih =>
      rw [fillAtOnce_of_some hfilling, fillAtOnce_of_some (filling?_concat_of_some hfilling),
        gap.between_append, ih, occurrences_of_filling? hfilling]
  | next after ih =>
      rw [fillAtOnce_placeholder_append le_rfl, fillAtOnce_of_some filling?_concat_placeholder,
        gap.between_replaced, ih, occurrences_placeholder_append, if_pos rfl, Int.natCast_succ,
        Int.add_mul, Int.one_mul]
  | plain c rest hfilling hnext ih =>
      rw [fillAtOnce_of_none hfilling, fillAtOnce_of_none (filling?_concat_of_none hfilling hnext),
        gap.between_cons, ih, occurrences_cons, if_neg hnext, Nat.add_zero]

end Gap

/-- Replacing the placeholders of the next argument is filling it in at once with those before it,
exactly if these brought no placeholder of it. -/
theorem replaceAll_fillAtOnce_iff {front : List (List Char)} {value text : List Char}
    (hne : value ≠ placeholder front.length) :
    replaceAll (placeholder front.length) value (fillAtOnce front text) =
        fillAtOnce (front ++ [value]) text ↔
      occurrences (placeholder front.length) (fillAtOnce front text) =
        occurrences (placeholder front.length) text := by
  refine ⟨fun heq => ?_, replaceAll_fillAtOnce⟩
  obtain ⟨gap⟩ := nonempty_gap hne
  have hfilled := gap.between_fillAtOnce text
  rw [← heq, gap.between_replaceAll] at hfilled
  exact_mod_cast Int.eq_of_mul_eq_mul_right gap.step_ne_zero hfilled

/-! ## All arguments -/

/-- The texts of the arguments. -/
def argumentTexts (arguments : List Value) : List (List Char) :=
  arguments.map fun argument => argument.asText.toList

theorem length_argumentTexts (arguments : List Value) :
    (argumentTexts arguments).length = arguments.length :=
  List.length_map _

theorem argumentTexts_concat (arguments : List Value) (last : Value) :
    argumentTexts (arguments ++ [last]) = argumentTexts arguments ++ [last.asText.toList] :=
  List.map_append

theorem fillPlaceholders_append (index : Nat) (text : List Char) (front back : List Value) :
    fillPlaceholders index text (front ++ back) =
      fillPlaceholders (index + front.length) (fillPlaceholders index text front) back := by
  induction front generalizing index text with
  | nil => rfl
  | cons argument front ih =>
      rw [List.cons_append, fillPlaceholders, ih, fillPlaceholders, List.length_cons,
        Nat.add_assoc, Nat.add_comm 1]

theorem fillPlaceholders_concat (text : List Char) (front : List Value) (last : Value) :
    fillPlaceholders 0 text (front ++ [last]) =
      replaceAll (placeholder (argumentTexts front).length) last.asText.toList
        (fillPlaceholders 0 text front) := by
  rw [fillPlaceholders_append, Nat.zero_add, length_argumentTexts]
  rfl

theorem fillsCleanly_concat {values : List (List Char)} {last template : List Char} :
    FillsCleanly (values ++ [last]) template ↔
      FillsCleanly values template ∧
        occurrences (placeholder values.length) (fillAtOnce values template) =
          occurrences (placeholder values.length) template := by
  have htake {index : Nat} (hindex : index ≤ values.length) :
      (values ++ [last]).take index = values.take index := List.take_append_of_le_length hindex
  simp only [FillsCleanly, List.length_append, List.length_singleton, Nat.lt_succ_iff_lt_or_eq,
    or_imp, forall_and, forall_eq]
  rw [htake le_rfl, List.take_length]
  refine and_congr_left' (forall₂_congr fun index hindex => ?_)
  rw [htake hindex.le]

/-- Arguments that fill cleanly are filled in as if at once. -/
theorem fillPlaceholders_eq {arguments : List Value} {template : List Char}
    (hclean : FillsCleanly (argumentTexts arguments) template) :
    fillPlaceholders 0 template arguments = fillAtOnce (argumentTexts arguments) template := by
  induction arguments using List.reverseRecOn with
  | nil => exact (fillAtOnce_no_values template).symm
  | append_singleton front last ih =>
      rw [argumentTexts_concat, fillsCleanly_concat] at hclean
      rw [fillPlaceholders_concat, ih hclean.1, argumentTexts_concat,
        replaceAll_fillAtOnce hclean.2]

/-- The last argument is filled in as if at once with those before it exactly if these brought no
placeholder of it. -/
theorem fillPlaceholders_concat_eq_iff {front : List Value} {last : Value} {template : List Char}
    (hfront : FillsCleanly (argumentTexts front) template)
    (hlast : last.asText.toList ≠ placeholder front.length) :
    fillPlaceholders 0 template (front ++ [last]) =
        fillAtOnce (argumentTexts (front ++ [last])) template ↔
      FillsCleanly (argumentTexts (front ++ [last])) template := by
  rw [fillPlaceholders_concat, fillPlaceholders_eq hfront, argumentTexts_concat,
    fillsCleanly_concat, replaceAll_fillAtOnce_iff (by rwa [length_argumentTexts])]
  exact (and_iff_right hfront).symm

/-- Values without an opening brace fill cleanly where each one in the template opens a placeholder
of one of them. -/
theorem fillsCleanly_of_no_other_brace {values : List (List Char)} {template : List Char}
    (hvalues : ∀ value ∈ values, '\x7b' ∉ value)
    (hopen : ∀ rest, '\x7b' :: rest <:+ template → (filling? values ('\x7b' :: rest)).isSome) :
    FillsCleanly values template := by
  intro index hindex
  obtain ⟨front, hfront, hlength⟩ : ∃ front, values.take index = front ∧ front.length = index :=
    ⟨_, rfl, List.length_take_of_le hindex.le⟩
  rw [hfront, ← hlength]
  induction template using filling_induction front with
  | nil => simp
  | filled found text after hfilling ih =>
      obtain ⟨other, hfound, htext⟩ := filling?_eq_some_iff.mp hfilling
      have hplain : '\x7b' ∉ found :=
        hvalues found (List.mem_of_mem_take (hfront ▸ List.mem_of_getElem? hfound))
      have hbehind := ih fun rest hsuffix =>
        hopen rest (hsuffix.trans (htext ▸ List.suffix_append _ _))
      rw [fillAtOnce_of_some hfilling, occurrences_append_of_not_mem hplain, hbehind,
        occurrences_of_filling? hfilling]
  | next after ih =>
      have hbehind := ih fun rest hsuffix => hopen rest (hsuffix.trans (List.suffix_append _ _))
      rw [fillAtOnce_placeholder_append le_rfl, occurrences_placeholder_append,
        occurrences_placeholder_append, hbehind]
  | plain c rest hfilling hnext ih =>
      have hbehind := ih fun rest hsuffix => hopen rest (hsuffix.trans (List.suffix_cons _ _))
      have hstays : ¬ placeholder front.length <+: c :: fillAtOnce front rest := by
        by_cases hc : c = '\x7b'
        · -- The brace opens the placeholder of a later argument, and so it does when those before
          -- are filled in.
          subst hc
          obtain ⟨⟨found, after⟩, hfound⟩ :=
            Option.isSome_iff_exists.mp (hopen rest List.suffix_rfl)
          obtain ⟨other, -, htext⟩ := filling?_eq_some_iff.mp hfound
          have hlater : front.length ≤ other := by
            by_contra hbefore
            exact filling?_eq_none_iff.mp hfilling other (by omega) ⟨after, htext.symm⟩
          rw [← fillAtOnce_of_none hfilling, htext, fillAtOnce_placeholder_append hlater,
            placeholder_prefix_iff]
          rintro rfl
          exact hnext ⟨after, htext.symm⟩
        · exact not_prefix_of_ne hc
      rw [fillAtOnce_of_none hfilling, occurrences_cons, occurrences_cons, if_neg hnext,
        if_neg hstays, hbehind]

theorem callFunction_format (context : Context) (template : Value) (arguments : List Value) :
    callFunction context "format" (template :: arguments) =
      .ok (.string (String.ofList (fillPlaceholders 0 template.asText.toList arguments))) := by
  have hname : lower "format" = "format" := by decide
  unfold callFunction
  simp only [hname, formatted]

/-- The template with all its placeholders filled in at once. -/
def formattedAtOnce (template : Value) (arguments : List Value) : String :=
  String.ofList (fillAtOnce (argumentTexts arguments) template.asText.toList)

/-- The text of a call of `format` is the template with all placeholders filled in at once if the
arguments fill cleanly, as values without an opening brace do in a template that has none but those
of placeholders.  Where all arguments but the last one fill cleanly and the last one is not its own
placeholder, the texts agree only then. -/
theorem format_fills_at_once (context : Context) (template : Value) (arguments : List Value) :
    ∃ result, callFunction context "format" (template :: arguments) = .ok (.string result) ∧
      (FillsCleanly (argumentTexts arguments) template.asText.toList →
        result = formattedAtOnce template arguments) ∧
      (∀ front last, arguments = front ++ [last] →
        FillsCleanly (argumentTexts front) template.asText.toList →
        last.asText.toList ≠ placeholder front.length →
        (result = formattedAtOnce template arguments ↔
          FillsCleanly (argumentTexts arguments) template.asText.toList)) ∧
      ((∀ argument ∈ arguments, '\x7b' ∉ argument.asText.toList) →
        (∀ rest, '\x7b' :: rest <:+ template.asText.toList →
          (filling? (argumentTexts arguments) ('\x7b' :: rest)).isSome) →
        FillsCleanly (argumentTexts arguments) template.asText.toList) := by
  refine ⟨_, callFunction_format context template arguments, fun hclean => ?_, ?_,
    fun hvalues hopen => ?_⟩
  · rw [fillPlaceholders_eq hclean, formattedAtOnce]
  · rintro front last rfl hfront hlast
    rw [formattedAtOnce, String.ofList_inj]
    exact fillPlaceholders_concat_eq_iff hfront hlast
  · refine fillsCleanly_of_no_other_brace (fun value hmem => ?_) hopen
    obtain ⟨argument, hargument, rfl⟩ := List.mem_map.mp hmem
    exact hvalues argument hargument

/-- A package name and a number fill cleanly. -/
theorem format_fills_at_once_package :
    FillsCleanly (argumentTexts [.string "pkg", .number (.ofNat 2)]) "\x7b0\x7d-\x7b1\x7d".toList ∧
      callFunction {} "format"
          [.string "\x7b0\x7d-\x7b1\x7d", .string "pkg", .number (.ofNat 2)] =
        .ok (.string "pkg-2") := by
  have hclean : FillsCleanly (argumentTexts [.string "pkg", .number (.ofNat 2)])
      "\x7b0\x7d-\x7b1\x7d".toList := by decide +kernel
  obtain ⟨result, hresult, hfilled, -⟩ := format_fills_at_once {} (.string "\x7b0\x7d-\x7b1\x7d")
    [.string "pkg", .number (.ofNat 2)]
  have htext : formattedAtOnce (.string "\x7b0\x7d-\x7b1\x7d")
      [.string "pkg", .number (.ofNat 2)] = "pkg-2" := by decide +kernel
  rw [hfilled hclean, htext] at hresult
  exact ⟨hclean, hresult⟩

/-- In the first call the text of an argument is scanned for the placeholder of the next one.  In
the second one no argument has a brace: a placeholder comes of the template's outer braces and the
text of an argument between them. -/
theorem format_fills_inserted_placeholder :
    callFunction {} "format"
        [.string "\x7b0\x7d \x7b1\x7d", .string "\x7b1\x7d", .string "x"] =
        .ok (.string "x x") ∧
      formattedAtOnce (.string "\x7b0\x7d \x7b1\x7d") [.string "\x7b1\x7d", .string "x"] =
        "\x7b1\x7d x" ∧
      callFunction {} "format"
        [.string "\x7b\x7b0\x7d\x7d", .number (.ofNat 1), .string "x"] = .ok (.string "x") ∧
      formattedAtOnce (.string "\x7b\x7b0\x7d\x7d") [.number (.ofNat 1), .string "x"] =
        "\x7b1\x7d" := by
  simp only [callFunction_format, Except.ok.injEq, Value.string.injEq]
  decide +kernel

end BuildPipeline.Expression
