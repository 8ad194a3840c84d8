import BuildPipeline.Proofs.Expression.Spans
import BuildPipeline.Proofs.Template.Inclusion

/-!
# Two ways to fill in a text

A text that is a value is first cut into spans, and only if one of them is an expansion span are the
openings of expansion spans looked for and their expressions filled in.  A text that is a key is
filled in without the first look.  The two looks differ: cutting into spans passes over a runtime
span or a variable span as a whole, filling in looks inside it.

* `interpolateChars_of_not_mark` and `interpolateChars_expansionMark` are the two steps of filling
  in.  `interpolateChars_enclosed` copies a span that encloses no opening, and
  `interpolateChars_eq_self` follows a text from span to span.
* `interpolateChars_of_sole` fills in a text that is one expansion span between blanks.
* `texts_evaluate_as_interpolated` compares the two.  They agree on a text with an expansion span;
  on a text without one they agree unless some span encloses the opening of an expansion, and then
  the value keeps what filling in would have replaced, as `enclosed_expansion_is_kept` shows.
-/

namespace BuildPipeline.Template

open Expression Text

namespace Scope

variable {scope : Scope}

/-! ## One character, or one span -/

@[simp]
theorem interpolateChars_nil : scope.interpolateChars [] = .ok [] := by
  rw [interpolateChars]

theorem interpolateChars_of_not_mark {c : Char} {rest : List Char}
    (hmark : ¬ expansionMark <+: c :: rest) :
    scope.interpolateChars (c :: rest) = (scope.interpolateChars rest).map (c :: ·) := by
  have hstrip : stripStart? expansionMark (c :: rest) = none := by
    refine Option.eq_none_iff_forall_ne_some.mpr fun body hbody => hmark ?_
    exact ⟨body, (stripStart?_eq_some_iff.mp hbody).symm⟩
  rw [interpolateChars]
  split
  case h_1 =>
      cases scope.interpolateChars rest <;> rfl
  case h_2 body hbody =>
      rw [expansionMark] at hstrip
      rw [hstrip] at hbody
      cases hbody

/-- At the opening of an expansion span its expression is filled in; behind an opening that is never
closed everything stays. -/
theorem interpolateChars_expansionMark (span : List Char) :
    scope.interpolateChars (expansionMark ++ span) =
      match closeBraces? false span with
      | none => .ok (expansionMark ++ span)
      | some (body, after) =>
        scope.eval (trimmedBody body) >>= fun value =>
          (scope.interpolateChars after).map (value.asText.toList ++ ·) := by
  have hstrip : stripStart? expansionMark (expansionMark ++ span) = some span :=
    stripStart?_eq_some_iff.mpr rfl
  change scope.interpolateChars ('$' :: ('\x7b' :: '\x7b' :: span)) = _
  rw [interpolateChars]
  split
  case h_1 hnone => cases hnone.symm.trans hstrip
  case h_2 found hfound =>
      cases hfound.symm.trans hstrip
      split
      case h_1 hunclosed => rw [hunclosed]; rfl
      case h_2 body after hclose =>
          rw [hclose]
          dsimp only
          cases scope.eval (trimmedBody body) with
          | error error => rfl
          | ok value => cases scope.interpolateChars after <;> rfl

/-! ## What is copied -/

theorem interpolateChars_append_of_not_dollar (scope : Scope) {front : List Char}
    (rest : List Char) (hfront : ∀ c ∈ front, c ≠ '$') :
    scope.interpolateChars (front ++ rest) = (scope.interpolateChars rest).map (front ++ ·) := by
  induction front with
  | nil =>
      rw [List.nil_append]
      cases scope.interpolateChars rest <;> rfl
  | cons c front ih =>
      obtain ⟨hc, hlater⟩ := List.forall_mem_cons.mp hfront
      have hmark : ¬ expansionMark <+: c :: (front ++ rest) := fun hstarts =>
        hc (List.cons_prefix_cons.mp hstarts).1.symm
      rw [List.cons_append, interpolateChars_of_not_mark hmark, ih hlater]
      cases scope.interpolateChars rest <;> rfl

/-- The two characters that open a span of another kind make no opening of an expansion span. -/
theorem not_expansionMark_infix_bracket {opening : Char} {body : List Char}
    (hbody : ¬ expansionMark <:+: body) (hbrace : opening ≠ '\x7b') (hdollar : opening ≠ '$') :
    ¬ expansionMark <:+: '$' :: opening :: body := by
  intro hfound
  rcases List.infix_cons_iff.mp hfound with hfirst | hlater
  · exact hbrace (List.cons_prefix_cons.mp (List.cons_prefix_cons.mp hfirst).2).1.symm
  · rcases List.infix_cons_iff.mp hlater with hsecond | hinner
    · exact hdollar (List.cons_prefix_cons.mp hsecond).1.symm
    · exact hbody hinner

/-- An opening does not begin in a stretch without one and end behind a character it does not hold.
-/
theorem not_expansionMark_prefix {front rest : List Char} {last : Char}
    (hfront : ¬ expansionMark <:+: front) (hlast : last ∉ expansionMark) :
    ¬ expansionMark <+: front ++ last :: rest := by
  intro hmark
  have hstretch : front ++ [last] <+: front ++ last :: rest := ⟨rest, by simp⟩
  rcases List.prefix_or_prefix_of_prefix hmark hstretch with hinside | hover
  · rcases List.prefix_concat_iff.mp hinside with heq | hbefore
    · exact hlast (heq ▸ by simp)
    · exact hfront hbefore.isInfix
  · exact hlast (hover.subset (by simp))

theorem interpolateChars_enclosed (scope : Scope) {front : List Char} {last : Char}
    (rest : List Char) (hfront : ¬ expansionMark <:+: front) (hlast : last ∉ expansionMark) :
    scope.interpolateChars (front ++ last :: rest) =
      (scope.interpolateChars rest).map (front ++ last :: ·) := by
  induction front with
  | nil =>
      have hmark : ¬ expansionMark <+: [] ++ last :: rest := not_expansionMark_prefix hfront hlast
      rw [List.nil_append, interpolateChars_of_not_mark hmark]
      rfl
  | cons c front ih =>
      have hmark : ¬ expansionMark <+: c :: front ++ last :: rest :=
        not_expansionMark_prefix hfront hlast
      have hlater : ¬ expansionMark <:+: front := fun hfound => hfront (List.infix_cons hfound)
      rw [List.cons_append] at hmark ⊢
      rw [interpolateChars_of_not_mark hmark, ih hlater]
      cases scope.interpolateChars rest <;> rfl

/-- A text without expansion spans is copied, if no other span encloses the opening of one. -/
theorem interpolateChars_eq_self {text : List Char}
    (hplain : (segmentsOf text).any Segment.isExpansion = false)
    (hopenings : (segmentsOf text).any Segment.enclosesMark = false) :
    scope.interpolateChars text = .ok text := by
  -- Along the scanner, not along filling in: the spans that it passes over are the ones in which an
  -- opening would be found.
  induction text using segmentsOf.induct with
  | case1 => exact interpolateChars_nil
  | case2 c rest segment after hopen ih =>
      rw [segmentsOf_of_open hopen, List.any_cons, Bool.or_eq_false_iff] at hplain hopenings
      rcases openSpan?_cases hopen with
        ⟨_, _, -, -, rfl⟩ | ⟨opening, closing, body, htext, hkind⟩
      · cases hplain.1
      · have hspan : ¬ expansionMark <:+: '$' :: opening :: body ∧ closing ∉ expansionMark := by
          rcases hkind with ⟨rfl, rfl, rfl⟩ | ⟨rfl, rfl, rfl⟩ <;>
            exact ⟨not_expansionMark_infix_bracket
              (not_infix_of_not_occursIn_trimmedBody hopenings.1) (by decide) (by decide),
              by decide⟩
        have hcopied := interpolateChars_enclosed scope after hspan.1 hspan.2
        rw [ih hplain.2 hopenings.2] at hcopied
        rw [htext]
        exact hcopied
  | case3 c rest hopen ih =>
      rw [segmentsOf_of_plain hopen, any_pushPlain c _ fun _ => rfl] at hplain hopenings
      by_cases hmark : expansionMark <+: c :: rest
      · -- No span starts here, so the opening is never closed and filling in ends.
        obtain ⟨span, hspan⟩ := hmark
        rw [← hspan, openSpan?_expansionMark, Option.map_eq_none_iff] at hopen
        rw [← hspan, interpolateChars_expansionMark, hopen]
      · rw [interpolateChars_of_not_mark hmark, ih hplain hopenings]
        rfl

/-- In a sole expansion span the blanks around it are copied. -/
theorem interpolateChars_of_sole (scope : Scope) {text span body : List Char}
    (hsole : IsSoleSpan text span body) :
    ∃ before after, AllBlank before ∧ AllBlank after ∧
      scope.interpolateChars text =
        (scope.eval (trimmedBody body)).map fun value =>
          before ++ value.asText.toList ++ after := by
  obtain ⟨⟨before, after, hbefore, hafter, htext⟩, hclose⟩ := hsole
  refine ⟨before, after, hbefore, hafter, ?_⟩
  have hcopied : scope.interpolateChars after = .ok after := by
    have hend := interpolateChars_append_of_not_dollar scope [] hafter.ne_dollar
    rw [List.append_nil, interpolateChars_nil] at hend
    exact hend.trans (by simp [Except.map])
  rw [htext, List.append_assoc, List.append_assoc,
    interpolateChars_append_of_not_dollar scope _ hbefore.ne_dollar,
    interpolateChars_expansionMark, closeBraces?_append after hclose]
  dsimp only
  rw [List.nil_append, hcopied]
  cases scope.eval (trimmedBody body) <;> simp [Except.map, bind, Except.bind]

/-! ## The two ways compared -/

theorem interpolate_eq_ok_iff {text result : String} :
    scope.interpolate text = .ok result ↔
      scope.interpolateChars text.toList = .ok result.toList := by
  unfold interpolate
  cases scope.interpolateChars text.toList with
  | error error => simp [bind, Except.bind]
  | ok chars =>
      simp only [bind, Except.bind, pure, Except.pure, Except.ok.injEq]
      exact ⟨fun heq => heq ▸ String.toList_ofList.symm, fun heq => heq ▸ String.ofList_toList⟩

theorem evaluateText_of_sole {text expression : String}
    (hsole : soleExpansion? text = some expression) :
    scope.evaluateText text = (scope.eval expression).map Value.toYaml := by
  unfold evaluateText
  rw [if_pos (hasExpansion_of_soleExpansion? hsole), hsole]
  dsimp only
  cases scope.eval expression <;> rfl

end Scope

/-- Where filling in a text succeeds, so does evaluating it.  A text that is one expansion span
becomes the value of its expression, of which filling in gives the text, between the blanks that
stood around the span.  Any other text with an expansion span becomes the text that filling in
gives.  A text without an expansion span stays, and filling in changes nothing in it either, unless
some runtime or variable span encloses the opening of an expansion. -/
theorem texts_evaluate_as_interpolated {scope : Scope} {text result : String}
    (hinterpolate : scope.interpolate text = .ok result) :
    (∀ expression, soleExpansion? text = some expression →
        ∃ value, scope.eval expression = .ok value ∧
          scope.evaluateText text = .ok value.toYaml ∧
          Text.trim result = Text.trim value.asText) ∧
      (soleExpansion? text = none → hasExpansion text = true →
        scope.evaluateText text = .ok (.string result)) ∧
      (hasExpansion text = false →
        scope.evaluateText text = .ok (.string text) ∧
          ((segments text).any Segment.enclosesMark = false → result = text)) := by
  have hchars := Scope.interpolate_eq_ok_iff.mp hinterpolate
  refine ⟨fun expression hsole => ?sole, fun hsole hspans => ?mixed, fun hspans => ?plain⟩
  case sole =>
      obtain ⟨span, body, hspan, rfl⟩ := soleExpansion?_eq_some_iff.mp hsole
      obtain ⟨before, after, hbefore, hafter, hfilled⟩ :=
        Scope.interpolateChars_of_sole scope hspan
      obtain ⟨value, hvalue, hresult⟩ := exists_of_map_eq_ok (hfilled.symm.trans hchars)
      refine ⟨value, hvalue, ?_, ?_⟩
      · rw [Scope.evaluateText_of_sole hsole, hvalue]
        rfl
      · rw [Text.trim, Text.trim, ← hresult, trimChars_between_blanks hbefore hafter]
  case mixed =>
      unfold Scope.evaluateText
      rw [if_pos hspans, hsole, hinterpolate]
      rfl
  case plain =>
      refine ⟨?_, fun hopenings => ?_⟩
      · unfold Scope.evaluateText
        rw [hspans]
        rfl
      · rw [hasExpansion_eq] at hspans
        rw [Scope.interpolateChars_eq_self hspans hopenings] at hchars
        exact (String.toList_inj.mp (Except.ok.inj hchars)).symm

namespace BuildName

/-- One parameter, the name of a variable. -/
def scope : Scope :=
  ⟨{ parameters := [("name", .string "Build.Id")] }, "pipeline.yml"⟩

/-- The variable that the parameter names. -/
def enclosed : String := "echo $($\x7b\x7b parameters.name \x7d\x7d)"

/-- The same behind an expansion span that stands free. -/
def both : String := "echo $\x7b\x7b parameters.name \x7d\x7d $($\x7b\x7b parameters.name \x7d\x7d)"

theorem interpolations :
    scope.interpolate enclosed = .ok "echo $(Build.Id)" ∧
      scope.interpolate both = .ok "echo Build.Id $(Build.Id)" :=
  ⟨eq_ok_of_toOption (by decide +kernel), eq_ok_of_toOption (by decide +kernel)⟩

theorem spans :
    soleExpansion? both = none ∧ hasExpansion both = true ∧ hasExpansion enclosed = false := by
  decide +kernel

end BuildName

/-- The two ways on one text: with a free span beside it, the enclosed one is filled in. -/
theorem texts_evaluate_as_interpolated_both :
    BuildName.scope.interpolate BuildName.both = .ok "echo Build.Id $(Build.Id)" ∧
      soleExpansion? BuildName.both = none ∧ hasExpansion BuildName.both = true ∧
      BuildName.scope.evaluateText BuildName.both = .ok (.string "echo Build.Id $(Build.Id)") := by
  obtain ⟨-, hfilled⟩ := BuildName.interpolations
  obtain ⟨hsole, hspans, -⟩ := BuildName.spans
  exact ⟨hfilled, hsole, hspans, (texts_evaluate_as_interpolated hfilled).2.1 hsole hspans⟩

/-- An expansion span that a variable span encloses is kept by the value of the text, although
filling in replaces it. -/
theorem enclosed_expansion_is_kept :
    BuildName.scope.interpolate BuildName.enclosed = .ok "echo $(Build.Id)" ∧
      hasExpansion BuildName.enclosed = false ∧
      BuildName.scope.evaluateText BuildName.enclosed = .ok (.string BuildName.enclosed) := by
  obtain ⟨hfilled, -⟩ := BuildName.interpolations
  obtain ⟨-, -, hspans⟩ := BuildName.spans
  refine ⟨hfilled, hspans, ?_⟩
  unfold Scope.evaluateText
  rw [hspans]
  rfl

end BuildPipeline.Template
