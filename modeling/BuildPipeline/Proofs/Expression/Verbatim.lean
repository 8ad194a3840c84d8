import BuildPipeline.Expression.Substitution
import BuildPipeline.Proofs.Expression.Spans

/-!
# What substitution keeps

Substitution cuts a text into segments and writes it again.  A segment does not know how its span
was written, only what stands in it without the blanks around, so a span that is kept is written in
one way for all: tidily.

* `stretchesOf` cuts a text as `segmentsOf` does and keeps the characters; put together again they
  are the text (`flatMap_written_stretchesOf`).  `replaceSpans` replaces some spans on it and keeps
  every other character.
* `toList_join_segmentsOf` compares the two ways to cut a text.  `rewriteSpans_eq_iff` compares what
  comes of it: writing a text again is replacing spans in it exactly if every span that is kept is
  tidy.
* `substitution_is_verbatim_iff` says so of both substitutions; `kept_span_loses_blanks` is a text
  that changes where nothing is replaced.
-/

namespace BuildPipeline.Expression

open Text

/-! ## Texts as they are written -/

/-- A span with the characters it is written with, or one character outside of spans. -/
structure Stretch where
  segment : Segment
  written : List Char
  deriving DecidableEq

def stretchesOf (text : List Char) : List Stretch :=
  match text with
  | [] => []
  | c :: rest =>
    match _hopen : openSpan? (c :: rest) with
    | some (segment, after) =>
      ⟨segment, (c :: rest).take ((c :: rest).length - after.length)⟩ :: stretchesOf after
    | none => ⟨.plain (String.singleton c), [c]⟩ :: stretchesOf rest
termination_by text.length
decreasing_by
  · exact openSpan?_length _hopen
  · simp

/-- Replace the spans that have a value, and keep every other character as it is. -/
def replaceSpans (value? : Segment → Option String) (text : String) : String :=
  String.ofList ((stretchesOf text.toList).flatMap fun stretch =>
    ((value? stretch.segment).map String.toList).getD stretch.written)

namespace Segment

/-- What opens a span and what closes it. -/
def brackets : Segment → List Char × List Char
  | .plain _ => ([], [])
  | .expansion _ => (expansionMark, ['\x7d', '\x7d'])
  | .runtime _ => (['$', '['], [']'])
  | .variable _ => (['$', '('], [')'])

/-- The plain text, or what stands in the span. -/
def content : Segment → List Char
  | .plain text | .expansion text | .runtime text | .variable text => text.toList

/-- What separates the content of a tidy span from its brackets. -/
def gap : Segment → List Char
  | .plain _ | .variable _ => []
  | .expansion _ | .runtime _ => [' ']

/-- A segment as it is written again. -/
def tidied (segment : Segment) : List Char :=
  segment.brackets.1 ++ (segment.gap ++ segment.content ++ segment.gap) ++ segment.brackets.2

def isPlain : Segment → Bool
  | .plain _ => true
  | _ => false

end Segment

/-- A span between one blank and another, or a variable span without blanks. -/
def Stretch.IsTidy (stretch : Stretch) : Prop :=
  stretch.written = stretch.segment.tidied

instance (stretch : Stretch) : Decidable stretch.IsTidy :=
  inferInstanceAs (Decidable (stretch.written = stretch.segment.tidied))

/-! ## From one stretch to the next -/

section Stretches

variable {c : Char} {rest after : List Char} {segment : Segment}

/-- A span is written between its brackets, with blanks around its content. -/
theorem exists_body_of_openSpan? {text : List Char}
    (hopen : openSpan? text = some (segment, after)) :
    segment.isPlain = false ∧ ∃ body, segment.content = trimChars body ∧
      text = segment.brackets.1 ++ body ++ segment.brackets.2 ++ after := by
  rcases openSpan?_cases hopen with
    ⟨span, body, rfl, hclose, rfl⟩ | ⟨opening, closing, body, rfl, hkind⟩
  · refine ⟨rfl, body, String.toList_ofList, ?_⟩
    rw [closeBraces?_eq_append hclose]
    simp [Segment.brackets]
  · rcases hkind with ⟨rfl, rfl, rfl⟩ | ⟨rfl, rfl, rfl⟩ <;>
      exact ⟨rfl, body, String.toList_ofList, by simp [Segment.brackets]⟩

@[simp]
theorem stretchesOf_nil : stretchesOf [] = [] := by
  rw [stretchesOf]

theorem stretchesOf_of_open (hopen : openSpan? (c :: rest) = some (segment, after)) :
    ∃ body, segment.content = trimChars body ∧
      c :: rest = segment.brackets.1 ++ body ++ segment.brackets.2 ++ after ∧
      stretchesOf (c :: rest) =
        ⟨segment, segment.brackets.1 ++ body ++ segment.brackets.2⟩ :: stretchesOf after := by
  obtain ⟨-, body, hcontent, htext⟩ := exists_body_of_openSpan? hopen
  refine ⟨body, hcontent, htext, ?_⟩
  rw [stretchesOf]
  split
  case h_1 segment' after' hopen' =>
      obtain ⟨rfl, rfl⟩ := Prod.mk.inj (Option.some.inj (hopen.symm.trans hopen'))
      rw [htext, List.length_append, Nat.add_sub_cancel, List.take_left]
  case h_2 hnone => rw [hnone] at hopen; cases hopen

theorem stretchesOf_of_plain (hopen : openSpan? (c :: rest) = none) :
    stretchesOf (c :: rest) = ⟨.plain (String.singleton c), [c]⟩ :: stretchesOf rest := by
  rw [stretchesOf]
  split
  case h_1 hsome => rw [hopen] at hsome; cases hsome
  case h_2 => rfl

end Stretches

/-- The stretches of a text are the text. -/
theorem flatMap_written_stretchesOf (text : List Char) :
    (stretchesOf text).flatMap Stretch.written = text := by
  induction text using segmentsOf.induct with
  | case1 => simp
  | case2 c rest segment after hopen ih =>
      obtain ⟨body, -, htext, hstretches⟩ := stretchesOf_of_open hopen
      rw [hstretches, List.flatMap_cons, ih, htext]
  | case3 c rest hopen ih =>
      rw [stretchesOf_of_plain hopen, List.flatMap_cons, ih]
      rfl

/-- Where no span has a value, nothing is replaced. -/
theorem replaceSpans_eq_self {value? : Segment → Option String} {text : String}
    (hnone : ∀ stretch ∈ stretchesOf text.toList, value? stretch.segment = none) :
    replaceSpans value? text = text := by
  have hkept : ((stretchesOf text.toList).flatMap fun stretch =>
      ((value? stretch.segment).map String.toList).getD stretch.written) = text.toList := by
    refine (List.flatMap_congr fun stretch hmem => ?_).trans
      (flatMap_written_stretchesOf text.toList)
    rw [hnone stretch hmem]
    rfl
  rw [replaceSpans, hkept, String.ofList_toList]

/-! ## Writing a text again -/

theorem toList_join_pushPlain {f : Segment → String} (hplain : ∀ text, f (.plain text) = text)
    (c : Char) (segments : List Segment) :
    (String.join ((pushPlain c segments).map f)).toList =
      c :: (String.join (segments.map f)).toList := by
  unfold pushPlain
  split <;> simp [hplain]

/-- Segments and stretches of a text are written alike. -/
theorem toList_join_segmentsOf {f : Segment → String} (hplain : ∀ text, f (.plain text) = text)
    (text : List Char) :
    (String.join ((segmentsOf text).map f)).toList =
      (stretchesOf text).flatMap fun stretch => (f stretch.segment).toList := by
  induction text using segmentsOf.induct with
  | case1 => simp
  | case2 c rest segment after hopen ih =>
      obtain ⟨body, -, -, hstretches⟩ := stretchesOf_of_open hopen
      rw [hstretches, segmentsOf_of_open hopen, List.flatMap_cons, ← ih]
      simp
  | case3 c rest hopen ih =>
      -- A plain character is a stretch of its own, and a part of the segment at the front.
      rw [stretchesOf_of_plain hopen, segmentsOf_of_plain hopen, toList_join_pushPlain hplain, ih,
        List.flatMap_cons, hplain]
      simp

/-- Write a text again, with the values of the spans that have one. -/
def rewriteSpans (value? : Segment → Option String) (text : String) : String :=
  String.join ((segments text).map fun segment =>
    (value? segment).getD (String.ofList segment.tidied))

theorem toList_rewriteSpans {value? : Segment → Option String}
    (hplain : ∀ text, value? (.plain text) = none) (text : String) :
    (rewriteSpans value? text).toList =
      (stretchesOf text.toList).flatMap fun stretch =>
        ((value? stretch.segment).map String.toList).getD stretch.segment.tidied := by
  rw [rewriteSpans, segments, toList_join_segmentsOf]
  · refine List.flatMap_congr fun stretch _ => ?_
    cases value? stretch.segment <;> simp
  · intro text
    simp [hplain, Segment.tidied, Segment.brackets, Segment.gap, Segment.content]

/-! ## Blanks around a content -/

theorem isBlank_head_trimChars {text trimmed : List Char} {c : Char}
    (htrim : trimChars text = c :: trimmed) : isBlank c = false := by
  have hstart : trimChars text <+: trimStartChars text := by
    have hsuffix := List.reverse_prefix.mpr
      (List.dropWhile_suffix isBlank (l := (trimStartChars text).reverse))
    rwa [List.reverse_reverse] at hsuffix
  rw [htrim] at hstart
  obtain ⟨further, hfurther⟩ := hstart
  have hhead := List.head?_dropWhile_not isBlank text
  rw [← trimStartChars, ← hfurther] at hhead
  exact hhead

theorem takeWhile_isBlank {blanks : List Char} {c : Char} (rest : List Char)
    (hblanks : AllBlank blanks) (hc : isBlank c = false) :
    (blanks ++ c :: rest).takeWhile isBlank = blanks := by
  rw [List.takeWhile_append_of_pos hblanks, List.takeWhile_cons_of_neg (by simp [hc]),
    List.append_nil]

/-- Two ways to put blanks around a content, up to a character that is none, are told apart by what
is written. -/
theorem eq_of_between_blanks {before after before' after' content rest rest' : List Char}
    {closing : Char} (hbefore : AllBlank before) (hafter : AllBlank after)
    (hbefore' : AllBlank before') (hafter' : AllBlank after')
    (hcontent : ∀ c trimmed, content = c :: trimmed → isBlank c = false)
    (hclosing : isBlank closing = false)
    (heq : before ++ content ++ after ++ closing :: rest =
      before' ++ content ++ after' ++ closing :: rest') :
    before ++ content ++ after = before' ++ content ++ after' := by
  have hboth {front back : List Char} (hfront : AllBlank front) (hback : AllBlank back) :
      AllBlank (front ++ back) := fun c hmem =>
    (List.mem_append.mp hmem).elim (hfront c) (hback c)
  cases content with
  | nil =>
      -- All that stands in front of the closing character is blank.
      simp only [List.append_nil] at heq ⊢
      rw [← takeWhile_isBlank rest (hboth hbefore hafter) hclosing, heq,
        takeWhile_isBlank rest' (hboth hbefore' hafter') hclosing]
  | cons c trimmed =>
      have hc := hcontent c trimmed rfl
      simp only [List.append_assoc, List.cons_append] at heq
      have hfront : before = before' := by
        rw [← takeWhile_isBlank _ hbefore hc, heq, takeWhile_isBlank _ hbefore' hc]
      subst hfront
      have hback : after ++ closing :: rest = after' ++ closing :: rest' := by
        simpa using heq
      have hafters : after = after' := by
        rw [← takeWhile_isBlank rest hafter hclosing, hback,
          takeWhile_isBlank rest' hafter' hclosing]
      rw [hafters]

/-- Where a span is written in two ways, that shows before anything behind it. -/
theorem tidied_eq_of_append_eq {segment : Segment} {body rest rest' : List Char}
    (hspan : segment.isPlain = false) (hcontent : segment.content = trimChars body)
    (heq : segment.tidied ++ rest = segment.brackets.1 ++ body ++ segment.brackets.2 ++ rest') :
    segment.tidied = segment.brackets.1 ++ body ++ segment.brackets.2 := by
  obtain ⟨before, after, hbefore, hafter, hbody⟩ := exists_trimChars_between_blanks body
  have hgap : AllBlank segment.gap := by
    cases segment <;> simp [AllBlank, Segment.gap] <;> decide
  obtain ⟨closing, others, hbrackets, hclosing⟩ :
      ∃ closing others, segment.brackets.2 = closing :: others ∧ isBlank closing = false := by
    cases segment with
    | plain text => cases hspan
    | expansion body => exact ⟨_, _, rfl, by decide⟩
    | runtime body => exact ⟨_, _, rfl, by decide⟩
    | «variable» name => exact ⟨_, _, rfl, by decide⟩
  have hbehind : segment.gap ++ segment.content ++ segment.gap ++ closing :: (others ++ rest) =
      before ++ segment.content ++ after ++ closing :: (others ++ rest') := by
    rw [Segment.tidied, hbrackets, hbody, ← hcontent] at heq
    simpa using heq
  -- The closing bracket is no blank, so what stands before it is the same on both sides.
  have hinner : segment.gap ++ segment.content ++ segment.gap = body := by
    rw [hbody, ← hcontent]
    exact eq_of_between_blanks hgap hgap hbefore hafter
      (fun c trimmed hhead => isBlank_head_trimChars (hcontent.symm.trans hhead)) hclosing hbehind
  rw [Segment.tidied, hinner]

/-- Writing a text again is replacing spans in it, exactly if every span that is kept is tidy. -/
theorem rewriteSpans_eq_iff {value? : Segment → Option String}
    (hplain : ∀ text, value? (.plain text) = none) (text : String) :
    rewriteSpans value? text = replaceSpans value? text ↔
      ∀ stretch ∈ stretchesOf text.toList, value? stretch.segment = none → stretch.IsTidy := by
  rw [← String.toList_inj, toList_rewriteSpans hplain, replaceSpans, String.toList_ofList]
  generalize text.toList = chars
  induction chars using segmentsOf.induct with
  | case1 => simp
  | case2 c rest segment after hopen ih =>
      have hspan := (exists_body_of_openSpan? hopen).1
      obtain ⟨body, hcontent, -, hstretches⟩ := stretchesOf_of_open hopen
      rw [hstretches, List.flatMap_cons, List.flatMap_cons, List.forall_mem_cons, ← ih]
      dsimp only
      cases hvalue : value? segment with
      | some value => simp
      | none =>
          simp only [Option.map_none, Option.getD_none, forall_const, Stretch.IsTidy]
          constructor
          · intro heq
            have htidy := tidied_eq_of_append_eq hspan hcontent heq
            rw [htidy] at heq
            exact ⟨htidy.symm, List.append_cancel_left heq⟩
          · rintro ⟨htidy, hlater⟩
            rw [htidy, hlater]
  | case3 c rest hopen ih =>
      rw [stretchesOf_of_plain hopen, List.flatMap_cons, List.flatMap_cons, List.forall_mem_cons,
        ← ih]
      simp [hplain, Stretch.IsTidy, Segment.tidied, Segment.brackets, Segment.gap, Segment.content]

/-! ## The two substitutions -/

/-- The text of a known variable's value. -/
def variableText? (context : Context) : Segment → Option String
  | .variable name => (context.vars.get? name).map Value.asText
  | _ => none

/-- The text of a runtime expression's value. -/
def runtimeText? (context : Context) : Segment → Option String
  | .runtime body => (evaluateText context body).toOption.map Value.asText
  | _ => none

section Substitutions

variable {context : Context} {text : String}

theorem ofList_tidied_plain (text : String) : String.ofList (Segment.plain text).tidied = text := by
  simp [Segment.tidied, Segment.brackets, Segment.gap, Segment.content]

theorem ofList_tidied_expansion (body : String) :
    String.ofList (Segment.expansion body).tidied = writeExpansion body := by
  simp [← String.toList_inj, writeExpansion, Segment.tidied, Segment.brackets, Segment.gap,
    Segment.content, expansionMark]

theorem ofList_tidied_runtime (body : String) :
    String.ofList (Segment.runtime body).tidied = writeRuntime body := by
  simp [← String.toList_inj, writeRuntime, Segment.tidied, Segment.brackets, Segment.gap,
    Segment.content]

theorem ofList_tidied_variable (name : String) :
    String.ofList (Segment.variable name).tidied = writeVariable name := by
  simp [← String.toList_inj, writeVariable, Segment.tidied, Segment.brackets, Segment.gap,
    Segment.content]

theorem substituteVariable_eq (context : Context) (segment : Segment) :
    substituteVariable context segment =
      (variableText? context segment).getD (String.ofList segment.tidied) := by
  cases segment with
  | plain text => exact (ofList_tidied_plain text).symm
  | expansion body => exact (ofList_tidied_expansion body).symm
  | runtime body => exact (ofList_tidied_runtime body).symm
  | «variable» name =>
      rw [substituteVariable, variableText?, ofList_tidied_variable]
      cases context.vars.get? name <;> rfl

/-- A runtime span has to have a value, and anything else is written again. -/
theorem substituteRuntimeSegment_eq_ok_iff (context : Context) (segment : Segment)
    (result : String) :
    substituteRuntimeSegment context segment = .ok result ↔
      (∀ body, segment = .runtime body → ∃ value, evaluateText context body = .ok value) ∧
        result = (runtimeText? context segment).getD (String.ofList segment.tidied) := by
  cases segment with
  | plain text =>
      simp [substituteRuntimeSegment, runtimeText?, ofList_tidied_plain, eq_comm]
  | expansion body =>
      simp [substituteRuntimeSegment, runtimeText?, ofList_tidied_expansion, eq_comm]
  | «variable» name =>
      simp [substituteRuntimeSegment, runtimeText?, ofList_tidied_variable, eq_comm]
  | runtime body =>
      have hbody : (∀ other, Segment.runtime body = .runtime other →
          ∃ found, evaluateText context other = .ok found) ↔
            ∃ found, evaluateText context body = .ok found :=
        ⟨fun hall => hall body rfl, fun hfound other heq => Segment.runtime.inj heq ▸ hfound⟩
      rw [substituteRuntimeSegment, runtimeText?, hbody]
      cases evaluateText context body <;> simp [Except.map, Except.toOption, eq_comm]

/-- Results that are known one by one are known together. -/
theorem mapM_eq_ok_iff {ε α β : Type} {f : α → Except ε β} {p : α → Prop} {g : α → β}
    (hf : ∀ input result, f input = .ok result ↔ p input ∧ result = g input) (inputs : List α)
    (results : List β) :
    inputs.mapM f = .ok results ↔ (∀ input ∈ inputs, p input) ∧ results = inputs.map g := by
  induction inputs generalizing results with
  | nil => simp [pure, Except.pure, eq_comm]
  | cons input inputs ih =>
      rw [List.mapM_cons, List.forall_mem_cons, List.map_cons]
      cases hinput : f input with
      | error error =>
          have hfails : ¬ p input := fun hp => by
            cases hinput.symm.trans ((hf input (g input)).mpr ⟨hp, rfl⟩)
          simp [hfails, bind, Except.bind]
      | ok result =>
          obtain ⟨hp, rfl⟩ := (hf input result).mp hinput
          cases hinputs : inputs.mapM f with
          | error error =>
              have hfails : ¬ ∀ input ∈ inputs, p input := fun hall => by
                cases hinputs.symm.trans ((ih (inputs.map g)).mpr ⟨hall, rfl⟩)
              simp [hp, hfails, bind, Except.bind]
          | ok others =>
              obtain ⟨hall, rfl⟩ := (ih others).mp hinputs
              change Except.ok (g input :: inputs.map g) = .ok results ↔ _
              rw [Except.ok.injEq]
              exact ⟨fun heq => ⟨⟨hp, hall⟩, heq.symm⟩, fun hboth => hboth.2.symm⟩

/-- A span is found by its opening. -/
theorem infix_of_mem_stretchesOf {stretch : Stretch} {chars : List Char}
    (hmem : stretch ∈ stretchesOf chars) : stretch.segment.brackets.1 <:+: chars := by
  induction chars using segmentsOf.induct with
  | case1 => simp at hmem
  | case2 c rest segment after hopen ih =>
      obtain ⟨body, -, htext, hstretches⟩ := stretchesOf_of_open hopen
      rw [hstretches, List.mem_cons] at hmem
      rw [htext]
      rcases hmem with rfl | hlater
      · exact ⟨[], body ++ segment.brackets.2 ++ after, by simp⟩
      · exact (ih hlater).trans (List.suffix_append _ _).isInfix
  | case3 c rest hopen ih =>
      rw [stretchesOf_of_plain hopen, List.mem_cons] at hmem
      rcases hmem with rfl | hlater
      · exact List.nil_infix
      · exact List.infix_cons (ih hlater)

theorem mem_pushPlain {segment : Segment} (hspan : segment.isPlain = false) (c : Char)
    (segments : List Segment) : segment ∈ pushPlain c segments ↔ segment ∈ segments := by
  have hne (text : String) : segment ≠ .plain text := by
    rintro rfl
    cases hspan
  unfold pushPlain
  split <;> simp [hne]

theorem mem_segmentsOf_iff (segment : Segment) (hspan : segment.isPlain = false)
    (chars : List Char) :
    segment ∈ segmentsOf chars ↔ ∃ stretch ∈ stretchesOf chars, stretch.segment = segment := by
  induction chars using segmentsOf.induct with
  | case1 => simp
  | case2 c rest found after hopen ih =>
      obtain ⟨body, -, -, hstretches⟩ := stretchesOf_of_open hopen
      rw [hstretches, segmentsOf_of_open hopen]
      simp [ih, eq_comm]
  | case3 c rest hopen ih =>
      have hne : Segment.plain (String.singleton c) ≠ segment := by
        rintro rfl
        cases hspan
      rw [stretchesOf_of_plain hopen, segmentsOf_of_plain hopen, mem_pushPlain hspan, ih]
      simp [hne]

/-- In a text without the opening of a span no span of the kind is found. -/
theorem ne_of_not_contains {segment : Segment} {opening : String}
    (hopening : segment.brackets.1 = opening.toList)
    (hcontains : Text.contains text opening = false) {stretch : Stretch}
    (hmem : stretch ∈ stretchesOf text.toList) : stretch.segment ≠ segment := by
  rintro rfl
  have hfound := occursIn_iff_infix.mpr (infix_of_mem_stretchesOf hmem)
  rw [hopening] at hfound
  cases hcontains.symm.trans hfound

theorem replaceSpans_variableText? (hcontains : Text.contains text "$(" = false) :
    replaceSpans (variableText? context) text = text := by
  refine replaceSpans_eq_self fun stretch hmem => ?_
  cases hsegment : stretch.segment with
  | «variable» name => exact absurd hsegment (ne_of_not_contains rfl hcontains hmem)
  | _ => rfl

theorem replaceSpans_runtimeText? (hcontains : Text.contains text "$[" = false) :
    replaceSpans (runtimeText? context) text = text := by
  refine replaceSpans_eq_self fun stretch hmem => ?_
  cases hsegment : stretch.segment with
  | runtime body => exact absurd hsegment (ne_of_not_contains rfl hcontains hmem)
  | _ => rfl

theorem substituteVariables_eq :
    substituteVariables context text =
      if Text.contains text "$(" then rewriteSpans (variableText? context) text else text := by
  simp only [substituteVariables, rewriteSpans, ← substituteVariable_eq]

/-- Where the runtime spans have values, the text is written again with them. -/
theorem substituteRuntime_eq_ok_iff {result : String} :
    substituteRuntime context text = .ok result ↔
      (∀ body, .runtime body ∈ segments text → ∃ value, evaluateText context body = .ok value) ∧
        result =
          if Text.contains text "$[" then rewriteSpans (runtimeText? context) text else text := by
  unfold substituteRuntime
  cases hcontains : Text.contains text "$[" with
  | true =>
      have hparts := mapM_eq_ok_iff (substituteRuntimeSegment_eq_ok_iff context) (segments text)
      have hvalues : (∀ segment ∈ segments text, ∀ body, segment = .runtime body →
          ∃ value, evaluateText context body = .ok value) ↔
            ∀ body, .runtime body ∈ segments text →
              ∃ value, evaluateText context body = .ok value :=
        ⟨fun hall body hmem => hall _ hmem body rfl,
          fun hall segment hmem body heq => hall body (heq ▸ hmem)⟩
      simp only [hvalues] at hparts
      simp only [if_true]
      constructor
      · intro hresult
        obtain ⟨parts, hmapM, rfl⟩ : ∃ parts,
            (segments text).mapM (substituteRuntimeSegment context) = .ok parts ∧
              String.join parts = result := by
          cases hmapM : (segments text).mapM (substituteRuntimeSegment context) with
          | error error => rw [hmapM] at hresult; cases hresult
          | ok parts => rw [hmapM] at hresult; exact ⟨parts, rfl, Except.ok.inj hresult⟩
        obtain ⟨hall, rfl⟩ := (hparts parts).mp hmapM
        exact ⟨hall, rfl⟩
      · rintro ⟨hall, rfl⟩
        rw [(hparts _).mpr ⟨hall, rfl⟩]
        rfl
  | false =>
      -- The text is returned unread, and there is no runtime span in it that could fail.
      have hnone (body : String) : .runtime body ∉ segments text := by
        intro hmem
        obtain ⟨stretch, hstretch, hsegment⟩ :=
          (mem_segmentsOf_iff (.runtime body) rfl text.toList).mp hmem
        exact ne_of_not_contains rfl hcontains hstretch hsegment
      simp [hnone, eq_comm]

end Substitutions

/-- Each substitution is replacing the spans that have a value and keeping every other character,
exactly if the spans that are kept are tidy or the text has no opening of the kind in question.  A
text without such an opening stays, and so does, up to the blanks in its spans, every text where no
variable is known.  Runtime substitution succeeds exactly if every runtime span has a value. -/
theorem substitution_is_verbatim_iff (context : Context) (text : String) :
    (substituteVariables context text = replaceSpans (variableText? context) text ↔
        (Text.contains text "$(" = true → ∀ stretch ∈ stretchesOf text.toList,
          variableText? context stretch.segment = none → stretch.IsTidy)) ∧
      (context.vars = [] → replaceSpans (variableText? context) text = text) ∧
      ((∃ result, substituteRuntime context text = .ok result) ↔
        ∀ body, .runtime body ∈ segments text →
          ∃ value, evaluateText context body = .ok value) ∧
      ∀ result, substituteRuntime context text = .ok result →
        (result = replaceSpans (runtimeText? context) text ↔
          (Text.contains text "$[" = true → ∀ stretch ∈ stretchesOf text.toList,
            runtimeText? context stretch.segment = none → stretch.IsTidy)) := by
  refine ⟨?_, fun hvars => ?_, ?_, fun result hresult => ?_⟩
  · rw [substituteVariables_eq]
    cases hcontains : Text.contains text "$(" with
    | true =>
        simp only [if_true, forall_const]
        exact rewriteSpans_eq_iff (fun _ => rfl) text
    | false => simp [replaceSpans_variableText? hcontains]
  · refine replaceSpans_eq_self fun stretch _ => ?_
    unfold variableText?
    rw [hvars]
    split <;> rfl
  · simp [substituteRuntime_eq_ok_iff]
  · obtain ⟨-, rfl⟩ := substituteRuntime_eq_ok_iff.mp hresult
    cases hcontains : Text.contains text "$[" with
    | true =>
        simp only [if_true, forall_const]
        exact rewriteSpans_eq_iff (fun _ => rfl) text
    | false => simp [replaceSpans_runtimeText? hcontains]

namespace Greeting

/-- One variable. -/
def context : Context :=
  { vars := [("who", .string "world")] }

/-- A known variable, an unknown one and a runtime span. -/
def tidyText : String := "echo $(who) $(date) $[ 1 ]"

/-- Two spans with blanks in them that are not written again. -/
def blankText : String := "echo $( date ) $[1]"

theorem spans :
    (∀ stretch ∈ stretchesOf tidyText.toList, stretch.IsTidy) ∧
      replaceSpans (variableText? context) tidyText = "echo world $(date) $[ 1 ]" ∧
      (substituteRuntime context tidyText).toOption = some "echo $(who) $(date) 1" := by
  decide +kernel

theorem substituteRuntime_tidyText :
    substituteRuntime context tidyText = .ok "echo $(who) $(date) 1" := by
  obtain ⟨-, -, hsome⟩ := spans
  cases hresult : substituteRuntime context tidyText with
  | error error => rw [hresult] at hsome; cases hsome
  | ok result => rw [hresult] at hsome; exact congrArg Except.ok (Option.some.inj hsome)

end Greeting

/-- In a text with tidy spans both substitutions replace what they have a value for and nothing
else. -/
theorem substitution_is_verbatim_iff_tidy :
    substituteRuntime Greeting.context Greeting.tidyText = .ok "echo $(who) $(date) 1" ∧
      replaceSpans (runtimeText? Greeting.context) Greeting.tidyText = "echo $(who) $(date) 1" ∧
      substituteVariables Greeting.context Greeting.tidyText =
        replaceSpans (variableText? Greeting.context) Greeting.tidyText ∧
      replaceSpans (variableText? Greeting.context) Greeting.tidyText =
        "echo world $(date) $[ 1 ]" := by
  obtain ⟨hvariables, -, -, hruntime⟩ :=
    substitution_is_verbatim_iff Greeting.context Greeting.tidyText
  obtain ⟨hareTidy, hreplaced, -⟩ := Greeting.spans
  have hkept := hruntime _ Greeting.substituteRuntime_tidyText
  exact ⟨Greeting.substituteRuntime_tidyText,
    (hkept.mpr fun _ stretch hmem _ => hareTidy stretch hmem).symm,
    hvariables.mpr fun _ stretch hmem _ => hareTidy stretch hmem, hreplaced⟩

/-- Where no variable is known and nothing is to be replaced, blanks go out of one span and come
into another one.  Runtime substitution takes them out of a variable span, which is none of its
own. -/
theorem kept_span_loses_blanks :
    replaceSpans (variableText? {}) Greeting.blankText = Greeting.blankText ∧
      substituteVariables {} Greeting.blankText = "echo $(date) $[ 1 ]" ∧
      Greeting.blankText ≠ "echo $(date) $[ 1 ]" ∧
      replaceSpans (runtimeText? {}) Greeting.blankText = "echo $( date ) 1" ∧
      (substituteRuntime {} Greeting.blankText).toOption = some "echo $(date) 1" := by
  decide +kernel

end BuildPipeline.Expression
