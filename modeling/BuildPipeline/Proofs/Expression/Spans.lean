import Mathlib.Data.List.Infix
import Mathlib.Data.List.TakeWhile
import BuildPipeline.Expression.Segment

/-!
# Spans in a text

What the scanner of spans finds, said without the scanner.

* Trimming takes off blanks only: a text is its trimmed form between blanks, and blanks put around
  a text are taken off again.  A pattern without blanks at its ends is found in the trimmed text
  wherever it is found in the text.
* `openSpan?_cases` cuts a text behind the span at its start, and `segmentsOf_of_open` and
  `segmentsOf_of_plain` follow the scanner from one span to the next.
* `soleExpansion?_eq_some_iff` says which texts are one expansion span.
-/

namespace BuildPipeline

namespace Text

/-! ## Blanks at the ends -/

def AllBlank (text : List Char) : Prop :=
  ∀ c ∈ text, isBlank c = true

theorem not_isBlank_dollar : isBlank '$' = false := by decide

theorem not_isBlank_openBrace : isBlank '\x7b' = false := by decide

theorem not_isBlank_closeBrace : isBlank '\x7d' = false := by decide

theorem AllBlank.ne_dollar {text : List Char} (hblank : AllBlank text) : ∀ c ∈ text, c ≠ '$' := by
  rintro c hmem rfl
  cases not_isBlank_dollar.symm.trans (hblank _ hmem)

theorem trimStartChars_append_of_allBlank {blanks text : List Char} (hblank : AllBlank blanks) :
    trimStartChars (blanks ++ text) = trimStartChars text :=
  List.dropWhile_append_of_pos hblank

theorem trimEndChars_append_of_allBlank {blanks text : List Char} (hblank : AllBlank blanks) :
    trimEndChars (text ++ blanks) = trimEndChars text := by
  have hreversed : AllBlank blanks.reverse := fun c hmem => hblank c (List.mem_reverse.mp hmem)
  rw [trimEndChars, List.reverse_append, List.dropWhile_append_of_pos hreversed, trimEndChars]

/-- Blanks around a text are taken off. -/
theorem trimChars_between_blanks {before text after : List Char} (hbefore : AllBlank before)
    (hafter : AllBlank after) : trimChars (before ++ text ++ after) = trimChars text := by
  rw [trimChars, List.append_assoc, trimStartChars_append_of_allBlank hbefore, trimChars]
  rw [trimStartChars, List.dropWhile_append]
  split
  case isTrue hnothing =>
      have hstart : trimStartChars text = [] := List.isEmpty_iff.mp hnothing
      rw [List.dropWhile_eq_nil_iff.mpr hafter, hstart]
  case isFalse => exact trimEndChars_append_of_allBlank hafter

/-- A text is its trimmed form between blanks. -/
theorem exists_trimChars_between_blanks (text : List Char) :
    ∃ before after, AllBlank before ∧ AllBlank after ∧
      text = before ++ trimChars text ++ after := by
  let start := trimStartChars text
  refine ⟨text.takeWhile isBlank, (start.reverse.takeWhile isBlank).reverse, ?_, ?_, ?_⟩
  · exact fun c hmem => List.mem_takeWhile_imp hmem
  · exact fun c hmem => List.mem_takeWhile_imp (List.mem_reverse.mp hmem)
  · have hend : trimChars text ++ (start.reverse.takeWhile isBlank).reverse = start := by
      rw [trimChars, trimEndChars, ← List.reverse_append, List.takeWhile_append_dropWhile,
        List.reverse_reverse]
    rw [List.append_assoc, hend]
    exact (List.takeWhile_append_dropWhile).symm

theorem trimChars_of_forall {text : List Char} (htext : ∀ c ∈ text, isBlank c = false) :
    trimChars text = text := by
  have hkept : ∀ chars : List Char, (∀ c ∈ chars, isBlank c = false) →
      chars.dropWhile isBlank = chars := by
    intro chars hchars
    cases chars with
    | nil => rfl
    | cons c rest => exact List.dropWhile_cons_of_neg (by simp [hchars c List.mem_cons_self])
  have hreversed : ∀ c ∈ text.reverse, isBlank c = false := fun c hmem =>
    htext c (List.mem_reverse.mp hmem)
  rw [trimChars, trimStartChars, hkept text htext, trimEndChars, hkept _ hreversed,
    List.reverse_reverse]

/-- A text that neither starts nor ends with a blank stays as it is. -/
theorem trimChars_of_ends {first last : Char} {middle : List Char} (hfirst : isBlank first = false)
    (hlast : isBlank last = false) :
    trimChars (first :: (middle ++ [last])) = first :: (middle ++ [last]) := by
  simp [trimChars, trimStartChars, trimEndChars, hfirst, hlast]

/-! ## Patterns -/

/-- Dropping characters does not cut into a pattern that does not start with one of them. -/
theorem infix_dropWhile {p : Char → Bool} {first : Char} {pattern text : List Char}
    (hfirst : p first = false) (hfound : first :: pattern <:+: text) :
    first :: pattern <:+: text.dropWhile p := by
  induction text with
  | nil => exact hfound
  | cons c rest ih =>
      rw [List.dropWhile_cons]
      split
      case isTrue hdropped =>
          rcases List.infix_cons_iff.mp hfound with hstart | hlater
          · obtain ⟨rfl, -⟩ := List.cons_prefix_cons.mp hstart
            rw [hfirst] at hdropped
            cases hdropped
          · exact ih hlater
      case isFalse => exact hfound

theorem infix_trimChars {first last : Char} {middle text : List Char}
    (hfirst : isBlank first = false) (hlast : isBlank last = false)
    (hfound : first :: (middle ++ [last]) <:+: text) :
    first :: (middle ++ [last]) <:+: trimChars text := by
  have hstart : first :: (middle ++ [last]) <:+: trimStartChars text :=
    infix_dropWhile hfirst hfound
  have hreversed : last :: (first :: middle).reverse <:+: (trimStartChars text).reverse := by
    simpa using List.reverse_infix.mpr hstart
  simpa [trimChars, trimEndChars] using List.reverse_infix.mpr (infix_dropWhile hlast hreversed)

theorem stripStart?_eq_some_iff {start text rest : List Char} :
    stripStart? start text = some rest ↔ text = start ++ rest := by
  induction start generalizing text with
  | nil => simp [stripStart?, eq_comm]
  | cons expected start ih =>
      cases text with
      | nil => simp [stripStart?]
      | cons c text =>
          rw [stripStart?, List.cons_append, List.cons.injEq]
          split
          case isTrue heq => simp [ih, heq]
          case isFalse hne => simp [Ne.symm hne]

theorem startsWith_iff_prefix {start text : List Char} :
    startsWith start text = true ↔ start <+: text := by
  rw [startsWith, Option.isSome_iff_exists]
  simp only [stripStart?_eq_some_iff]
  exact exists_congr fun rest => eq_comm

theorem occursIn_iff_infix {pattern text : List Char} :
    occursIn pattern text = true ↔ pattern <:+: text := by
  induction text with
  | nil => simp [occursIn]
  | cons c text ih =>
      rw [occursIn, Bool.or_eq_true, ih, List.infix_cons_iff, startsWith_iff_prefix]

end Text

namespace Expression

open Text

/-! ## Closing brackets -/

theorem closeBraces?_eq_append {quoted : Bool} {text body after : List Char}
    (hclose : closeBraces? quoted text = some (body, after)) :
    text = body ++ '\x7d' :: '\x7d' :: after := by
  induction quoted, text using closeBraces?.induct generalizing body with
  | case1 => simp [closeBraces?] at hclose
  | case2 => simp [closeBraces?] at hclose
  | case3 quoted c next rest hbraces =>
      rw [closeBraces?, if_pos hbraces] at hclose
      obtain ⟨rfl, rfl⟩ := Prod.mk.inj (Option.some.inj hclose)
      simp only [Bool.and_eq_true, beq_iff_eq] at hbraces
      rw [hbraces.1.2, hbraces.2, List.nil_append]
  | case4 quoted c next rest hbraces ih =>
      rw [closeBraces?, if_neg hbraces] at hclose
      obtain ⟨⟨inner, left⟩, hinner, heq⟩ := Option.map_eq_some_iff.mp hclose
      obtain ⟨rfl, rfl⟩ := Prod.mk.inj heq
      rw [ih hinner, List.cons_append]

/-- What follows the braces does not matter. -/
theorem closeBraces?_append {quoted : Bool} {text body after : List Char} (further : List Char)
    (hclose : closeBraces? quoted text = some (body, after)) :
    closeBraces? quoted (text ++ further) = some (body, after ++ further) := by
  induction quoted, text using closeBraces?.induct generalizing body with
  | case1 => simp [closeBraces?] at hclose
  | case2 => simp [closeBraces?] at hclose
  | case3 quoted c next rest hbraces =>
      rw [closeBraces?, if_pos hbraces] at hclose
      obtain ⟨rfl, rfl⟩ := Prod.mk.inj (Option.some.inj hclose)
      rw [List.cons_append, List.cons_append, closeBraces?, if_pos hbraces]
  | case4 quoted c next rest hbraces ih =>
      rw [closeBraces?, if_neg hbraces] at hclose
      obtain ⟨⟨inner, left⟩, hinner, heq⟩ := Option.map_eq_some_iff.mp hclose
      obtain ⟨rfl, rfl⟩ := Prod.mk.inj heq
      rw [List.cons_append, List.cons_append, closeBraces?, if_neg hbraces, ← List.cons_append,
        ih hinner, Option.map_some]

/-- A text without quotes and braces ends at the first braces behind it. -/
theorem closeBraces?_of_forall {body : List Char} (after : List Char)
    (hbody : ∀ c ∈ body, c ≠ '\'' ∧ c ≠ '\x7d') :
    closeBraces? false (body ++ '\x7d' :: '\x7d' :: after) = some (body, after) := by
  induction body with
  | nil => rfl
  | cons c rest ih =>
      obtain ⟨⟨hquote, hbrace⟩, hrest⟩ := List.forall_mem_cons.mp hbody
      have hlater := ih hrest
      -- The scanner looks at two characters at a time, so the second one has to be exposed.
      cases hnext : rest ++ '\x7d' :: '\x7d' :: after with
      | nil => simp at hnext
      | cons next others =>
          rw [hnext] at hlater
          rw [List.cons_append, hnext, closeBraces?]
          simp [hquote, hbrace, hlater]

theorem closeBracket?_eq_append {opening closing : Char} {depth : Nat} {quoted : Bool}
    {text body after : List Char}
    (hclose : closeBracket? opening closing depth quoted text = some (body, after)) :
    text = body ++ closing :: after := by
  induction text generalizing depth quoted body with
  | nil => simp [closeBracket?] at hclose
  | cons c rest ih =>
      rw [closeBracket?] at hclose
      split at hclose
      case isTrue hends =>
          obtain ⟨rfl, rfl⟩ := Prod.mk.inj (Option.some.inj hclose)
          simp only [Bool.and_eq_true, beq_iff_eq] at hends
          rw [hends.1.2, List.nil_append]
      case isFalse =>
          obtain ⟨⟨inner, left⟩, hinner, heq⟩ := Option.map_eq_some_iff.mp hclose
          obtain ⟨rfl, rfl⟩ := Prod.mk.inj heq
          rw [ih hinner, List.cons_append]

/-! ## The span at the start of a text -/

/-- The opening of an expansion span. -/
def expansionMark : List Char := "$\x7b\x7b".toList

theorem openSpan?_expansionMark (rest : List Char) :
    openSpan? (expansionMark ++ rest) =
      (closeBraces? false rest).map fun (body, after) => (.expansion (trimmedBody body), after) :=
  rfl

theorem openSpan?_eq_none_of_ne_dollar {c : Char} (rest : List Char) (hc : c ≠ '$') :
    openSpan? (c :: rest) = none := by
  unfold openSpan?
  split <;> simp_all

/-- A span is an expansion span, or a span of another kind between brackets. -/
theorem openSpan?_cases {text after : List Char} {segment : Segment}
    (hopen : openSpan? text = some (segment, after)) :
    (∃ span body, text = expansionMark ++ span ∧ closeBraces? false span = some (body, after) ∧
        segment = .expansion (trimmedBody body)) ∨
      ∃ opening closing body, text = '$' :: opening :: (body ++ closing :: after) ∧
        ((opening = '[' ∧ closing = ']' ∧ segment = .runtime (trimmedBody body)) ∨
          (opening = '(' ∧ closing = ')' ∧ segment = .variable (trimmedBody body))) := by
  unfold openSpan? at hopen
  split at hopen
  case h_1 rest =>
      obtain ⟨⟨body, left⟩, hclose, heq⟩ := Option.map_eq_some_iff.mp hopen
      obtain ⟨rfl, rfl⟩ := Prod.mk.inj heq
      exact Or.inl ⟨rest, body, rfl, hclose, rfl⟩
  case h_2 rest =>
      obtain ⟨⟨body, left⟩, hclose, heq⟩ := Option.map_eq_some_iff.mp hopen
      obtain ⟨rfl, rfl⟩ := Prod.mk.inj heq
      exact Or.inr ⟨'[', ']', body, by rw [closeBracket?_eq_append hclose], Or.inl ⟨rfl, rfl, rfl⟩⟩
  case h_3 rest =>
      obtain ⟨⟨body, left⟩, hclose, heq⟩ := Option.map_eq_some_iff.mp hopen
      obtain ⟨rfl, rfl⟩ := Prod.mk.inj heq
      exact Or.inr ⟨'(', ')', body, by rw [closeBracket?_eq_append hclose], Or.inr ⟨rfl, rfl, rfl⟩⟩
  case h_4 => cases hopen

/-! ## From one span to the next -/

@[simp]
theorem segmentsOf_nil : segmentsOf [] = [] := by
  rw [segmentsOf]

theorem segmentsOf_of_open {c : Char} {rest after : List Char} {segment : Segment}
    (hopen : openSpan? (c :: rest) = some (segment, after)) :
    segmentsOf (c :: rest) = segment :: segmentsOf after := by
  rw [segmentsOf]
  split
  case h_1 segment' after' hopen' =>
      obtain ⟨rfl, rfl⟩ := Prod.mk.inj (Option.some.inj (hopen.symm.trans hopen'))
      rfl
  case h_2 hnone => rw [hnone] at hopen; cases hopen

theorem segmentsOf_of_plain {c : Char} {rest : List Char} (hopen : openSpan? (c :: rest) = none) :
    segmentsOf (c :: rest) = pushPlain c (segmentsOf rest) := by
  rw [segmentsOf]
  split
  case h_1 hsome => rw [hopen] at hsome; cases hsome
  case h_2 => rfl

/-- A plain character makes no difference to what is asked of spans only. -/
theorem any_pushPlain {p : Segment → Bool} (c : Char) (segments : List Segment)
    (hplain : ∀ text, p (.plain text) = false) : (pushPlain c segments).any p = segments.any p := by
  unfold pushPlain
  split <;> simp [hplain]

theorem exists_pushPlain (c : Char) (segments : List Segment) :
    ∃ text rest, pushPlain c segments = .plain text :: rest := by
  unfold pushPlain
  split <;> exact ⟨_, _, rfl⟩

theorem segmentsOf_ne_nil (c : Char) (rest : List Char) : segmentsOf (c :: rest) ≠ [] := by
  cases hopen : openSpan? (c :: rest) with
  | none =>
      obtain ⟨text, others, hpush⟩ := exists_pushPlain c (segmentsOf rest)
      rw [segmentsOf_of_plain hopen, hpush]
      exact List.cons_ne_nil _ _
  | some found =>
      rw [segmentsOf_of_open hopen]
      exact List.cons_ne_nil _ _

def Segment.isExpansion : Segment → Bool
  | .expansion _ => true
  | _ => false

/-- A span that is no expansion span, with the opening of one in its body. -/
def Segment.enclosesMark : Segment → Bool
  | .runtime body | .variable body => occursIn expansionMark body.toList
  | _ => false

theorem not_infix_of_not_occursIn_trimmedBody {body : List Char}
    (hbody : occursIn expansionMark (trimmedBody body).toList = false) :
    ¬ expansionMark <:+: body := by
  intro hfound
  have htrimmed : '$' :: (['\x7b'] ++ ['\x7b']) <:+: trimChars body :=
    infix_trimChars not_isBlank_dollar not_isBlank_openBrace hfound
  have hoccurs : occursIn expansionMark (trimChars body) = true := occursIn_iff_infix.mpr htrimmed
  rw [trimmedBody, String.toList_ofList, hoccurs] at hbody
  cases hbody

theorem hasExpansion_eq (text : String) :
    hasExpansion text = (segmentsOf text.toList).any Segment.isExpansion :=
  rfl

theorem any_segmentsOf_append_of_allBlank {p : Segment → Bool} {blanks : List Char}
    (text : List Char) (hplain : ∀ text, p (.plain text) = false) (hblank : AllBlank blanks) :
    (segmentsOf (blanks ++ text)).any p = (segmentsOf text).any p := by
  induction blanks with
  | nil => rfl
  | cons c blanks ih =>
      have hdollar : c ≠ '$' := hblank.ne_dollar c List.mem_cons_self
      have hrest : AllBlank blanks := fun d hmem => hblank d (List.mem_cons_of_mem c hmem)
      rw [List.cons_append, segmentsOf_of_plain (openSpan?_eq_none_of_ne_dollar _ hdollar),
        any_pushPlain c _ hplain, ih hrest]

/-! ## Texts that are one expansion span -/

/-- An expansion span between blanks. -/
structure IsSoleSpan (text span body : List Char) : Prop where
  between : ∃ before after, AllBlank before ∧ AllBlank after ∧
    text = before ++ (expansionMark ++ span) ++ after
  closes : closeBraces? false span = some (body, [])

theorem segmentsOf_eq_expansion_iff {text : List Char} {expression : String} :
    segmentsOf text = [.expansion expression] ↔
      ∃ span body, text = expansionMark ++ span ∧ closeBraces? false span = some (body, []) ∧
        expression = trimmedBody body := by
  constructor
  · intro hsegments
    cases text with
    | nil => simp at hsegments
    | cons c rest =>
        cases hopen : openSpan? (c :: rest) with
        | none =>
            obtain ⟨plain, others, hpush⟩ := exists_pushPlain c (segmentsOf rest)
            rw [segmentsOf_of_plain hopen, hpush] at hsegments
            cases hsegments
        | some found =>
            obtain ⟨segment, after⟩ := found
            rw [segmentsOf_of_open hopen, List.cons.injEq] at hsegments
            obtain ⟨rfl, hafter⟩ := hsegments
            -- A character behind the span would be in a segment of its own.
            have hend : after = [] := by
              cases after with
              | nil => rfl
              | cons next others => exact absurd hafter (segmentsOf_ne_nil next others)
            subst hend
            rcases openSpan?_cases hopen with
              ⟨span, body, htext, hclose, hsegment⟩ | ⟨_, _, _, -, hother⟩
            · exact ⟨span, body, htext, hclose, Segment.expansion.inj hsegment⟩
            · rcases hother with ⟨-, -, hsegment⟩ | ⟨-, -, hsegment⟩ <;> cases hsegment
  · rintro ⟨span, body, rfl, hclose, rfl⟩
    have hopen := openSpan?_expansionMark span
    rw [hclose] at hopen
    exact (segmentsOf_of_open hopen).trans (by rw [segmentsOf_nil])

/-- A span ends with a brace, so there is nothing to trim. -/
theorem trimChars_of_closes {span body : List Char}
    (hclose : closeBraces? false span = some (body, [])) :
    trimChars (expansionMark ++ span) = expansionMark ++ span := by
  have hends : expansionMark ++ span =
      '$' :: (('\x7b' :: '\x7b' :: body ++ ['\x7d']) ++ ['\x7d']) := by
    simp [expansionMark, closeBraces?_eq_append hclose]
  rw [hends]
  exact trimChars_of_ends not_isBlank_dollar not_isBlank_closeBrace

theorem soleExpansion?_eq_some_iff {text expression : String} :
    soleExpansion? text = some expression ↔
      ∃ span body, IsSoleSpan text.toList span body ∧ expression = trimmedBody body := by
  have hsole : soleExpansion? text = some expression ↔
      segmentsOf (trimChars text.toList) = [.expansion expression] := by
    unfold soleExpansion?
    rw [segments, trim, String.toList_ofList]
    split <;> simp_all
  rw [hsole, segmentsOf_eq_expansion_iff]
  constructor
  · rintro ⟨span, body, htrim, hclose, rfl⟩
    obtain ⟨before, after, hbefore, hafter, htext⟩ := exists_trimChars_between_blanks text.toList
    exact ⟨span, body, ⟨⟨before, after, hbefore, hafter, htrim ▸ htext⟩, hclose⟩, rfl⟩
  · rintro ⟨span, body, ⟨⟨before, after, hbefore, hafter, htext⟩, hclose⟩, rfl⟩
    refine ⟨span, body, ?_, hclose, rfl⟩
    rw [htext, trimChars_between_blanks hbefore hafter, trimChars_of_closes hclose]

theorem hasExpansion_of_soleExpansion? {text expression : String}
    (hsole : soleExpansion? text = some expression) : hasExpansion text = true := by
  obtain ⟨span, body, ⟨⟨before, after, hbefore, -, htext⟩, hclose⟩, rfl⟩ :=
    soleExpansion?_eq_some_iff.mp hsole
  have hopen : openSpan? (expansionMark ++ (span ++ after)) =
      some (.expansion (trimmedBody body), after) := by
    rw [openSpan?_expansionMark, closeBraces?_append after hclose]
    rfl
  have hsegments : segmentsOf (expansionMark ++ (span ++ after)) =
      .expansion (trimmedBody body) :: segmentsOf after := segmentsOf_of_open hopen
  rw [hasExpansion_eq, htext, List.append_assoc, List.append_assoc,
    any_segmentsOf_append_of_allBlank _ (fun _ => rfl) hbefore, hsegments]
  rfl

end Expression

end BuildPipeline
