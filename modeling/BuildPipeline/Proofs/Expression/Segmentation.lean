import BuildPipeline.Proofs.Expression.Spans
import Mathlib.Algebra.Group.Nat.Even

/-!
# Segments as a partition of the text

The segments of a text cut it into pieces that follow one another, and there is only one way to do
so.

* `IsBalanced` and `SpanKind.IsBody` say what may stand in a span, without a scanner: between
  brackets a balanced text, between braces one that does not go on behind the first closing braces.
  Brackets and braces in single quotes do not count.  `closeBracket?_eq_some_iff` and
  `closeBraces?_eq_some_iff` find the two scanners to cut at just that place.
* `IsCut` says how a text is cut: spans stand for their trimmed bodies, plain stretches for
  themselves, a stretch is not empty and not next to another one, and no opening in it has a closing
  behind it.
* `segments_partition_text`: the segments of a text cut it, and nothing else does.
-/

namespace BuildPipeline.Expression

open Text

/-! ## Between brackets -/

/-- A text in which every bracket has its counterpart.  What stands in single quotes is of no
account. -/
inductive IsBalanced (opening closing : Char) : List Char → Prop
  | nil : IsBalanced opening closing []
  | char {c : Char} {rest : List Char} (hopening : c ≠ opening) (hclosing : c ≠ closing)
      (hquote : c ≠ '\'') (hrest : IsBalanced opening closing rest) :
      IsBalanced opening closing (c :: rest)
  | quoted {inner rest : List Char} (hinner : '\'' ∉ inner)
      (hrest : IsBalanced opening closing rest) :
      IsBalanced opening closing ('\'' :: (inner ++ '\'' :: rest))
  | nested {inner rest : List Char} (hinner : IsBalanced opening closing inner)
      (hrest : IsBalanced opening closing rest) :
      IsBalanced opening closing (opening :: (inner ++ closing :: rest))

/-- Two different brackets, neither of them a quote. -/
structure AreBrackets (opening closing : Char) : Prop where
  ne : opening ≠ closing
  opening_ne : opening ≠ '\''
  closing_ne : closing ≠ '\''

section Brackets

variable {opening closing : Char} {depth : Nat} {body rest after text : List Char}

theorem IsBalanced.append {front back : List Char} (hfront : IsBalanced opening closing front)
    (hback : IsBalanced opening closing back) : IsBalanced opening closing (front ++ back) := by
  induction hfront with
  | nil => exact hback
  | char hopening hclosing hquote _ ih => exact .char hopening hclosing hquote ih
  | quoted hinner _ ih =>
      rw [List.cons_append, List.append_assoc, List.cons_append]
      exact .quoted hinner ih
  | nested hinner _ _ ih =>
      rw [List.cons_append, List.append_assoc, List.cons_append]
      exact .nested hinner ih

/-- What was read in front of something that is found further on. -/
def inFront (front : List Char) (found : List Char × List Char) : List Char × List Char :=
  (front ++ found.1, found.2)

@[simp]
theorem inFront_comp (front back : List Char) :
    inFront front ∘ inFront back = inFront (front ++ back) := by
  funext found
  simp [inFront]

@[simp]
theorem map_inFront_nil (found : Option (List Char × List Char)) :
    found.map (inFront []) = found := by
  cases found <;> rfl

/-! ### One character -/

theorem closeBracket?_char {c : Char} (hopening : c ≠ opening) (hclosing : c ≠ closing)
    (hquote : c ≠ '\'') :
    closeBracket? opening closing depth false (c :: rest) =
      (closeBracket? opening closing depth false rest).map (inFront [c]) := by
  rw [closeBracket?]
  simp [hopening, hclosing, hquote]
  rfl

theorem closeBracket?_quote (hbrackets : AreBrackets opening closing) :
    closeBracket? opening closing depth false ('\'' :: rest) =
      (closeBracket? opening closing depth true rest).map (inFront ['\'']) := by
  rw [closeBracket?]
  simp [hbrackets.opening_ne.symm, hbrackets.closing_ne.symm]
  rfl

theorem closeBracket?_inQuotes (c : Char) :
    closeBracket? opening closing depth true (c :: rest) =
      (closeBracket? opening closing depth (c != '\'') rest).map (inFront [c]) := by
  rw [closeBracket?]
  simp [bne]
  rfl

theorem closeBracket?_opening (hbrackets : AreBrackets opening closing) :
    closeBracket? opening closing depth false (opening :: rest) =
      (closeBracket? opening closing (depth + 1) false rest).map (inFront [opening]) := by
  rw [closeBracket?]
  simp [hbrackets.ne, hbrackets.opening_ne]
  rfl

theorem closeBracket?_closing (hbrackets : AreBrackets opening closing) :
    closeBracket? opening closing (depth + 1) false (closing :: rest) =
      (closeBracket? opening closing depth false rest).map (inFront [closing]) := by
  rw [closeBracket?]
  simp [hbrackets.ne.symm, hbrackets.closing_ne]
  rfl

theorem closeBracket?_last :
    closeBracket? opening closing 0 false (closing :: rest) = some ([], rest) := by
  simp [closeBracket?]

/-! ### Balanced texts -/

theorem closeBracket?_quoted {inner : List Char} (hinner : '\'' ∉ inner) :
    closeBracket? opening closing depth true (inner ++ '\'' :: rest) =
      (closeBracket? opening closing depth false rest).map (inFront (inner ++ ['\''])) := by
  induction inner with
  | nil => exact closeBracket?_inQuotes '\''
  | cons c inner ih =>
      obtain ⟨hc, hinner⟩ := List.ne_and_not_mem_of_not_mem_cons hinner
      rw [List.cons_append, closeBracket?_inQuotes, bne_iff_ne.mpr hc.symm, ih hinner,
        Option.map_map, inFront_comp]
      rfl

/-- The scanner goes over a balanced text without noticing. -/
theorem IsBalanced.closeBracket?_append (hbrackets : AreBrackets opening closing)
    (hbody : IsBalanced opening closing body) :
    closeBracket? opening closing depth false (body ++ rest) =
      (closeBracket? opening closing depth false rest).map (inFront body) := by
  induction hbody generalizing depth rest with
  | nil => simp
  | char hopening hclosing hquote _ ih =>
      rw [List.cons_append, closeBracket?_char hopening hclosing hquote, ih, Option.map_map,
        inFront_comp]
      rfl
  | quoted hinner _ ih =>
      rw [List.cons_append, List.append_assoc, List.cons_append, closeBracket?_quote hbrackets,
        closeBracket?_quoted hinner, ih, Option.map_map, Option.map_map, inFront_comp,
        inFront_comp]
      simp
  | nested _ _ ihinner ih =>
      rw [List.cons_append, List.append_assoc, List.cons_append, closeBracket?_opening hbrackets,
        ihinner, closeBracket?_closing hbrackets, ih, Option.map_map, Option.map_map,
        Option.map_map, inFront_comp, inFront_comp, inFront_comp]
      simp

/-- A text that closes so many brackets of those around it, and is balanced before, between and
behind them. -/
def ClosesBrackets (opening closing : Char) : Nat → List Char → Prop
  | 0, text => IsBalanced opening closing text
  | depth + 1, text => ∃ inner rest, text = inner ++ closing :: rest ∧
      IsBalanced opening closing inner ∧ ClosesBrackets opening closing depth rest

theorem IsBalanced.closesBrackets_append {front : List Char}
    (hfront : IsBalanced opening closing front)
    (hrest : ClosesBrackets opening closing depth rest) :
    ClosesBrackets opening closing depth (front ++ rest) := by
  cases depth with
  | zero => exact hfront.append hrest
  | succ depth =>
      obtain ⟨inner, further, rfl, hinner, hfurther⟩ := hrest
      exact ⟨front ++ inner, further, by simp, hfront.append hinner, hfurther⟩

theorem exists_of_map_inFront {found : Option (List Char × List Char)} {front : List Char}
    (hfound : found.map (inFront front) = some (body, after)) :
    ∃ inner, found = some (inner, after) ∧ body = front ++ inner := by
  obtain ⟨⟨inner, left⟩, hinner, heq⟩ := Option.map_eq_some_iff.mp hfound
  obtain ⟨rfl, rfl⟩ := Prod.mk.inj heq
  exact ⟨inner, hinner, rfl⟩

theorem exists_of_closeBracket?_inQuotes
    (hclose : closeBracket? opening closing depth true text = some (body, after)) :
    ∃ inner further last, '\'' ∉ inner ∧ text = inner ++ '\'' :: further ∧
      body = inner ++ '\'' :: last ∧
      closeBracket? opening closing depth false further = some (last, after) := by
  induction text generalizing body with
  | nil => simp [closeBracket?] at hclose
  | cons c rest ih =>
      rw [closeBracket?_inQuotes] at hclose
      obtain ⟨found, hfound, rfl⟩ := exists_of_map_inFront hclose
      by_cases hc : c = '\''
      · subst hc
        exact ⟨[], rest, found, by simp, rfl, rfl, hfound⟩
      · rw [bne_iff_ne.mpr hc] at hfound
        obtain ⟨inner, further, last, hinner, rfl, rfl, hlast⟩ := ih hfound
        exact ⟨c :: inner, further, last, by simp [Ne.symm hc, hinner], rfl, rfl, hlast⟩

theorem closesBrackets_of_closeBracket? (hbrackets : AreBrackets opening closing)
    (hclose : closeBracket? opening closing depth false text = some (body, after)) :
    ClosesBrackets opening closing depth body := by
  -- A quoted part is gone over at once, so the induction is on the length.
  induction hlength : text.length using Nat.strong_induction_on generalizing text body depth with
  | _ length ih =>
      have hshorter {depth : Nat} {rest found : List Char} (hless : rest.length < text.length)
          (hfound : closeBracket? opening closing depth false rest = some (found, after)) :
          ClosesBrackets opening closing depth found :=
        ih rest.length (hlength ▸ hless) hfound rfl
      cases text with
      | nil => simp [closeBracket?] at hclose
      | cons c rest =>
          by_cases hquote : c = '\''
          · subst hquote
            rw [closeBracket?_quote hbrackets] at hclose
            obtain ⟨found, hfound, rfl⟩ := exists_of_map_inFront hclose
            obtain ⟨inner, further, last, hinner, rfl, rfl, hlast⟩ :=
              exists_of_closeBracket?_inQuotes hfound
            have hquoted : IsBalanced opening closing ('\'' :: (inner ++ ['\''])) :=
              .quoted hinner .nil
            simpa using hquoted.closesBrackets_append (hshorter (by simp; omega) hlast)
          · by_cases hclosing : c = closing
            · subst hclosing
              cases depth with
              | zero =>
                  rw [closeBracket?_last] at hclose
                  obtain ⟨rfl, -⟩ := Prod.mk.inj (Option.some.inj hclose)
                  exact .nil
              | succ depth =>
                  rw [closeBracket?_closing hbrackets] at hclose
                  obtain ⟨found, hfound, rfl⟩ := exists_of_map_inFront hclose
                  exact ⟨[], found, rfl, .nil, hshorter (by simp) hfound⟩
            · by_cases hopening : c = opening
              · subst hopening
                rw [closeBracket?_opening hbrackets] at hclose
                obtain ⟨found, hfound, rfl⟩ := exists_of_map_inFront hclose
                obtain ⟨inner, last, rfl, hinner, hlast⟩ := hshorter (by simp) hfound
                have hnested : IsBalanced c closing (c :: (inner ++ [closing])) :=
                  .nested hinner .nil
                simpa using hnested.closesBrackets_append hlast
              · rw [closeBracket?_char hopening hclosing hquote] at hclose
                obtain ⟨found, hfound, rfl⟩ := exists_of_map_inFront hclose
                have hchar : IsBalanced opening closing [c] :=
                  .char hopening hclosing hquote .nil
                exact hchar.closesBrackets_append (hshorter (by simp) hfound)

theorem closeBracket?_eq_some_iff (hbrackets : AreBrackets opening closing) :
    closeBracket? opening closing 0 false text = some (body, after) ↔
      text = body ++ closing :: after ∧ IsBalanced opening closing body := by
  constructor
  · intro hclose
    exact ⟨closeBracket?_eq_append hclose, closesBrackets_of_closeBracket? hbrackets hclose⟩
  · rintro ⟨rfl, hbody⟩
    rw [hbody.closeBracket?_append hbrackets, closeBracket?_last, Option.map_some, inFront,
      List.append_nil]

end Brackets

/-! ## Between braces -/

/-- Whether so many single quotes leave a place outside of all quotes, `quoted` telling whether the
text before them does not. -/
def IsOutside (quoted : Bool) (text : List Char) : Prop :=
  Even (text.count '\'' + quoted.toNat)

/-- A text that ends outside of quotes, and in which, with a first closing brace behind it, no two
closing braces stand outside of quotes. -/
structure StaysOpen (quoted : Bool) (body : List Char) : Prop where
  outside : IsOutside quoted body
  unclosed : ∀ before after, body ++ ['\x7d'] = before ++ '\x7d' :: '\x7d' :: after →
    ¬ IsOutside quoted before

section Braces

variable {quoted : Bool} {body after text : List Char}

theorem isOutside_cons (quoted : Bool) (c : Char) (text : List Char) :
    IsOutside quoted (c :: text) ↔ IsOutside (if c == '\'' then !quoted else quoted) text := by
  unfold IsOutside
  by_cases hc : c = '\''
  · subst hc
    cases quoted <;> simp [parity_simps]
  · rw [List.count_cons_of_ne hc]
    simp [hc]

theorem isOutside_nil (quoted : Bool) : IsOutside quoted [] ↔ quoted = false := by
  cases quoted <;> simp [IsOutside]

theorem staysOpen_nil : StaysOpen quoted [] ↔ quoted = false := by
  constructor
  · exact fun hopen => (isOutside_nil quoted).mp hopen.outside
  · rintro rfl
    refine ⟨(isOutside_nil false).mpr rfl, fun before after heq => ?_⟩
    have hlength := congrArg List.length heq
    simp only [List.nil_append, List.length_cons, List.length_append, List.length_nil] at hlength
    omega

/-- The first two characters decide whether a text stays open at its start. -/
theorem staysOpen_cons (c : Char) (body : List Char) :
    StaysOpen quoted (c :: body) ↔
      ¬ (quoted = false ∧ c = '\x7d' ∧ (body ++ ['\x7d']).head? = some '\x7d') ∧
        StaysOpen (if c == '\'' then !quoted else quoted) body := by
  constructor
  · rintro ⟨houtside, hunclosed⟩
    refine ⟨?_, (isOutside_cons quoted c body).mp houtside, fun before after heq => ?_⟩
    · rintro ⟨rfl, rfl, hhead⟩
      obtain ⟨after, hafter⟩ := List.head?_eq_some_iff.mp hhead
      exact hunclosed [] after (by rw [List.cons_append, hafter, List.nil_append])
        ((isOutside_nil false).mpr rfl)
    · have hlater := hunclosed (c :: before) after (by rw [List.cons_append, heq, List.cons_append])
      rwa [isOutside_cons] at hlater
  · rintro ⟨hstart, houtside, hunclosed⟩
    refine ⟨(isOutside_cons quoted c body).mpr houtside, fun before after heq => ?_⟩
    cases before with
    | nil =>
        rw [isOutside_nil]
        rintro rfl
        rw [List.cons_append, List.nil_append] at heq
        obtain ⟨rfl, htail⟩ := List.cons_eq_cons.mp heq
        exact hstart ⟨rfl, rfl, by rw [htail]; rfl⟩
    | cons d before =>
        rw [List.cons_append, List.cons_append] at heq
        obtain ⟨rfl, htail⟩ := List.cons_eq_cons.mp heq
        rw [isOutside_cons]
        exact hunclosed before after htail

/-- What the scanner looks for at its first two characters. -/
theorem head?_eq_of_append_eq {next : Char} {rest : List Char}
    (heq : next :: rest = body ++ '\x7d' :: '\x7d' :: after) :
    (body ++ ['\x7d']).head? = some next := by
  cases body with
  | nil => rw [(List.cons_eq_cons.mp heq).1]; rfl
  | cons c body => rw [(List.cons_eq_cons.mp heq).1]; rfl

/-- The scanner stops at the first two closing braces outside of quotes. -/
theorem closeBraces?_eq_some_iff :
    closeBraces? quoted text = some (body, after) ↔
      text = body ++ '\x7d' :: '\x7d' :: after ∧ StaysOpen quoted body := by
  induction quoted, text using closeBraces?.induct generalizing body with
  | case1 => simp [closeBraces?]
  | case2 quoted c =>
      rw [closeBraces?]
      constructor
      · rintro ⟨⟩
      · rintro ⟨htext, -⟩
        have hlength := congrArg List.length htext
        simp only [List.length_cons, List.length_append, List.length_nil] at hlength
        omega
  | case3 quoted c next rest hbraces =>
      rw [closeBraces?, if_pos hbraces]
      simp only [Bool.and_eq_true, beq_iff_eq, Bool.not_eq_eq_eq_not, Bool.not_true] at hbraces
      obtain ⟨⟨rfl, rfl⟩, rfl⟩ := hbraces
      constructor
      · intro hfound
        obtain ⟨rfl, rfl⟩ := Prod.mk.inj (Option.some.inj hfound)
        exact ⟨rfl, staysOpen_nil.mpr rfl⟩
      · rintro ⟨htext, hopen⟩
        cases body with
        | nil =>
            obtain ⟨-, htail⟩ := List.cons_eq_cons.mp htext
            rw [(List.cons_eq_cons.mp htail).2]
        | cons d body =>
            obtain ⟨rfl, htail⟩ := List.cons_eq_cons.mp htext
            exact absurd ⟨rfl, rfl, head?_eq_of_append_eq htail⟩
              ((staysOpen_cons _ body).mp hopen).1
  | case4 quoted c next rest hbraces ih =>
      rw [closeBraces?, if_neg hbraces]
      simp only [Bool.and_eq_true, beq_iff_eq, Bool.not_eq_eq_eq_not, Bool.not_true] at hbraces
      constructor
      · intro hfound
        obtain ⟨⟨inner, left⟩, hinner, heq⟩ := Option.map_eq_some_iff.mp hfound
        obtain ⟨rfl, rfl⟩ := Prod.mk.inj heq
        obtain ⟨htext, hopen⟩ := ih.mp hinner
        refine ⟨by rw [htext]; rfl, (staysOpen_cons c inner).mpr ⟨?_, hopen⟩⟩
        rintro ⟨rfl, rfl, hhead⟩
        rw [head?_eq_of_append_eq htext, Option.some.injEq] at hhead
        exact hbraces ⟨⟨rfl, rfl⟩, hhead⟩
      · rintro ⟨htext, hopen⟩
        cases body with
        | nil =>
            obtain ⟨rfl, htail⟩ := List.cons_eq_cons.mp htext
            exact absurd ⟨⟨staysOpen_nil.mp hopen, rfl⟩, (List.cons_eq_cons.mp htail).1⟩ hbraces
        | cons d body =>
            obtain ⟨rfl, htail⟩ := List.cons_eq_cons.mp htext
            rw [ih.mpr ⟨htail, ((staysOpen_cons c body).mp hopen).2⟩]
            rfl

end Braces

/-! ## Spans -/

/-- The kinds of spans. -/
inductive SpanKind where
  | expansion
  | runtime
  | variable

namespace SpanKind

def opening : SpanKind → List Char
  | expansion => ['$', '\x7b', '\x7b']
  | runtime => ['$', '[']
  | «variable» => ['$', '(']

def closing : SpanKind → List Char
  | expansion => ['\x7d', '\x7d']
  | runtime => [']']
  | «variable» => [')']

def segment : SpanKind → String → Segment
  | expansion => .expansion
  | runtime => .runtime
  | «variable» => .variable

/-- What may stand between the opening and the closing that belongs to it. -/
def IsBody : SpanKind → List Char → Prop
  | expansion => StaysOpen false
  | runtime => IsBalanced '[' ']'
  | «variable» => IsBalanced '(' ')'

/-- Whether the closing that belongs to an opening stands somewhere in what follows the opening. -/
def IsClosedIn (kind : SpanKind) (text : List Char) : Prop :=
  ∃ body after, kind.IsBody body ∧ text = body ++ kind.closing ++ after

/-- An opening begins with a dollar sign and has no other. -/
theorem opening_eq (kind : SpanKind) :
    ∃ bracket others, kind.opening = '$' :: bracket :: others ∧ '$' ∉ bracket :: others := by
  cases kind with
  | expansion => exact ⟨_, _, rfl, by decide⟩
  | runtime => exact ⟨_, _, rfl, by decide⟩
  | «variable» => exact ⟨_, _, rfl, by decide⟩

end SpanKind

theorem areBrackets_square : AreBrackets '[' ']' := ⟨by decide, by decide, by decide⟩

theorem areBrackets_round : AreBrackets '(' ')' := ⟨by decide, by decide, by decide⟩

namespace SpanKind

/-- The body of a span and the text behind it, sought by the scanner of its kind. -/
def close? : SpanKind → List Char → Option (List Char × List Char)
  | expansion => closeBraces? false
  | runtime => closeBracket? '[' ']' 0 false
  | «variable» => closeBracket? '(' ')' 0 false

theorem close?_eq_some_iff {kind : SpanKind} {text body after : List Char} :
    kind.close? text = some (body, after) ↔
      text = body ++ kind.closing ++ after ∧ kind.IsBody body := by
  rw [List.append_assoc]
  cases kind with
  | expansion => exact closeBraces?_eq_some_iff
  | runtime => exact closeBracket?_eq_some_iff areBrackets_square
  | «variable» => exact closeBracket?_eq_some_iff areBrackets_round

theorem openSpan?_opening (kind : SpanKind) (text : List Char) :
    openSpan? (kind.opening ++ text) =
      (kind.close? text).map fun found => (kind.segment (trimmedBody found.1), found.2) := by
  cases kind <;> rfl

theorem exists_opening_of_openSpan? {text : List Char} {found : Segment × List Char}
    (hopen : openSpan? text = some found) :
    ∃ (kind : SpanKind) (rest : List Char), text = kind.opening ++ rest := by
  unfold openSpan? at hopen
  split at hopen
  case h_1 rest => exact ⟨.expansion, rest, rfl⟩
  case h_2 rest => exact ⟨.runtime, rest, rfl⟩
  case h_3 rest => exact ⟨.variable, rest, rfl⟩
  case h_4 => cases hopen

end SpanKind

/-- A text starts with a span if it starts with an opening and has the closing that belongs to it.
-/
theorem openSpan?_eq_some_iff {text after : List Char} {segment : Segment} :
    openSpan? text = some (segment, after) ↔
      ∃ (kind : SpanKind) (body : List Char), kind.IsBody body ∧
        segment = kind.segment (trimmedBody body) ∧
        text = kind.opening ++ (body ++ kind.closing ++ after) := by
  constructor
  · intro hopen
    obtain ⟨kind, rest, rfl⟩ := SpanKind.exists_opening_of_openSpan? hopen
    rw [kind.openSpan?_opening] at hopen
    obtain ⟨⟨body, left⟩, hclose, heq⟩ := Option.map_eq_some_iff.mp hopen
    obtain ⟨rfl, rfl⟩ := Prod.mk.inj heq
    obtain ⟨rfl, hbody⟩ := SpanKind.close?_eq_some_iff.mp hclose
    exact ⟨kind, body, hbody, rfl, rfl⟩
  · rintro ⟨kind, body, hbody, rfl, rfl⟩
    rw [kind.openSpan?_opening, SpanKind.close?_eq_some_iff.mpr ⟨rfl, hbody⟩]
    rfl

theorem openSpan?_eq_none_iff {text : List Char} :
    openSpan? text = none ↔
      ∀ (kind : SpanKind) (rest : List Char), text = kind.opening ++ rest →
        ¬ kind.IsClosedIn rest := by
  constructor
  · rintro hopen kind rest rfl ⟨body, after, hbody, rfl⟩
    rw [openSpan?_eq_some_iff.mpr ⟨kind, body, hbody, rfl, rfl⟩] at hopen
    cases hopen
  · intro hunclosed
    refine Option.eq_none_iff_forall_ne_some.mpr ?_
    rintro ⟨segment, after⟩ hopen
    obtain ⟨kind, body, hbody, -, htext⟩ := openSpan?_eq_some_iff.mp hopen
    exact hunclosed kind _ htext ⟨body, after, hbody, rfl⟩

/-! ## Cutting a text -/

/-- A text is cut into segments that stand for consecutive pieces of it. -/
inductive IsCut : List Char → List Segment → Prop
  | nil : IsCut [] []
  /-- A span stands for its body without the blanks around it. -/
  | span {kind : SpanKind} {body rest : List Char} {segments : List Segment}
      (hbody : kind.IsBody body) (hrest : IsCut rest segments) :
      IsCut (kind.opening ++ (body ++ kind.closing ++ rest))
        (kind.segment (trimmedBody body) :: segments)
  /-- A plain stretch stands for itself.  An opening in it has no closing in the rest of the
  text. -/
  | plain {stretch rest : List Char} {segments : List Segment} (hne : stretch ≠ [])
      (hunclosed : ∀ (before : List Char) (kind : SpanKind) (behind : List Char),
        stretch = before ++ kind.opening ++ behind → ¬ kind.IsClosedIn (behind ++ rest))
      (hapart : ∀ text others, segments ≠ .plain text :: others) (hrest : IsCut rest segments) :
      IsCut (stretch ++ rest) (.plain (String.ofList stretch) :: segments)

namespace IsCut

variable {text rest : List Char} {segments : List Segment}

/-- Every segment stands for a character at least. -/
theorem length_le (hcut : IsCut text segments) : segments.length ≤ text.length := by
  induction hcut with
  | nil => exact Nat.le_refl 0
  | @span kind _ _ _ _ _ ih =>
      obtain ⟨bracket, others, hopening, -⟩ := kind.opening_eq
      simp only [List.length_append, hopening, List.length_cons]
      omega
  | plain hne _ _ _ ih =>
      have hpos := List.length_pos_iff.mpr hne
      simp only [List.length_append, List.length_cons]
      omega

/-- What is not cut off as a plain stretch starts with a dollar sign. -/
theorem head?_eq_dollar (hcut : IsCut text segments)
    (hapart : ∀ plain others, segments ≠ .plain plain :: others) (hne : text ≠ []) :
    text.head? = some '$' := by
  cases hcut with
  | nil => exact absurd rfl hne
  | @span kind =>
      obtain ⟨bracket, others, hopening, -⟩ := kind.opening_eq
      rw [hopening]
      rfl
  | plain => exact absurd rfl (hapart _ _)

/-- An opening that starts in a stretch ends in it. -/
theorem exists_eq_opening_append (hcut : IsCut rest segments)
    (hapart : ∀ plain others, segments ≠ .plain plain :: others) {stretch behind : List Char}
    {kind : SpanKind} (hne : stretch ≠ []) (heq : stretch ++ rest = kind.opening ++ behind) :
    ∃ inner, stretch = kind.opening ++ inner ∧ behind = inner ++ rest := by
  rcases List.append_eq_append_iff.mp heq with ⟨inner, hopening, rfl⟩ | ⟨inner, rfl, rfl⟩
  · cases inner with
    | nil =>
        refine ⟨[], ?_, rfl⟩
        rw [hopening, List.append_nil, List.append_nil]
    | cons c inner =>
        -- Else the rest would start with a part of the opening, in which there is no dollar sign.
        obtain ⟨first, others, rfl⟩ := List.exists_cons_of_ne_nil hne
        obtain ⟨bracket, marks, hmarks, hdollar⟩ := kind.opening_eq
        rw [hmarks, List.cons_append] at hopening
        obtain ⟨-, htail⟩ := List.cons_eq_cons.mp hopening
        have hhead := hcut.head?_eq_dollar hapart (List.cons_ne_nil _ _)
        rw [List.cons_append, List.head?_cons, Option.some.injEq] at hhead
        rw [htail, hhead] at hdollar
        simp at hdollar
  · exact ⟨inner, rfl, rfl⟩

/-- The scanner reads a plain stretch to its end. -/
theorem segmentsOf_stretch (hcut : IsCut rest segments)
    (hapart : ∀ plain others, segments ≠ .plain plain :: others)
    (hsegments : segmentsOf rest = segments) {stretch : List Char} (hne : stretch ≠ [])
    (hunclosed : ∀ (before : List Char) (kind : SpanKind) (behind : List Char),
      stretch = before ++ kind.opening ++ behind → ¬ kind.IsClosedIn (behind ++ rest)) :
    segmentsOf (stretch ++ rest) = .plain (String.ofList stretch) :: segments := by
  induction stretch with
  | nil => exact absurd rfl hne
  | cons c stretch ih =>
      have hopen : openSpan? (c :: stretch ++ rest) = none := by
        refine openSpan?_eq_none_iff.mpr fun kind behind heq => ?_
        obtain ⟨inner, hstretch, rfl⟩ := hcut.exists_eq_opening_append hapart hne heq
        exact hunclosed [] kind inner hstretch
      rw [List.cons_append] at hopen ⊢
      rw [segmentsOf_of_plain hopen]
      cases stretch with
      | nil =>
          rw [List.nil_append, hsegments]
          cases segments with
          | nil => rfl
          | cons segment others =>
              cases segment with
              | plain text => exact absurd rfl (hapart _ _)
              | _ => rfl
      | cons d stretch =>
          rw [ih (List.cons_ne_nil _ _) fun before kind behind hstretch =>
            hunclosed (c :: before) kind behind (by rw [hstretch]; rfl)]
          simp [pushPlain]

theorem eq_segmentsOf (hcut : IsCut text segments) : segmentsOf text = segments := by
  induction hcut with
  | nil => exact segmentsOf_nil
  | @span kind body rest segments hbody _ ih =>
      obtain ⟨bracket, others, hopening, -⟩ := kind.opening_eq
      have hopen : openSpan? (kind.opening ++ (body ++ kind.closing ++ rest)) =
          some (kind.segment (trimmedBody body), rest) :=
        openSpan?_eq_some_iff.mpr ⟨kind, body, hbody, rfl, rfl⟩
      rw [hopening, List.cons_append] at hopen ⊢
      rw [segmentsOf_of_open hopen, ih]
  | plain hne hunclosed hapart hrest ih => exact hrest.segmentsOf_stretch hapart ih hne hunclosed

/-- One more character in front, where no span starts. -/
theorem push {c : Char} (hopen : openSpan? (c :: text) = none) (hcut : IsCut text segments) :
    IsCut (c :: text) (pushPlain c segments) := by
  have hshort {before behind : List Char} {kind : SpanKind} :
      [c] ≠ before ++ kind.opening ++ behind := by
    intro heq
    obtain ⟨bracket, others, hopening, -⟩ := kind.opening_eq
    have hlength := congrArg List.length heq
    simp only [hopening, List.length_append, List.length_cons, List.length_nil] at hlength
    omega
  have halone (hapart : ∀ plain others, segments ≠ .plain plain :: others) :
      IsCut (c :: text) (.plain (String.singleton c) :: segments) :=
    .plain (List.cons_ne_nil c []) (fun _ _ _ heq => absurd heq hshort) hapart hcut
  cases hcut with
  | nil => exact halone fun _ _ => (List.cons_ne_nil _ _).symm
  | @span kind =>
      cases kind <;> exact halone fun _ _ heq => Segment.noConfusion (List.cons_eq_cons.mp heq).1
  | @plain stretch rest segments hne hunclosed hapart hrest =>
      rw [pushPlain, String.toList_ofList]
      show IsCut ((c :: stretch) ++ rest) (.plain (String.ofList (c :: stretch)) :: segments)
      refine .plain (List.cons_ne_nil _ _) ?_ hapart hrest
      intro before kind behind heq
      cases before with
      | nil =>
          refine openSpan?_eq_none_iff.mp hopen kind (behind ++ rest) ?_
          rw [← List.cons_append, heq, List.nil_append, List.append_assoc]
      | cons d before =>
          obtain ⟨-, htail⟩ := List.cons_eq_cons.mp heq
          exact hunclosed before kind behind htail

theorem segmentsOf (text : List Char) : IsCut text (segmentsOf text) := by
  induction text using segmentsOf.induct with
  | case1 => rw [segmentsOf_nil]; exact .nil
  | case2 c rest segment after hopen ih =>
      rw [segmentsOf_of_open hopen]
      obtain ⟨kind, body, hbody, rfl, htext⟩ := openSpan?_eq_some_iff.mp hopen
      rw [htext]
      exact .span hbody ih
  | case3 c rest hopen ih =>
      rw [segmentsOf_of_plain hopen]
      exact ih.push hopen

end IsCut

/-- The segments of a text cut it, and they are the only ones that do: plain stretches as they are
written and the trimmed bodies of spans, one behind the other, with no character left out or taken
twice; no stretch is empty or next to another one; and an opening in a stretch has no closing
anywhere behind it.  Since every segment takes up a character, there are at most as many of them as
there are characters. -/
theorem segments_partition_text (text : String) :
    (∀ cut, IsCut text.toList cut ↔ segments text = cut) ∧
      (segments text).length ≤ text.toList.length :=
  ⟨fun _ => ⟨IsCut.eq_segmentsOf, fun hcut => hcut ▸ IsCut.segmentsOf text.toList⟩,
    (IsCut.segmentsOf text.toList).length_le⟩

/-- A span, an opening without a closing around another span, and a quoted bracket. -/
example : segments "a $( x ) $\x7b\x7b $[ f(']') ]" =
    [.plain "a ", .variable "x", .plain " $\x7b\x7b ", .runtime "f(']')"] := by
  decide +kernel

end BuildPipeline.Expression
