import Mathlib.Data.Bool.AllAny
import BuildPipeline.Proofs.Expression.Lexemes
import BuildPipeline.Proofs.Number.Reading

/-!
# Printed tokens

Tokens that are printed one after the other, with blanks between them, are read back.

* `IsLexeme` says that a text reads as one token wherever nothing or a blank follows it.  It is
  shown for each way of printing a token: `isLexeme_text`, `isLexeme_word`, `isLexeme_number` and
  `isLexeme_quoted`.
* `Spaced.lexes`: lexemes with blanks between them read as their tokens.
* `printed_tokens_are_read_back` draws the conclusion for tokens and the texts that print them.
-/

namespace BuildPipeline.Expression

open Text

/-- A text that reads as one token wherever nothing or a blank follows it. -/
def IsLexeme (token : Token) (lexeme : List Char) : Prop :=
  ∃ c rest, lexeme = c :: rest ∧ isBlank c = false ∧
    ∀ after, (∀ d ∈ after.head?, isBlank d = true) →
      readToken c (rest ++ after) = .ok (token, after)

/-! ## Lexemes with blanks between them -/

/-- The tokens in some written form, one after the other, with at least one blank between them. -/
inductive Spaced (Form : Token → List Char → Prop) : List Token → List Char → Prop
  | nil : Spaced Form [] []
  | last {token : Token} {lexeme : List Char} (hform : Form token lexeme) :
      Spaced Form [token] lexeme
  | cons {token : Token} {tokens : List Token} {lexeme gap text : List Char}
      (hform : Form token lexeme) (hgap : gap ≠ []) (hblank : AllBlank gap)
      (hrest : Spaced Form tokens text) : Spaced Form (token :: tokens) (lexeme ++ (gap ++ text))

theorem Spaced.mono {Form Other : Token → List Char → Prop}
    (himp : ∀ token lexeme, Form token lexeme → Other token lexeme) {tokens : List Token}
    {text : List Char} (hspaced : Spaced Form tokens text) : Spaced Other tokens text := by
  induction hspaced with
  | nil => exact .nil
  | last hform => exact .last (himp _ _ hform)
  | cons hform hgap hblank _ ih => exact .cons (himp _ _ hform) hgap hblank ih

theorem IsLexeme.lexes {token : Token} {lexeme after : List Char} {tokens : List Token}
    (hlexeme : IsLexeme token lexeme) (hhead : ∀ d ∈ after.head?, isBlank d = true)
    (hafter : Lexes after tokens) : Lexes (lexeme ++ after) (token :: tokens) := by
  obtain ⟨c, rest, rfl, hstart, hread⟩ := hlexeme
  exact .lexeme hstart (hread after hhead) hafter

theorem Spaced.lexes {tokens : List Token} {text : List Char}
    (hspaced : Spaced IsLexeme tokens text) : Lexes text tokens := by
  induction hspaced with
  | nil => exact .blanks fun _ hmem => nomatch hmem
  | @last token lexeme hlexeme =>
      have hlexes : Lexes (lexeme ++ []) [token] :=
        hlexeme.lexes (fun _ hhead => nomatch hhead) (.blanks fun _ hmem => nomatch hmem)
      rwa [List.append_nil] at hlexes
  | @cons _ _ _ gap _ hlexeme hgap hblank _ ih =>
      refine hlexeme.lexes (fun d hhead => ?_) ((lexes_blanks_append_iff hblank).mpr ih)
      rw [List.head?_append_of_ne_nil _ hgap] at hhead
      exact hblank d (List.mem_of_mem_head? hhead)

/-! ## Words and operators -/

/-- What no blank belongs to ends before one. -/
theorem eq_false_of_mem_head? {p : Char → Bool}
    (hp : ∀ code ∈ blankCodes, p (Char.ofNat code) = false) {after : List Char}
    (hafter : ∀ d ∈ after.head?, isBlank d = true) : ∀ d ∈ after.head?, p d = false :=
  fun d hhead => eq_false_of_isBlank hp (hafter d hhead)

theorem isLexeme_word {c : Char} {rest : List Char} (hstart : isWordStart c = true)
    (hrest : ∀ d ∈ rest, isWordChar d = true) :
    IsLexeme (wordToken (String.ofList (c :: rest))) (c :: rest) := by
  refine ⟨c, rest, rfl, not_isBlank_of_isWordChar (isWordChar_of_isWordStart hstart), ?_⟩
  intro after hafter
  exact readToken_word hstart hrest (eq_false_of_mem_head? (by decide +kernel) hafter)

section Operators

variable {joined : Token} (c second : Char) (hstart : isBlank c = false)

include hstart

theorem isLexeme_joined {alone : Except LexicalFault Token}
    (hread : ∀ rest, readToken c rest = readOperator second joined alone rest) :
    IsLexeme joined [c, second] := by
  refine ⟨c, [second], rfl, hstart, fun after _ => ?_⟩
  rw [List.singleton_append, hread, readOperator, if_pos rfl]

theorem isLexeme_alone {alone : Token} (hsecond : isBlank second = false)
    (hread : ∀ rest, readToken c rest = readOperator second joined (.ok alone) rest) :
    IsLexeme alone [c] := by
  refine ⟨c, [], rfl, hstart, fun after hafter => ?_⟩
  rw [List.nil_append, hread]
  cases after with
  | nil => rfl
  | cons d rest =>
      have hne : d ≠ second := by
        rintro rfl
        cases hsecond.symm.trans (hafter d rfl)
      rw [readOperator, if_neg hne]
      rfl

end Operators

/-- The tokens that carry no text of their own. -/
def Token.isFixed : Token → Bool
  | number _ | string _ | identifier _ => false
  | _ => true

theorem isLexeme_text {token : Token} (hfixed : token.isFixed = true) :
    IsLexeme token token.text.toList := by
  cases token with
  | number | string | identifier => cases hfixed
  | nullWord =>
      exact (isLexeme_word (by decide) (List.all_eq_true.mp (by decide)) :
        IsLexeme _ ['n', 'u', 'l', 'l'])
  | trueWord =>
      exact (isLexeme_word (by decide) (List.all_eq_true.mp (by decide)) :
        IsLexeme _ ['t', 'r', 'u', 'e'])
  | falseWord =>
      exact (isLexeme_word (by decide) (List.all_eq_true.mp (by decide)) :
        IsLexeme _ ['f', 'a', 'l', 's', 'e'])
  | dot | comma | leftParen | rightParen | leftBracket | rightBracket =>
      exact ⟨_, [], rfl, by decide, fun _ _ => rfl⟩
  | equal => exact isLexeme_joined '=' '=' (by decide) fun _ => rfl
  | notEqual => exact isLexeme_joined '!' '=' (by decide) fun _ => rfl
  | lessEqual => exact isLexeme_joined '<' '=' (by decide) fun _ => rfl
  | greaterEqual => exact isLexeme_joined '>' '=' (by decide) fun _ => rfl
  | and => exact isLexeme_joined '&' '&' (by decide) fun _ => rfl
  | or => exact isLexeme_joined '|' '|' (by decide) fun _ => rfl
  | not => exact isLexeme_alone '!' '=' (by decide) (by decide) fun _ => rfl
  | less => exact isLexeme_alone '<' '=' (by decide) (by decide) fun _ => rfl
  | greater => exact isLexeme_alone '>' '=' (by decide) (by decide) fun _ => rfl

/-! ## Numbers -/

theorem not_isBlank_of_isNumberStart {c : Char} (hstart : (c.isDigit || c == '-') = true) :
    isBlank c = false := by
  refine Bool.eq_false_iff.mpr fun hblank => ?_
  cases hstart.symm.trans
    (eq_false_of_isBlank (p := fun c => c.isDigit || c == '-') (by decide) hblank)

theorem readToken_of_isNumberStart {c : Char} (hstart : (c.isDigit || c == '-') = true)
    (rest : List Char) : readToken c rest = readNumber c rest := by
  unfold readToken
  split
  -- No punctuation mark starts a number.
  all_goals first
    | exact absurd hstart (by decide)
    | rw [if_pos hstart]

/-- A run of digits and points that reads as a number. -/
theorem isLexeme_number {c : Char} {rest : List Char} {value : Binary64}
    (hstart : (c.isDigit || c == '-') = true) (hrest : ∀ d ∈ rest, isNumberChar d = true)
    (hvalue : Binary64.readChars? (c :: rest) = some value) :
    IsLexeme (.number value) (c :: rest) := by
  refine ⟨c, rest, rfl, not_isBlank_of_isNumberStart hstart, fun after hafter => ?_⟩
  have hend := eq_false_of_mem_head? (p := isNumberChar) (by decide) hafter
  rw [readToken_of_isNumberStart hstart, readNumber, takeWhile_append_of_head? hrest hend,
    dropWhile_append_of_head? hrest hend, hvalue]

/-- Digits, and a point with digits behind it or nothing. -/
inductive IsUnsignedDecimal : List Char → Prop
  | whole {digits : List Char} (hne : digits ≠ []) (hdigits : ∀ d ∈ digits, d.isDigit = true) :
      IsUnsignedDecimal digits
  | fraction {digits places : List Char} (hne : digits ≠ [])
      (hdigits : ∀ d ∈ digits, d.isDigit = true) (hsome : places ≠ [])
      (hplaces : ∀ d ∈ places, d.isDigit = true) : IsUnsignedDecimal (digits ++ '.' :: places)

/-- A decimal literal: a minus sign or none, and an unsigned one. -/
inductive IsDecimal : List Char → Prop
  | positive {literal : List Char} (hdecimal : IsUnsignedDecimal literal) : IsDecimal literal
  | negative {literal : List Char} (hdecimal : IsUnsignedDecimal literal) :
      IsDecimal ('-' :: literal)

theorem IsUnsignedDecimal.exists_cons {literal : List Char} (hdecimal : IsUnsignedDecimal literal) :
    ∃ c rest, literal = c :: rest ∧ c.isDigit = true ∧ ∀ d ∈ rest, isNumberChar d = true := by
  have hnumber (d : Char) (hd : d.isDigit = true) : isNumberChar d = true := by
    rw [isNumberChar, hd, Bool.true_or]
  cases hdecimal with
  | whole hne hdigits =>
      obtain ⟨c, rest, rfl⟩ := List.exists_cons_of_ne_nil hne
      obtain ⟨hc, hrest⟩ := List.forall_mem_cons.mp hdigits
      exact ⟨c, rest, rfl, hc, fun d hmem => hnumber d (hrest d hmem)⟩
  | @fraction digits places hne hdigits _ hplaces =>
      obtain ⟨c, rest, rfl⟩ := List.exists_cons_of_ne_nil hne
      obtain ⟨hc, hrest⟩ := List.forall_mem_cons.mp hdigits
      refine ⟨c, rest ++ '.' :: places, rfl, hc, List.forall_mem_append.mpr ⟨?_, ?_⟩⟩
      · exact fun d hmem => hnumber d (hrest d hmem)
      · exact List.forall_mem_cons.mpr ⟨by decide, fun d hmem => hnumber d (hplaces d hmem)⟩

theorem IsUnsignedDecimal.exists_readUnsigned? {literal : List Char}
    (hdecimal : IsUnsignedDecimal literal) (negative : Bool) :
    ∃ value, Binary64.readUnsigned? negative literal = some value := by
  rw [Binary64.readUnsigned?_eq]
  cases hdecimal with
  | whole hne hdigits =>
      have htake : literal.takeWhile Char.isDigit = literal :=
        List.takeWhile_eq_self_iff.mpr hdigits
      have hdrop : literal.dropWhile Char.isDigit = [] := List.dropWhile_eq_nil_iff.mpr hdigits
      rw [htake, hdrop, if_neg fun hnone => hne hnone.1]
      exact ⟨_, rfl⟩
  | @fraction digits places hne hdigits _ hplaces =>
      have hpoint : ∀ d ∈ ('.' :: places).head?, d.isDigit = false := by
        rintro d ⟨⟩
        decide
      have hdrop : places.dropWhile Char.isDigit = [] := List.dropWhile_eq_nil_iff.mpr hplaces
      rw [takeWhile_append_of_head? hdigits hpoint, dropWhile_append_of_head? hdigits hpoint,
        Binary64.splitFraction, hdrop, if_neg fun hnone => hne hnone.1]
      exact ⟨_, rfl⟩

theorem IsUnsignedDecimal.splitSign_eq {literal : List Char}
    (hdecimal : IsUnsignedDecimal literal) :
    Binary64.splitSign literal = (false, literal) := by
  obtain ⟨c, rest, rfl, hc, -⟩ := hdecimal.exists_cons
  have hne (sign : Char) (hsign : sign.isDigit = false) : c ≠ sign := by
    rintro rfl
    cases hsign.symm.trans hc
  rw [Binary64.splitSign_cons, if_neg (hne '-' (by decide)), if_neg (hne '+' (by decide))]

theorem IsUnsignedDecimal.exists_readChars? {literal body : List Char} {negative : Bool}
    (hdecimal : IsUnsignedDecimal body) (hsign : Binary64.splitSign literal = (negative, body)) :
    ∃ value, Binary64.readChars? literal = some value := by
  obtain ⟨value, hvalue⟩ := hdecimal.exists_readUnsigned? negative
  obtain ⟨c, rest, rfl, hc, -⟩ := hdecimal.exists_cons
  -- The words for what is not finite start with a letter.
  have hword (word : List Char) (hletter : word.head?.any Char.isDigit = false) :
      (c :: rest).map Char.toLower ≠ word := by
    rintro rfl
    rw [List.map_cons, List.head?_cons, Option.any_some, isDigit_toLower, hc] at hletter
    cases hletter
  refine ⟨value, ?_⟩
  rw [Binary64.readChars?, hsign]
  dsimp only
  rw [if_neg (not_or.mpr ⟨hword _ (by decide), hword _ (by decide)⟩),
    if_neg (hword _ (by decide)), hvalue]

/-- No decimal literal is left without a number. -/
theorem IsDecimal.exists_readChars? {literal : List Char} (hdecimal : IsDecimal literal) :
    ∃ value, Binary64.readChars? literal = some value := by
  cases hdecimal with
  | positive hunsigned => exact hunsigned.exists_readChars? hunsigned.splitSign_eq
  | negative hunsigned => exact hunsigned.exists_readChars? rfl

theorem IsDecimal.isLexeme {literal : List Char} (hdecimal : IsDecimal literal) {value : Binary64}
    (hvalue : Binary64.readChars? literal = some value) : IsLexeme (.number value) literal := by
  cases hdecimal with
  | positive hunsigned =>
      obtain ⟨c, rest, rfl, hc, hrest⟩ := hunsigned.exists_cons
      exact isLexeme_number (by rw [hc, Bool.true_or]) hrest hvalue
  | negative hunsigned =>
      obtain ⟨c, rest, rfl, hc, hrest⟩ := hunsigned.exists_cons
      refine isLexeme_number (by decide) (List.forall_mem_cons.mpr ⟨?_, hrest⟩) hvalue
      rw [isNumberChar, hc, Bool.true_or]

/-! ## Texts in quotes -/

/-- Every quote is written twice. -/
def doubleQuotes (text : List Char) : List Char :=
  text.flatMap fun c => if c = '\'' then ['\'', '\''] else [c]

theorem readQuoted?_doubleQuotes (text : List Char) {after : List Char}
    (hafter : after.head? ≠ some '\'') :
    readQuoted? (doubleQuotes text ++ '\'' :: after) = some (text, after) := by
  induction text with
  | nil =>
      -- The quote is the closing one, since no other follows it.
      refine readQuoted?.eq_3 after fun rest heq => hafter ?_
      rw [heq, List.head?_cons]
  | cons c rest ih =>
      have hcons : doubleQuotes (c :: rest) =
          (if c = '\'' then ['\'', '\''] else [c]) ++ doubleQuotes rest := List.flatMap_cons
      rw [hcons, List.append_assoc]
      split
      case isTrue hquote =>
          rw [List.cons_append, List.singleton_append, readQuoted?, ih, hquote]
          rfl
      case isFalse hquote =>
          rw [List.singleton_append, readQuoted?, ih]
          · rfl
          · exact fun _ heq => absurd heq hquote
          · exact hquote

theorem isLexeme_quoted (text : List Char) :
    IsLexeme (.string (String.ofList text)) ('\'' :: (doubleQuotes text ++ ['\''])) := by
  refine ⟨'\'', _, rfl, by decide, fun after hafter => ?_⟩
  have hquote : after.head? ≠ some '\'' := fun hhead =>
    absurd (hafter '\'' hhead) (by decide)
  have hread := readQuoted?_doubleQuotes text hquote
  rw [List.append_assoc, List.singleton_append]
  rw [readToken, hread]

/-! ## Printing -/

/-- A name: a letter or an underscore, then letters and digits of any script, underscores and
minus signs, and none of the three literals in any letter case. -/
structure IsName (name : String) : Prop where
  starts : ∃ c rest, name.toList = c :: rest ∧ isWordStart c = true ∧
    ∀ d ∈ rest, isWordChar d = true
  notLiteral : ∀ literal ∈ ["null", "true", "false"], equalsIgnoringAsciiCase name literal = false

theorem IsName.wordToken {name : String} (hname : IsName name) :
    wordToken name = .identifier name := by
  have hplain : ∀ literal ∈ ["null", "true", "false"],
      (literal.toList.all fun c => IsPlainSmall c) = true := by
    decide
  have hne (literal : String) (hmem : literal ∈ ["null", "true", "false"]) :
      lower name ≠ literal := by
    rw [ne_eq, lower_eq_iff (List.all_iff_forall_prop.mp (hplain literal hmem)),
      hname.notLiteral literal hmem]
    exact Bool.false_ne_true
  rw [Expression.wordToken, if_neg (hne "null" (by simp)), if_neg (hne "true" (by simp)),
    if_neg (hne "false" (by simp))]

/-- The texts that print a token.  A number is printed as any decimal literal for it. -/
inductive Prints : Token → List Char → Prop
  | fixed {token : Token} (hfixed : token.isFixed = true) : Prints token token.text.toList
  | number {value : Binary64} {literal : List Char} (hdecimal : IsDecimal literal)
      (hvalue : Binary64.readChars? literal = some value) : Prints (.number value) literal
  | string (text : String) : Prints (.string text) ('\'' :: (doubleQuotes text.toList ++ ['\'']))
  | identifier {name : String} (hname : IsName name) : Prints (.identifier name) name.toList

theorem Prints.isLexeme {token : Token} {lexeme : List Char} (hprints : Prints token lexeme) :
    IsLexeme token lexeme := by
  cases hprints with
  | fixed hfixed => exact isLexeme_text hfixed
  | number hdecimal hvalue => exact hdecimal.isLexeme hvalue
  | string text =>
      have hlexeme := isLexeme_quoted text.toList
      rwa [String.ofList_toList] at hlexeme
  | @identifier name hname =>
      obtain ⟨c, rest, hlist, hstart, hrest⟩ := hname.starts
      have hlexeme := isLexeme_word hstart hrest
      rwa [← hlist, String.ofList_toList, hname.wordToken] at hlexeme

/-- Printed tokens with blanks between them are read back, one by one and in order; and a decimal
literal always prints a number. -/
theorem printed_tokens_are_read_back :
    (∀ tokens text, Spaced Prints tokens text.toList → tokenize text = .ok tokens) ∧
    ∀ literal, IsDecimal literal → ∃ value, Prints (.number value) literal := by
  refine ⟨fun tokens text hspaced => ?_, fun literal hdecimal => ?_⟩
  · rw [tokenize_eq_ok_iff]
    exact (hspaced.mono fun _ _ => Prints.isLexeme).lexes
  · obtain ⟨value, hvalue⟩ := hdecimal.exists_readChars?
    exact ⟨value, .number hdecimal hvalue⟩

/-- A minus sign goes on with the name and starts the number; the quote in the text is doubled. -/
theorem printed_tokens_are_read_back_between_blanks :
    Spaced Prints
        [.identifier "a-1", .notEqual, .string "it's", .or, .number (Binary64.ofRatio true 5 2)]
        "a-1 !=\t'it''s'\n ||  -2.5".toList ∧
      tokenize "a-1 !=\t'it''s'\n ||  -2.5" =
        .ok [.identifier "a-1", .notEqual, .string "it's", .or,
          .number (Binary64.ofRatio true 5 2)] ∧
      IsDecimal "-2.5".toList ∧ ∃ value, Prints (.number value) "-2.5".toList := by
  have hname : IsName "a-1" :=
    ⟨⟨'a', ['-', '1'], by decide, by decide, List.all_eq_true.mp (by decide)⟩, by decide⟩
  have hdecimal : IsDecimal "-2.5".toList :=
    .negative (.fraction (List.cons_ne_nil '2' []) (List.all_eq_true.mp (by decide))
      (List.cons_ne_nil '5' []) (List.all_eq_true.mp (by decide)))
  have hblank (gap : List Char) (hall : gap.all isBlank = true) : AllBlank gap :=
    List.all_eq_true.mp hall
  have hspaced : Spaced Prints
      [.identifier "a-1", .notEqual, .string "it's", .or, .number (Binary64.ofRatio true 5 2)]
      "a-1 !=\t'it''s'\n ||  -2.5".toList := by
    refine .cons (Prints.identifier hname) (List.cons_ne_nil ' ' []) (hblank _ (by decide)) ?_
    refine .cons (Prints.fixed rfl) (List.cons_ne_nil '\t' []) (hblank _ (by decide)) ?_
    refine .cons (Prints.string "it's") (List.cons_ne_nil '\n' [' ']) (hblank _ (by decide)) ?_
    refine .cons (Prints.fixed rfl) (List.cons_ne_nil ' ' [' ']) (hblank _ (by decide)) ?_
    exact .last (Prints.number hdecimal (by decide +kernel))
  exact ⟨hspaced, printed_tokens_are_read_back.1 _ _ hspaced, hdecimal,
    printed_tokens_are_read_back.2 _ hdecimal⟩

end BuildPipeline.Expression
