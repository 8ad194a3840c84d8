import BuildPipeline.Proofs.Expression.PropertyReference

/-!
# Lexemes

Which texts read as which tokens, said without the size of the whole text that only faults are
located by.

* `tokenize_eq_ok_iff`: a text has these tokens exactly when it is their lexemes with blanks around
  them (`Lexes`).
* `readToken_append_of_allBlank`: blanks behind a text are no part of any lexeme.
* `parse_trim`: an expression reads the same without the blanks around it.
-/

namespace BuildPipeline.Expression

open Text

/-- A text is lexemes of these tokens, with blanks around them. -/
inductive Lexes : List Char → List Token → Prop
  | blanks {text : List Char} (hblank : AllBlank text) : Lexes text []
  | token {before rest after : List Char} {c : Char} {token : Token} {tokens : List Token}
      (hbefore : AllBlank before) (hstart : isBlank c = false)
      (hread : readToken c rest = .ok (token, after)) (hafter : Lexes after tokens) :
      Lexes (before ++ c :: rest) (token :: tokens)

theorem Lexes.lexeme {c : Char} {rest after : List Char} {token : Token} {tokens : List Token}
    (hstart : isBlank c = false) (hread : readToken c rest = .ok (token, after))
    (hafter : Lexes after tokens) : Lexes (c :: rest) (token :: tokens) :=
  show Lexes ([] ++ c :: rest) _ from .token (fun _ hmem => nomatch hmem) hstart hread hafter

theorem tokensFrom_eq (size : Nat) (text : List Char) :
    tokensFrom size text =
      match text.dropWhile isBlank with
      | [] => .ok []
      | c :: rest =>
        match readToken c rest with
        | .error fault => .error ⟨fault, size - Text.byteLength (c :: rest)⟩
        | .ok (token, after) => (tokensFrom size after).map (token :: ·) := by
  rw [tokensFrom]
  split
  case h_1 hskip => rw [hskip]
  case h_2 c rest hskip =>
      rw [hskip]
      dsimp only
      split
      case h_1 fault hread => rw [hread]
      case h_2 token after hread =>
          rw [hread]
          dsimp only
          split
          case h_1 error hafter => rw [hafter]; rfl
          case h_2 tokens hafter => rw [hafter]; rfl

theorem dropWhile_isBlank_append {before : List Char} (hbefore : AllBlank before) {c : Char}
    (hstart : isBlank c = false) (rest : List Char) :
    (before ++ c :: rest).dropWhile isBlank = c :: rest := by
  rw [List.dropWhile_append_of_pos hbefore, List.dropWhile_cons_of_neg (by simp [hstart])]

theorem Lexes.tokensFrom_eq_ok {text : List Char} {tokens : List Token} (hlexes : Lexes text tokens)
    (size : Nat) : tokensFrom size text = .ok tokens := by
  induction hlexes with
  | blanks hblank => rw [tokensFrom_eq, List.dropWhile_eq_nil_iff.mpr hblank]
  | token hbefore hstart hread _ ih =>
      rw [tokensFrom_eq, dropWhile_isBlank_append hbefore hstart]
      dsimp only
      rw [hread]
      dsimp only
      rw [ih]
      rfl

theorem lexes_of_tokensFrom {size : Nat} {text : List Char} {tokens : List Token}
    (htokens : tokensFrom size text = .ok tokens) : Lexes text tokens := by
  fun_induction tokensFrom size text generalizing tokens with
  | case1 text hskip =>
      cases htokens
      exact .blanks (List.dropWhile_eq_nil_iff.mp hskip)
  | case2 => cases htokens
  | case3 => cases htokens
  | case4 text c rest hskip token after hread tokens hafter ih =>
      cases htokens
      have htext : text = text.takeWhile isBlank ++ c :: rest := by
        rw [← hskip, List.takeWhile_append_dropWhile]
      have hstart : isBlank c = false := by
        have hhead := List.head?_dropWhile_not isBlank text
        rw [hskip] at hhead
        simpa using hhead
      rw [htext]
      exact .token (fun _ hmem => List.mem_takeWhile_imp hmem) hstart hread (ih hafter)

theorem tokenize_eq_ok_iff {text : String} {tokens : List Token} :
    tokenize text = .ok tokens ↔ Lexes text.toList tokens :=
  ⟨lexes_of_tokensFrom, fun hlexes => hlexes.tokensFrom_eq_ok _⟩

/-! ## Blanks behind a lexeme -/

theorem eq_false_of_isBlank {p : Char → Bool}
    (hp : ∀ code ∈ blankCodes, p (Char.ofNat code) = false) {c : Char} (hblank : isBlank c = true) :
    p c = false := by
  have hcode := hp c.toNat (toNat_mem_blankCodes hblank)
  rwa [Char.ofNat_toNat] at hcode

section Blanks

variable {blanks : List Char} (hblanks : AllBlank blanks)

include hblanks

theorem takeWhile_append_of_allBlank {p : Char → Bool}
    (hp : ∀ code ∈ blankCodes, p (Char.ofNat code) = false) (text : List Char) :
    (text ++ blanks).takeWhile p = text.takeWhile p := by
  induction text with
  | nil =>
      cases blanks with
      | nil => rfl
      | cons c rest =>
          rw [List.nil_append, List.takeWhile_cons_of_neg, List.takeWhile_nil]
          simp [eq_false_of_isBlank hp (hblanks c List.mem_cons_self)]
  | cons c rest ih => rw [List.cons_append, List.takeWhile_cons, List.takeWhile_cons, ih]

theorem dropWhile_append_of_allBlank {p : Char → Bool}
    (hp : ∀ code ∈ blankCodes, p (Char.ofNat code) = false) (text : List Char) :
    (text ++ blanks).dropWhile p = text.dropWhile p ++ blanks := by
  induction text with
  | nil =>
      cases blanks with
      | nil => rfl
      | cons c rest =>
          rw [List.nil_append, List.dropWhile_cons_of_neg, List.dropWhile_nil, List.nil_append]
          simp [eq_false_of_isBlank hp (hblanks c List.mem_cons_self)]
  | cons c rest ih =>
      rw [List.cons_append, List.dropWhile_cons, List.dropWhile_cons, ih]
      split <;> rfl

theorem readOperator_append_of_allBlank {second : Char} (hsecond : isBlank second = false)
    (joined : Token) (alone : Except LexicalFault Token) (text : List Char) :
    readOperator second joined alone (text ++ blanks) =
      (readOperator second joined alone text).map
        fun (token, after) => (token, after ++ blanks) := by
  cases text with
  | nil =>
      cases blanks with
      | nil => cases alone <;> rfl
      | cons c rest =>
          have hne : c ≠ second := by
            rintro rfl
            cases hsecond.symm.trans (hblanks c List.mem_cons_self)
          rw [List.nil_append]
          dsimp only [readOperator]
          rw [if_neg hne]
          cases alone <;> rfl
  | cons c rest =>
      rw [List.cons_append, readOperator, readOperator]
      split
      case isTrue => rfl
      case isFalse => cases alone <;> rfl

theorem ne_quote_of_mem_blanks : ∀ c ∈ blanks, c ≠ '\'' := by
  rintro c hmem rfl
  cases (show isBlank '\'' = false by decide).symm.trans (hblanks _ hmem)

theorem readQuoted?_eq_none_of_allBlank : readQuoted? blanks = none := by
  induction blanks with
  | nil => rfl
  | cons c rest ih =>
      have hquote := ne_quote_of_mem_blanks hblanks c List.mem_cons_self
      rw [readQuoted?, ih fun d hmem => hblanks d (List.mem_cons_of_mem c hmem), Option.map_none]
      · exact fun others heq => absurd heq hquote
      · exact hquote

theorem readQuoted?_append_of_allBlank (text : List Char) :
    readQuoted? (text ++ blanks) =
      (readQuoted? text).map fun (quoted, after) => (quoted, after ++ blanks) := by
  fun_induction readQuoted? text with
  | case1 => exact readQuoted?_eq_none_of_allBlank hblanks
  | case2 rest ih =>
      rw [List.cons_append, List.cons_append, readQuoted?, ih, Option.map_map, Option.map_map]
      rfl
  | case3 rest hrest =>
      rw [List.cons_append, readQuoted?]
      · rfl
      -- The closing quote is not doubled, neither in the text nor by the blanks.
      · intro others heq
        cases rest with
        | nil =>
            rw [List.nil_append] at heq
            exact ne_quote_of_mem_blanks hblanks '\'' (heq ▸ List.mem_cons_self) rfl
        | cons d further =>
            obtain ⟨rfl, -⟩ := List.cons.inj heq
            exact hrest further rfl
  | case4 c rest hdouble hsingle ih =>
      rw [List.cons_append, readQuoted?, ih, Option.map_map, Option.map_map]
      · rfl
      · exact fun _ hquote => absurd hquote hsingle
      · exact hsingle

theorem readNumber_append_of_allBlank (c : Char) (rest : List Char) :
    readNumber c (rest ++ blanks) =
      (readNumber c rest).map fun (token, after) => (token, after ++ blanks) := by
  have hnumber : ∀ code ∈ blankCodes, isNumberChar (Char.ofNat code) = false := by decide
  unfold readNumber
  dsimp only
  rw [takeWhile_append_of_allBlank hblanks hnumber, dropWhile_append_of_allBlank hblanks hnumber]
  split <;> rfl

theorem readToken_append_of_allBlank (c : Char) (rest : List Char) :
    readToken c (rest ++ blanks) =
      (readToken c rest).map fun (token, after) => (token, after ++ blanks) := by
  have hword : ∀ code ∈ blankCodes, isWordChar (Char.ofNat code) = false := by decide +kernel
  unfold readToken
  split
  case h_1 | h_2 | h_3 | h_4 | h_5 | h_6 => rfl
  case h_7 | h_8 | h_9 | h_10 | h_11 | h_12 =>
      exact readOperator_append_of_allBlank hblanks (by decide) _ _ _
  case h_13 =>
      dsimp only
      rw [readQuoted?_append_of_allBlank hblanks]
      cases readQuoted? rest <;> rfl
  case h_14 =>
      rw [readNumber_append_of_allBlank hblanks, takeWhile_append_of_allBlank hblanks hword,
        dropWhile_append_of_allBlank hblanks hword]
      split
      case isTrue => rfl
      case isFalse => split <;> rfl

end Blanks

theorem Lexes.of_append_blanks {text blanks : List Char} {tokens : List Token}
    (hlexes : Lexes (text ++ blanks) tokens) (hblanks : AllBlank blanks) : Lexes text tokens := by
  generalize hwhole : text ++ blanks = whole at hlexes
  induction hlexes generalizing text with
  | blanks hblank =>
      subst hwhole
      exact .blanks fun c hmem => hblank c (List.mem_append_left blanks hmem)
  | @token before rest after c token tokens hbefore hstart hread _ ih =>
      -- The lexeme starts in the text, since its first character is no blank.
      obtain ⟨further, rfl, hfurther⟩ : ∃ further, text = before ++ c :: further ∧
          rest = further ++ blanks := by
        have hnot : c ∉ blanks := fun hmem => by cases hstart.symm.trans (hblanks c hmem)
        rcases List.append_eq_append_iff.mp hwhole with ⟨front, -, hback⟩ | ⟨front, rfl, hback⟩
        · exact absurd (hback ▸ List.mem_append_right front List.mem_cons_self) hnot
        · cases front with
          | nil =>
              rw [List.nil_append] at hback
              exact absurd (hback ▸ List.mem_cons_self) hnot
          | cons d further =>
              obtain ⟨rfl, hrest⟩ := List.cons.inj hback
              exact ⟨further, rfl, hrest⟩
      rw [hfurther, readToken_append_of_allBlank hblanks] at hread
      cases hfront : readToken c further with
      | error fault => rw [hfront] at hread; cases hread
      | ok found =>
          obtain ⟨first, left⟩ := found
          rw [hfront] at hread
          cases hread
          exact .token hbefore hstart hfront (ih rfl)

/-- Blanks before a text are no part of any lexeme. -/
theorem lexes_blanks_append_iff {text blanks : List Char} {tokens : List Token}
    (hblanks : AllBlank blanks) : Lexes (blanks ++ text) tokens ↔ Lexes text tokens := by
  have hsame : tokensFrom 0 (blanks ++ text) = tokensFrom 0 text := by
    rw [tokensFrom_eq, List.dropWhile_append_of_pos hblanks, ← tokensFrom_eq]
  constructor
  · exact fun hlexes => lexes_of_tokensFrom (hsame.symm.trans (hlexes.tokensFrom_eq_ok 0))
  · exact fun hlexes => lexes_of_tokensFrom (hsame.trans (hlexes.tokensFrom_eq_ok 0))

theorem Lexes.trimChars {text : List Char} {tokens : List Token} (hlexes : Lexes text tokens) :
    Lexes (Text.trimChars text) tokens := by
  obtain ⟨before, after, hbefore, hafter, htext⟩ := exists_trimChars_between_blanks text
  rw [htext] at hlexes
  exact (lexes_blanks_append_iff hbefore).mp (hlexes.of_append_blanks hafter)

/-- Blanks around an expression do not change how it reads. -/
theorem parse_trim {text : String} {e : Expr} (hparse : parse text = .ok e) :
    parse (Text.trim text) = .ok e := by
  unfold parse at hparse ⊢
  split at hparse
  case h_1 => cases hparse
  case h_2 tokens htokens =>
      have htrim : tokenize (Text.trim text) = .ok tokens := by
        rw [tokenize_eq_ok_iff, Text.trim, String.toList_ofList]
        exact (tokenize_eq_ok_iff.mp htokens).trimChars
      rw [htrim]
      exact hparse

end BuildPipeline.Expression
