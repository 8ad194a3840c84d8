import BuildPipeline.Proofs.Expression.Grammar
import BuildPipeline.Proofs.Expression.Lexemes
import BuildPipeline.Proofs.Template.Interpolation

/-!
# Expressions inside of spans

The scanners of spans know quotes, square brackets and braces, and nothing else of the language.
Still, an expression never closes the span around it.

* `Skips` follows the scanners over a text: the depth of the open square brackets and whether a
  quote is open.  `Nests` follows the brackets over tokens.
* `exists_of_readToken` says that no lexeme but a bracket moves the scanners, and `Derives.nests`
  that the brackets of an expression close.
* `isNeutral_of_parse` joins the two: behind an expression the scanners stand as before it.
* `expression_in_span_keeps_its_value` draws the conclusion for whole spans and for what they are
  filled in with.
-/

namespace BuildPipeline.Expression

open Text

/-! ## Brackets and quotes in a text -/

/-- The characters that the scanners of spans look at. -/
def scannedMarks : List Char := ['\'', '[', ']', '\x7d']

/-- Over this text the number of open square brackets goes from the first depth to the last, and a
quote is open or not before it and behind it.  Outside quotes there is no closing brace, and no
bracket closes that was not opened. -/
inductive Skips : Nat → Bool → List Char → Nat → Bool → Prop
  | nil (depth : Nat) (quoted : Bool) : Skips depth quoted [] depth quoted
  | quote {depth last : Nat} {quoted stays : Bool} {rest : List Char}
      (hrest : Skips depth (!quoted) rest last stays) : Skips depth quoted ('\'' :: rest) last stays
  | inside {depth last : Nat} {stays : Bool} {c : Char} {rest : List Char} (hquote : c ≠ '\'')
      (hrest : Skips depth true rest last stays) : Skips depth true (c :: rest) last stays
  | opening {depth last : Nat} {stays : Bool} {rest : List Char}
      (hrest : Skips (depth + 1) false rest last stays) : Skips depth false ('[' :: rest) last stays
  | closing {depth last : Nat} {stays : Bool} {rest : List Char}
      (hrest : Skips depth false rest last stays) : Skips (depth + 1) false (']' :: rest) last stays
  | outside {depth last : Nat} {stays : Bool} {c : Char} {rest : List Char}
      (hmark : c ∉ scannedMarks) (hrest : Skips depth false rest last stays) :
      Skips depth false (c :: rest) last stays

namespace Skips

variable {depth last : Nat} {quoted stays : Bool} {text : List Char}

theorem append (hskips : Skips depth quoted text last stays) {further : List Char} {finish : Nat}
    {still : Bool} (hfurther : Skips last stays further finish still) :
    Skips depth quoted (text ++ further) finish still := by
  induction hskips with
  | nil => exact hfurther
  | quote _ ih => exact .quote (ih hfurther)
  | inside hquote _ ih => exact .inside hquote (ih hfurther)
  | opening _ ih => exact .opening (ih hfurther)
  | closing _ ih => exact .closing (ih hfurther)
  | outside hmark _ ih => exact .outside hmark (ih hfurther)

theorem of_forall (htext : ∀ c ∈ text, c ∉ scannedMarks) (depth : Nat) :
    Skips depth false text depth false := by
  induction text with
  | nil => exact .nil depth false
  | cons c rest ih =>
      obtain ⟨hmark, hrest⟩ := List.forall_mem_cons.mp htext
      exact .outside hmark (ih hrest)

end Skips

theorem Skips.closeBraces?_append {depth last : Nat} {quoted stays : Bool}
    {text rest body after : List Char} (hskips : Skips depth quoted text last stays)
    (hclose : closeBraces? stays rest = some (body, after)) :
    closeBraces? quoted (text ++ rest) = some (text ++ body, after) := by
  -- Two braces close only outside quotes, so one character that is no brace is enough to go on.
  have hstep {quoted : Bool} {c : Char} {text : List Char} (hbrace : quoted = true ∨ c ≠ '\x7d')
      (hrest : closeBraces? (if c == '\'' then !quoted else quoted) (text ++ rest) =
        some (text ++ body, after)) :
      closeBraces? quoted (c :: text ++ rest) = some (c :: text ++ body, after) := by
    rw [List.cons_append]
    cases hnext : text ++ rest with
    | nil => rw [hnext] at hrest; cases hrest
    | cons next others =>
        rw [hnext] at hrest
        rw [closeBraces?, if_neg, hrest, Option.map_some, List.cons_append]
        rcases hbrace with rfl | hbrace <;> simp_all
  induction hskips with
  | nil => exact hclose
  | quote _ ih => exact hstep (.inr (by decide)) (ih hclose)
  | inside hquote _ ih => exact hstep (.inl rfl) (by simpa [hquote] using ih hclose)
  | opening _ ih => exact hstep (.inr (by decide)) (ih hclose)
  | closing _ ih => exact hstep (.inr (by decide)) (ih hclose)
  | outside hmark _ ih =>
      simp only [scannedMarks, List.mem_cons, List.not_mem_nil, or_false, not_or] at hmark
      exact hstep (.inr hmark.2.2.2) (by simpa [hmark.1] using ih hclose)

theorem Skips.closeBracket?_append {depth last : Nat} {quoted stays : Bool}
    {text rest body after : List Char} (hskips : Skips depth quoted text last stays)
    (hclose : closeBracket? '[' ']' last stays rest = some (body, after)) :
    closeBracket? '[' ']' depth quoted (text ++ rest) = some (text ++ body, after) := by
  induction hskips with
  | nil => exact hclose
  | quote _ ih => simp [closeBracket?, ih hclose]
  | inside hquote _ ih => simp [closeBracket?, hquote, ih hclose]
  | opening _ ih => simp [closeBracket?, ih hclose]
  | closing _ ih => simp [closeBracket?, ih hclose]
  | outside hmark _ ih =>
      simp only [scannedMarks, List.mem_cons, List.not_mem_nil, or_false, not_or] at hmark
      simp [closeBracket?, hmark, ih hclose]

/-! ## Lexemes -/

theorem exists_of_readQuoted? {text quoted after : List Char}
    (hread : readQuoted? text = some (quoted, after)) :
    ∃ body, text = body ++ after ∧ ∀ depth, Skips depth true body depth false := by
  fun_induction readQuoted? text generalizing quoted with
  | case1 => cases hread
  | case2 rest ih =>
      obtain ⟨⟨inner, left⟩, hinner, heq⟩ := Option.map_eq_some_iff.mp hread
      cases heq
      obtain ⟨body, rfl, hbody⟩ := ih hinner
      exact ⟨'\'' :: '\'' :: body, rfl, fun depth => .quote (.quote (hbody depth))⟩
  | case3 rest =>
      cases hread
      exact ⟨['\''], rfl, fun depth => .quote (.nil depth false)⟩
  | case4 c rest _ hquote ih =>
      obtain ⟨⟨inner, left⟩, hinner, heq⟩ := Option.map_eq_some_iff.mp hread
      cases heq
      obtain ⟨body, rfl, hbody⟩ := ih hinner
      exact ⟨c :: body, rfl, fun depth => .inside hquote (hbody depth)⟩

theorem not_mem_scannedMarks {p : Char → Bool} (hp : scannedMarks.any p = false) {c : Char}
    (hc : p c = true) : c ∉ scannedMarks :=
  fun hmem => absurd hc (List.any_eq_false.mp hp c hmem)

theorem exists_of_readOperator {second : Char} {joined token : Token}
    {alone : Except LexicalFault Token} {text after : List Char}
    (hread : readOperator second joined alone text = .ok (token, after)) :
    (token = joined ∧ text = second :: after) ∨ (alone = .ok token ∧ text = after) := by
  cases text with
  | nil =>
      cases alone with
      | error fault => cases hread
      | ok single => cases hread; exact .inr ⟨rfl, rfl⟩
  | cons c rest =>
      rw [readOperator] at hread
      split at hread
      case isTrue heq => cases hread; exact .inl ⟨rfl, by rw [heq]⟩
      case isFalse =>
          cases alone with
          | error fault => cases hread
          | ok single => cases hread; exact .inr ⟨rfl, rfl⟩

theorem exists_of_readNumber {c : Char} {rest after : List Char} {token : Token}
    (hread : readNumber c rest = .ok (token, after)) :
    ∃ value, token = .number value ∧ after = rest.dropWhile isNumberChar := by
  unfold readNumber at hread
  dsimp only at hread
  split at hread
  case h_1 value _ => cases hread; exact ⟨value, rfl, rfl⟩
  case h_2 => cases hread

theorem wordToken_not_mem (word : String) : wordToken word ∉ [.leftBracket, .rightBracket] := by
  unfold wordToken
  dsimp only
  split
  · simp
  · split
    · simp
    · split <;> simp

/-- The scanners of spans stand behind this text as they stood before it. -/
def IsNeutral (text : List Char) : Prop :=
  ∀ depth, Skips depth false text depth false

/-- A lexeme is a bracket by itself, or leaves the scanners of spans as they were. -/
theorem exists_of_readToken {c : Char} {rest after : List Char} {token : Token}
    (hread : readToken c rest = .ok (token, after)) :
    (token = .leftBracket ∧ c = '[' ∧ rest = after) ∨
    (token = .rightBracket ∧ c = ']' ∧ rest = after) ∨
    token ∉ [.leftBracket, .rightBracket] ∧
      ∃ body, rest = body ++ after ∧ IsNeutral (c :: body) := by
  -- Operators are written without brackets, quotes and braces, whether of one character or two.
  have hoperator {second : Char} {joined : Token} {alone : Except LexicalFault Token}
      (hc : c ∉ scannedMarks) (hsecond : second ∉ scannedMarks)
      (hjoined : joined ∉ [.leftBracket, .rightBracket])
      (halone : ∀ single, alone = .ok single → single ∉ [.leftBracket, .rightBracket])
      (hread : readOperator second joined alone rest = .ok (token, after)) :
      token ∉ [.leftBracket, .rightBracket] ∧
        ∃ body, rest = body ++ after ∧ IsNeutral (c :: body) := by
    rcases exists_of_readOperator hread with ⟨rfl, rfl⟩ | ⟨hsingle, rfl⟩
    · exact ⟨hjoined, [second], rfl, Skips.of_forall (by simp [hc, hsecond])⟩
    · exact ⟨halone token hsingle, [], rfl, Skips.of_forall (by simp [hc])⟩
  unfold readToken at hread
  split at hread
  case h_1 | h_2 | h_3 | h_4 =>
      cases hread
      exact .inr (.inr ⟨by simp, [], rfl, Skips.of_forall (by simp [scannedMarks])⟩)
  case h_5 => cases hread; exact .inl ⟨rfl, rfl, rfl⟩
  case h_6 => cases hread; exact .inr (.inl ⟨rfl, rfl, rfl⟩)
  case h_7 | h_8 | h_9 | h_10 | h_11 | h_12 =>
      exact .inr (.inr (hoperator (by decide) (by decide) (by simp) (by simp) hread))
  case h_13 =>
      split at hread
      case h_1 text left hquoted =>
          cases hread
          obtain ⟨body, rfl, hbody⟩ := exists_of_readQuoted? hquoted
          exact .inr (.inr ⟨by simp, body, rfl, fun depth => .quote (hbody depth)⟩)
      case h_2 => cases hread
  case h_14 =>
      split at hread
      case isTrue hnumber =>
          obtain ⟨value, rfl, rfl⟩ := exists_of_readNumber hread
          refine .inr (.inr ⟨by simp, rest.takeWhile isNumberChar,
            List.takeWhile_append_dropWhile.symm, Skips.of_forall ?_⟩)
          refine List.forall_mem_cons.mpr ⟨?_, fun d hmem => ?_⟩
          · exact not_mem_scannedMarks (p := fun c => c.isDigit || c == '-') (by decide) hnumber
          · exact not_mem_scannedMarks (by decide) (List.mem_takeWhile_imp hmem)
      case isFalse =>
        split at hread
        case isTrue hstart =>
          cases hread
          refine .inr (.inr ⟨wordToken_not_mem _, rest.takeWhile isWordChar,
            List.takeWhile_append_dropWhile.symm, Skips.of_forall ?_⟩)
          refine List.forall_mem_cons.mpr ⟨?_, fun d hmem => ?_⟩
          · exact not_mem_scannedMarks (by decide) hstart
          · exact not_mem_scannedMarks (by decide) (List.mem_takeWhile_imp hmem)
        case isFalse => cases hread

/-! ## Brackets among tokens -/

/-- Over these tokens the number of open square brackets goes from the first depth to the last. -/
inductive Nests : Nat → List Token → Nat → Prop
  | nil (depth : Nat) : Nests depth [] depth
  | opening {depth last : Nat} {ts : List Token} (hrest : Nests (depth + 1) ts last) :
      Nests depth (.leftBracket :: ts) last
  | closing {depth last : Nat} {ts : List Token} (hrest : Nests depth ts last) :
      Nests (depth + 1) (.rightBracket :: ts) last
  | other {depth last : Nat} {token : Token} {ts : List Token}
      (htoken : token ∉ [.leftBracket, .rightBracket]) (hrest : Nests depth ts last) :
      Nests depth (token :: ts) last

theorem Nests.append {depth middle last : Nat} {ts us : List Token} (hfirst : Nests depth ts middle)
    (hrest : Nests middle us last) : Nests depth (ts ++ us) last := by
  induction hfirst with
  | nil => exact hrest
  | opening _ ih => exact .opening (ih hrest)
  | closing _ ih => exact .closing (ih hrest)
  | other htoken _ ih => exact .other htoken (ih hrest)

theorem AllBlank.isNeutral {text : List Char} (hblank : AllBlank text) : IsNeutral text :=
  Skips.of_forall fun _ hmem => not_mem_scannedMarks (by decide) (hblank _ hmem)

/-- The text nests as its tokens do. -/
theorem Lexes.skips {text : List Char} {tokens : List Token} (hlexes : Lexes text tokens)
    {depth last : Nat} (hnests : Nests depth tokens last) : Skips depth false text last false := by
  induction hlexes generalizing depth with
  | blanks hblank =>
      cases hnests
      exact AllBlank.isNeutral hblank _
  | token hbefore _ hread _ ih =>
      refine (AllBlank.isNeutral hbefore depth).append ?_
      -- The brackets of the text are those of the tokens; the constructor of `Nests` must agree.
      rcases exists_of_readToken hread with
        ⟨rfl, rfl, rfl⟩ | ⟨rfl, rfl, rfl⟩ | ⟨htoken, body, rfl, hbody⟩
      · cases hnests with
        | opening hrest => exact .opening (ih hrest)
        | other htoken => simp at htoken
      · cases hnests with
        | closing hrest => exact .closing (ih hrest)
        | other htoken => simp at htoken
      · cases hnests with
        | opening => simp at htoken
        | closing => simp at htoken
        | other _ hrest => exact (hbody depth).append (ih hrest)

mutual

/-- What an expression is derived from closes its square brackets. -/
theorem Derives.nests {levels : List Level} {ts : List Token} {e : Expr} :
    Derives levels ts e → ∀ depth, Nests depth ts depth
  | .unary hunary, depth => hunary.nests depth
  | .tighter hoperand, depth => hoperand.nests depth
  | .binary hleft hop hright, depth =>
      (hleft.nests depth).append (.other (by cases hop <;> simp) (hright.nests depth))

theorem DerivesUnary.nests {ts : List Token} {e : Expr} :
    DerivesUnary ts e → ∀ depth, Nests depth ts depth
  | .not hoperand, depth => .other (by simp) (hoperand.nests depth)
  | .reference hpath, depth => .other (by simp) (hpath.nests depth)
  | .indexed hindexed, depth => hindexed.nests depth

theorem DerivesIndexed.nests {ts : List Token} {e : Expr} :
    DerivesIndexed ts e → ∀ depth, Nests depth ts depth
  | .primary hprimary, depth => hprimary.nests depth
  | .index hobject hkey, depth =>
      (hobject.nests depth).append
        (.opening ((hkey.nests (depth + 1)).append (.closing (.nil depth))))

theorem DerivesPrimary.nests {ts : List Token} {e : Expr} :
    DerivesPrimary ts e → ∀ depth, Nests depth ts depth
  | .null, depth => .other (by simp) (.nil depth)
  | .true, depth => .other (by simp) (.nil depth)
  | .false, depth => .other (by simp) (.nil depth)
  | .number _, depth => .other (by simp) (.nil depth)
  | .string _, depth => .other (by simp) (.nil depth)
  | .parens hinner, depth =>
      .other (by simp) ((hinner.nests depth).append (.other (by simp) (.nil depth)))
  | .emptyCall _, depth => .other (by simp) (.other (by simp) (.other (by simp) (.nil depth)))
  | .call harguments, depth =>
      .other (by simp) (.other (by simp)
        ((harguments.nests depth).append (.other (by simp) (.nil depth))))
  | .emptyArray, depth => .opening (.closing (.nil depth))
  | .array hitems, depth => .opening ((hitems.nests (depth + 1)).append (.closing (.nil depth)))
  | .arrayWithComma hitems, depth =>
      .opening ((hitems.nests (depth + 1)).append (.other (by simp) (.closing (.nil depth))))

theorem DerivesPath.nests {ts : List Token} {path : List Accessor} :
    DerivesPath ts path → ∀ depth, Nests depth ts depth
  | .nil, depth => .nil depth
  | .property hpath, depth => .other (by simp) (.other (by simp) (hpath.nests depth))
  | .element hkey hpath, depth =>
      .opening ((hkey.nests (depth + 1)).append (.closing (hpath.nests depth)))

theorem DerivesList.nests {ts : List Token} {es : List Expr} :
    DerivesList ts es → ∀ depth, Nests depth ts depth
  | .last hitem, depth => hitem.nests depth
  | .cons hitem hrest, depth =>
      (hitem.nests depth).append (.other (by simp) (hrest.nests depth))

end

/-! ## Spans around an expression -/

theorem isNeutral_of_parse {text : String} {e : Expr} (hparse : parse text = .ok e) :
    IsNeutral text.toList := by
  intro depth
  unfold parse at hparse
  split at hparse
  case h_1 => cases hparse
  case h_2 tokens htokens =>
      cases hread : parseTokens tokens with
      | error error => rw [hread] at hparse; cases hparse
      | ok tree =>
          exact (tokenize_eq_ok_iff.mp htokens).skips
            ((parseTokens_eq_ok_iff.mp hread).nests depth)

theorem toList_expansion (text : String) :
    ("$\x7b\x7b" ++ text ++ "\x7d\x7d").toList =
      expansionMark ++ (text.toList ++ ['\x7d', '\x7d']) := by
  simp [expansionMark]

section Spans

variable {text : String} {e : Expr} (hparse : parse text = .ok e)

include hparse

theorem closeBraces?_of_parse :
    closeBraces? false (text.toList ++ ['\x7d', '\x7d']) = some (text.toList, []) := by
  have hend : closeBraces? false ['\x7d', '\x7d'] = some ([], []) := rfl
  have hclose := (isNeutral_of_parse hparse 0).closeBraces?_append hend
  rwa [List.append_nil] at hclose

theorem segments_expansion :
    segments ("$\x7b\x7b" ++ text ++ "\x7d\x7d") = [.expansion (Text.trim text)] := by
  rw [segments, toList_expansion, segmentsOf_eq_expansion_iff]
  exact ⟨_, text.toList, rfl, closeBraces?_of_parse hparse, rfl⟩

theorem soleExpansion?_of_parse :
    soleExpansion? ("$\x7b\x7b" ++ text ++ "\x7d\x7d") = some (Text.trim text) := by
  refine soleExpansion?_eq_some_iff.mpr ⟨_, text.toList, ⟨⟨[], [], ?_, ?_, ?_⟩,
    closeBraces?_of_parse hparse⟩, rfl⟩
  · exact fun _ hmem => nomatch hmem
  · exact fun _ hmem => nomatch hmem
  · rw [toList_expansion, List.nil_append, List.append_nil]

theorem segments_runtime : segments ("$[" ++ text ++ "]") = [.runtime (Text.trim text)] := by
  have hlist : ("$[" ++ text ++ "]").toList = '$' :: '[' :: (text.toList ++ [']']) := by simp
  have hend : closeBracket? '[' ']' 0 false [']'] = some ([], []) := rfl
  -- The first bracket that closes on its own is the one behind the expression.
  have hclose := (isNeutral_of_parse hparse 0).closeBracket?_append hend
  have hopen : openSpan? ('$' :: '[' :: (text.toList ++ [']'])) =
      (closeBracket? '[' ']' 0 false (text.toList ++ [']'])).map
        fun found => (.runtime (trimmedBody found.1), found.2) := rfl
  rw [hclose, List.append_nil, Option.map_some] at hopen
  rw [segments, hlist, segmentsOf_of_open hopen, segmentsOf_nil, trimmedBody, Text.trim]

theorem evaluateText_trim (context : Context) :
    evaluateText context (Text.trim text) = evaluate context e := by
  rw [evaluateText, parse_trim hparse]

theorem evaluateText_expansion (context : Context) (file : String) {value : Value}
    (hvalue : evaluate context e = .ok value) :
    (Template.Scope.mk context file).evaluateText ("$\x7b\x7b" ++ text ++ "\x7d\x7d") =
      .ok value.toYaml := by
  rw [Template.Scope.evaluateText_of_sole (soleExpansion?_of_parse hparse), Template.Scope.eval,
    evaluateText_trim hparse, hvalue]
  rfl

theorem substituteRuntime_runtime (context : Context) :
    substituteRuntime context ("$[" ++ text ++ "]") =
      (evaluate context e).map Value.asText := by
  have hopens : Text.contains ("$[" ++ text ++ "]") "$[" = true := by
    rw [Text.contains, occursIn_iff_infix]
    exact ⟨[], text.toList ++ [']'], by simp⟩
  rw [substituteRuntime, if_pos hopens, segments_runtime hparse]
  simp only [List.mapM_cons, List.mapM_nil, substituteRuntimeSegment, evaluateText_trim hparse]
  cases evaluate context e with
  | error error => rfl
  | ok value => simp [Except.map, bind, Except.bind, pure, Except.pure, String.join]

end Spans

theorem conditionBody_runtime (text : String) : conditionBody ("$[" ++ text ++ "]") = text := by
  have htrim : trimChars ("$[" ++ text ++ "]").toList = '$' :: (('[' :: text.toList) ++ [']']) := by
    have hlist : ("$[" ++ text ++ "]").toList = '$' :: (('[' :: text.toList) ++ [']']) := by simp
    rw [hlist]
    exact trimChars_of_ends (by decide) (by decide)
  have hstart : stripStart? ['$', '['] ('$' :: (('[' :: text.toList) ++ [']'])) =
      some (text.toList ++ [']']) := stripStart?_eq_some_iff.mpr (by simp)
  have hend : stripEnd? [']'] (text.toList ++ [']']) = some text.toList := by
    rw [stripEnd?, stripStart?_eq_some_iff.mpr (show _ = _ ++ text.toList.reverse by simp)]
    simp
  rw [conditionBody, Text.trim, String.toList_ofList, htrim]
  rw [hstart, Option.bind_some, hend, Option.getD_some, String.ofList_toList]

/-- Whatever is an expression can stand in a span: the span is read whole, with blanks trimmed, and
filling it in gives the value of the expression in the form that the place asks for. -/
theorem expression_in_span_keeps_its_value {text : String} {e : Expr}
    (hparse : parse text = .ok e) :
    segments ("$\x7b\x7b" ++ text ++ "\x7d\x7d") = [.expansion (Text.trim text)] ∧
    segments ("$[" ++ text ++ "]") = [.runtime (Text.trim text)] ∧
    ∀ context value, evaluate context e = .ok value →
      (∀ file, (Template.Scope.mk context file).evaluateText
        ("$\x7b\x7b" ++ text ++ "\x7d\x7d") = .ok value.toYaml) ∧
      substituteRuntime context ("$[" ++ text ++ "]") = .ok value.asText ∧
      evaluateCondition context ("$[" ++ text ++ "]") = .ok value.isTruthy := by
  refine ⟨segments_expansion hparse, segments_runtime hparse, fun context value hvalue => ?_⟩
  refine ⟨fun file => evaluateText_expansion hparse context file hvalue, ?_, ?_⟩
  · rw [substituteRuntime_runtime hparse, hvalue]
    rfl
  · rw [evaluateCondition, conditionBody_runtime, evaluateText, hparse]
    exact congrArg (Except.map Value.isTruthy) hvalue

/-- Marks of spans inside of a quoted text, which is taken out of an array. -/
def quotedMarks : String := "['\x7d\x7d ''$[ ]'][0]"

theorem parse_quotedMarks :
    parse quotedMarks =
      .ok (.index (.array [.string "\x7d\x7d '$[ ]"]) (.number (.ofInt 0))) := by
  have hlist : quotedMarks.toList = ['[', '\'', '\x7d', '\x7d', ' ', '\'', '\'', '$', '[', ' ', ']',
      '\'', ']', '[', '0', ']'] := by
    decide
  have hnumber : readToken '0' [']'] = .ok (.number (.ofInt 0), [']']) := by decide
  have htokens : tokenize quotedMarks = .ok [.leftBracket, .string "\x7d\x7d '$[ ]", .rightBracket,
      .leftBracket, .number (.ofInt 0), .rightBracket] := by
    rw [tokenize_eq_ok_iff, hlist]
    refine .lexeme (by decide) rfl (.lexeme (by decide) rfl (.lexeme (by decide) rfl ?_))
    refine .lexeme (by decide) rfl (.lexeme (by decide) hnumber (.lexeme (by decide) rfl ?_))
    exact .blanks fun _ hmem => nomatch hmem
  rw [parse, htokens]
  rfl

theorem evaluate_quotedMarks (context : Context) :
    evaluate context (.index (.array [.string "\x7d\x7d '$[ ]"]) (.number (.ofInt 0))) =
      .ok (.string "\x7d\x7d '$[ ]") := by
  have hposition : (Binary64.ofInt 0).toPosition? = some 0 := by decide +kernel
  simp [evaluate, evaluateItems, indexValue, hposition, bind, Except.bind, pure, Except.pure,
    Except.map]

theorem expression_in_span_keeps_its_value_quotedMarks :
    segments ("$\x7b\x7b" ++ quotedMarks ++ "\x7d\x7d") =
      [.expansion (Text.trim quotedMarks)] ∧
    segments ("$[" ++ quotedMarks ++ "]") = [.runtime (Text.trim quotedMarks)] ∧
    (Template.Scope.mk {} "").evaluateText ("$\x7b\x7b" ++ quotedMarks ++ "\x7d\x7d") =
      .ok (.string "\x7d\x7d '$[ ]") ∧
    substituteRuntime {} ("$[" ++ quotedMarks ++ "]") = .ok "\x7d\x7d '$[ ]" ∧
    evaluateCondition {} ("$[" ++ quotedMarks ++ "]") = .ok true := by
  obtain ⟨hexpansion, hruntime, hvalue⟩ := expression_in_span_keeps_its_value parse_quotedMarks
  obtain ⟨hyaml, htext, htruth⟩ := hvalue {} _ (evaluate_quotedMarks {})
  exact ⟨hexpansion, hruntime, hyaml "", htext, htruth⟩

end BuildPipeline.Expression
