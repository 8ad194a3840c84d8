import BuildPipeline.Expression.Substitution
import BuildPipeline.Proofs.Expression.Spans

/-!
# References to a parameter

A parameter whose name is a word is the value of `parameters.name`, in a context without loop
variables.

* `readToken_word` reads a word up to the first character that is none of a word.
* `parse_parameter` reads the reference as a path of one property.
* `soleExpansion?_parameter` says that an expansion span around it is the whole of its text.
-/

namespace BuildPipeline

/-! ## Blanks are no letters -/

namespace Text

theorem inRuns_nil (code : Nat) : inRuns [] code = false := rfl

/-- A code point is in the first run, or behind it and in a later one. -/
theorem inRuns_cons_cons_iff {first next : Nat} {boundaries : List Nat} {code : Nat} :
    inRuns (first :: next :: boundaries) code = true ↔
      first ≤ code ∧ (code < next ∨ inRuns boundaries code = true) := by
  unfold inRuns
  by_cases hfirst : first ≤ code
  · by_cases hnext : next ≤ code
    · simp [hfirst, hnext, Nat.not_lt.mpr hnext, Nat.add_assoc]
    · simp [hfirst, hnext, Nat.not_le.mp hnext]
  · simp [hfirst]

/-- The code points of the blank characters. -/
def blankCodes : List Nat :=
  [9, 10, 11, 12, 13, 32, 133, 160, 5760, 8192, 8193, 8194, 8195, 8196, 8197, 8198, 8199, 8200,
    8201, 8202, 8232, 8233, 8239, 8287, 12288]

theorem toNat_mem_blankCodes {c : Char} (hblank : isBlank c = true) : c.toNat ∈ blankCodes := by
  simp only [isBlank, blankRuns, inRuns_cons_cons_iff, inRuns_nil, Bool.false_eq_true,
    or_false] at hblank
  simp only [blankCodes, List.mem_cons, List.not_mem_nil, or_false]
  omega

theorem isAlphanumeric_of_mem_blankCodes :
    ∀ code ∈ blankCodes, isAlphanumeric (Char.ofNat code) = false := by
  decide +kernel

end Text

namespace Expression

open Text

theorem not_isBlank_of_isWordChar {c : Char} (hword : isWordChar c = true) : isBlank c = false := by
  refine Bool.eq_false_iff.mpr fun hblank => ?_
  have hcode := toNat_mem_blankCodes hblank
  have hletter := isAlphanumeric_of_mem_blankCodes _ hcode
  rw [Char.ofNat_toNat] at hletter
  simp only [isWordChar, hletter, Bool.false_or, Bool.or_eq_true, beq_iff_eq] at hword
  rcases hword with rfl | rfl <;> revert hcode <;> decide

/-! ## Words -/

theorem toNat_of_isWordStart {c : Char} (hstart : isWordStart c = true) :
    (65 ≤ c.toNat ∧ c.toNat ≤ 90) ∨ (97 ≤ c.toNat ∧ c.toNat ≤ 122) ∨ c = '_' := by
  delta isWordStart Char.isAlpha Char.isUpper Char.isLower at hstart
  simp only [Bool.or_eq_true, Bool.and_eq_true, decide_eq_true_eq, beq_iff_eq, ge_iff_le,
    UInt32.le_iff_toNat_le] at hstart
  exact or_assoc.mp hstart

theorem isWordChar_of_isWordStart {c : Char} (hstart : isWordStart c = true) :
    isWordChar c = true := by
  have hascii : c.toNat < 128 := by
    rcases toNat_of_isWordStart hstart with hupper | hlower | rfl
    · omega
    · omega
    · decide
  simp only [isWordStart, Bool.or_eq_true, beq_iff_eq] at hstart
  rcases hstart with halpha | rfl
  · simp [isWordChar, isAlphanumeric, hascii, Char.isAlphanum, halpha]
  · decide

theorem not_isNumberStart_of_isWordStart {c : Char} (hstart : isWordStart c = true) :
    (c.isDigit || c == '-') = false := by
  refine Bool.eq_false_iff.mpr fun hnumber => ?_
  have hcode : c.toNat ≤ 57 := by
    rcases Bool.or_eq_true_iff.mp hnumber with hdigit | hminus
    · simp only [Char.isDigit, Bool.and_eq_true, decide_eq_true_eq, UInt32.le_iff_toNat_le]
        at hdigit
      exact hdigit.2
    · rw [beq_iff_eq] at hminus
      subst hminus
      decide
  rcases toNat_of_isWordStart hstart with hupper | hlower | rfl
  · omega
  · omega
  · exact absurd hcode (by decide)

/-- A name that can stand behind a dot: a word that is no literal. -/
structure IsPropertyName (name : String) : Prop where
  starts : ∃ c rest, name.toList = c :: rest ∧ isWordStart c = true ∧
    ∀ d ∈ rest, isWordChar d = true
  notLiteral : wordToken name = .identifier name

theorem IsPropertyName.isWordChar {name : String} (hname : IsPropertyName name) :
    ∀ c ∈ name.toList, isWordChar c = true := by
  obtain ⟨c, rest, hlist, hstart, hrest⟩ := hname.starts
  rw [hlist]
  exact List.forall_mem_cons.mpr ⟨isWordChar_of_isWordStart hstart, hrest⟩

section Split

variable {p : Char → Bool} {front after : List Char} (hfront : ∀ d ∈ front, p d = true)
  (hafter : ∀ d ∈ after.head?, p d = false)

include hfront hafter

theorem takeWhile_append_of_head? : (front ++ after).takeWhile p = front := by
  rw [List.takeWhile_append_of_pos hfront]
  cases after with
  | nil => simp
  | cons d rest => simp [hafter d rfl]

theorem dropWhile_append_of_head? : (front ++ after).dropWhile p = after := by
  rw [List.dropWhile_append_of_pos hfront]
  cases after with
  | nil => rfl
  | cons d rest => simp [hafter d rfl]

end Split

/-- A word is read up to the first character that belongs to none. -/
theorem readToken_word {c : Char} {rest after : List Char} (hstart : isWordStart c = true)
    (hrest : ∀ d ∈ rest, isWordChar d = true) (hafter : ∀ d ∈ after.head?, isWordChar d = false) :
    readToken c (rest ++ after) = .ok (wordToken (String.ofList (c :: rest)), after) := by
  unfold readToken
  split
  -- No punctuation mark starts a word.
  all_goals first
    | exact absurd hstart (by decide)
    | skip
  rw [not_isNumberStart_of_isWordStart hstart, hstart, takeWhile_append_of_head? hrest hafter,
    dropWhile_append_of_head? hrest hafter]
  rfl

theorem tokensFrom_nil (size : Nat) : tokensFrom size [] = .ok [] := by
  rw [tokensFrom]
  split
  case h_1 => rfl
  case h_2 hskip => cases hskip

theorem tokensFrom_cons {size : Nat} {c : Char} {rest after : List Char} {token : Token}
    {tokens : List Token} (hblank : isBlank c = false)
    (hread : readToken c rest = .ok (token, after))
    (hafter : tokensFrom size after = .ok tokens) :
    tokensFrom size (c :: rest) = .ok (token :: tokens) := by
  have hskip : (c :: rest).dropWhile isBlank = c :: rest := by simp [hblank]
  rw [tokensFrom]
  split
  case h_1 hnothing => rw [hskip] at hnothing; cases hnothing
  case h_2 c' rest' hskip' =>
      obtain ⟨rfl, rfl⟩ := List.cons.inj (hskip.symm.trans hskip')
      split
      case h_1 fault hfault => rw [hread] at hfault; cases hfault
      case h_2 token' after' hread' =>
          obtain ⟨rfl, rfl⟩ := Prod.mk.inj (Except.ok.inj (hread.symm.trans hread'))
          rw [hafter]

/-! ## The reference -/

/-- The expression for the value of a parameter. -/
def parameterReference (name : String) : String :=
  "parameters." ++ name

theorem lower_parameters : Text.lower "parameters" = "parameters" := by decide

theorem wordToken_parameters : wordToken "parameters" = .identifier "parameters" := by
  simp [wordToken, lower_parameters]

section Reference

variable {name : String}

theorem tokenize_parameterReference (hname : IsPropertyName name) :
    tokenize (parameterReference name) =
      .ok [.identifier "parameters", .dot, .identifier name] := by
  obtain ⟨c, rest, hlist, hstart, hrest⟩ := hname.starts
  have hparts : (parameterReference name).toList =
      'p' :: ("arameters".toList ++ '.' :: c :: rest) := by
    rw [parameterReference, String.toList_append, hlist]
    rfl
  have hname' : String.ofList (c :: rest) = name := by rw [← hlist, String.ofList_toList]
  have hlast : readToken c rest = .ok (.identifier name, []) := by
    have hread : readToken c (rest ++ []) = _ := readToken_word hstart hrest (by simp)
    rwa [List.append_nil, hname', hname.notLiteral] at hread
  have hroot : readToken 'p' ("arameters".toList ++ '.' :: c :: rest) =
      .ok (.identifier "parameters", '.' :: c :: rest) := by
    have hword : wordToken (String.ofList ('p' :: "arameters".toList)) =
        .identifier "parameters" := wordToken_parameters
    have hdot : ∀ d ∈ ('.' :: c :: rest).head?, isWordChar d = false := by
      rintro d ⟨⟩
      decide
    have hrest : ∀ d ∈ "arameters".toList, isWordChar d = true := List.all_eq_true.mp (by decide)
    rw [readToken_word (by decide) hrest hdot, hword]
  rw [tokenize, hparts]
  refine tokensFrom_cons (by decide) hroot ?_
  refine tokensFrom_cons (by decide) rfl ?_
  exact tokensFrom_cons (not_isBlank_of_isWordChar (isWordChar_of_isWordStart hstart)) hlast
    (tokensFrom_nil _)

theorem parse_parameterReference (hname : IsPropertyName name) :
    parse (parameterReference name) = .ok (.reference "parameters" [.property name]) := by
  rw [parse, tokenize_parameterReference hname]
  rfl

theorem evaluate_parameterReference {context : Context} (hlocals : context.locals = [])
    (name : String) :
    evaluate context (.reference "parameters" [.property name]) =
      .ok ((context.parameters.get? name).getD .null) := by
  have hroot : rootValue context "parameters" = .ok (.ofTable context.parameters) := by
    rw [rootValue, hlocals, lower_parameters]
    rfl
  have hvariables : Text.equalsIgnoringAsciiCase "parameters" "variables" = false := by
    decide
  simp only [evaluate, hvariables, hroot, Bool.false_eq_true, if_false, evaluatePath, memberValue,
    Value.ofTable, bind, Except.bind]

/-- Outside of loops the reference is the parameter. -/
theorem evaluateText_parameterReference {context : Context} (hname : IsPropertyName name)
    (hlocals : context.locals = []) :
    evaluateText context (parameterReference name) =
      .ok ((context.parameters.get? name).getD .null) := by
  rw [evaluateText, parse_parameterReference hname]
  exact evaluate_parameterReference hlocals name

/-- A body without quotes and braces ends at the braces behind it. -/
theorem soleExpansion?_writeExpansion {body : String}
    (hbody : ∀ c ∈ body.toList, c ≠ '\'' ∧ c ≠ '\x7d') :
    soleExpansion? (writeExpansion body) = some (Text.trim body) := by
  have hspace : AllBlank [' '] := fun c hmem => by
    rw [List.mem_singleton.mp hmem]
    decide
  have hspan : (writeExpansion body).toList =
      [] ++ (expansionMark ++ (([' '] ++ body.toList ++ [' ']) ++ ['\x7d', '\x7d'])) ++ [] := by
    simp [writeExpansion, expansionMark]
  have hinner : ∀ c ∈ [' '] ++ body.toList ++ [' '], c ≠ '\'' ∧ c ≠ '\x7d' := by
    intro c hmem
    rcases List.mem_append.mp hmem with hfront | hback
    · rcases List.mem_append.mp hfront with hback | hinside
      · rw [List.mem_singleton.mp hback]
        decide
      · exact hbody c hinside
    · rw [List.mem_singleton.mp hback]
      decide
  refine soleExpansion?_eq_some_iff.mpr
    ⟨_, _, ⟨⟨[], [], by simp [AllBlank], by simp [AllBlank], hspan⟩,
      closeBraces?_of_forall [] hinner⟩, ?_⟩
  rw [trimmedBody, trimChars_between_blanks hspace hspace, Text.trim]

theorem mem_parameterReference (hname : IsPropertyName name) :
    ∀ c ∈ (parameterReference name).toList, c = '.' ∨ isWordChar c = true := by
  intro c hmem
  rw [parameterReference, String.toList_append, List.mem_append] at hmem
  have hroot : ∀ c ∈ "parameters.".toList, (c == '.' || isWordChar c) = true :=
    List.all_eq_true.mp (by decide)
  rcases hmem with hfront | hback
  · exact (Bool.or_eq_true_iff.mp (hroot c hfront)).imp_left eq_of_beq
  · exact Or.inr (hname.isWordChar c hback)

/-- The expansion span of the reference is the whole text. -/
theorem soleExpansion?_parameterReference (hname : IsPropertyName name) :
    soleExpansion? (writeExpansion (parameterReference name)) = some (parameterReference name) := by
  have hmem := mem_parameterReference hname
  have hplain : ∀ c ∈ (parameterReference name).toList, c ≠ '\'' ∧ c ≠ '\x7d' := by
    intro c hc
    constructor <;> rintro rfl <;> exact absurd (hmem _ hc) (by decide)
  have htrim : Text.trim (parameterReference name) = parameterReference name := by
    rw [Text.trim, trimChars_of_forall, String.ofList_toList]
    intro c hc
    rcases hmem c hc with rfl | hword
    · decide
    · exact not_isBlank_of_isWordChar hword
  rw [soleExpansion?_writeExpansion hplain, htrim]

end Reference

end Expression

end BuildPipeline
