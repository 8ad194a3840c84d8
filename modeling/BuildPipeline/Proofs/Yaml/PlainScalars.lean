import BuildPipeline.Yaml.Reader
import Mathlib.Tactic.Common

/-!
# Texts that are one plain scalar

A text that is nothing but a scalar without quotes is read as the value that the scalar denotes.

* `PlainScalar` says which texts these are, word by word and gap by gap, and nothing about how they
  are scanned: what a word consists of (`IsWord`), how the first one begins (`BeginsPlain`), and
  what may follow behind a gap (`Continues`).
* `PlainScalar.content` is what the scalar says.  A gap inside a line stays as it is; of a gap that
  ends lines only the line endings count, a single one becomes a space, and of several a first
  newline is dropped (`foldGap`).
* `Gap.across` is the state in which the scanner leaves a gap, and `Gap.fold_across_nil` says that it
  holds the folded gap.
* `takePlainWord_append`, `scanGap_append` and `scanPlainFrom_words` follow the scanner through a
  word, a gap, and all of them; `PlainScalar.tokenize_text` gives the tokens.
* `PlainScalar.readValue_text` is the result: the content is resolved, and only an integer of more
  than 64 bits is refused.
-/

namespace BuildPipeline.Yaml

/-! ## Words and gaps -/

/-- The characters between the words of a scalar. -/
def isGapChar (c : Char) : Bool :=
  isSpaceOrTab c || isBreak c

/-- A run of characters that a plain scalar may have between two gaps.  A colon at its end would
mark a key. -/
structure IsWord (word : List Char) : Prop where
  nonempty : word ≠ []
  allowed : ∀ c ∈ word, isAllowed c = true
  solid : ∀ c ∈ word, isGapChar c = false
  noColon : word.getLast? ≠ some ':'

/-- A plain scalar does not begin with an indicator, unless it is one of three with more of the word
behind it. -/
def BeginsPlain : List Char → Prop
  | [] => False
  | c :: rest => Tokenizer.isIndicator c = false ∨ (c = '-' ∨ c = '?' ∨ c = ':') ∧ rest ≠ []

/-- The words that mark the start and the end of a document at the begin of a line. -/
def IsDocumentMark (word : List Char) : Prop :=
  word = ['-', '-', '-'] ∨ word = ['.', '.', '.']

/-- Blanks and line endings between two words. -/
structure IsGap (gap : List Char) : Prop where
  nonempty : gap ≠ []
  blank : ∀ c ∈ gap, isGapChar c = true

/-- Whether a line begins behind a gap. -/
def EndsLine (gap : List Char) : Prop :=
  ∃ c, gap.getLast? = some c ∧ isBreak c = true

/-- A word behind a gap.  It neither begins a comment nor marks a document. -/
structure Continues (gap word : List Char) : Prop where
  isGap : IsGap gap
  isWord : IsWord word
  noComment : word.head? ≠ some '#'
  noMark : EndsLine gap → ¬IsDocumentMark word

/-- The character that a line ending of one character leaves: itself, if it is one of the two
separators that are kept. -/
def keptEnding (c : Char) : Char :=
  if c.toNat == 0x2028 || c.toNat == 0x2029 then c else '\n'

/-- The line endings of a gap, each as the character that it leaves. -/
def lineEndings : List Char → List Char
  | '\r' :: '\n' :: rest => '\n' :: lineEndings rest
  | c :: rest => if isBreak c then keptEnding c :: lineEndings rest else lineEndings rest
  | [] => []

/-- What a scalar has in place of a gap. -/
def foldGap (gap : List Char) : List Char :=
  match lineEndings gap with
  | [] => gap
  | c :: more => if c = '\n' then (if more = [] then [' '] else more) else c :: more

/-- A text that is one scalar without quotes: a word, and then gaps with words behind them. -/
structure PlainScalar where
  first : List Char
  others : List (List Char × List Char)
  isWord : IsWord first
  begins : BeginsPlain first
  noMark : ¬IsDocumentMark first
  continues : ∀ part ∈ others, Continues part.1 part.2

namespace PlainScalar

variable (s : PlainScalar)

/-- The text behind the first word. -/
def written (others : List (List Char × List Char)) : List Char :=
  others.flatMap fun part => part.1 ++ part.2

/-- What the text behind the first word says. -/
def folded (others : List (List Char × List Char)) : List Char :=
  others.flatMap fun part => foldGap part.1 ++ part.2

@[simp] theorem written_nil : written [] = [] := rfl

@[simp] theorem folded_nil : folded [] = [] := rfl

@[simp] theorem written_cons (gap word : List Char) (others : List (List Char × List Char)) :
    written ((gap, word) :: others) = gap ++ (word ++ written others) :=
  List.append_assoc ..

@[simp] theorem folded_cons (gap word : List Char) (others : List (List Char × List Char)) :
    folded ((gap, word) :: others) = foldGap gap ++ (word ++ folded others) :=
  List.append_assoc ..

def text : String :=
  String.ofList (s.first ++ written s.others)

def content : String :=
  String.ofList (s.first ++ folded s.others)

end PlainScalar

/-- The value of a scalar with this content, if it is not refused. -/
def Resolved.value? (content : String) : Resolved → Option Value
  | .null => some .null
  | .bool value => some (.bool value)
  | .int value => some (.int value)
  | .wide _ => none
  | .float value => some (.float value)
  | .text => some (.string content)

/-! ## Scanning a word -/

section Words

variable {word tail : List Char} {mark start : Mark}

theorem startsBlank_append_of_word (hsolid : ∀ c ∈ word, isGapChar c = false) (hword : word ≠ []) :
    startsBlank (word ++ tail) = false := by
  cases word with
  | nil => exact absurd rfl hword
  | cons c rest => exact hsolid c List.mem_cons_self

theorem startsBlank_append_of_gap {gap : List Char} (hgap : IsGap gap) :
    startsBlank (gap ++ tail) = true := by
  cases gap with
  | nil => exact absurd rfl hgap.nonempty
  | cons c rest => exact hgap.blank c List.mem_cons_self

theorem forward_forward (mark : Mark) (m n : Nat) :
    (mark.forward m).forward n = mark.forward (m + n) := by
  simp [Mark.forward, Nat.add_assoc]

/-- A word is taken up to the blank behind it. -/
theorem takePlainWord_append (hsolid : ∀ c ∈ word, isGapChar c = false)
    (hcolon : word.getLast? ≠ some ':') (htail : startsBlank tail = true) :
    takePlainWord false start mark (word ++ tail) =
      .ok (word, ⟨tail, mark.forward word.length⟩) := by
  induction word generalizing mark with
  | nil =>
      cases tail with
      | nil => rfl
      | cons c rest => simp only [List.nil_append, takePlainWord, htail, if_true]; rfl
  | cons c word ih =>
      have hsolid' : ∀ d ∈ word, isGapChar d = false :=
        fun d hd => hsolid d (List.mem_cons_of_mem c hd)
      have hcolon' : word.getLast? ≠ some ':' := by
        cases word with
        | nil => simp
        | cons d word => simpa [List.getLast?_cons_cons] using hcolon
      have hblank : startsBlank (c :: (word ++ tail)) = false := hsolid c List.mem_cons_self
      have hjoined : colonBeforeIndicator false (c :: (word ++ tail)) = false := by
        unfold colonBeforeIndicator
        split <;> rfl
      -- A colon is not the last character of the word, so it does not end the scalar.
      have hends : endsPlain false (c :: (word ++ tail)) = false := by
        unfold endsPlain
        split
        case h_1 rest heq =>
          obtain ⟨rfl, rfl⟩ := List.cons.inj heq
          refine startsBlank_append_of_word hsolid' ?_
          rintro rfl
          exact hcolon rfl
        case h_2 => rfl
        case h_3 heq => cases heq
      simp only [List.cons_append, takePlainWord, hblank, hjoined, hends, ih hsolid' hcolon',
        Bool.false_eq_true, if_false, forward_forward, List.length_cons, Nat.add_comm 1]
      rfl

end Words

/-! ## Folding a gap -/

namespace Gap

/-- The state of a gap behind one more line ending. -/
def endLine (state : Gap) (c : Char) : Gap :=
  if state.broken then { state with trailing := state.trailing ++ [c] }
  else { state with blanks := [], broken := true, leading := some c }

/-- The state of a gap behind one more blank. -/
def addBlank (state : Gap) (c : Char) : Gap :=
  if state.broken then state else { state with blanks := state.blanks ++ [c] }

/-- The state behind all characters of a gap. -/
def across : Gap → List Char → Gap
  | state, '\r' :: '\n' :: rest => (state.endLine '\n').across rest
  | state, c :: rest =>
    if isBreak c then (state.endLine (keptEnding c)).across rest else (state.addBlank c).across rest
  | state, [] => state

variable {gap : List Char} {c : Char}

/-- Behind its first line ending a gap collects the others. -/
theorem across_broken (leading : Option Char) (trailing : List Char) :
    (⟨[], true, leading, trailing⟩ : Gap).across gap =
      ⟨[], true, leading, trailing ++ lineEndings gap⟩ := by
  induction gap using lineEndings.induct generalizing trailing with
  | case1 rest ih => simp [across, lineEndings, endLine, ih]
  | case2 c rest hpair hbreak ih =>
      rw [across.eq_2 _ c rest hpair, lineEndings.eq_2 c rest hpair, if_pos hbreak, if_pos hbreak]
      simp [endLine, ih]
  | case3 c rest hpair hbreak ih =>
      rw [across.eq_2 _ c rest hpair, lineEndings.eq_2 c rest hpair, if_neg hbreak, if_neg hbreak]
      simp [addBlank, ih]
  | case4 => simp [across, lineEndings]

/-- What is left of a gap that ends lines. -/
theorem fold_of_lineEndings {endings : List Char} (hendings : lineEndings gap = c :: endings) :
    fold ⟨[], true, some c, endings⟩ = foldGap gap := by
  by_cases hnewline : c = '\n'
  · subst hnewline
    simp [fold, foldGap, hendings]
  · simp [fold, foldGap, hendings, hnewline]

/-- A gap is folded from its state.  `blanks` are those before it. -/
theorem fold_across (blanks : List Char) : ((⟨blanks, false, none, []⟩ : Gap).across gap).fold =
    if lineEndings gap = [] then blanks ++ gap else foldGap gap := by
  induction gap using lineEndings.induct generalizing blanks with
  | case1 rest =>
      have hendings : lineEndings ('\r' :: '\n' :: rest) = '\n' :: lineEndings rest := rfl
      rw [hendings, if_neg (List.cons_ne_nil _ _), ← fold_of_lineEndings hendings]
      simp [across, endLine, across_broken]
  | case2 c rest hpair hbreak =>
      have hendings : lineEndings (c :: rest) = keptEnding c :: lineEndings rest := by
        rw [lineEndings.eq_2 c rest hpair, if_pos hbreak]
      rw [hendings, if_neg (List.cons_ne_nil _ _), ← fold_of_lineEndings hendings,
        across.eq_2 _ c rest hpair, if_pos hbreak]
      simp [endLine, across_broken]
  | case3 c rest hpair hbreak ih =>
      have hendings : lineEndings (c :: rest) = lineEndings rest := by
        rw [lineEndings.eq_2 c rest hpair, if_neg hbreak]
      have hfold : lineEndings rest ≠ [] → foldGap (c :: rest) = foldGap rest := by
        intro hsome
        rw [foldGap, foldGap, hendings]
        split <;> first | rfl | contradiction
      rw [hendings, across.eq_2 _ c rest hpair, if_neg hbreak]
      -- A blank before a line ending leaves no trace.
      split
      case isTrue hnone => simp [addBlank, ih, hnone]
      case isFalse hsome => simp [addBlank, ih, hsome, hfold hsome]
  | case4 => simp [across, fold, lineEndings]

theorem fold_across_nil (gap : List Char) : (({} : Gap).across gap).fold = foldGap gap := by
  rw [fold_across []]
  split
  case isTrue hnone => rw [foldGap, hnone, List.nil_append]
  case isFalse => rfl

end Gap

/-! ## Scanning a gap -/

section Gaps

variable {gap tail : List Char} {c : Char} {mark after start : Mark} {state : Gap} {fuel : Nat}

/-- A place behind a gap is not the first of a line, unless the gap ends one. -/
def Reaches (mark : Mark) (gap : List Char) (after : Mark) : Prop :=
  after.column = 0 → EndsLine gap ∨ gap = [] ∧ mark.column = 0

theorem EndsLine.cons (hends : EndsLine gap) : EndsLine (c :: gap) := by
  obtain ⟨last, hlast, hbreak⟩ := hends
  exact ⟨last, by rw [List.getLast?_cons, hlast]; rfl, hbreak⟩

theorem Reaches.endLine {next : Mark} (hreaches : Reaches next gap after)
    (hbreak : isBreak c = true) : Reaches mark (c :: gap) after := by
  intro hcolumn
  rcases hreaches hcolumn with hends | ⟨rfl, -⟩
  · exact .inl hends.cons
  · exact .inl ⟨c, rfl, hbreak⟩

theorem Reaches.cons (hreaches : Reaches mark gap after) (hgap : gap ≠ []) :
    Reaches mark (c :: gap) after :=
  fun hcolumn => .inl ((hreaches hcolumn).resolve_right fun h => hgap h.1).cons

theorem Reaches.blank (hreaches : Reaches (mark.forward 1) gap after) :
    Reaches mark (c :: gap) after := by
  intro hcolumn
  rcases hreaches hcolumn with hends | ⟨-, hzero⟩
  · exact .inl hends.cons
  · simp [Mark.forward] at hzero

theorem takeBreak?_cons (mark : Mark) (hpair : c = '\r' → tail.head? ≠ some '\n') :
    Cursor.takeBreak? ⟨c :: tail, mark⟩ =
      if isBreak c then some (keptEnding c, ⟨tail, mark.nextLine 1⟩) else none := by
  unfold Cursor.takeBreak?
  split
  case h_1 heq =>
    obtain ⟨rfl, rfl⟩ := List.cons.inj heq
    exact absurd rfl (hpair rfl)
  case h_2 heq =>
    obtain ⟨rfl, rfl⟩ := List.cons.inj heq
    rfl
  case h_3 heq => cases heq

/-- The two characters of one line ending are not parted by a gap's end. -/
theorem head?_append_ne_newline (htail : startsBlank tail = false)
    (hpair : ∀ rest, c = '\r' → gap = '\n' :: rest → False) :
    c = '\r' → (gap ++ tail).head? ≠ some '\n' := by
  intro hreturn hhead
  cases gap with
  | nil =>
      cases tail with
      | nil => cases hhead
      | cons d rest =>
          cases hhead
          cases htail
  | cons d rest =>
      cases hhead
      exact hpair rest hreturn rfl

theorem ne_return_of_not_isBreak (hbreak : isBreak c = false) :
    c = '\r' → tail.head? ≠ some '\n' := by
  rintro rfl
  cases hbreak

/-- Nothing is gone over where no gap is. -/
theorem scanGap_of_not_startsBlank (htail : startsBlank tail = false) :
    scanGap (some 0) start (fuel + 1) state ⟨tail, mark⟩ = .ok (state, ⟨tail, mark⟩) := by
  cases tail with
  | nil => rfl
  | cons c rest =>
      obtain ⟨hblank, hbreak⟩ := Bool.or_eq_false_iff.mp htail
      rw [scanGap, takeBreak?_cons mark (ne_return_of_not_isBreak hbreak), hbreak]
      simp [hblank]

theorem scanGap_blank {rest : List Char} (hblank : isSpaceOrTab c = true)
    (hbreak : isBreak c = false) :
    scanGap (some 0) start (fuel + 1) state ⟨c :: rest, mark⟩ =
      scanGap (some 0) start fuel (state.addBlank c) ⟨rest, mark.forward 1⟩ := by
  -- No column is to the left of the limit.
  have hcolumn : ¬(mark.column : Int) < 0 := by omega
  rw [scanGap, takeBreak?_cons mark (ne_return_of_not_isBreak hbreak), hbreak, Gap.addBlank]
  cases state.broken <;> simp [hblank, hcolumn, Cursor.skip]

theorem scanGap_break {rest : List Char} {next : Cursor}
    (htake : Cursor.takeBreak? ⟨rest, mark⟩ = some (c, next)) :
    scanGap (some 0) start (fuel + 1) state ⟨rest, mark⟩ =
      scanGap (some 0) start fuel (state.endLine c) next := by
  rw [scanGap, htake, Gap.endLine]
  cases state.broken <;> simp

/-- A gap is gone over up to the word behind it. -/
theorem scanGap_append (start mark : Mark) (state : Gap)
    (hgap : ∀ c ∈ gap, isGapChar c = true) (htail : startsBlank tail = false)
    (hfuel : gap.length < fuel) :
    ∃ after, scanGap (some 0) start fuel state ⟨gap ++ tail, mark⟩ =
        .ok (state.across gap, ⟨tail, after⟩) ∧
      Reaches mark gap after := by
  induction gap using lineEndings.induct generalizing state mark fuel with
  | case1 rest ih =>
      obtain ⟨fuel, rfl⟩ := Nat.exists_eq_add_one_of_ne_zero (Nat.ne_zero_of_lt hfuel)
      obtain ⟨after, hscan, hreaches⟩ := ih (mark.nextLine 2) (state.endLine '\n')
        (List.forall_mem_cons.mp (List.forall_mem_cons.mp hgap).2).2
        (show rest.length < fuel by simp only [List.length_cons] at hfuel; omega)
      refine ⟨after, ?_, (hreaches.endLine rfl).cons (List.cons_ne_nil _ _)⟩
      rw [List.cons_append, List.cons_append, scanGap_break rfl, hscan, Gap.across]
  | case2 c rest hpair hbreak ih =>
      obtain ⟨fuel, rfl⟩ := Nat.exists_eq_add_one_of_ne_zero (Nat.ne_zero_of_lt hfuel)
      obtain ⟨after, hscan, hreaches⟩ := ih (mark.nextLine 1) (state.endLine (keptEnding c))
        (List.forall_mem_cons.mp hgap).2 (Nat.succ_lt_succ_iff.mp hfuel)
      have htake := takeBreak?_cons mark (head?_append_ne_newline htail hpair)
      rw [if_pos hbreak] at htake
      refine ⟨after, ?_, hreaches.endLine hbreak⟩
      rw [List.cons_append, scanGap_break htake, hscan, Gap.across.eq_2 _ c rest hpair, if_pos hbreak]
  | case3 c rest hpair hbreak ih =>
      obtain ⟨fuel, rfl⟩ := Nat.exists_eq_add_one_of_ne_zero (Nat.ne_zero_of_lt hfuel)
      obtain ⟨hblank, hrest⟩ := List.forall_mem_cons.mp hgap
      obtain ⟨after, hscan, hreaches⟩ := ih (mark.forward 1) (state.addBlank c) hrest
        (Nat.succ_lt_succ_iff.mp hfuel)
      rw [isGapChar, Bool.or_eq_true, or_iff_left hbreak] at hblank
      refine ⟨after, ?_, hreaches.blank⟩
      rw [List.cons_append, scanGap_blank hblank (Bool.not_eq_true _ ▸ hbreak), hscan,
        Gap.across.eq_2 _ c rest hpair, if_neg hbreak]
  | case4 =>
      obtain ⟨fuel, rfl⟩ := Nat.exists_eq_add_one_of_ne_zero (Nat.ne_zero_of_lt hfuel)
      refine ⟨mark, ?_, fun hcolumn => .inr ⟨rfl, hcolumn⟩⟩
      rw [List.nil_append, scanGap_of_not_startsBlank htail, Gap.across]

end Gaps

/-! ## Scanning all words -/

section Scan

variable {word : List Char} {others : List (List Char × List Char)} {mark start : Mark}

theorem startsBlank_written (hothers : ∀ part ∈ others, Continues part.1 part.2) :
    startsBlank (PlainScalar.written others) = true := by
  cases others with
  | nil => rfl
  | cons part others =>
      rw [PlainScalar.written, List.flatMap_cons, List.append_assoc]
      exact startsBlank_append_of_gap (hothers part List.mem_cons_self).isGap

theorem takeWhile_solid_append {tail : List Char} (hsolid : ∀ c ∈ word, isGapChar c = false)
    (htail : startsBlank tail = true) :
    (word ++ tail).takeWhile (fun c => !isGapChar c) = word := by
  rw [List.takeWhile_append_of_pos fun c hc => by simp [hsolid c hc]]
  cases tail with
  | nil => simp
  | cons c rest =>
      have hc : isGapChar c = true := htail
      simp [hc]

/-- Only a word that marks a document is taken for such a mark. -/
theorem not_atDocumentMark {tail : List Char} (hsolid : ∀ c ∈ word, isGapChar c = false)
    (htail : startsBlank tail = true) (hmark : mark.column = 0 → ¬IsDocumentMark word) :
    Cursor.atDocumentMark ⟨word ++ tail, mark⟩ = false := by
  -- The word is what stands before the first blank.
  have hword := takeWhile_solid_append hsolid htail
  by_contra hat
  rw [Bool.not_eq_false, Cursor.atDocumentMark, Bool.and_eq_true, beq_iff_eq] at hat
  obtain ⟨hcolumn, hat⟩ := hat
  refine hmark hcolumn ?_
  split at hat
  case h_1 rest heq =>
    left
    have hdashes : (['-', '-', '-'] ++ rest).takeWhile (fun c => !isGapChar c) = ['-', '-', '-'] :=
      takeWhile_solid_append (by simp [isGapChar, isSpaceOrTab, isBreak]) hat
    rw [← hword, ← hdashes]
    exact congrArg _ heq
  case h_2 rest heq =>
    right
    have hdots : (['.', '.', '.'] ++ rest).takeWhile (fun c => !isGapChar c) = ['.', '.', '.'] :=
      takeWhile_solid_append (by simp [isGapChar, isSpaceOrTab, isBreak]) hat
    rw [← hword, ← hdots]
    exact congrArg _ heq
  case h_3 => cases hat

section Steps

variable {tail : List Char} {read : Scalar} {state : Gap} {fuel : Nat}

/-- What has been read once a word is added to it. -/
def Scalar.add (read : Scalar) (state : Gap) (word : List Char) (stop : Mark) : Scalar :=
  ⟨read.text ++ state.fold ++ word, read.style, stop, read.brokeLine⟩

/-- After a word the text ends or a gap follows. -/
theorem scanPlainFrom_word (hword : IsWord word) (hcomment : word.head? ≠ some '#')
    (hmark : mark.column = 0 → ¬IsDocumentMark word) (htail : startsBlank tail = true) :
    scanPlainFrom false 0 start (fuel + 1) read state ⟨word ++ tail, mark⟩ =
      let stop := mark.forward word.length
      let read := read.add state word stop
      if tail = [] then .ok ({ read with brokeLine := false }, ⟨[], stop⟩)
      else
        (scanGap (some 0) start (tail.length + 1) {} ⟨tail, stop⟩).bind fun behind =>
          scanPlainFrom false 0 start fuel read behind.1 behind.2 := by
  have hhead : ((word ++ tail).head? == some '#') = false := by
    rw [List.head?_append, Option.or_of_isSome (List.isSome_head?.mpr hword.nonempty)]
    exact beq_eq_false_iff_ne.mpr hcomment
  rw [scanPlainFrom, not_atDocumentMark hword.solid htail hmark, hhead]
  simp only [Bool.or_self, Bool.false_eq_true, if_false]
  rw [takePlainWord_append hword.solid hword.noColon htail]
  simp only [bind, Except.bind, if_neg hword.nonempty, htail, Bool.not_true, Bool.or_false,
    decide_eq_true_eq, Bool.not_false, Bool.true_and]
  split
  case isTrue hempty => rw [hempty]; rfl
  case isFalse =>
    cases scanGap (some 0) start (tail.length + 1) {} ⟨tail, mark.forward word.length⟩ with
    | error fault => rfl
    | ok behind =>
        -- No column is to the left of the first one.
        have hcolumn : ¬(behind.2.mark.column : Int) < 0 := by omega
        simp only [if_neg hcolumn]
        rfl

end Steps

/-- Words and the gaps between them are read to the end of the text. -/
theorem scanPlainFrom_words (start mark : Mark) (read : Scalar) (state : Gap) {fuel : Nat}
    (hword : IsWord word)
    (hcomment : word.head? ≠ some '#') (hmark : mark.column = 0 → ¬IsDocumentMark word)
    (hothers : ∀ part ∈ others, Continues part.1 part.2) (hfuel : others.length < fuel) :
    ∃ stop, scanPlainFrom false 0 start fuel read state
        ⟨word ++ PlainScalar.written others, mark⟩ =
      .ok (⟨read.text ++ state.fold ++ word ++ PlainScalar.folded others, read.style, stop, false⟩,
        ⟨[], stop⟩) := by
  induction others generalizing word read state mark fuel with
  | nil =>
      obtain ⟨fuel, rfl⟩ := Nat.exists_eq_add_one_of_ne_zero (Nat.ne_zero_of_lt hfuel)
      refine ⟨mark.forward word.length, ?_⟩
      rw [scanPlainFrom_word hword hcomment hmark rfl]
      simp [Scalar.add]
  | cons part others ih =>
      obtain ⟨fuel, rfl⟩ := Nat.exists_eq_add_one_of_ne_zero (Nat.ne_zero_of_lt hfuel)
      obtain ⟨gap, next⟩ := part
      obtain ⟨hpart, hothers'⟩ : Continues gap next ∧ ∀ part ∈ others, Continues part.1 part.2 :=
        List.forall_mem_cons.mp hothers
      have hnext : startsBlank (next ++ PlainScalar.written others) = false :=
        startsBlank_append_of_word hpart.isWord.solid hpart.isWord.nonempty
      -- The gap is gone over and leaves what its fold says before the next word.
      have hlength : gap.length < (gap ++ (next ++ PlainScalar.written others)).length + 1 := by
        rw [List.length_append]
        omega
      obtain ⟨after, hscan, hreaches⟩ := scanGap_append start (mark.forward word.length) {}
        hpart.isGap.blank hnext hlength
      have hmark' : after.column = 0 → ¬IsDocumentMark next := fun hcolumn =>
        hpart.noMark ((hreaches hcolumn).resolve_right fun h => hpart.isGap.nonempty h.1)
      obtain ⟨stop, hrest⟩ := ih after (read.add state word (mark.forward word.length))
        (({} : Gap).across gap) hpart.isWord hpart.noComment hmark' hothers'
        (Nat.succ_lt_succ_iff.mp hfuel)
      refine ⟨stop, ?_⟩
      rw [scanPlainFrom_word hword hcomment hmark (startsBlank_written hothers),
        PlainScalar.written_cons]
      have hsome : gap ++ (next ++ PlainScalar.written others) ≠ [] := by
        simp [hpart.isGap.nonempty]
      simp only [if_neg hsome, hscan, Except.bind]
      rw [hrest, Gap.fold_across_nil]
      simp [Scalar.add]

end Scan

/-! ## Tokens -/

namespace Tokenizer

variable {t : Tokenizer}

/-- Outside all collections, where nothing has to be a key. -/
structure Unbound (t : Tokenizer) : Prop where
  outerKeys : t.outerKeys = []
  outerIndents : t.outerIndents = []
  optional : ∀ key ∈ t.key, key.required = false

theorem Unbound.dropKey (hunbound : t.Unbound) : t.dropKey = .ok { t with key := none } := by
  rw [Tokenizer.dropKey]
  cases hkey : t.key with
  | none => simp [← hkey]
  | some key => simp [hunbound.optional key hkey]

theorem Unbound.dropUnreachable (hunbound : t.Unbound) :
    ∃ key, t.dropUnreachable = .ok { t with key } ∧ ({ t with key } : Tokenizer).Unbound := by
  obtain ⟨houter, hindents, hoptional⟩ := hunbound
  cases hkey : t.key with
  | none =>
      refine ⟨none, ?_, houter, hindents, by simp⟩
      simp [Tokenizer.dropUnreachable, houter, hkey, keepReachable, bind, Except.bind, pure,
        Except.pure]
  | some key =>
      have hrequired := hoptional key hkey
      by_cases hfar : isOutOfReach t.cursor.mark key = true
      · refine ⟨none, ?_, houter, hindents, by simp⟩
        simp [Tokenizer.dropUnreachable, houter, hkey, keepReachable, hfar, hrequired, bind,
          Except.bind, pure, Except.pure]
      · refine ⟨some key, ?_, houter, hindents, by simpa using hrequired⟩
        simp [Tokenizer.dropUnreachable, houter, hkey, keepReachable, hfar, bind, Except.bind, pure,
          Except.pure]

theorem Unbound.closeBlocks (hunbound : t.Unbound) (column : Int) : t.closeBlocks column = t := by
  rw [Tokenizer.closeBlocks, hunbound.outerIndents, closeBlocksFrom, ite_self]

/-- No blanks are gone over where none stand. -/
theorem skipBlanks_eq_self {fuel : Nat}
    (hhead : ∀ c ∈ t.cursor.rest.head?, isGapChar c = false ∧ c ≠ '#') :
    skipBlanks (fuel + 1) t = t := by
  obtain ⟨⟨rest, mark⟩, produced, count, indent, outerIndents, key, outerKeys, allowed⟩ := t
  cases rest with
  | nil => rfl
  | cons c rest =>
      obtain ⟨hgap, hcomment⟩ := hhead c rfl
      obtain ⟨hblank, hbreak⟩ := Bool.or_eq_false_iff.mp hgap
      obtain ⟨hspace, htab⟩ := Bool.or_eq_false_iff.mp hblank
      have hskip (kind : Char → Bool) (hkind : kind c = false) :
          Cursor.skipWhile ⟨c :: rest, mark⟩ kind = ⟨c :: rest, mark⟩ := by
        simp [Cursor.skipWhile, Cursor.takeWhile, Cursor.skip, hkind, Mark.forward]
      have hcomment : ((c :: rest).head? == some '#') = false :=
        beq_eq_false_iff_ne.mpr fun heq => hcomment (Option.some.inj heq)
      simp only [skipBlanks]
      rw [hskip _ (by simp [hspace, htab])]
      simp only [hcomment, Bool.false_eq_true, if_false, hbreak,
        takeBreak?_cons mark (ne_return_of_not_isBreak hbreak)]

/-- Where a word stands that can begin a plain scalar, one is read. -/
theorem fetchHere_of_beginsPlain {word tail : List Char} (hrest : t.cursor.rest = word ++ tail)
    (hsolid : ∀ c ∈ word, isGapChar c = false) (hbegins : BeginsPlain word)
    (hmark : t.cursor.atDocumentMark = false) (hflow : t.inFlow = false) :
    t.fetchHere = t.fetchPlain := by
  cases word with
  | nil => exact hbegins.elim
  | cons c word =>
      have hblank : isSpaceOrTab c = false :=
        (Bool.or_eq_false_iff.mp (hsolid c List.mem_cons_self)).1
      have hrest : t.cursor.rest = c :: (word ++ tail) := hrest
      rcases hbegins with hplain | ⟨hthree, hword⟩
      · have hstarts : startsPlain false (c :: (word ++ tail)) = true := by
          rw [startsPlain]
          · rw [hplain]; rfl
          · rintro rfl; cases hplain
        simp only [isIndicator, String.reduceToList, List.contains_cons, List.contains_nil,
          Bool.or_false, Bool.or_eq_false_iff] at hplain
        simp only [fetchHere, hrest]
        simp [hmark, hflow, hblank, hstarts, hplain]
      · have hnext : startsBlank (word ++ tail) = false :=
          startsBlank_append_of_word (List.forall_mem_cons.mp hsolid).2 hword
        have hstarts : startsPlain false (c :: (word ++ tail)) = true := by
          cases htext : word ++ tail with
          | nil => rw [htext] at hnext; cases hnext
          | cons d rest =>
              rw [htext] at hnext
              have hd : isSpaceOrTab d = false := (Bool.or_eq_false_iff.mp hnext).1
              rcases hthree with rfl | rfl | rfl <;> simp [startsPlain, hd, hnext]
        simp only [fetchHere, hrest]
        rcases hthree with rfl | rfl | rfl <;> simp [hmark, hflow, hblank, hstarts, hnext]

/-- At the end of the text the stream ends. -/
theorem Unbound.fetch_end (hunbound : t.Unbound) (hrest : t.cursor.rest = []) :
    ∃ next mark, t.fetch = .ok next ∧ next.produced = ⟨.streamEnd, mark, mark⟩ :: t.produced := by
  obtain ⟨key, hdrop, hunbound⟩ := hunbound.dropUnreachable
  let mark := if t.cursor.mark.column = 0 then t.cursor.mark else t.cursor.mark.nextLine 0
  let last : Tokenizer :=
    ({ t with cursor := ⟨[], mark⟩, key := none, keyAllowed := false }).push
      ⟨.streamEnd, mark, mark⟩
  have hend : ({ t with key } : Tokenizer).fetchStreamEnd = .ok last := by
    have hclosed : ({ t with cursor := ⟨[], mark⟩, key } : Tokenizer).Unbound :=
      ⟨hunbound.outerKeys, hunbound.outerIndents, hunbound.optional⟩
    simp only [fetchStreamEnd]
    rw [hclosed.closeBlocks, hclosed.dropKey]
    rfl
  have hlast : last.Unbound := ⟨hunbound.outerKeys, hunbound.outerIndents, by simp [last, push]⟩
  obtain ⟨key', hdrop', -⟩ := hlast.dropUnreachable
  refine ⟨{ last with key := key' }, mark, ?_, rfl⟩
  rw [fetch, skipBlanks_eq_self (by simp [hrest]), hdrop]
  show ((({ t with key } : Tokenizer).closeBlocks _).fetchHere >>= Tokenizer.dropUnreachable) = _
  rw [hunbound.closeBlocks, fetchHere]
  simp only [hrest]
  rw [hend]
  exact hdrop'

end Tokenizer

namespace PlainScalar

variable (s : PlainScalar)

theorem first_ne_comment : s.first.head? ≠ some '#' := by
  intro hhead
  have hbegins := s.begins
  cases hfirst : s.first with
  | nil => rw [hfirst] at hhead; cases hhead
  | cons c rest =>
      rw [hfirst] at hhead hbegins
      cases hhead
      rcases hbegins with hplain | ⟨hthree, -⟩
      · cases hplain
      · rcases hthree with heq | heq | heq <;> cases heq

theorem length_le_written {others : List (List Char × List Char)}
    (hothers : ∀ part ∈ others, Continues part.1 part.2) :
    others.length ≤ (written others).length := by
  induction others with
  | nil => exact Nat.le_refl 0
  | cons part others ih =>
      obtain ⟨hpart, hothers⟩ := List.forall_mem_cons.mp hothers
      have hgap := List.length_pos_iff.mpr hpart.isGap.nonempty
      have hrest := ih hothers
      obtain ⟨gap, word⟩ := part
      simp only [written_cons, List.length_append, List.length_cons] at hgap ⊢
      omega

/-- The scanner reads the text to its end, for what it says. -/
theorem scanPlain_text : ∃ stop, scanPlain false (-1) ⟨s.first ++ written s.others, .start⟩ =
    .ok (⟨s.content.toList, .plain, stop, false⟩, ⟨[], stop⟩) := by
  have hlength := length_le_written s.continues
  have hfuel : s.others.length < (s.first ++ written s.others).length + 1 := by
    rw [List.length_append]
    omega
  obtain ⟨stop, hscan⟩ := scanPlainFrom_words .start .start ⟨[], .plain, .start, false⟩ {} s.isWord
    s.first_ne_comment (fun _ => s.noMark) s.continues hfuel
  refine ⟨stop, ?_⟩
  rw [content, String.toList_ofList]
  exact hscan

/-- The tokenizer before the text. -/
def tokenizer : Tokenizer :=
  { cursor := ⟨s.first ++ written s.others, .start⟩ }

theorem fetch_text : ∃ t stop, s.tokenizer.fetch = .ok t ∧ t.Unbound ∧ t.cursor.rest = [] ∧
    t.produced = [⟨.scalar s.content .plain, .start, stop⟩] := by
  obtain ⟨stop, hscan⟩ := s.scanPlain_text
  have hstart : s.tokenizer.Unbound := ⟨rfl, rfl, by simp [tokenizer]⟩
  have hblank : Tokenizer.skipBlanks (s.tokenizer.cursor.rest.length + 1) s.tokenizer =
      s.tokenizer := by
    refine Tokenizer.skipBlanks_eq_self fun c hc => ?_
    have hfirst : s.first.head? = some c := by
      simpa [tokenizer, List.head?_append, Option.or_of_isSome,
        List.isSome_head?.mpr s.isWord.nonempty] using hc
    refine ⟨s.isWord.solid c (List.mem_of_head? hfirst), ?_⟩
    rintro rfl
    exact s.first_ne_comment hfirst
  have hmark : s.tokenizer.cursor.atDocumentMark = false :=
    not_atDocumentMark s.isWord.solid (startsBlank_written s.continues) fun _ => s.noMark
  have hplain : s.tokenizer.fetchHere = s.tokenizer.fetchPlain :=
    Tokenizer.fetchHere_of_beginsPlain rfl s.isWord.solid s.begins hmark rfl
  -- The scalar could still be a key, but need not be one.
  let read : Tokenizer :=
    { cursor := ⟨[], stop⟩
      produced := [⟨.scalar s.content .plain, .start, stop⟩]
      count := 1
      key := some ⟨false, 0, .start⟩
      keyAllowed := false }
  have hread : s.tokenizer.fetchPlain = .ok read := by
    have hallow : s.tokenizer.allowKey =
        .ok { s.tokenizer with key := some ⟨false, 0, .start⟩ } := rfl
    have hscan : scanPlain s.tokenizer.inFlow s.tokenizer.indent s.tokenizer.cursor =
        .ok (⟨s.content.toList, .plain, stop, false⟩, ⟨[], stop⟩) := hscan
    rw [Tokenizer.fetchPlain, hallow]
    show (scanPlain s.tokenizer.inFlow s.tokenizer.indent s.tokenizer.cursor >>= _) = _
    rw [hscan]
    simp [bind, Except.bind, pure, Except.pure, Tokenizer.pushScalar, Tokenizer.push, tokenizer,
      read]
  have hunbound : read.Unbound := ⟨rfl, rfl, by simp [read]⟩
  obtain ⟨key, hdrop, hunbound⟩ := hunbound.dropUnreachable
  refine ⟨{ read with key }, stop, ?_, hunbound, rfl, rfl⟩
  have hnothing : s.tokenizer.dropUnreachable = .ok s.tokenizer := rfl
  rw [Tokenizer.fetch, hblank, hnothing]
  show ((s.tokenizer.closeBlocks _).fetchHere >>= Tokenizer.dropUnreachable) = _
  rw [hstart.closeBlocks, hplain, hread]
  exact hdrop

theorem isAllowed_of_isGapChar {c : Char} (hgap : isGapChar c = true) : isAllowed c = true := by
  simp only [isGapChar, isSpaceOrTab, isBreak, Bool.or_eq_true, beq_iff_eq] at hgap
  rcases hgap with (rfl | rfl) | (((rfl | rfl) | h) | h) | h
  iterate 4 rfl
  all_goals rw [isAllowed, h]; rfl

theorem firstForbidden?_eq_none {text : List Char} (hallowed : ∀ c ∈ text, isAllowed c = true)
    (offset : Nat) : firstForbidden? offset text = none := by
  induction text generalizing offset with
  | nil => rfl
  | cons c text ih =>
      obtain ⟨hc, htext⟩ := List.forall_mem_cons.mp hallowed
      rw [firstForbidden?, if_pos hc, ih htext]

theorem withoutByteOrderMark_eq_self {text : List Char}
    (hallowed : ∀ c ∈ text, isAllowed c = true) : withoutByteOrderMark text = text := by
  cases text with
  | nil => rfl
  | cons c text =>
      rw [withoutByteOrderMark, if_neg]
      intro hmark
      have hc := hallowed c List.mem_cons_self
      rw [isAllowed, beq_iff_eq.mp hmark] at hc
      cases hc

theorem isAllowed_text : ∀ c ∈ s.first ++ written s.others, isAllowed c = true := by
  intro c hc
  rcases List.mem_append.mp hc with hfirst | hothers
  · exact s.isWord.allowed c hfirst
  · obtain ⟨part, hpart, hmem⟩ := List.mem_flatMap.mp hothers
    obtain ⟨hgap, hword, -, -⟩ := s.continues part hpart
    rcases List.mem_append.mp hmem with hc | hc
    · exact isAllowed_of_isGapChar (hgap.blank c hc)
    · exact hword.allowed c hc

/-- The tokens of the text are the scalar and the end. -/
theorem tokenize_text : ∃ stop last, tokenize s.text =
    ⟨[⟨.scalar s.content .plain, .start, stop⟩, ⟨.streamEnd, last, last⟩], none⟩ := by
  obtain ⟨t, stop, hfetch, hunbound, hrest, hproduced⟩ := s.fetch_text
  obtain ⟨next, last, hend, hnext⟩ := hunbound.fetch_end hrest
  refine ⟨stop, last, ?_⟩
  have hbody : withoutByteOrderMark s.text.toList = s.first ++ written s.others := by
    rw [text, String.toList_ofList, withoutByteOrderMark_eq_self s.isAllowed_text]
  have hfuel : ∃ fuel, (s.first ++ written s.others).length + 2 = fuel + 3 := by
    have := List.length_pos_iff.mpr s.isWord.nonempty
    exact ⟨(s.first ++ written s.others).length - 1, by rw [List.length_append]; omega⟩
  obtain ⟨fuel, hfuel⟩ := hfuel
  simp only [tokenize, hbody, firstForbidden?_eq_none s.isAllowed_text, hfuel]
  have hfirst : s.tokenizer.isFinished = false := rfl
  have hread : t.isFinished = false := by rw [Tokenizer.isFinished, hproduced]
  have hdone : next.isFinished = true := by rw [Tokenizer.isFinished, hnext]
  change fetchAll (fuel + 3) s.tokenizer = _
  simp [fetchAll, hfirst, hfetch, hread, hend, hdone, hnext, hproduced]

/-! ## Values -/

theorem compose_text : compose s.text =
    { root := .scalar .start none .plain s.content, followLimit := 100 } := by
  obtain ⟨stop, last, htokens⟩ := s.tokenize_text
  rw [compose, htokens]
  rfl

/-- What is read from the text: the value that the content is, unless that is an integer of more
than 64 bits. -/
theorem readValue_text : (readValue s.text).toOption = (resolve s.content).value? s.content := by
  rw [readValue, readText, s.compose_text]
  simp only [Reader.value, Node.toValue, resolveWritten, if_true]
  cases resolve s.content <;> rfl

/-- A line ending and the blanks around it are one space, and an empty line is one newline. -/
example : (readValue "fetch \n  all\n\nparts").toOption.bind Value.scalarText? =
    some "fetch all\nparts" := by
  decide +kernel

end PlainScalar

end BuildPipeline.Yaml
