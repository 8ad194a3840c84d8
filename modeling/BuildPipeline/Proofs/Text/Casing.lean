import BuildPipeline.Text.Blank
import BuildPipeline.Text.Casing

/-!
# Letter case of texts

Two foldings of letter case are in use: `Char.toLower` moves the capitals of ASCII and nothing else,
and `lower` knows all scripts and the place of a letter in its word.

* `apply_toLower`: what does not tell the ASCII capitals from their small letters does not see the
  first folding.  Most of what looks at a character is of this kind.
* `lower_eq_of_equalsIgnoringAsciiCase`: texts that agree in the first sense agree in the second.
* `lower_eq_lower_iff`: on texts without capitals beyond ASCII both senses are one.
* `lower_eq_iff`: so they are for a word without the letters that have a capital beyond ASCII.
-/

namespace BuildPipeline.Text

/-! ## Characters -/

theorem toLower_cases (c : Char) :
    c.toLower = c ∨ ∃ n < 26, c = Char.ofNat (65 + n) ∧ c.toLower = Char.ofNat (97 + n) := by
  have hcapital : ∀ n < 26, (Char.ofNat (65 + n)).toLower = Char.ofNat (97 + n) := by decide
  by_cases h : c.val ≥ 'A'.val ∧ c.val ≤ 'Z'.val
  · right
    have hlow : 65 ≤ c.toNat := h.1
    have hhigh : c.toNat ≤ 90 := h.2
    have hc : c = Char.ofNat (65 + (c.toNat - 65)) := by
      rw [Nat.add_sub_cancel' hlow, Char.ofNat_toNat]
    refine ⟨c.toNat - 65, by omega, hc, ?_⟩
    rw [← hcapital (c.toNat - 65) (by omega), ← hc]
  · exact .inl (dif_neg h)

theorem toLower_eq_self {c : Char} (hcode : 128 ≤ c.toNat) : c.toLower = c := by
  rcases toLower_cases c with hsame | ⟨n, hn, hc, -⟩
  · exact hsame
  · have hascii : ∀ n < 26, (Char.ofNat (65 + n)).toNat < 128 := by decide
    have := hascii n hn
    rw [← hc] at this
    omega

/-- What has the same answer for the capitals of ASCII and for their small letters does not see the
folding. -/
theorem apply_toLower {α : Type} {f : Char → α}
    (hcapitals : ∀ n < 26, f (Char.ofNat (97 + n)) = f (Char.ofNat (65 + n))) (c : Char) :
    f c.toLower = f c := by
  rcases toLower_cases c with hsame | ⟨n, hn, hc, hlower⟩
  · rw [hsame]
  · rw [hlower, hcapitals n hn, ← hc]

theorem isBlank_toLower : ∀ c : Char, isBlank c.toLower = isBlank c :=
  apply_toLower (by decide)

theorem isDigit_toLower : ∀ c : Char, c.toLower.isDigit = c.isDigit :=
  apply_toLower (by decide)

@[simp]
theorem toLower_toLower : ∀ c : Char, c.toLower.toLower = c.toLower :=
  apply_toLower (by decide)

theorem lowerChar_toLower : ∀ c : Char, lowerChar c.toLower = lowerChar c :=
  apply_toLower (by decide)

theorem inRuns_caseIgnorable_toLower :
    ∀ c : Char, inRuns caseIgnorableRuns c.toLower.toNat = inRuns caseIgnorableRuns c.toNat :=
  apply_toLower (f := fun c => inRuns caseIgnorableRuns c.toNat) (by decide)

theorem inRuns_cased_toLower :
    ∀ c : Char, inRuns casedRuns c.toLower.toNat = inRuns casedRuns c.toNat :=
  apply_toLower (f := fun c => inRuns casedRuns c.toNat) (by decide)

theorem toLower_eq_iff {d : Char}
    (hcapitals : ∀ n < 26, (Char.ofNat (97 + n) = d ↔ Char.ofNat (65 + n) = d)) (c : Char) :
    c.toLower = d ↔ c = d := by
  rcases toLower_cases c with hsame | ⟨n, hn, hc, hlower⟩
  · rw [hsame]
  · rw [hlower, hcapitals n hn, ← hc]

/-! ## Texts -/

theorem equalsIgnoringAsciiCase_iff {a b : String} :
    equalsIgnoringAsciiCase a b = true ↔ a.toList.map Char.toLower = b.toList.map Char.toLower := by
  rw [equalsIgnoringAsciiCase, beq_iff_eq]

theorem equalsIgnoringAsciiCase_comm (a b : String) :
    equalsIgnoringAsciiCase a b = equalsIgnoringAsciiCase b a := by
  rw [equalsIgnoringAsciiCase, equalsIgnoringAsciiCase, Bool.beq_comm]

@[simp]
theorem equalsIgnoringAsciiCase_self (a : String) : equalsIgnoringAsciiCase a a = true :=
  equalsIgnoringAsciiCase_iff.mpr rfl

theorem takeWhile_map_toLower {p : Char → Bool} (hp : ∀ c, p c.toLower = p c) (text : List Char) :
    (text.map Char.toLower).takeWhile p = (text.takeWhile p).map Char.toLower := by
  rw [List.takeWhile_map]
  exact congrArg _ (congrArg (List.takeWhile · text) (funext hp))

theorem dropWhile_map_toLower {p : Char → Bool} (hp : ∀ c, p c.toLower = p c) (text : List Char) :
    (text.map Char.toLower).dropWhile p = (text.dropWhile p).map Char.toLower := by
  rw [List.dropWhile_map]
  exact congrArg _ (congrArg (List.dropWhile · text) (funext hp))

theorem trimChars_map_toLower (text : List Char) :
    trimChars (text.map Char.toLower) = (trimChars text).map Char.toLower := by
  simp only [trimChars, trimEndChars, trimStartChars, dropWhile_map_toLower isBlank_toLower,
    ← List.map_reverse]

/-! ## Lower case -/

theorem leadsToCased_map_toLower (text : List Char) :
    leadsToCased (text.map Char.toLower) = leadsToCased text := by
  rw [leadsToCased, leadsToCased, dropWhile_map_toLower inRuns_caseIgnorable_toLower]
  cases text.dropWhile fun c => inRuns caseIgnorableRuns c.toNat with
  | nil => rfl
  | cons c rest => exact inRuns_cased_toLower c

theorem lowerAfter_map_toLower (before text : List Char) :
    lowerAfter (before.map Char.toLower) (text.map Char.toLower) = lowerAfter before text := by
  induction text generalizing before with
  | nil => rfl
  | cons c rest ih =>
    have hsigma : c.toLower = 'Σ' ↔ c = 'Σ' := toLower_eq_iff (by decide) c
    rw [List.map_cons, lowerAfter, lowerAfter, ← List.map_cons, ih, leadsToCased_map_toLower,
      leadsToCased_map_toLower, lowerChar_toLower]
    simp only [hsigma]

/-- Texts that differ in ASCII letters only have the same lower case. -/
theorem lower_eq_of_equalsIgnoringAsciiCase {a b : String}
    (hequal : equalsIgnoringAsciiCase a b = true) : lower a = lower b := by
  have hlower (text : String) :
      lower text = String.ofList (lowerAfter [] (text.toList.map Char.toLower)) := by
    rw [lower, ← lowerAfter_map_toLower]
    rfl
  rw [hlower a, hlower b, equalsIgnoringAsciiCase_iff.mp hequal]

/-- No character beyond ASCII has a lower case of its own. -/
def IsLowerBeyondAscii (text : String) : Prop :=
  ∀ c ∈ text.toList, 128 ≤ c.toNat → lowerChar c = [c]

instance (text : String) : Decidable (IsLowerBeyondAscii text) :=
  List.decidableBAll (fun c : Char => 128 ≤ c.toNat → lowerChar c = [c]) text.toList

theorem lowerAfter_eq_map_toLower (before : List Char) {text : List Char}
    (hbeyond : ∀ c ∈ text, 128 ≤ c.toNat → lowerChar c = [c]) :
    lowerAfter before text = text.map Char.toLower := by
  induction text generalizing before with
  | nil => rfl
  | cons c rest ih =>
    obtain ⟨hfirst, hrest⟩ := List.forall_mem_cons.mp hbeyond
    have hsigma : c ≠ 'Σ' := by
      rintro rfl
      exact absurd (hfirst (by decide)) (by decide)
    rw [lowerAfter, ih _ hrest, if_neg hsigma, List.map_cons]
    by_cases hascii : c.toNat < 128
    · rw [lowerChar, if_pos hascii]
      rfl
    · have hcode : 128 ≤ c.toNat := Nat.le_of_not_lt hascii
      rw [hfirst hcode, toLower_eq_self hcode]
      rfl

/-- Where only ASCII has capitals, texts have the same lower case exactly if they differ in ASCII
letters only. -/
theorem lower_eq_lower_iff {a b : String} (ha : IsLowerBeyondAscii a) (hb : IsLowerBeyondAscii b) :
    lower a = lower b ↔ equalsIgnoringAsciiCase a b = true := by
  rw [lower, lower, lowerAfter_eq_map_toLower [] ha, lowerAfter_eq_map_toLower [] hb,
    String.ofList_inj, equalsIgnoringAsciiCase_iff]

/-! ## Small letters of ASCII -/

theorem lowerChar_ne_nil (c : Char) : lowerChar c ≠ [] := by
  unfold lowerChar
  split
  case isTrue => simp
  case isFalse =>
      split
      case isTrue => simp
      case isFalse => split <;> simp

/-- Beyond ASCII, a capital whose small letter is one of ASCII is a dotted `İ` or a Kelvin sign. -/
theorem eq_of_mem_lowerChar {c d : Char} (hbeyond : 128 ≤ c.toNat) (hd : d ∈ lowerChar c)
    (hletter : 97 ≤ d.toNat ∧ d.toNat ≤ 122) : d = 'i' ∨ d = 'k' := by
  have hshifts : ∀ s ∈ lowerShifts, 128 ≤ s.last →
      122 < (s.first : Int) + s.distance ∨ s.first = s.last ∧ s.last + s.distance = 107 := by
    decide +kernel
  have hofNat (code : Nat) : (Char.ofNat code).toNat = code ∨ (Char.ofNat code).toNat = 0 := by
    by_cases hvalid : code.isValidChar
    · exact .inl (by rw [Char.ofNat, dif_pos hvalid]; rfl)
    · exact .inr (by rw [Char.ofNat, dif_neg hvalid]; rfl)
  rw [lowerChar, if_neg (by omega)] at hd
  split at hd
  case isTrue =>
      simp only [List.mem_cons, List.not_mem_nil, or_false] at hd
      rcases hd with rfl | rfl
      · exact .inl rfl
      · exact absurd hletter (by decide)
  case isFalse =>
      split at hd
      case h_1 code hcode =>
          obtain rfl := List.mem_singleton.mp hd
          obtain ⟨s, hfound, rfl⟩ := Option.map_eq_some_iff.mp hcode
          have hrange := List.find?_some hfound
          simp only [Bool.and_eq_true, decide_eq_true_eq] at hrange
          rcases hshifts s (List.mem_of_find?_eq_some hfound) (by omega) with
            hlarge | ⟨hsame, hkelvin⟩
          · have hvalue := hofNat ((c.toNat : Int) + s.distance).toNat
            omega
          · have hcode : ((c.toNat : Int) + s.distance).toNat = 107 := by omega
            exact .inr (by rw [hcode])
      case h_2 =>
          obtain rfl := List.mem_singleton.mp hd
          omega

/-- A small letter that only the capital of ASCII has besides itself. -/
def IsPlainSmall (c : Char) : Prop :=
  97 ≤ c.toNat ∧ c.toNat ≤ 122 ∧ c ≠ 'i' ∧ c ≠ 'k'

instance : DecidablePred IsPlainSmall := fun c =>
  inferInstanceAs (Decidable (97 ≤ c.toNat ∧ c.toNat ≤ 122 ∧ c ≠ 'i' ∧ c ≠ 'k'))

theorem lt_of_lowerAfter {before text : List Char}
    (hplain : ∀ c ∈ lowerAfter before text, IsPlainSmall c) : ∀ c ∈ text, c.toNat < 128 := by
  induction text generalizing before with
  | nil => exact fun _ hmem => nomatch hmem
  | cons c rest ih =>
      rw [lowerAfter] at hplain
      obtain ⟨hfirst, hrest⟩ := List.forall_mem_append.mp hplain
      refine List.forall_mem_cons.mpr ⟨Nat.lt_of_not_le fun hbeyond => ?_, ih hrest⟩
      have hsigma : ¬ IsPlainSmall 'ς' ∧ ¬ IsPlainSmall 'σ' := by decide
      split at hfirst
      case isTrue =>
          split at hfirst
          · exact hsigma.1 (hfirst _ List.mem_cons_self)
          · exact hsigma.2 (hfirst _ List.mem_cons_self)
      case isFalse =>
          obtain ⟨d, hd⟩ := List.exists_mem_of_ne_nil _ (lowerChar_ne_nil c)
          obtain ⟨hlow, hhigh, hi, hk⟩ := hfirst d hd
          rcases eq_of_mem_lowerChar hbeyond hd ⟨hlow, hhigh⟩ with rfl | rfl
          · exact hi rfl
          · exact hk rfl

/-- A word of such letters is the lower case of its own letter cases alone. -/
theorem lower_eq_iff {text word : String} (hword : ∀ c ∈ word.toList, IsPlainSmall c) :
    lower text = word ↔ equalsIgnoringAsciiCase text word = true := by
  have hsame : word.toList.map Char.toLower = word.toList := by
    refine (List.map_congr_left fun c hmem => ?_).trans (List.map_id _)
    rcases toLower_cases c with hc | ⟨n, hn, rfl, -⟩
    · exact hc
    · have hcapital : ∀ n < 26, ¬ IsPlainSmall (Char.ofNat (65 + n)) := by decide
      exact absurd (hword _ hmem) (hcapital n hn)
  have hascii : ∀ c ∈ word.toList, 128 ≤ c.toNat → lowerChar c = [c] := fun c hmem hbeyond => by
    have := (hword c hmem).2.1
    omega
  constructor
  · intro hlower
    have hplain : ∀ c ∈ lowerAfter [] text.toList, IsPlainSmall c := by
      rwa [← hlower, lower, String.toList_ofList] at hword
    have htext : ∀ c ∈ text.toList, 128 ≤ c.toNat → lowerChar c = [c] := fun c hmem hbeyond => by
      have := lt_of_lowerAfter hplain c hmem
      omega
    rw [equalsIgnoringAsciiCase_iff, hsame, ← hlower, lower, String.toList_ofList,
      lowerAfter_eq_map_toLower [] htext]
  · intro hequal
    rw [lower_eq_of_equalsIgnoringAsciiCase hequal, lower, lowerAfter_eq_map_toLower [] hascii,
      hsame, String.ofList_toList]

end BuildPipeline.Text
