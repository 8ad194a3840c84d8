import BuildPipeline.Proofs.Template.BoundParameters
import BuildPipeline.Proofs.Template.Inclusion
import BuildPipeline.Proofs.Yaml.ScalarTexts

/-!
# Text overrides

The value of a parameter can be given as a text on the command line.  The text is read as YAML, and
a parameter of type string takes the text of the value that was read.  So a plain scalar arrives as
the text of the value it denotes, which is the text that was given only for some scalars.

* `scalarText?_readOverride`: what is read from a plain scalar is a scalar, and its text is
  `PlainScalar.denoted`.
* `string_override_is_denoted` is the result.  It holds of every reader that reads plain scalars,
  and says of each on one line whether it arrives as it was given.
* `string_override_can_change` is a version that loses its last zero.
-/

namespace BuildPipeline.Template

open Yaml (PlainScalar)

section Binding

variable [Yaml.Codec] (hreads : Yaml.Codec.ReadsPlainScalars)

include hreads

/-- A plain scalar on the command line is read as a scalar with the text that it denotes. -/
theorem scalarText?_readOverride (s : PlainScalar) (htrim : Text.trim s.text = s.text) :
    (readOverride s.text).scalarText? = some s.denoted := by
  have hsome : ¬(Text.trim s.text == "") = true := by
    rw [htrim, beq_iff_eq]
    exact s.text_ne_empty
  rw [readOverride, if_neg hsome]
  cases hread : Yaml.Codec.read s.text with
  | error error =>
      rw [PlainScalar.denoted, hread]
      rfl
  | ok value => exact s.scalarText?_of_read hreads hread

/-- A text given on the command line for a parameter of type string without a choice of values, if
it is a plain scalar without blanks around it, is bound to the text of the value that the scalar
denotes.  On one line that is the text that was given exactly if the scalar keeps its text; so a
number with a superfluous zero behind its point is changed. -/
theorem string_override_is_denoted (s : PlainScalar) (supplied : Arguments)
    (parameter : Parameter) (htrim : Text.trim s.text = s.text)
    (htype : parameter.type = .string) (hvalues : parameter.values = none)
    (hsupplied : supplied.get? parameter.name = some (readOverride s.text)) :
    bindOne supplied parameter = .ok (.string s.denoted) ∧
    (∀ declared path arguments, (declared.map Parameter.name).Nodup → parameter ∈ declared →
      bindParameters declared supplied path = .ok arguments →
      arguments.get? parameter.name = some (.string s.denoted)) ∧
    ((∀ c ∈ s.text.toList, Yaml.isBreak c = false) →
      (s.denoted = s.text ↔ s.KeepsText) ∧
      (∀ value front more, Yaml.Codec.read s.text = .ok (.float value) →
        s.text.toList = front ++ '.' :: (more ++ ['0']) →
        more ≠ [] → (∀ c ∈ more, c.isDigit = true) → s.denoted ≠ s.text) ∧
      ∀ front more number, s.text.toList = front ++ '.' :: (more ++ ['0']) →
        front ≠ [] → (∀ c ∈ front, c.isDigit = true) →
        more ≠ [] → (∀ c ∈ more, c.isDigit = true) →
        Binary64.readChars? s.text.toList = some number → number.isFinite = true →
          s.denoted = number.write .yaml ∧ number.write .yaml ≠ s.text) := by
  have hbinds : Binds supplied parameter (.string s.denoted) := by
    refine ⟨⟨_, by rw [hsupplied, Option.some_or], ?_⟩, fun allowed hallowed => ?_⟩
    · rw [htype]
      exact .text (scalarText?_readOverride hreads s htrim)
    · rw [hvalues] at hallowed
      cases hallowed
  have hbound := bindOne_eq_ok_iff.mpr hbinds
  refine ⟨hbound, fun declared path arguments hdistinct hmem hbind => ?_, fun hline => ?_⟩
  · obtain ⟨value, hvalue, hother⟩ :=
      binds_of_bindAll hdistinct (bindParameters_eq_ok_iff.mp hbind).2 hmem
    rw [bindOne_eq_ok_iff.mpr hother] at hbound
    rw [hvalue, Except.ok.inj hbound]
  · refine ⟨PlainScalar.denoted_eq_text_iff hreads hline, ?_, ?_⟩
    · intro value front more hread htext hmore hdigits
      exact PlainScalar.denoted_ne_text_of_trailing_zero hreads hline hread hdigits hmore htext
    · intro front more number htext hfront hfrontDigits hmore hdigits hnumber hfinite
      have hread : Yaml.Codec.read s.text = .ok (.float number) := by
        rw [← s.content_eq_text hline] at htext hnumber
        exact hreads.decimal s front (more ++ ['0']) number htext hfront hfrontDigits
          (by simp) (by simpa [or_imp, forall_and] using hdigits) hnumber hfinite
      have hdenoted : s.denoted = number.write .yaml := by rw [PlainScalar.denoted, hread]
      refine ⟨hdenoted, hdenoted ▸ ?_⟩
      exact PlainScalar.denoted_ne_text_of_trailing_zero hreads hline hread hdigits hmore htext

end Binding

namespace VersionOverride

/-- A version as it is given on the command line. -/
def raw : PlainScalar where
  first := ['1', '.', '1', '0']
  others := []
  isWord :=
    { nonempty := by decide
      allowed := List.all_eq_true.mp rfl
      solid := by simp [Yaml.isGapChar, Yaml.isSpaceOrTab, Yaml.isBreak]
      noColon := by decide }
  begins := .inl rfl
  noMark := by rintro (heq | heq) <;> cases heq
  continues := by simp

def parameter : Parameter where
  name := "version"

def supplied [Yaml.Codec] : Arguments :=
  [("version", readOverride raw.text)]

theorem trim_raw : Text.trim raw.text = raw.text := by
  decide +kernel

theorem denoted_raw [Yaml.Codec] (hreads : Yaml.Codec.ReadsPlainScalars) :
    raw.denoted = "1.1" := by
  have hone : ∀ c ∈ ['1'], c.isDigit = true := List.all_eq_true.mp rfl
  have honeZero : ∀ c ∈ ['1', '0'], c.isDigit = true := List.all_eq_true.mp rfl
  have hnumber : Binary64.readChars? raw.content.toList = some (.ofRatio false 11 10) := by
    decide +kernel
  have hread := hreads.decimal raw ['1'] ['1', '0'] _ String.toList_ofList (by simp) hone (by simp)
    honeZero hnumber (by decide +kernel)
  rw [PlainScalar.denoted, hread]
  decide +kernel

end VersionOverride

open VersionOverride (raw parameter)

/-- A version `1.10` is a number, and arrives as `1.1`. -/
theorem string_override_is_denoted_version :
    Yaml.Codec.ReadsPlainScalars ∧ Text.trim raw.text = raw.text ∧
      bindOne VersionOverride.supplied parameter = .ok (.string "1.1") := by
  have hbound := (string_override_is_denoted Yaml.readsPlainScalars raw VersionOverride.supplied
    parameter VersionOverride.trim_raw rfl rfl rfl).1
  rw [VersionOverride.denoted_raw Yaml.readsPlainScalars] at hbound
  exact ⟨Yaml.readsPlainScalars, VersionOverride.trim_raw, hbound⟩

/-- There is no reader of plain scalars with which every text arrives as it was given. -/
theorem string_override_can_change :
    ¬∃ _ : Yaml.Codec, Yaml.Codec.ReadsPlainScalars ∧
      ∀ (s : PlainScalar) (supplied : Arguments) (parameter : Parameter),
        Text.trim s.text = s.text → parameter.type = .string → parameter.values = none →
        supplied.get? parameter.name = some (readOverride s.text) →
        bindOne supplied parameter = .ok (.string s.text) := by
  rintro ⟨reader, hreads, hunchanged⟩
  have hscalar := scalarText?_readOverride hreads raw VersionOverride.trim_raw
  rw [VersionOverride.denoted_raw hreads] at hscalar
  have hversion : bindOne VersionOverride.supplied parameter = .ok (.string "1.1") :=
    bindOne_eq_ok_iff.mpr ⟨⟨_, rfl, .text hscalar⟩, fun _ hvalues => nomatch hvalues⟩
  have hsame := hunchanged raw VersionOverride.supplied parameter VersionOverride.trim_raw rfl rfl
    rfl
  rw [hversion] at hsame
  have htext : raw.text ≠ "1.1" := by decide +kernel
  exact htext (Yaml.Value.string.inj (Except.ok.inj hsame)).symm

end BuildPipeline.Template
