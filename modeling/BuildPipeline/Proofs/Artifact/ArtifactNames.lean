import BuildPipeline.Proofs.Artifact.Downloads
import BuildPipeline.Proofs.Run.DefaultCondition

/-!
# The names of artifacts after substitution

A publication and a download have the variables in their texts replaced when they begin, and meet in
the ledger under the names that come out.  A download can name its artifact in two places, beside
its source or as its source, and only the first is replaced.

* `Beginning.Asks` says what a download comes to that is not kept from running: the ledger decides
  on one name, which goes to the store or into the message.  `Step.asks_of_download` shows which.
* `artifact_names_agree_iff`: a publication and a download with one text as their artifact mean the
  same name.  A download with the text as its source means the text itself, so after the publication
  alone it is let through exactly if the text stands for itself.
* `source_keeps_its_variables` is a text that does not.
-/

namespace BuildPipeline

namespace Expression

/-- Only the variables of a context decide what a text becomes. -/
theorem substituteVariables_congr {first second : Context} (hvars : first.vars = second.vars)
    (text : String) : substituteVariables first text = substituteVariables second text := by
  have hsegment : substituteVariable first = substituteVariable second := by
    funext segment
    cases segment <;> simp only [substituteVariable, hvars]
  rw [substituteVariables, substituteVariables, hsegment]

theorem substituteVariables_of_not_contains {context : Context} {text : String}
    (hcontains : Text.contains text "$(" = false) : substituteVariables context text = text := by
  simp [substituteVariables, hcontains]

end Expression

open Expression (substituteVariables)

/-! ## What is asked of the ledger -/

namespace Ledger

variable {ledger held : Ledger} {name stage : String} {ancestors : List String}

/-- A name is for the stages behind the one that holds it. -/
def Grants (ledger : Ledger) (ancestors : List String) (name : String) : Prop :=
  ∃ publisher ∈ ancestors, ledger.publisher? name = some publisher

theorem publisher?_of_reserve (hreserve : ledger.reserve name stage = .ok held) :
    held.publisher? name = some stage := by
  unfold reserve at hreserve
  split at hreserve
  · cases hreserve
  · split at hreserve
    · cases hreserve
    · cases hreserve
      rw [publisher?, Table.get?_insert, if_pos rfl]

theorem checkDownload_of_grants (hgrants : ledger.Grants ancestors name) :
    ledger.checkDownload name stage ancestors = .ok () := by
  obtain ⟨publisher, hancestor, hholds⟩ := hgrants
  rw [checkDownload, hholds]
  exact if_pos hancestor

theorem checkDownload_of_not_grants (hdenies : ¬ ledger.Grants ancestors name) :
    ledger.checkDownload name stage ancestors = .error (.missing name stage) := by
  unfold checkDownload
  split
  · next publisher hholds => exact if_neg fun hancestor => hdenies ⟨publisher, hancestor, hholds⟩
  · rfl

/-- Where one name is held, no other one is granted. -/
theorem grants_iff_of_single {publisher other : String}
    (hholds : ledger.publisher? name = some publisher) (hancestor : publisher ∈ ancestors)
    (hsingle : ∀ other, other ≠ name → ledger.publisher? other = none) :
    ledger.Grants ancestors other ↔ other = name := by
  constructor
  · rintro ⟨holder, -, hother⟩
    by_contra hdiffers
    rw [hsingle other hdiffers] at hother
    cases hother
  · rintro rfl
    exact ⟨publisher, hancestor, hholds⟩

end Ledger

/-- A download of a name begins: it is called for, or the ledger does not grant it. -/
inductive Beginning.Asks (place : Place) (ledger : Ledger) (name : String) : Beginning → Prop
  | granted {ongoing : Ongoing} {target : String} (hgrants : ledger.Grants place.ancestors name)
      (hcall : ongoing.call = .download name target) :
      Asks place ledger name (.calling ongoing ledger)
  | denied {step : Step} {failure : Status} (hdenies : ¬ ledger.Grants place.ancestors name) :
      Asks place ledger name
        (.immediate step failure (.failed (ArtifactError.missing name place.stage).message))

section Steps

variable {setup : Setup} {place : Place} {ledger held : Ledger} {environment : Environment}
  {context : Expression.Context} {index : Nat} {step : Step}

/-- What runs is not skipped, unless it is a publication that its stage keeps back. -/
theorem Step.Runs.not_isSkipped (hruns : step.Runs context)
    (haction : ∀ path artifact, step.action ≠ .publish path artifact) :
    ¬ step.IsSkipped context := by
  intro hskipped
  cases hskipped with
  | disabled hdisabled => cases hruns.enabled.symm.trans hdisabled
  | blocked hpublish hdefault => exact haction _ _ hpublish
  | unmet hcondition => cases hruns.condition.symm.trans hcondition

/-- What a download asks for is the text beside its source with the variables replaced, or else its
source as it stands. -/
theorem Step.asks_of_download {source : String} {artifact target : Option String}
    (hruns : step.Runs context) (haction : step.action = .download source artifact target)
    (hsource : source ≠ "none") :
    Beginning.Asks place ledger ((artifact.map (substituteVariables context)).getD source)
      (step.begin setup place ledger environment context index) := by
  have hstarted : (step.started context).action =
      .download source (artifact.map (substituteVariables context))
        (target.map (substituteVariables context)) := by
    simp [Step.started, Step.substitute, haction, Action.substitute]
  have hdecides := step.decides_of_begin setup place ledger environment context index
  generalize step.begin setup place ledger environment context index = beginning at hdecides ⊢
  cases hdecides with
  | skipped hskipped => exact absurd hskipped (hruns.not_isSkipped (by simp [haction]))
  | refused hcondition => cases hruns.condition.symm.trans hcondition
  | immediate _ hcall =>
      simp only [hstarted, Action.call, if_neg hsource] at hcall
      split at hcall
      · next error hcheck =>
          have hdenies := mt Ledger.checkDownload_of_grants fun hok => by
            cases hok.symm.trans hcheck
          rw [Ledger.checkDownload_of_not_grants hdenies] at hcheck
          cases hcheck
          cases hcall
          exact .denied hdenies
      · cases hcall
  | calling _ hcall =>
      have hcalls := Action.calls_of_call hcall
      rw [hstarted] at hcalls
      cases hcalls with
      | download _ hcheck =>
          obtain ⟨publisher, hholds, hancestor⟩ := Ledger.checkDownload_eq_ok hcheck
          exact .granted ⟨publisher, hancestor, hholds⟩ rfl

/-- A publication that calls for the store has its name. -/
theorem Step.reserves_of_publish {path : String} {artifact : Option String} {ongoing : Ongoing}
    (haction : step.action = .publish path artifact)
    (hbegin : step.begin setup place ledger environment context index = .calling ongoing held) :
    (∃ source, ongoing.call =
        .publish ((artifact.map (substituteVariables context)).getD "drop") source) ∧
      held.publisher? ((artifact.map (substituteVariables context)).getD "drop") =
        some place.stage := by
  have hdecides := step.decides_of_begin setup place ledger environment context index
  rw [hbegin] at hdecides
  cases hdecides with
  | calling hruns hcall =>
      have hcalls := Action.calls_of_call hcall
      simp only [Step.started, Step.substitute, haction, Action.substitute] at hcalls
      cases hcalls with
      | publish hreserve => exact ⟨⟨_, rfl⟩, Ledger.publisher?_of_reserve hreserve⟩

end Steps

/-! ## One text in three places -/

/-- A publication and two downloads with the same text for the artifact. -/
structure ShareText (text : String) (publisher beside bare : Step) : Prop where
  publisher : ∃ path, publisher.action = .publish path (some text)
  /-- The text stands beside the source. -/
  beside : ∃ source target, source ≠ "none" ∧
    beside.action = .download source (some text) target
  /-- The text is the source. -/
  bare : text ≠ "none" ∧ ∃ target, bare.action = .download text none target

/-- Three steps that see the same variables have the same text for an artifact.  What is published
and what is downloaded by the text beside a source has the same name, in the ledger and in the call
to the store: the text with its variables replaced.  A download with the text as its source asks for
the text itself.  So after the publication alone it is let through exactly if the text stands for
itself, as every text without variables does. -/
theorem artifact_names_agree_iff {giving taking : Expression.Context} {text : String}
    {publisher beside bare : Step} (hvars : giving.vars = taking.vars)
    (hsteps : ShareText text publisher beside bare) :
    ((publisher.started giving).action.artifact? = some (substituteVariables giving text) ∧
      (beside.started taking).action.artifact? = some (substituteVariables giving text) ∧
      (bare.started taking).action.artifact? = some text) ∧
    (∀ setup place ledger environment index ongoing held,
      publisher.begin setup place ledger environment giving index = .calling ongoing held →
        (∃ source, ongoing.call = .publish (substituteVariables giving text) source) ∧
          held.publisher? (substituteVariables giving text) = some place.stage) ∧
    (∀ setup place ledger environment index, beside.Runs taking →
      Beginning.Asks place ledger (substituteVariables giving text)
        (beside.begin setup place ledger environment taking index)) ∧
    (∀ setup place ledger environment index, bare.Runs taking →
      Beginning.Asks place ledger text
        (bare.begin setup place ledger environment taking index)) ∧
    (∀ (held : Ledger) stage ancestors,
      held.publisher? (substituteVariables giving text) = some stage → stage ∈ ancestors →
      (∀ other, other ≠ substituteVariables giving text → held.publisher? other = none) →
        held.Grants ancestors (substituteVariables giving text) ∧
          (held.Grants ancestors text ↔ text = substituteVariables giving text)) ∧
    (Text.contains text "$(" = false → text = substituteVariables giving text) := by
  obtain ⟨⟨path, hpublisher⟩, ⟨source, target, hsource, hbeside⟩, htext, other, hbare⟩ := hsteps
  have hsame := Expression.substituteVariables_congr hvars text
  refine ⟨⟨?_, ?_, ?_⟩, ?_, ?_, ?_, ?_, ?_⟩
  · simp [Step.started, Step.substitute, hpublisher, Action.substitute, Action.artifact?]
  · simp [Step.started, Step.substitute, hbeside, Action.substitute, Action.artifact?, hsame]
  · simp [Step.started, Step.substitute, hbare, Action.substitute, Action.artifact?]
  · intro setup place ledger environment index ongoing held hbegin
    exact Step.reserves_of_publish hpublisher hbegin
  · intro setup place ledger environment index hruns
    rw [hsame]
    exact Step.asks_of_download hruns hbeside hsource
  · intro setup place ledger environment index hruns
    exact Step.asks_of_download hruns hbare htext
  · intro held stage ancestors hholds hancestor hsingle
    exact ⟨⟨stage, hancestor, hholds⟩, Ledger.grants_iff_of_single hholds hancestor hsingle⟩
  · intro hcontains
    rw [Expression.substituteVariables_of_not_contains hcontains]

namespace Packages

/-- The version of what is packed. -/
def context : Expression.Context :=
  { vars := [("version", .string "7")] }

def text : String := "pkg-$(version)"

def publisher : Step :=
  { action := .publish "dist" (some text) }

def beside : Step :=
  { action := .download "current" (some text) none }

def bare : Step :=
  { action := .download text none none }

theorem shareText : ShareText text publisher beside bare :=
  ⟨⟨_, rfl⟩, ⟨_, _, by decide, rfl⟩, by decide, _, rfl⟩

theorem substituteVariables_text : substituteVariables context text = "pkg-7" := by
  decide +kernel

/-- The build has published the package. -/
def ledger : Ledger :=
  [("pkg-7", "build")]

/-- A stage tests it then. -/
def place : Place :=
  ⟨"test", "test", ["build"], false⟩

theorem runs {step : Step} (henabled : step.enabled = true) (hcondition : step.condition = none) :
    step.Runs context := by
  refine ⟨henabled, ?_⟩
  rw [hcondition, Option.getD_none, Expression.evaluateCondition_default]
  rfl

end Packages

/-- After a build has published `pkg-7`, one download gets it and the other one asks for
`pkg-$(version)`, which nobody has published. -/
theorem artifact_names_agree_iff_packages :
    (Packages.publisher.started Packages.context).action.artifact? = some "pkg-7" ∧
      (Packages.beside.started Packages.context).action.artifact? = some "pkg-7" ∧
      (Packages.bare.started Packages.context).action.artifact? = some "pkg-$(version)" ∧
      ∀ setup environment, ∃ fetching target step failure,
        Packages.beside.begin setup Packages.place Packages.ledger environment Packages.context 0 =
            .calling fetching Packages.ledger ∧
          fetching.call = .download "pkg-7" target ∧
          Packages.bare.begin setup Packages.place Packages.ledger environment Packages.context 0 =
            .immediate step failure (.failed ("artifact 'pkg-$(version)' has not been " ++
              "published by a dependency of stage 'test'")) := by
  obtain ⟨⟨hpublished, hfetched, hasked⟩, -, hbeside, hbare, hgrants, -⟩ :=
    artifact_names_agree_iff (rfl : Packages.context.vars = _) Packages.shareText
  rw [Packages.substituteVariables_text] at hpublished hfetched hgrants
  obtain ⟨hheld, hiff⟩ := hgrants Packages.ledger "build" Packages.place.ancestors rfl (by decide)
    fun other hother => by simp [Ledger.publisher?, Packages.ledger, Table.get?, hother.symm]
  have hdiffers : ¬ Packages.ledger.Grants Packages.place.ancestors Packages.text :=
    mt hiff.mp (by decide)
  refine ⟨hpublished, hfetched, hasked, fun setup environment => ?_⟩
  have hfetching := hbeside setup Packages.place Packages.ledger environment 0
    (Packages.runs rfl rfl)
  have hasking := hbare setup Packages.place Packages.ledger environment 0 (Packages.runs rfl rfl)
  rw [Packages.substituteVariables_text] at hfetching
  generalize hfirst : Packages.beside.begin setup Packages.place Packages.ledger environment
    Packages.context 0 = first at hfetching ⊢
  generalize hsecond : Packages.bare.begin setup Packages.place Packages.ledger environment
    Packages.context 0 = second at hasking ⊢
  cases hfetching with
  | denied hdenies => exact absurd hheld hdenies
  | granted _ hcall =>
      cases hasking with
      | granted hgranted => exact absurd hgranted hdiffers
      | denied => exact ⟨_, _, _, _, rfl, hcall, rfl⟩

/-- A publication of `pkg-$(version)` and a download of `pkg-$(version)` do not mean the same. -/
theorem source_keeps_its_variables :
    ¬ ∀ (context : Expression.Context) (text path source : String) (target other : Option String),
      text ≠ "current" → text ≠ "none" → ∃ name,
        ((Action.publish path (some text)).substitute (substituteVariables context)).artifact? =
            some name ∧
          ((Action.download source (some text) target).substitute
            (substituteVariables context)).artifact? = some name ∧
          ((Action.download text none other).substitute
            (substituteVariables context)).artifact? = some name := by
  intro hclaim
  obtain ⟨name, hpublished, -, hasked⟩ := hclaim Packages.context Packages.text "dist" "current"
    none none (by decide) (by decide)
  simp only [Action.substitute, Action.artifact?, Option.map_some, Option.getD_some,
    Packages.substituteVariables_text, Option.some.injEq] at hpublished
  subst hpublished
  exact absurd hasked (by decide)

end BuildPipeline
