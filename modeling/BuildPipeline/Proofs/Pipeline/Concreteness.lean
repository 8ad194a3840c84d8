import BuildPipeline.Plan
import BuildPipeline.Proofs.Pipeline.NormalForm
import BuildPipeline.Proofs.Template.Resolution
import BuildPipeline.Proofs.Yaml.Records

/-!
# Plans without references

A plan refers to no template any more, with one exception.  Validation turns down stages, jobs and
steps that do (`Pipeline.concrete_of_validate`), but it does not look at variables.  For these
everything depends on the expansion.

* `ReadUnder` is the invariant of the typed reading, from the document down to the jobs: a part is
  read from transparent entries in which every list is resolved.  `readUnder_of_record` passes it on
  to the fields of a node and `ReadUnder.forall_mem` to the nodes of a list.
* `Variable.isTemplate_of_reader`: a resolved entry of a list of variables is read as a definition.
  The reader finds the field `template` by name or as the number `0`, the expansion by name only.
* `loaded_plan_is_concrete` joins the two halves.
* `tagged_stage_keeps_reference` is a plan that is loaded with a reference in it.
-/

namespace BuildPipeline

open Template (Level ListsResolved Resolved reference?)
open Yaml (Entries Reader)
open Yaml.Reader (HasField exists_of_set)
open Yaml.Value (EntriesAreTransparent lookUp?)

/-! ## Everything in a pipeline -/

/-- Whether an entry of a list of variables refers to a template. -/
def Variable.isTemplate : Variable → Bool
  | .template .. => true
  | .definition .. => false

namespace Pipeline

def allJobs (pipeline : Pipeline) : List Job :=
  pipeline.stages.flatMap (·.jobs) ++ pipeline.jobs

def allSteps (pipeline : Pipeline) : List Step :=
  pipeline.allJobs.flatMap (·.steps) ++ pipeline.steps

/-- The variables of the pipeline, of its stages and of its jobs. -/
def allVars (pipeline : Pipeline) : List Variable :=
  pipeline.vars ++ pipeline.stages.flatMap (·.vars) ++ pipeline.allJobs.flatMap (·.vars)

theorem allVars_normalize (pipeline : Pipeline) :
    pipeline.normalize.allVars = pipeline.allVars := by
  obtain ⟨name, parameters, vars, stages, jobs, steps⟩ := pipeline
  cases stages <;> cases jobs <;> cases steps <;>
    simp [normalize, wrapSteps, wrapJobs, allVars, allJobs]

/-- What is valid refers to templates for variables at most. -/
theorem concrete_of_validate {pipeline : Pipeline} (hvalid : pipeline.normalize.validate = []) :
    (∀ stage ∈ pipeline.normalize.stages, stage.template = none) ∧
      (∀ job ∈ pipeline.normalize.allJobs, job.template = none) ∧
      ∀ step ∈ pipeline.normalize.allSteps, step.action.isTemplate = false := by
  obtain ⟨-, hwell⟩ := validate_normalize_eq_nil_iff.mp hvalid
  rw [validate, List.append_eq_nil_iff, atPath_eq_nil, rootDefects] at hvalid
  obtain ⟨-, hjobs, hsteps⟩ : pipeline.normalize.stages ≠ [] ∧ pipeline.normalize.jobs = [] ∧
      pipeline.normalize.steps = [] := by
    simpa using hvalid.1
  have hjob : ∀ job ∈ pipeline.normalize.allJobs, job.IsWellFormed := by
    rw [allJobs, hjobs, List.append_nil]
    intro job hmem
    obtain ⟨stage, hstage, hmem⟩ := List.mem_flatMap.mp hmem
    exact (hwell.stages stage hstage).jobs job hmem
  refine ⟨fun stage hstage => (hwell.stages stage hstage).concrete,
    fun job hmem => (hjob job hmem).concrete, ?_⟩
  rw [allSteps, hsteps, List.append_nil]
  intro step hmem
  obtain ⟨job, hmem, hstep⟩ := List.mem_flatMap.mp hmem
  exact (hjob job hmem).concreteSteps step hstep

end Pipeline

/-! ## Fields that are read -/

theorem Job.vars_of_readField {draft next : Job.Draft} {name : String} {entry : Reader.Entry}
    {left right : Nat} (hother : name ≠ "variables")
    (hread : Job.readField draft name entry left = .ok (some next, right)) :
    next.vars = draft.vars := by
  unfold Job.readField at hread
  split at hread
  case h_7 => exact absurd rfl hother
  -- a name that is none of the fields is skipped
  case h_11 => cases hread
  all_goals
    obtain ⟨_, rfl⟩ := exists_of_set hread
    rfl

theorem Job.hasField_vars :
    HasField Job.readField "variables" Job.Draft.vars Variable.listReader :=
  .of_once (fun draft vars => { draft with vars }) (fun _ _ => rfl) (fun _ _ => rfl)
    Job.vars_of_readField

/-- A field of a stage leaves the lists alone that stand under other names. -/
theorem Stage.lists_of_readField {draft next : Stage.Draft} {name : String} {entry : Reader.Entry}
    {left right : Nat} (hread : Stage.readField draft name entry left = .ok (some next, right)) :
    (name ≠ "variables" → next.vars = draft.vars) ∧
      (name ≠ "jobs" → next.jobs = draft.jobs) := by
  unfold Stage.readField at hread
  split at hread
  case h_10 => cases hread
  all_goals
    obtain ⟨_, rfl⟩ := exists_of_set hread
    constructor <;> intro hother <;> first | rfl | exact absurd rfl hother

theorem Stage.hasField_vars :
    HasField Stage.readField "variables" Stage.Draft.vars Variable.listReader :=
  .of_once (fun draft vars => { draft with vars }) (fun _ _ => rfl) (fun _ _ => rfl)
    fun hother hread => (Stage.lists_of_readField hread).1 hother

theorem Stage.hasField_jobs :
    HasField Stage.readField "jobs" Stage.Draft.jobs (.list Job.reader) :=
  .of_once (fun draft jobs => { draft with jobs }) (fun _ _ => rfl) (fun _ _ => rfl)
    fun hother hread => (Stage.lists_of_readField hread).2 hother

/-- A field of a pipeline leaves the lists alone that stand under other names. -/
theorem Pipeline.lists_of_readField {draft next : Pipeline.Draft} {name : String}
    {entry : Reader.Entry} {left right : Nat}
    (hread : Pipeline.readField draft name entry left = .ok (some next, right)) :
    (name ≠ "variables" → next.vars = draft.vars) ∧
      (name ≠ "stages" → next.stages = draft.stages) ∧
        (name ≠ "jobs" → next.jobs = draft.jobs) := by
  unfold Pipeline.readField at hread
  split at hread
  case h_7 => cases hread
  all_goals
    obtain ⟨_, rfl⟩ := exists_of_set hread
    refine ⟨?_, ?_, ?_⟩ <;> intro hother <;> first | rfl | exact absurd rfl hother

theorem Pipeline.hasField_vars :
    HasField Pipeline.readField "variables" Pipeline.Draft.vars Variable.listReader :=
  .of_once (fun draft vars => { draft with vars }) (fun _ _ => rfl) (fun _ _ => rfl)
    fun hother hread => (Pipeline.lists_of_readField hread).1 hother

theorem Pipeline.hasField_stages :
    HasField Pipeline.readField "stages" Pipeline.Draft.stages (.list Stage.reader) :=
  .of_once (fun draft stages => { draft with stages }) (fun _ _ => rfl) (fun _ _ => rfl)
    fun hother hread => (Pipeline.lists_of_readField hread).2.1 hother

theorem Pipeline.hasField_jobs :
    HasField Pipeline.readField "jobs" Pipeline.Draft.jobs (.list Job.reader) :=
  .of_once (fun draft jobs => { draft with jobs }) (fun _ _ => rfl) (fun _ _ => rfl)
    fun hother hread => (Pipeline.lists_of_readField hread).2.2 hother

/-! ## Variables -/

namespace Variable

/-- Only a text and the number `0` stand for the first field. -/
theorem isKey_of_keyName? {key : Yaml.Value} {name : String} (hzero : key ≠ .int 0)
    (hname : Form.keyName? ["template", "parameters"] key = some name) :
    (name == "template") = key.isKey "template" := by
  cases key with
  | string text => cases hname; rfl
  | int i =>
      rw [Form.keyName?] at hname
      split at hname
      case isFalse => cases hname
      case isTrue hpositive =>
          obtain ⟨position, rfl⟩ := Int.eq_ofNat_of_zero_le hpositive
          match position, hname with
          | 0, _ => exact absurd rfl hzero
          | 1, hname => cases hname; rfl
          | _ + 2, hname => cases hname; rfl
  | _ => cases hname

/-- Fields are matched by the names that references are found by, where no key is `0`. -/
theorem lookup_template_of_fields? {entries : Entries} {fields : List (String × Yaml.Value)}
    (hentries : EntriesAreTransparent entries)
    (hfields : Form.fields? ["template", "parameters"] entries = some fields) :
    fields.lookup "template" = lookUp? "template" entries := by
  induction entries generalizing fields with
  | nil => cases hfields; rfl
  | cons entry entries ih =>
      obtain ⟨⟨hzero, -⟩, -, hrest⟩ := hentries
      obtain ⟨name, hname, hfields⟩ := Option.bind_eq_some_iff.mp hfields
      obtain ⟨others, hothers, hfields⟩ := Option.bind_eq_some_iff.mp hfields
      have hsame := isKey_of_keyName? hzero hname
      split at hfields
      case isTrue => cases hfields
      case isFalse =>
          cases hfields
          rw [List.lookup_cons, BEq.comm, hsame, Yaml.Value.lookUp?_cons, ih hrest hothers]
          cases entry.1.isKey "template" <;> rfl

theorem lookUp?_of_templateForm? {entries : Entries} {path : String}
    {parameters : Table Yaml.Value} (hentries : EntriesAreTransparent entries)
    (hform : templateForm? entries = some (.template path parameters)) :
    lookUp? "template" entries = some (.string path) := by
  obtain ⟨fields, hfields, hform⟩ := Option.bind_eq_some_iff.mp hform
  obtain ⟨text, htext, hform⟩ := Option.bind_eq_some_iff.mp hform
  obtain ⟨_, -, hform⟩ := Option.bind_eq_some_iff.mp hform
  cases hform
  obtain ⟨value, hvalue, htext⟩ := Option.bind_eq_some_iff.mp htext
  rw [← lookup_template_of_fields? hentries hfields, hvalue]
  cases value with
  | string _ => exact congrArg (some ∘ Yaml.Value.string) (Option.some.inj htext)
  | _ => cases htext

theorem isTemplate_of_definitionForm? {entries : Entries} {var : Variable}
    (hform : definitionForm? entries = some var) : var.isTemplate = false := by
  obtain ⟨fields, -, hform⟩ := Option.bind_eq_some_iff.mp hform
  obtain ⟨name, -, hform⟩ := Option.bind_eq_some_iff.mp hform
  obtain ⟨value, -, hform⟩ := Option.bind_eq_some_iff.mp hform
  dsimp only at hform
  split at hform
  case h_1 => cases hform; rfl
  case h_2 => cases hform; rfl
  case h_3 => cases hform

/-- A resolved entry of a list of variables is a definition. -/
theorem isTemplate_of_reader {item : Yaml.Value} {var : Variable}
    (htransparent : item.IsTransparent) (hresolved : Resolved .vars item)
    (hgives : Variable.reader.Gives item var) : var.isTemplate = false := by
  have hchosen := hgives.form
  cases item with
  | mapping entries =>
      -- A mapping is tried as a definition first; what remains is a reference by its fields.
      rcases Option.or_eq_some_iff.mp hchosen with hdefinition | ⟨-, htemplate⟩
      · exact isTemplate_of_definitionForm? hdefinition
      · cases var with
        | definition => rfl
        | template path parameters =>
            have hreference : reference? .vars (.mapping entries) = some path := by
              simp only [reference?, Yaml.Value.entries?, Yaml.Value.untagged, bind, Option.bind,
                lookUp?_of_templateForm? htransparent htemplate, Yaml.Value.text?, Level.nameKey?]
            cases hresolved.reference.symm.trans hreference
  | _ => cases hchosen

theorem isTemplate_of_shortReader {value : Yaml.Value} {vars : List Variable}
    (hgives : shortReader.Gives value vars) :
    ∀ var ∈ vars, var.isTemplate = false := by
  obtain ⟨draft, middle, right, hfinish, hdraft⟩ := hgives.mapping
  obtain ⟨rfl, -⟩ := Yaml.Result.pure_eq_ok hfinish
  have hnothing : ∀ var ∈ ([] : List Variable), var.isTemplate = false :=
    fun _ hmem => absurd hmem List.not_mem_nil
  rcases hdraft with rfl | ⟨entries, -, place, left, hfold⟩
  · exact hnothing
  · refine Reader.of_foldEntries (p := fun draft => ∀ var ∈ draft, var.isTemplate = false)
      hnothing ?_ hfold
    intro state next text entry left right hstate hstep
    obtain ⟨value, middle, -, hstep⟩ := Yaml.Result.bind_eq_ok hstep
    cases hscalar : value.scalarText? with
    | some scalar =>
        rw [hscalar] at hstep
        obtain ⟨rfl, -⟩ := Yaml.Result.pure_eq_ok hstep
        exact List.forall_mem_append.mpr ⟨hstate, List.forall_mem_singleton.mpr rfl⟩
    | none =>
        rw [hscalar] at hstep
        exact absurd hstep Yaml.refuse_ne_ok

end Variable

/-! ## Nodes -/

section Nodes

variable {α β δ : Type} {level : Level} {levels : List Level}

/-- A part that is read from what stands under a name, where the lists of these levels refer to no
template and nothing is hidden. -/
def ReadUnder (levels : List Level) (name : String) (read : Reader β) (part : β) : Prop :=
  ∃ entries source, EntriesAreTransparent entries ∧ ListsResolved levels entries ∧
    lookUp? name entries = some source ∧ read.Gives source part

/-- The fields of a record are read from the entries of the node. -/
theorem readUnder_of_record {node : Yaml.Value} {expected : String} {start : δ}
    {step : δ → String → Reader.Entry → Yaml.Result (Option δ)} {finish : δ → Yaml.Result α}
    {result : α} (htransparent : node.IsTransparent)
    (hlists : ∀ entries, node = .mapping entries → ListsResolved levels entries)
    (hgives : (Reader.record expected start step finish).Gives node result) :
    ∃ draft left right, finish draft left = .ok (result, right) ∧
      ∀ {β : Type} {name : String} {field : δ → Option β} {read : Reader β},
        HasField step name field read → field start = none →
          ∀ part ∈ field draft, ReadUnder levels name read part := by
  -- A record is read through tags, the expansion is not: here both see the same entries.
  have hkeys : ∀ entries, node.untagged = .mapping entries →
      ∀ entry ∈ entries, entry.1.untagged = entry.1 := by
    intro entries hnode entry hmem
    rw [htransparent.untagged] at hnode
    subst hnode
    exact (Yaml.Value.entriesAreTransparent_iff.mp htransparent entry hmem).1.2.untagged
  obtain ⟨draft, left, right, hfinish, hfields⟩ := hgives.record hkeys
  refine ⟨draft, left, right, hfinish, fun hfield hstart part hpart => ?_⟩
  obtain ⟨entries, source, hnode, hsource, hread⟩ := hfields hfield hstart hpart
  rw [htransparent.untagged] at hnode
  subst hnode
  exact ⟨entries, source, htransparent, hlists entries rfl, hsource, hread⟩

/-- The elements of a list are read from nodes that refer to no template, and have what all parts
of such nodes have. -/
theorem ReadUnder.forall_mem {read : Reader α} {parts : List α} {p : α → Prop}
    (hparts : ReadUnder levels level.sectionName (.list read) parts) (hlevel : level ∈ levels)
    (hnode : ∀ {node : Yaml.Value} {part : α}, node.IsTransparent → Resolved level node →
      read.Gives node part → p part) : ∀ part ∈ parts, p part := by
  obtain ⟨entries, source, hentries, hlists, hsource, hgives⟩ := hparts
  intro part hmem
  obtain ⟨nodes, hnodes, node, hmem, hread⟩ := hgives.list part hmem
  have htransparent := hentries.lookUp? hsource
  rw [htransparent.untagged] at hnodes
  subst hnodes
  exact hnode (Yaml.Value.areTransparent_iff.mp htransparent node hmem)
    (hlists level hlevel nodes hsource node hmem) hread

/-- Variables in a list are definitions, and in the short form as well. -/
theorem ReadUnder.isTemplate {vars : List Variable}
    (hvars : ReadUnder levels "variables" Variable.listReader vars) (hlevel : .vars ∈ levels) :
    ∀ var ∈ vars, var.isTemplate = false := by
  obtain ⟨entries, source, hentries, hlists, hsource, hgives⟩ := hvars
  rcases hgives.nullOr with rfl | hlist | hshort
  · exact fun _ hmem => absurd hmem List.not_mem_nil
  · have hread : ReadUnder levels Level.vars.sectionName (.list Variable.reader) vars :=
      ⟨entries, source, hentries, hlists, hsource, hlist⟩
    exact hread.forall_mem hlevel Variable.isTemplate_of_reader
  · exact Variable.isTemplate_of_shortReader hshort

theorem forall_mem_getD {p : α → Prop} {seen : Option (List α)}
    (hseen : ∀ parts ∈ seen, ∀ part ∈ parts, p part) : ∀ part ∈ seen.getD [], p part := by
  cases seen with
  | none => exact fun _ hmem => absurd hmem List.not_mem_nil
  | some parts => exact hseen parts rfl

theorem Job.isTemplate_of_reader {node : Yaml.Value} {job : Job}
    (htransparent : node.IsTransparent) (hresolved : Resolved .jobs node)
    (hgives : Job.reader.Gives node job) : ∀ var ∈ job.vars, var.isTemplate = false := by
  obtain ⟨draft, left, right, hfinish, hfields⟩ := readUnder_of_record htransparent
    (fun _ hnode => (hnode ▸ hresolved).lists) hgives
  cases hfinish
  exact forall_mem_getD fun vars hvars =>
    (hfields Job.hasField_vars rfl vars hvars).isTemplate (by decide)

theorem Stage.isTemplate_of_reader {node : Yaml.Value} {stage : Stage}
    (htransparent : node.IsTransparent) (hresolved : Resolved .stages node)
    (hgives : Stage.reader.Gives node stage) :
    (∀ var ∈ stage.vars, var.isTemplate = false) ∧
      ∀ job ∈ stage.jobs, ∀ var ∈ job.vars, var.isTemplate = false := by
  obtain ⟨draft, left, right, hfinish, hfields⟩ := readUnder_of_record htransparent
    (fun _ hnode => (hnode ▸ hresolved).lists) hgives
  cases hfinish
  constructor
  · exact forall_mem_getD fun vars hvars =>
      (hfields Stage.hasField_vars rfl vars hvars).isTemplate (by decide)
  · refine forall_mem_getD fun jobs hjobs => ?_
    have hread : ReadUnder _ Level.jobs.sectionName _ jobs :=
      hfields Stage.hasField_jobs rfl jobs hjobs
    exact hread.forall_mem (by decide) Job.isTemplate_of_reader

end Nodes

/-- No variable of a pipeline that is read from resolved and transparent entries is a reference. -/
theorem Pipeline.isTemplate_of_reader {entries : Entries} {pipeline : Pipeline}
    (htransparent : EntriesAreTransparent entries)
    (hlists : ListsResolved Template.rootLevels entries)
    (hgives : Pipeline.reader.Gives (.mapping entries) pipeline) :
    ∀ var ∈ pipeline.allVars, var.isTemplate = false := by
  have hroot : (Yaml.Value.mapping entries).IsTransparent := htransparent
  obtain ⟨draft, left, right, hfinish, hfields⟩ := readUnder_of_record hroot
    (fun _ hsame => Yaml.Value.mapping.inj hsame ▸ hlists) hgives
  cases hfinish
  have hvars : ∀ var ∈ draft.vars.getD [], var.isTemplate = false :=
    forall_mem_getD fun vars hvars =>
      (hfields Pipeline.hasField_vars rfl vars hvars).isTemplate (by decide)
  have hstages : ∀ stage ∈ draft.stages.getD [], (∀ var ∈ stage.vars, var.isTemplate = false) ∧
      ∀ job ∈ stage.jobs, ∀ var ∈ job.vars, var.isTemplate = false := by
    refine forall_mem_getD fun stages hstages => ?_
    have hread : ReadUnder _ Level.stages.sectionName _ stages :=
      hfields Pipeline.hasField_stages rfl stages hstages
    exact hread.forall_mem (by decide) Stage.isTemplate_of_reader
  have hjobs : ∀ job ∈ draft.jobs.getD [], ∀ var ∈ job.vars, var.isTemplate = false := by
    refine forall_mem_getD fun jobs hjobs => ?_
    have hread : ReadUnder _ Level.jobs.sectionName _ jobs :=
      hfields Pipeline.hasField_jobs rfl jobs hjobs
    exact hread.forall_mem (by decide) Job.isTemplate_of_reader
  -- A variable stands at the root, in a stage, or in a job of a stage or of the root.
  simp only [allVars, allJobs, List.mem_append, List.mem_flatMap]
  rintro var ((hmem | ⟨stage, hstage, hmem⟩) | ⟨job, ⟨stage, hstage, hjob⟩ | hjob, hmem⟩)
  · exact hvars var hmem
  · exact (hstages stage hstage).1 var hmem
  · exact (hstages stage hstage).2 job hjob var hmem
  · exact hjobs job hjob var hmem

/-! ## Plans -/

/-- The plan is loaded from this document, given as a text or held in a file. -/
def Plan.IsLoadedFrom [Yaml.Codec] (plan : Plan) (files : Files) (repository source : String)
    (supplied : Template.Arguments) : Prop :=
  Plan.ofText files repository source supplied = .ok plan ∨
    ∃ path, files.read path = .ok source ∧ Plan.ofFile files repository path supplied = .ok plan

theorem Plan.build_eq_ok {pipeline : Pipeline} {parameters : Template.Arguments} {plan : Plan}
    (hplan : Plan.build pipeline parameters = .ok plan) :
    plan.pipeline = pipeline ∧ pipeline.validate = [] := by
  unfold build at hplan
  split at hplan
  case h_2 => cases hplan
  case h_1 hvalid =>
      split at hplan
      case h_2 => cases hplan
      case h_1 => cases hplan; exact ⟨rfl, hvalid⟩

theorem Plan.exists_of_ofExpanded {outcome : Except Template.Error Template.Expanded} {plan : Plan}
    (hplan : Plan.ofExpanded outcome = .ok plan) :
    ∃ expanded, outcome = .ok expanded ∧
      Plan.build expanded.pipeline.normalize expanded.parameters = .ok plan := by
  cases outcome with
  | error error => cases hplan
  | ok expanded => exact ⟨expanded, rfl, hplan⟩

theorem Plan.IsLoadedFrom.exists_expand [Yaml.Codec] {plan : Plan} {files : Files}
    {repository source : String}
    {supplied : Template.Arguments} (hload : plan.IsLoadedFrom files repository source supplied) :
    ∃ origin expanded, Template.expand files repository source origin supplied = .ok expanded ∧
      Plan.build expanded.pipeline.normalize expanded.parameters = .ok plan := by
  rcases hload with htext | ⟨path, hread, hfile⟩
  · exact ⟨_, exists_of_ofExpanded htext⟩
  · unfold ofFile Template.expandFile at hfile
    rw [hread] at hfile
    exact ⟨path, exists_of_ofExpanded hfile⟩

/-- A loaded plan has no steps, jobs and stages that refer to templates.  It has no variables that
do, wherever they stand, if no document hides one behind a local tag or a key `0`; how parameters
are declared and supplied does not matter. -/
theorem loaded_plan_is_concrete [Yaml.Codec] {files : Files} {repository source : String}
    {supplied : Template.Arguments} {plan : Plan}
    (hload : plan.IsLoadedFrom files repository source supplied) :
    (∀ stage ∈ plan.pipeline.stages, stage.template = none) ∧
    (∀ job ∈ plan.pipeline.allJobs, job.template = none) ∧
    (∀ step ∈ plan.pipeline.allSteps, step.action.isTemplate = false) ∧
    (Template.IsTransparentText source → Template.HasTransparentFiles files →
      ∀ var ∈ plan.pipeline.allVars, var.isTemplate = false) := by
  obtain ⟨origin, expanded, hexpand, hplan⟩ := hload.exists_expand
  obtain ⟨hpipeline, hvalid⟩ := Plan.build_eq_ok hplan
  obtain ⟨hstages, hjobs, hsteps⟩ := Pipeline.concrete_of_validate hvalid
  rw [hpipeline, Pipeline.allVars_normalize]
  refine ⟨hstages, hjobs, hsteps, fun hsource hfiles => ?_⟩
  obtain ⟨entries, pipeline, hread, ⟨declared, hsame⟩, hlists, htransparent⟩ :=
    Template.exists_entries_of_expand hexpand
  have hvars := Pipeline.isTemplate_of_reader (htransparent hsource hfiles) hlists
    (Yaml.Reader.gives_of_readHeld hread)
  rw [hsame]
  exact hvars

/-! ## A stage with a tag -/

/-- A node is resolved by its lists. -/
theorem Template.resolve_of_node [Yaml.Codec] {library : Library} {stack : Stack} {file : String}
    {level : Level} {entries resolved : Entries}
    (hreference : reference? level (.mapping entries) = none)
    (hlists : resolveLists library stack file level.children entries = .ok resolved) :
    resolve library stack level file [.mapping entries] = .ok [.mapping resolved] := by
  rw [resolve_cons_of_node [] hreference, resolve.eq_1, Piece.outcome_node, hlists]
  rfl

namespace Deploy

open Template

def template : String := "variables:\n  tool: ruff\n"

def files : Files where
  entries := [(["vars.yml"], .file template)]

/-- A stage that takes its variables from the template, behind a tag or none. -/
def source (tag : String) : String :=
  "stages:\n- " ++ tag ++ "stage: build\n  variables:\n  - template: vars.yml\n  jobs:\n" ++
    "  - job: compile\n    steps:\n    - script: make\n"

def reference : Yaml.Value := .mapping [(.string "template", .string "vars.yml")]

def definition : Yaml.Value :=
  .mapping [(.string "name", .string "tool"), (.string "value", .string "ruff")]

def step : Yaml.Value := .mapping [(.string "script", .string "make")]

def job : Yaml.Value :=
  .mapping [(.string "job", .string "compile"), (.string "steps", .sequence [step])]

def stage (var : Yaml.Value) : Yaml.Value :=
  .mapping [(.string "stage", .string "build"), (.string "variables", .sequence [var]),
    (.string "jobs", .sequence [job])]

def document (stage : Yaml.Value) : Entries := [(.string "stages", .sequence [stage])]

def pipeline (var : Variable) : Pipeline where
  stages := [{
    stage := some "build"
    vars := [var]
    jobs := [{ job := some "compile", steps := [{ action := .shell .script "make" none }] }] }]

def library : Library where
  files
  repository := "/"

def root (stage : Yaml.Value) : Root where
  library
  file := "/pipeline.yml"
  declared := []
  arguments := []
  document := document stage

def stack : Stack := [⟨"/pipeline.yml", signature []⟩]

theorem resolve_job (library : Library) (stack : Stack) (file : String) :
    resolve library stack .jobs file [job] = .ok [job] := by
  have hstep : resolve library stack .steps file [step] = .ok [step] :=
    resolve_of_node rfl (resolveLists.eq_1 ..)
  refine resolve_of_node rfl ?_
  rw [show Level.children .jobs = [.vars, .steps] from rfl,
    resolveLists_of_noList (by intro items hitems; cases hitems), resolveLists_of_list rfl, hstep]
  exact resolveLists.eq_1 ..

def call : Template.Call where
  path := "/vars.yml"
  entries := [(.string "variables", .mapping [(.string "tool", .string "ruff")])]
  arguments := []

theorem resolve_reference :
    resolve library stack .vars "/pipeline.yml" [reference] = .ok [definition] := by
  have hcall : library.call "/pipeline.yml" "vars.yml" reference = .ok call :=
    eq_ok_of_toOption (by decide +kernel)
  have henter : stack.enter call.frame = .ok (call.frame :: stack) :=
    eq_ok_of_toOption (by decide +kernel)
  have hbody : sectionItems .vars call.entries (library.scope call.arguments call.path) "vars.yml" =
      .ok [definition] := eq_ok_of_toOption (by decide +kernel)
  have hinner : resolve library (call.frame :: stack) .vars call.path [definition] =
      .ok [definition] := resolve_of_node rfl (resolveLists.eq_1 ..)
  have hinstance : library.instantiate stack "/pipeline.yml" "vars.yml" reference =
      .ok ⟨call.entries, library.scope call.arguments call.path, call.frame :: stack⟩ := by
    simp only [Library.instantiate_eq, hcall, henter, bind, Except.bind, pure, Except.pure]
  rw [resolve_of_included rfl hinstance, hbody]
  simp only [bind, Except.bind]
  rw [show (library.scope call.arguments call.path).file = call.path from rfl, hinner,
    resolve.eq_1]
  rfl

theorem resolve_stage :
    resolve library stack .stages "/pipeline.yml" [stage reference] = .ok [stage definition] := by
  refine resolve_of_node rfl ?_
  rw [show Level.children .stages = [.vars, .jobs] from rfl, resolveLists_of_list rfl,
    resolve_reference]
  simp only [Except.bind]
  rw [resolveLists_of_list rfl, resolve_job]
  exact resolveLists.eq_1 ..

/-- What a tag hides stays as it is. -/
theorem resolve_tagged :
    resolve library stack .stages "/pipeline.yml" [.tagged "deploy" (stage reference)] =
      .ok [.tagged "deploy" (stage reference)] := by
  rw [resolve_cons_of_leaf [] rfl (by intro entries hitem; cases hitem), resolve.eq_1]
  rfl

theorem exists_graph (var : Variable) : ∃ graph, Graph.ofPipeline (pipeline var) = .ok graph := by
  simp [Graph.ofPipeline, pipeline, stageNodes, Stage.jobNodes, jobNodes, nodeName,
    Stage.dependencyNames, DependsOn.names, DependsOn.isImplicit, Graph.precedence,
    JobNode.precedence, checkPrecedence, Precedence.dangling?, Precedence.cycle?, Precedence.visit,
    Precedence.before, Precedence.names, List.findSome?_cons, bind, Except.bind, pure, Except.pure]

/-- The plan of the document, from what its one stage is resolved to. -/
theorem exists_plan {tag : String} {given resolved : Yaml.Value} {var : Variable}
    (hdocument : rootEntries (source tag) "/pipeline.yml" = .ok (document given))
    (hevaluated : (root given).evaluated = .ok (document given))
    (hresolve : resolve library stack .stages "/pipeline.yml" [given] = .ok [resolved])
    (hread : Yaml.readHeld Pipeline.reader (.mapping (document resolved)) = .ok (pipeline var)) :
    ∃ plan : Plan, plan.IsLoadedFrom files "/" (source tag) [] ∧
      plan.pipeline = pipeline var := by
  have hroot : Root.prepare files "/" (source tag) "/pipeline.yml" [] = .ok (root given) := by
    rw [Root.prepare, hdocument]
    rfl
  have hlists : resolveLists library stack "/pipeline.yml" [.vars, .stages, .jobs, .steps]
      (document given) = .ok (document resolved) := by
    rw [resolveLists_of_noList (by intro items hitems; cases hitems), resolveLists_of_list rfl,
      hresolve]
    simp only [Except.bind]
    rw [resolveLists_of_noList (by intro items hitems; cases hitems),
      resolveLists_of_noList (by intro items hitems; cases hitems)]
    exact resolveLists.eq_1 ..
  have hexpand : expand files "/" (source tag) "/pipeline.yml" [] = .ok ⟨pipeline var, []⟩ := by
    rw [Root.expand_eq, hroot]
    simp only [Except.bind, hevaluated]
    rw [show (root given).library = library from rfl, show (root given).stack = stack from rfl,
      show (root given).file = "/pipeline.yml" from rfl, hlists]
    simp only [Root.read, hread]
    rfl
  have hvalid : (pipeline var).validate = [] := by
    simp [Pipeline.validate, Pipeline.rootDefects, pipeline, stageErrors, Stage.defects,
      nameDefects, isWord, templateDefects, jobErrors, Job.defects, stepErrors, Step.defects,
      atPath]
  obtain ⟨plan, hplan⟩ := Plan.exists_build_iff.mpr ⟨hvalid, exists_graph var⟩
  have htext : Plan.ofText files "/" (source tag) [] = .ok plan := by
    rw [Plan.ofText, show Path.join "/" "pipeline.yml" = "/pipeline.yml" by decide, hexpand]
    exact hplan
  exact ⟨plan, .inl htext, (Plan.build_eq_ok hplan).1⟩

end Deploy

/-- Without a tag the plan has the definition from the template. -/
theorem loaded_plan_is_concrete_deploy :
    ∃ plan : Plan, plan.IsLoadedFrom Deploy.files "/" (Deploy.source "") [] ∧
      plan.pipeline.allVars = [.definition "tool" "ruff" false] ∧
      Template.IsTransparentText (Deploy.source "") ∧
      Template.HasTransparentFiles Deploy.files ∧
      ∀ var ∈ plan.pipeline.allVars, var.isTemplate = false := by
  have hdocument : Template.rootEntries (Deploy.source "") "/pipeline.yml" =
      .ok (Deploy.document (Deploy.stage Deploy.reference)) :=
    eq_ok_of_toOption (by decide +kernel)
  have htemplate : Template.rootEntries Deploy.template "/vars.yml" = .ok Deploy.call.entries :=
    eq_ok_of_toOption (by decide +kernel)
  have hread : Yaml.readHeld Pipeline.reader
      (.mapping (Deploy.document (Deploy.stage Deploy.definition))) =
        .ok (Deploy.pipeline (.definition "tool" "ruff" false)) := rfl
  obtain ⟨plan, hload, hpipeline⟩ := Deploy.exists_plan hdocument
    (eq_ok_of_toOption (by decide +kernel)) Deploy.resolve_stage hread
  have hsource : Template.IsTransparentText (Deploy.source "") := by
    rw [Template.isTransparentText_iff hdocument]
    simp [Yaml.Value.takeOut, Deploy.document, Deploy.stage, Deploy.reference, Deploy.job,
      Deploy.step, Yaml.Value.isKey, EntriesAreTransparent, Yaml.Value.IsTransparent,
      Yaml.Value.AreTransparent]
  have hfiles : Template.HasTransparentFiles Deploy.files := by
    intro location text hmem
    cases List.mem_singleton.mp hmem
    rw [Template.isTransparentText_iff htemplate]
    simp [Yaml.Value.takeOut, Deploy.call, Yaml.Value.isKey, EntriesAreTransparent,
      Yaml.Value.IsTransparent]
  obtain ⟨-, -, -, hvars⟩ := loaded_plan_is_concrete hload
  exact ⟨plan, hload, by rw [hpipeline]; rfl, hsource, hfiles, hvars hsource hfiles⟩

/-- Behind a tag the reference stays, and the plan is loaded all the same. -/
theorem tagged_stage_keeps_reference :
    ∃ plan : Plan, plan.IsLoadedFrom Deploy.files "/" (Deploy.source "!deploy\n  ") [] ∧
      plan.pipeline.allVars = [.template "vars.yml" []] := by
  have hdocument : Template.rootEntries (Deploy.source "!deploy\n  ") "/pipeline.yml" =
      .ok (Deploy.document (.tagged "deploy" (Deploy.stage Deploy.reference))) :=
    eq_ok_of_toOption (by decide +kernel)
  have hread : Yaml.readHeld Pipeline.reader
      (.mapping (Deploy.document (.tagged "deploy" (Deploy.stage Deploy.reference)))) =
        .ok (Deploy.pipeline (.template "vars.yml" [])) := rfl
  obtain ⟨plan, hload, hpipeline⟩ := Deploy.exists_plan hdocument
    (eq_ok_of_toOption (by decide +kernel)) Deploy.resolve_tagged hread
  exact ⟨plan, hload, by rw [hpipeline]; rfl⟩

end BuildPipeline
