import BuildPipeline.Proofs.Template.Resolution
import BuildPipeline.Proofs.Yaml.Readback

/-!
# Reading written pipelines

Each part of a pipeline is written field by field, and here it is read again in the same order.  The
readers and the writers leave out different things, so not every value survives.

* `IsReadable` says of a part what reading asks of it: numbers fit 32 bits, tables are in order, a
  pool is not null, and what is matched against forms later holds no tag.
* `reads_toYaml` reads a readable part back.  For an action this needs that it fits its own form and
  none before it (`Action.ofFields?_toEntries`), and that its fields are left over by the step
  (`Step.named_toEntries`).
* `Parameter.withoutNullDefault` is what becomes of a declaration: a default that is null is
  written, but what reads it takes null for a default that is missing.
-/

namespace BuildPipeline

open Yaml (Entries Reader)
open Yaml.Reader (Absorbs Reads Takes Yields recordStep reads_form reads_value unlessEmpty)

/-! ## Small parts -/

theorem Flag.reads_toYaml (flag : Flag) : Flag.reader.Reads flag.toYaml flag := by
  cases flag <;> exact reads_form rfl rfl

theorem Form.texts?_map_string (names : List String) :
    Form.texts? (names.map Yaml.Value.string) = some names := by
  induction names with
  | nil => rfl
  | cons name names ih =>
      rw [List.map_cons, texts?, ih]
      rfl

theorem itemsHaveTag_map_string (names : List String) :
    Yaml.Value.itemsHaveTag (names.map Yaml.Value.string) = false := by
  induction names with
  | nil => rfl
  | cons name names ih =>
      rw [List.map_cons, Yaml.Value.itemsHaveTag, ih]
      rfl

section Fields

variable {δ : Type} {step : δ → String → Reader.Entry → Yaml.Result δ} {name : String}
  {start draft : δ} {front : Entries}

/-- A flag is written unless it is the default. -/
theorem exists_flag {get : δ → Option Flag} {set : δ → Option Flag → δ}
    (habsorbs : Absorbs step start front draft) (htakes : Takes step name get set Flag.reader)
    (hempty : get draft = none) (hsame : set draft none = draft) (flag : Flag) :
    ∃ written, Absorbs step start (front ++ yamlFlag name flag) (set draft written) ∧
      written.getD default = flag := by
  unfold yamlFlag
  split
  · next hdefault =>
      refine ⟨none, ?_, hdefault.symm⟩
      rw [hsame]
      exact habsorbs.skip
  · exact ⟨some flag, habsorbs.field htakes hempty flag.reads_toYaml, rfl⟩

theorem exists_switch {get : δ → Option Bool} {set : δ → Option Bool → δ}
    (habsorbs : Absorbs step start front draft) (htakes : Takes step name get set Reader.bool)
    (hempty : get draft = none) (hsame : set draft none = draft) (switch : Bool) :
    ∃ written, Absorbs step start
        (front ++ if switch then [] else yamlField name (.bool false)) (set draft written) ∧
      written.getD true = switch := by
  cases switch with
  | true =>
      refine ⟨none, ?_, rfl⟩
      rw [hsame]
      exact habsorbs.skip
  | false =>
      exact ⟨some false, habsorbs.field htakes hempty (Yaml.Reader.reads_bool false), rfl⟩

theorem exists_dependsOn {get : δ → Option DependsOn} {set : δ → Option DependsOn → δ}
    (habsorbs : Absorbs step start front draft)
    (htakes : Takes step "dependsOn" get set DependsOn.reader) (hempty : get draft = none)
    (hsame : set draft none = draft) (dependsOn : DependsOn) :
    ∃ written, Absorbs step start (front ++ dependsOn.toEntries) (set draft written) ∧
      written.getD .implicit = dependsOn := by
  cases dependsOn with
  | implicit =>
      refine ⟨none, ?_, rfl⟩
      rw [hsame]
      exact habsorbs.skip
  | single name =>
      exact ⟨some (.single name), habsorbs.field htakes hempty (reads_form rfl rfl), rfl⟩
  | multiple names =>
      have hchosen : (Form.texts? (names.map Yaml.Value.string)).map DependsOn.multiple =
          some (.multiple names) := by rw [Form.texts?_map_string, Option.map_some]
      have hplain := itemsHaveTag_map_string names
      exact ⟨some (.multiple names), habsorbs.field htakes hempty (reads_form hchosen hplain), rfl⟩

end Fields

/-! ## Parameters -/

theorem ParameterType.reads_name (type : ParameterType) :
    ParameterType.reader.Reads (.string type.name) type := by
  cases type <;> exact Yaml.Reader.reads_word rfl

namespace Parameter

/-- A parameter as it is read back: a default that is null counts as none. -/
def withoutNullDefault (parameter : Parameter) : Parameter :=
  { parameter with default := parameter.default.filter (· ≠ .null) }

theorem reads_toYaml (parameter : Parameter) :
    Parameter.reader.Reads parameter.toYaml parameter.withoutNullDefault := by
  obtain ⟨name, displayName, type, default, values⟩ := parameter
  have hstart : Absorbs (recordStep readField) {} [] {} := .nil
  have hname := hstart.field
    (.record "name" Draft.name (fun draft name => { draft with name }) fun _ _ => rfl) rfl
    (Yaml.Reader.reads_text name)
  have hlabel := hname.text
    (.record "displayName" Draft.displayName (fun draft displayName => { draft with displayName })
      fun _ _ => rfl) rfl rfl displayName
  have htype := hlabel.field
    (.record "type" Draft.type (fun draft type => { draft with type }) fun _ _ => rfl) rfl
    type.reads_name
  obtain ⟨written, hdefault, hjoin⟩ := htype.exists_value
    (.record "default" Draft.default (fun draft default => { draft with default }) fun _ _ => rfl)
    rfl rfl default
  have hvalues := hdefault.optional
    (.record "values" Draft.values (fun draft values => { draft with values }) fun _ _ => rfl)
    rfl rfl values fun items _ =>
      ⟨Yaml.Reader.reads_list (List.forall₂_same.mpr fun item _ => reads_value item),
        fun heq => nomatch heq⟩
  refine hvalues.record ?_
  rw [withoutNullDefault, ← hjoin]
  simp [Reader.required]

end Parameter

/-! ## Parts with several forms -/

/-- A table that a form can hold: it is in order, and its values have neither tags nor keys that
occur twice. -/
structure Form.Admits (table : Table Yaml.Value) : Prop where
  ascending : Table.Ascending table
  values : ∀ entry ∈ table, entry.2.hasTag = false ∧ entry.2.hasDistinctKeys = true

/-- Entries with texts of some kind for keys, and with no tags. -/
def Form.Named (kind : String → Prop) (entries : Entries) : Prop :=
  ∀ entry ∈ entries, ∃ name, entry.1 = .string name ∧ kind name ∧ entry.2.hasTag = false

namespace Form

theorem table?_written {α : Type} {read : Yaml.Value → Option α} (encode : α → Yaml.Value)
    {table : Table α} (hascending : Table.Ascending table)
    (hread : ∀ entry ∈ table, read (encode entry.2) = some entry.2) :
    table? read (some (.mapping (table.map fun entry => (.string entry.1, encode entry.2)))) =
      some table := by
  have hpairs : ∀ entries : Table α, (∀ entry ∈ entries, read (encode entry.2) = some entry.2) →
      (entries.map fun entry => (Yaml.Value.string entry.1, encode entry.2)).mapM
        (fun entry => do return (← text? entry.1, ← read entry.2)) = some entries := by
    intro entries hentries
    induction entries with
    | nil => rfl
    | cons entry entries ih =>
        obtain ⟨hentry, hrest⟩ := List.forall_mem_cons.mp hentries
        rw [List.map_cons, List.mapM_cons, ih hrest]
        simp [text?, hentry]
  refine (congrArg (fun pairs : Option (Table α) => pairs.bind fun pairs =>
    some (Table.ofList pairs)) (hpairs table hread)).trans ?_
  rw [Option.bind_some, Table.ofList_of_ascending hascending]

theorem Admits.table? {table : Table Yaml.Value} (hadmits : Admits table) :
    Form.table? value? (some (.mapping (table.map fun entry => (.string entry.1, entry.2)))) =
      some table :=
  table?_written id hadmits.ascending fun entry hentry => if_pos (hadmits.values entry hentry).2

theorem texts_written {table : Table String} (hascending : Table.Ascending table) :
    Form.table? text? (some (.mapping ((table.mapValues Yaml.Value.string).map fun entry =>
      (.string entry.1, entry.2)))) = some table := by
  rw [Table.mapValues, List.map_map]
  exact table?_written Yaml.Value.string hascending fun _ _ => rfl

section Named

variable {kind : String → Prop} {entries : Entries} {name : String}

theorem Named.hasTag_mapping (hnamed : Named kind entries) :
    (Yaml.Value.mapping entries).hasTag = false := by
  rw [Yaml.Value.hasTag]
  induction entries with
  | nil => rfl
  | cons entry entries ih =>
      obtain ⟨⟨name, hname, -, htag⟩, hrest⟩ := List.forall_mem_cons.mp hnamed
      obtain ⟨key, value⟩ := entry
      obtain rfl := hname
      rw [Yaml.Value.entriesHaveTag, ih hrest, htag]
      rfl

theorem Named.append {others : Entries} (hentries : Named kind entries)
    (hothers : Named kind others) : Named kind (entries ++ others) :=
  List.forall_mem_append.mpr ⟨hentries, hothers⟩

theorem named_field {value : Yaml.Value} (hkind : kind name) (hplain : value.hasTag = false) :
    Named kind (yamlField name value) :=
  List.forall_mem_singleton.mpr ⟨name, rfl, hkind, hplain⟩

theorem named_text (hkind : kind name) (value : Option String) :
    Named kind (yamlText name value) := by
  cases value with
  | none => exact fun _ hmem => absurd hmem List.not_mem_nil
  | some text => exact named_field hkind rfl

theorem named_table (hkind : kind name) {table : Table Yaml.Value}
    (hvalues : ∀ entry ∈ table, entry.2.hasTag = false) : Named kind (yamlTable name table) := by
  unfold yamlTable
  split
  · exact fun _ hmem => absurd hmem List.not_mem_nil
  · have hentries : Named (fun _ => True)
        (table.map fun entry => (Yaml.Value.string entry.1, entry.2)) := by
      rintro _ hmem
      obtain ⟨entry, hentry, rfl⟩ := List.mem_map.mp hmem
      exact ⟨entry.1, rfl, trivial, hvalues entry hentry⟩
    exact named_field hkind hentries.hasTag_mapping

end Named

end Form

/-! ## Variables -/

namespace Variable

/-- Whether a variable can come of reading. -/
def IsReadable : Variable → Prop
  | .definition .. => True
  | .template _ parameters => Form.Admits parameters

theorem templateForm?_written (path : String) {parameters : Table Yaml.Value}
    (hadmits : Form.Admits parameters) :
    templateForm? (yamlField "template" (.string path) ++ yamlTable "parameters" parameters) =
      some (.template path parameters) := by
  cases parameters with
  | nil => rfl
  | cons entry rest =>
      exact congrArg (fun table : Option (Table Yaml.Value) => table.bind fun table =>
        some (template path table)) hadmits.table?

theorem reads_toYaml {var : Variable} (hreadable : var.IsReadable) :
    Variable.reader.Reads var.toYaml var := by
  cases var with
  | definition name value readonly => cases readonly <;> exact reads_form rfl rfl
  | template path parameters =>
      have hother : definitionForm? (yamlField "template" (.string path) ++
          yamlTable "parameters" parameters) = none := by
        cases parameters <;> rfl
      have hnamed : Form.Named (fun _ => True) (yamlField "template" (.string path) ++
          yamlTable "parameters" parameters) :=
        (Form.named_field trivial rfl).append
          (Form.named_table trivial fun entry hentry => (hreadable.values entry hentry).1)
      refine reads_form ?_ hnamed.hasTag_mapping
      change (definitionForm? _).or (templateForm? _) = _
      rw [hother, templateForm?_written path hreadable]
      rfl

theorem listReader_reads {vars : List Variable} (hreadable : ∀ var ∈ vars, var.IsReadable) :
    listReader.Reads (.sequence (vars.map toYaml)) vars := by
  have hlist : (Reader.list reader).Reads (.sequence (vars.map toYaml)) vars := by
    refine Yaml.Reader.reads_list ?_
    rw [List.forall₂_map_left_iff]
    exact List.forall₂_same.mpr fun var hvar => reads_toYaml (hreadable var hvar)
  exact hlist

end Variable

/-! ## Steps -/

namespace Action

/-- Whether an action can come of reading. -/
def IsReadable : Action → Prop
  | .task _ inputs => Table.Ascending inputs
  | .template _ parameters => Form.Admits parameters
  | _ => True

/-- An action that is written fits its own form and none before it. -/
theorem ofFields?_toEntries {action : Action} (hreadable : action.IsReadable) :
    ofFields? action.toEntries = some action := by
  cases action with
  | shell kind body workingDirectory => cases kind <;> cases workingDirectory <;> rfl
  | task name inputs =>
      cases inputs with
      | nil => rfl
      | cons entry rest =>
          exact congrArg (fun table : Option (Table String) =>
            (table.bind fun table => some (task name table)).or _) (Form.texts_written hreadable)
  | template path parameters =>
      cases parameters with
      | nil => rfl
      | cons entry rest =>
          exact congrArg (fun table : Option (Table Yaml.Value) =>
            (table.bind fun table => some (template path table)).or _) hreadable.table?
  | publish path artifact => cases artifact <;> rfl
  | download source artifact path => cases artifact <;> cases path <;> rfl

end Action

namespace Step

/-- The step leaves fields of this name to the action. -/
def IsOther (name : String) : Prop :=
  ∀ draft entry, readField draft name entry = do
    return { draft with rest := draft.rest ++ [(.string name, ← entry.read .matchable)] }

theorem named_toEntries {action : Action} (hreadable : action.IsReadable) :
    Form.Named IsOther action.toEntries := by
  cases action with
  | shell kind body workingDirectory =>
      have hkind : IsOther kind.field := by cases kind <;> exact fun _ _ => rfl
      exact (Form.named_field hkind rfl).append (Form.named_text (fun _ _ => rfl) workingDirectory)
  | task name inputs =>
      refine (Form.named_field (fun _ _ => rfl) rfl).append (Form.named_table (fun _ _ => rfl) ?_)
      intro entry hentry
      obtain ⟨input, -, rfl⟩ := List.mem_map.mp hentry
      rfl
  | template path parameters =>
      exact (Form.named_field (fun _ _ => rfl) rfl).append
        (Form.named_table (fun _ _ => rfl) fun entry hentry => (hreadable.values entry hentry).1)
  | publish path artifact =>
      exact (Form.named_field (fun _ _ => rfl) rfl).append
        (Form.named_text (fun _ _ => rfl) artifact)
  | download source artifact path =>
      exact ((Form.named_field (fun _ _ => rfl) rfl).append
        (Form.named_text (fun _ _ => rfl) artifact)).append (Form.named_text (fun _ _ => rfl) path)

theorem absorbs_others {draft : Draft} {entries : Entries} (hnamed : Form.Named IsOther entries) :
    Absorbs readField draft entries { draft with rest := draft.rest ++ entries } := by
  induction entries generalizing draft with
  | nil =>
      rw [List.append_nil]
      exact .nil
  | cons entry entries ih =>
      obtain ⟨⟨name, hname, hother, htag⟩, hrest⟩ := List.forall_mem_cons.mp hnamed
      obtain ⟨key, value⟩ := entry
      obtain rfl := hname
      have hfirst : Absorbs readField draft (yamlField name value)
          { draft with rest := draft.rest ++ [(.string name, value)] } := by
        refine Yaml.Reader.absorbs_field fun place left => ?_
        rw [hother]
        change (Reader.matchable place (.held value) left).bind _ = _
        simp only [Reader.matchable, htag, Bool.false_eq_true, if_false]
        rfl
      have hall := hfirst.append (ih hrest)
      rwa [List.append_assoc] at hall

/-- Whether a step can come of reading. -/
structure IsReadable (step : Step) : Prop where
  env : Table.Ascending step.env
  action : step.action.IsReadable

theorem reads_toYaml {step : Step} (hreadable : step.IsReadable) :
    Step.reader.Reads step.toYaml step := by
  obtain ⟨name, displayName, condition, continueOnError, enabled, timeout, retries, env, action⟩ :=
    step
  obtain ⟨henv, haction⟩ := hreadable
  have hstart : Absorbs readField {} [] {} := .nil
  have hname := hstart.text
    (.mapping "name" Draft.name (fun draft name => { draft with name }) fun _ _ => rfl) rfl rfl name
  have hlabel := hname.text
    (.mapping "displayName" Draft.displayName (fun draft displayName => { draft with displayName })
      fun _ _ => rfl) rfl rfl displayName
  have hcondition := hlabel.text
    (.mapping "condition" Draft.condition (fun draft condition => { draft with condition })
      fun _ _ => rfl) rfl rfl condition
  obtain ⟨flag, hflag, hflagValue⟩ := exists_flag hcondition
    (.mapping "continueOnError" Draft.continueOnError
      (fun draft continueOnError => { draft with continueOnError }) fun _ _ => rfl)
    rfl rfl continueOnError
  obtain ⟨switch, hswitch, hswitchValue⟩ := exists_switch hflag
    (.mapping "enabled" Draft.enabled (fun draft enabled => { draft with enabled }) fun _ _ => rfl)
    rfl rfl enabled
  have hminutes := hswitch.word
    (.mapping "timeoutInMinutes" Draft.timeoutInMinutes
      (fun draft timeoutInMinutes => { draft with timeoutInMinutes }) fun _ _ => rfl) rfl rfl
    timeout
  have hcount := hminutes.word
    (.mapping "retryCountOnTaskFailure" Draft.retries (fun draft retries => { draft with retries })
      fun _ _ => rfl) rfl rfl retries
  have hvars := hcount.texts
    (.mapping "env" Draft.env (fun draft env => { draft with env }) fun _ _ => rfl) rfl rfl henv
  have hfields := hvars.append (absorbs_others (named_toEntries haction))
  refine hfields.mapping ?_ "field identifier"
  simp only [List.nil_append, Action.ofFields?_toEntries haction]
  simp [hflagValue, hswitchValue]

end Step

/-! ## Jobs, stages and pipelines -/

theorem filter_ne_null {value : Option Yaml.Value} (hvalue : value ≠ some .null) :
    value.filter (· ≠ .null) = value := by
  cases value with
  | none => rfl
  | some value =>
      have hpresent : value ≠ .null := fun hnull => hvalue (congrArg some hnull)
      simp [Option.filter, hpresent]

namespace Job

/-- Whether a job can come of reading. -/
structure IsReadable (job : Job) : Prop where
  pool : job.pool ≠ some .null
  vars : ∀ var ∈ job.vars, var.IsReadable
  steps : ∀ step ∈ job.steps, step.IsReadable
  parameters : Table.Ascending job.parameters

theorem reads_toYaml {job : Job} (hreadable : job.IsReadable) :
    Job.reader.Reads job.toYaml job := by
  obtain ⟨job, displayName, dependsOn, condition, continueOnError, pool, vars, steps, template,
    parameters⟩ := job
  obtain ⟨hpool, hvars, hsteps, hparameters⟩ := hreadable
  have hstart : Absorbs (recordStep readField) {} [] {} := .nil
  have hname := hstart.text
    (.record "job" Draft.job (fun draft job => { draft with job }) fun _ _ => rfl) rfl rfl job
  have hlabel := hname.text
    (.record "displayName" Draft.displayName (fun draft displayName => { draft with displayName })
      fun _ _ => rfl) rfl rfl displayName
  obtain ⟨names, hnames, hnamesValue⟩ := exists_dependsOn hlabel
    (.record "dependsOn" Draft.dependsOn (fun draft dependsOn => { draft with dependsOn })
      fun _ _ => rfl) rfl rfl dependsOn
  have hcondition := hnames.text
    (.record "condition" Draft.condition (fun draft condition => { draft with condition })
      fun _ _ => rfl) rfl rfl condition
  obtain ⟨flag, hflag, hflagValue⟩ := exists_flag hcondition
    (.record "continueOnError" Draft.continueOnError
      (fun draft continueOnError => { draft with continueOnError }) fun _ _ => rfl)
    rfl rfl continueOnError
  obtain ⟨written, hwritten, hjoin⟩ := hflag.exists_value
    (.record "pool" Draft.pool (fun draft pool => { draft with pool }) fun _ _ => rfl) rfl rfl pool
  have hlist := hwritten.items
    (.record "variables" Draft.vars (fun draft vars => { draft with vars }) fun _ _ => rfl) rfl rfl
    (Variable.listReader_reads hvars)
  have hbody := hlist.list
    (.record "steps" Draft.steps (fun draft steps => { draft with steps }) fun _ _ => rfl) rfl rfl
    fun step hstep => Step.reads_toYaml (hsteps step hstep)
  have htemplate := hbody.text
    (.record "template" Draft.template (fun draft template => { draft with template })
      fun _ _ => rfl) rfl rfl template
  have hfields := htemplate.values
    (.record "parameters" Draft.parameters (fun draft parameters => { draft with parameters })
      fun _ _ => rfl) rfl rfl hparameters
  refine hfields.record ?_
  simp [hnamesValue, hflagValue, hjoin.trans (filter_ne_null hpool)]

end Job

namespace Stage

/-- Whether a stage can come of reading. -/
structure IsReadable (stage : Stage) : Prop where
  vars : ∀ var ∈ stage.vars, var.IsReadable
  jobs : ∀ job ∈ stage.jobs, job.IsReadable
  pool : stage.pool ≠ some .null
  parameters : Table.Ascending stage.parameters

theorem reads_toYaml {stage : Stage} (hreadable : stage.IsReadable) :
    Stage.reader.Reads stage.toYaml stage := by
  obtain ⟨stage, displayName, dependsOn, condition, vars, jobs, pool, template, parameters⟩ := stage
  obtain ⟨hvars, hjobs, hpool, hparameters⟩ := hreadable
  have hstart : Absorbs (recordStep readField) {} [] {} := .nil
  have hname := hstart.text
    (.record "stage" Draft.stage (fun draft stage => { draft with stage }) fun _ _ => rfl) rfl rfl
    stage
  have hlabel := hname.text
    (.record "displayName" Draft.displayName (fun draft displayName => { draft with displayName })
      fun _ _ => rfl) rfl rfl displayName
  obtain ⟨names, hnames, hnamesValue⟩ := exists_dependsOn hlabel
    (.record "dependsOn" Draft.dependsOn (fun draft dependsOn => { draft with dependsOn })
      fun _ _ => rfl) rfl rfl dependsOn
  have hcondition := hnames.text
    (.record "condition" Draft.condition (fun draft condition => { draft with condition })
      fun _ _ => rfl) rfl rfl condition
  have hlist := hcondition.items
    (.record "variables" Draft.vars (fun draft vars => { draft with vars }) fun _ _ => rfl) rfl rfl
    (Variable.listReader_reads hvars)
  have hbody := hlist.list
    (.record "jobs" Draft.jobs (fun draft jobs => { draft with jobs }) fun _ _ => rfl) rfl rfl
    fun job hjob => Job.reads_toYaml (hjobs job hjob)
  obtain ⟨written, hwritten, hjoin⟩ := hbody.exists_value
    (.record "pool" Draft.pool (fun draft pool => { draft with pool }) fun _ _ => rfl) rfl rfl pool
  have htemplate := hwritten.text
    (.record "template" Draft.template (fun draft template => { draft with template })
      fun _ _ => rfl) rfl rfl template
  have hfields := htemplate.values
    (.record "parameters" Draft.parameters (fun draft parameters => { draft with parameters })
      fun _ _ => rfl) rfl rfl hparameters
  refine hfields.record ?_
  simp [hnamesValue, hjoin.trans (filter_ne_null hpool)]

end Stage

namespace Pipeline

/-- Whether a pipeline can come of reading, its parameters aside. -/
structure IsReadable (pipeline : Pipeline) : Prop where
  vars : ∀ var ∈ pipeline.vars, var.IsReadable
  stages : ∀ stage ∈ pipeline.stages, stage.IsReadable
  jobs : ∀ job ∈ pipeline.jobs, job.IsReadable
  steps : ∀ step ∈ pipeline.steps, step.IsReadable

/-- A pipeline as it is read back: defaults that are null count as none. -/
def withoutNullDefaults (pipeline : Pipeline) : Pipeline :=
  { pipeline with parameters := pipeline.parameters.map Parameter.withoutNullDefault }

/-- What is written of a readable pipeline is read back as the pipeline. -/
theorem reads_toYaml {pipeline : Pipeline} (hreadable : pipeline.IsReadable) :
    Pipeline.reader.Reads pipeline.toYaml pipeline.withoutNullDefaults := by
  obtain ⟨name, parameters, vars, stages, jobs, steps⟩ := pipeline
  obtain ⟨hvars, hstages, hjobs, hsteps⟩ := hreadable
  have hstart : Absorbs (recordStep readField) {} [] {} := .nil
  have hname := hstart.text
    (.record "name" Draft.name (fun draft name => { draft with name }) fun _ _ => rfl) rfl rfl name
  have hdeclarations : List.Forall₂ Parameter.reader.Reads (parameters.map Parameter.toYaml)
      (parameters.map Parameter.withoutNullDefault) := by
    rw [List.forall₂_map_left_iff, List.forall₂_map_right_iff]
    exact List.forall₂_same.mpr fun parameter _ => parameter.reads_toYaml
  have hdeclared := hname.results
    (.record "parameters" Draft.parameters (fun draft parameters => { draft with parameters })
      fun _ _ => rfl) rfl rfl hdeclarations
  have hlist := hdeclared.items
    (.record "variables" Draft.vars (fun draft vars => { draft with vars }) fun _ _ => rfl) rfl rfl
    (Variable.listReader_reads hvars)
  have hlevels := hlist.list
    (.record "stages" Draft.stages (fun draft stages => { draft with stages }) fun _ _ => rfl)
    rfl rfl fun stage hstage => Stage.reads_toYaml (hstages stage hstage)
  have hbody := hlevels.list
    (.record "jobs" Draft.jobs (fun draft jobs => { draft with jobs }) fun _ _ => rfl) rfl rfl
    fun job hjob => Job.reads_toYaml (hjobs job hjob)
  have hfields := hbody.list
    (.record "steps" Draft.steps (fun draft steps => { draft with steps }) fun _ _ => rfl) rfl rfl
    fun step hstep => Step.reads_toYaml (hsteps step hstep)
  refine hfields.record ?_
  simp [withoutNullDefaults]

end Pipeline

end BuildPipeline
