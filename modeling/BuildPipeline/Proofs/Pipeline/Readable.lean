import BuildPipeline.Proofs.Pipeline.Concreteness
import BuildPipeline.Proofs.Pipeline.Readback

/-!
# Expanded pipelines are read back

An expanded pipeline was itself read, from the entries that expansion comes to.  So it is readable,
and what is written of it is read as the same pipeline, up to its declarations: these come from the
document, and a short declaration keeps a default that is null.

* `yields_reader` says for each part that all that is read is readable.  The fields are read in any
  order, so the property is kept by each field of the draft (`Draft.IsReadable.readField`).
* `exists_null_iff_of_declarations` finds a default that is null in the document.
* `expanded_pipeline_is_read_back` joins the two directions.
-/

namespace BuildPipeline

open Yaml (Entries Reader Result)
open Yaml.Reader (Gives Yields exists_of_once yields_list yields_mapping yields_record yields_true)

/-! ## Tables -/

namespace Table

variable {α : Type}

theorem mem_of_mem_insert {key : String} {value : α} {table : Table α} {entry : String × α}
    (hentry : entry ∈ table.insert key value) : entry = (key, value) ∨ entry ∈ table := by
  induction table with
  | nil => exact .inl (List.mem_singleton.mp hentry)
  | cons first rest ih =>
      unfold insert at hentry
      split at hentry
      · exact (List.mem_cons.mp hentry).imp_right (List.mem_cons_of_mem first)
      · split at hentry
        · exact List.mem_cons.mp hentry
        · rcases List.mem_cons.mp hentry with rfl | hlater
          · exact .inr List.mem_cons_self
          · exact (ih hlater).imp_right (List.mem_cons_of_mem first)

theorem mem_of_mem_ofList {entries : List (String × α)} {entry : String × α}
    (hentry : entry ∈ ofList entries) : entry ∈ entries := by
  suffices hfold : ∀ table : Table α, entry ∈ entries.foldl
      (fun table entry => table.insert entry.1 entry.2) table → entry ∈ entries ∨ entry ∈ table from
    (hfold [] hentry).resolve_right List.not_mem_nil
  clear hentry
  induction entries with
  | nil => exact fun _ htable => .inr htable
  | cons first rest ih =>
      intro table htable
      rcases ih _ htable with hrest | hinserted
      · exact .inl (List.mem_cons_of_mem first hrest)
      · exact (mem_of_mem_insert hinserted).imp_left fun heq => List.mem_cons.mpr (.inl heq)

end Table

/-! ## Forms -/

namespace Form

theorem hasTag_of_mem {entries : Entries} (hplain : Yaml.Value.entriesHaveTag entries = false) :
    ∀ entry ∈ entries, entry.2.hasTag = false := by
  induction entries with
  | nil => exact fun _ hmem => absurd hmem List.not_mem_nil
  | cons entry entries ih =>
      obtain ⟨key, value⟩ := entry
      rw [Yaml.Value.entriesHaveTag, Bool.or_eq_false_iff, Bool.or_eq_false_iff] at hplain
      exact List.forall_mem_cons.mpr ⟨hplain.1.2, ih hplain.2⟩

/-- What is looked up among the fields is the value of an entry. -/
theorem exists_mem_of_lookup {known : List String} {entries : Entries}
    {fields : List (String × Yaml.Value)} {name : String} {value : Yaml.Value}
    (hfields : fields? known entries = some fields) (hlookup : fields.lookup name = some value) :
    ∃ entry ∈ entries, entry.2 = value := by
  induction entries generalizing fields with
  | nil =>
      obtain rfl := Option.some.inj hfields
      cases hlookup
  | cons entry entries ih =>
      obtain ⟨key, held⟩ := entry
      obtain ⟨text, -, hfields⟩ := Option.bind_eq_some_iff.mp hfields
      obtain ⟨rest, hrest, hfields⟩ := Option.bind_eq_some_iff.mp hfields
      split at hfields
      · cases hfields
      · obtain rfl := Option.some.inj hfields
        rw [List.lookup_cons] at hlookup
        split at hlookup
        · exact ⟨(key, held), List.mem_cons_self, Option.some.inj hlookup⟩
        · obtain ⟨found, hmem, hvalue⟩ := ih hrest hlookup
          exact ⟨found, List.mem_cons_of_mem _ hmem, hvalue⟩

theorem exists_entry_of_mapM {α : Type} {read : Yaml.Value → Option α} {entries : Entries}
    {pairs : List (String × α)}
    (hpairs : entries.mapM (fun entry => do return (← text? entry.1, ← read entry.2)) =
      some pairs) : ∀ pair ∈ pairs, ∃ entry ∈ entries, read entry.2 = some pair.2 := by
  induction entries generalizing pairs with
  | nil =>
      obtain rfl := Option.some.inj hpairs
      exact fun _ hmem => absurd hmem List.not_mem_nil
  | cons entry entries ih =>
      rw [List.mapM_cons] at hpairs
      obtain ⟨first, hfirst, hpairs⟩ := Option.bind_eq_some_iff.mp hpairs
      obtain ⟨others, hothers, hpairs⟩ := Option.bind_eq_some_iff.mp hpairs
      obtain rfl := Option.some.inj hpairs
      obtain ⟨name, -, hfirst⟩ := Option.bind_eq_some_iff.mp hfirst
      obtain ⟨part, hpart, hfirst⟩ := Option.bind_eq_some_iff.mp hfirst
      obtain rfl := Option.some.inj hfirst
      refine List.forall_mem_cons.mpr ⟨⟨entry, List.mem_cons_self, hpart⟩, fun pair hpair => ?_⟩
      obtain ⟨found, hmem, hfound⟩ := ih hothers pair hpair
      exact ⟨found, List.mem_cons_of_mem entry hmem, hfound⟩

theorem exists_pairs_of_table? {α : Type} {read : Yaml.Value → Option α}
    {value : Option Yaml.Value} {table : Table α} (hread : table? read value = some table) :
    ∃ pairs : List (String × α), table = Table.ofList pairs ∧
      ∀ pair ∈ pairs, ∃ entries, value = some (.mapping entries) ∧
        ∃ entry ∈ entries, read entry.2 = some pair.2 := by
  unfold table? at hread
  split at hread
  · obtain rfl := Option.some.inj hread
    exact ⟨[], rfl, fun _ hmem => absurd hmem List.not_mem_nil⟩
  · next entries =>
      obtain ⟨pairs, hpairs, hread⟩ := Option.bind_eq_some_iff.mp hread
      obtain rfl := Option.some.inj hread
      exact ⟨pairs, rfl, fun pair hpair => ⟨entries, rfl, exists_entry_of_mapM hpairs pair hpair⟩⟩
  · cases hread

theorem ascending_of_table? {α : Type} {read : Yaml.Value → Option α} {value : Option Yaml.Value}
    {table : Table α} (hread : table? read value = some table) : Table.Ascending table := by
  obtain ⟨pairs, rfl, -⟩ := exists_pairs_of_table? hread
  exact Table.ascending_ofList pairs

/-- A table of values that is found in entries without tags can be written again. -/
theorem admits_of_table? {known : List String} {entries : Entries}
    {fields : List (String × Yaml.Value)} {name : String} {table : Table Yaml.Value}
    (hplain : ∀ entry ∈ entries, entry.2.hasTag = false)
    (hfields : fields? known entries = some fields)
    (hread : table? value? (fields.lookup name) = some table) : Admits table := by
  refine ⟨ascending_of_table? hread, fun entry hentry => ?_⟩
  obtain ⟨pairs, rfl, hpairs⟩ := exists_pairs_of_table? hread
  obtain ⟨inner, hlookup, source, hsource, hvalue⟩ := hpairs entry (Table.mem_of_mem_ofList hentry)
  obtain ⟨holder, hholder, heq⟩ := exists_mem_of_lookup hfields hlookup
  have hinner := hplain holder hholder
  rw [heq, Yaml.Value.hasTag] at hinner
  unfold value? at hvalue
  split at hvalue
  · next hdistinct =>
      rw [← Option.some.inj hvalue]
      exact ⟨hasTag_of_mem hinner source hsource, hdistinct⟩
  · cases hvalue

end Form

/-! ## Variables -/

namespace Variable

theorem isReadable_of_definitionForm? {entries : Entries} {var : Variable}
    (hform : definitionForm? entries = some var) : var.IsReadable := by
  obtain ⟨_, -, hform⟩ := Option.bind_eq_some_iff.mp hform
  obtain ⟨_, -, hform⟩ := Option.bind_eq_some_iff.mp hform
  obtain ⟨_, -, hform⟩ := Option.bind_eq_some_iff.mp hform
  dsimp only at hform
  split at hform
  · obtain rfl := Option.some.inj hform
    trivial
  · obtain rfl := Option.some.inj hform
    trivial
  · cases hform

theorem isReadable_of_templateForm? {entries : Entries} {var : Variable}
    (hplain : ∀ entry ∈ entries, entry.2.hasTag = false)
    (hform : templateForm? entries = some var) : var.IsReadable := by
  obtain ⟨fields, hfields, hform⟩ := Option.bind_eq_some_iff.mp hform
  obtain ⟨path, -, hform⟩ := Option.bind_eq_some_iff.mp hform
  obtain ⟨parameters, hparameters, hform⟩ := Option.bind_eq_some_iff.mp hform
  obtain rfl := Option.some.inj hform
  exact Form.admits_of_table? hplain hfields hparameters

theorem yields_reader : reader.Yields IsReadable := by
  intro value var hgives
  have hplain := hgives.hasTag_form
  have hchosen := hgives.form
  cases value with
  | mapping entries =>
      rw [Yaml.Value.hasTag] at hplain
      rcases Option.or_eq_some_iff.mp hchosen with hform | ⟨-, hform⟩
      · exact isReadable_of_definitionForm? hform
      · exact isReadable_of_templateForm? (Form.hasTag_of_mem hplain) hform
  | _ => cases hchosen

theorem yields_shortReader : shortReader.Yields fun vars => ∀ var ∈ vars, var.IsReadable := by
  refine yields_mapping (p := fun vars => ∀ var ∈ vars, IsReadable var)
    (fun _ hmem => absurd hmem List.not_mem_nil) ?_ ?_
  · intro vars next name place value left right hvars hstep
    obtain ⟨held, middle, -, hstep⟩ := Result.bind_eq_ok hstep
    cases hscalar : held.scalarText? with
    | some text =>
        rw [hscalar] at hstep
        obtain ⟨rfl, -⟩ := Result.pure_eq_ok hstep
        exact List.forall_mem_append.mpr ⟨hvars, List.forall_mem_singleton.mpr trivial⟩
    | none =>
        rw [hscalar] at hstep
        exact absurd hstep Yaml.refuse_ne_ok
  · intro vars result left right hvars hfinish
    rw [← (Result.pure_eq_ok hfinish).1]
    exact hvars

theorem yields_listReader : listReader.Yields fun vars => ∀ var ∈ vars, var.IsReadable := by
  intro value vars hgives
  rcases hgives.nullOr with rfl | hlist | hshort
  · exact fun _ hmem => absurd hmem List.not_mem_nil
  · exact yields_list yields_reader value vars hlist
  · exact yields_shortReader value vars hshort

end Variable

/-! ## Steps -/

namespace Action

theorem isReadable_of_shellForm? {entries : Entries} {shell : Shell} {action : Action}
    (hform : shellForm? entries shell = some action) : action.IsReadable := by
  obtain ⟨_, -, hform⟩ := Option.bind_eq_some_iff.mp hform
  obtain ⟨_, -, hform⟩ := Option.bind_eq_some_iff.mp hform
  obtain ⟨_, -, hform⟩ := Option.bind_eq_some_iff.mp hform
  obtain rfl := Option.some.inj hform
  trivial

theorem isReadable_of_taskForm? {entries : Entries} {action : Action}
    (hform : taskForm? entries = some action) : action.IsReadable := by
  obtain ⟨_, -, hform⟩ := Option.bind_eq_some_iff.mp hform
  obtain ⟨_, -, hform⟩ := Option.bind_eq_some_iff.mp hform
  obtain ⟨inputs, hinputs, hform⟩ := Option.bind_eq_some_iff.mp hform
  obtain rfl := Option.some.inj hform
  exact Form.ascending_of_table? hinputs

theorem isReadable_of_templateForm? {entries : Entries} {action : Action}
    (hplain : ∀ entry ∈ entries, entry.2.hasTag = false)
    (hform : templateForm? entries = some action) : action.IsReadable := by
  obtain ⟨fields, hfields, hform⟩ := Option.bind_eq_some_iff.mp hform
  obtain ⟨path, -, hform⟩ := Option.bind_eq_some_iff.mp hform
  obtain ⟨parameters, hparameters, hform⟩ := Option.bind_eq_some_iff.mp hform
  obtain rfl := Option.some.inj hform
  exact Form.admits_of_table? hplain hfields hparameters

theorem isReadable_of_publishForm? {entries : Entries} {action : Action}
    (hform : publishForm? entries = some action) : action.IsReadable := by
  obtain ⟨_, -, hform⟩ := Option.bind_eq_some_iff.mp hform
  obtain ⟨_, -, hform⟩ := Option.bind_eq_some_iff.mp hform
  obtain ⟨_, -, hform⟩ := Option.bind_eq_some_iff.mp hform
  obtain rfl := Option.some.inj hform
  trivial

theorem isReadable_of_downloadForm? {entries : Entries} {action : Action}
    (hform : downloadForm? entries = some action) : action.IsReadable := by
  obtain ⟨_, -, hform⟩ := Option.bind_eq_some_iff.mp hform
  obtain ⟨_, -, hform⟩ := Option.bind_eq_some_iff.mp hform
  obtain ⟨_, -, hform⟩ := Option.bind_eq_some_iff.mp hform
  obtain ⟨_, -, hform⟩ := Option.bind_eq_some_iff.mp hform
  obtain rfl := Option.some.inj hform
  trivial

theorem isReadable_of_ofFields? {entries : Entries} {action : Action}
    (hplain : ∀ entry ∈ entries, entry.2.hasTag = false)
    (hfields : ofFields? entries = some action) : action.IsReadable := by
  rcases Option.or_eq_some_iff.mp hfields with hform | ⟨-, hform⟩
  · obtain ⟨shell, -, hshell⟩ := List.exists_of_findSome?_eq_some hform
    exact isReadable_of_shellForm? hshell
  rcases Option.or_eq_some_iff.mp hform with hform | ⟨-, hform⟩
  · exact isReadable_of_taskForm? hform
  rcases Option.or_eq_some_iff.mp hform with hform | ⟨-, hform⟩
  · exact isReadable_of_templateForm? hplain hform
  rcases Option.or_eq_some_iff.mp hform with hform | ⟨-, hform⟩
  · exact isReadable_of_publishForm? hform
  · exact isReadable_of_downloadForm? hform

end Action

namespace Step

/-- What has been read of a step can come of reading. -/
structure Draft.IsReadable (draft : Draft) : Prop where
  env : Table.Ascending (draft.env.getD [])
  rest : ∀ entry ∈ draft.rest, entry.2.hasTag = false

theorem Draft.IsReadable.readField {draft next : Draft} {name : String} {place : Yaml.Place}
    {value : Yaml.Value} {left right : Nat} (hdraft : draft.IsReadable)
    (hstep : readField draft name ⟨place, .held value⟩ left = .ok (next, right)) :
    next.IsReadable := by
  unfold Step.readField at hstep
  split at hstep
  case h_8 =>
      obtain ⟨env, henv, rfl⟩ := exists_of_once (Yaml.Reader.yields_table _) hstep
      exact { hdraft with env := henv }
  case h_9 =>
      obtain ⟨held, middle, hheld, hstep⟩ := Result.bind_eq_ok hstep
      obtain ⟨rfl, -⟩ := Result.pure_eq_ok hstep
      exact { hdraft with
        rest := List.forall_mem_append.mpr ⟨hdraft.rest,
          List.forall_mem_singleton.mpr (Yaml.Reader.hasTag_of_matchable hheld)⟩ }
  all_goals
    obtain ⟨_, -, rfl⟩ := exists_of_once (yields_true _) hstep
    exact { hdraft with }

theorem yields_reader : reader.Yields IsReadable := by
  refine yields_mapping (p := Draft.IsReadable) ?_ Draft.IsReadable.readField ?_
  · exact ⟨List.Pairwise.nil, fun _ hmem => absurd hmem List.not_mem_nil⟩
  · intro draft step left right hdraft hfinish
    cases haction : Action.ofFields? draft.rest with
    | none =>
        simp only [haction] at hfinish
        exact absurd hfinish Yaml.refuse_ne_ok
    | some action =>
        simp only [haction] at hfinish
        obtain ⟨rfl, -⟩ := Result.pure_eq_ok hfinish
        exact ⟨hdraft.env, Action.isReadable_of_ofFields? hdraft.rest haction⟩

end Step

/-! ## Jobs, stages and pipelines -/

namespace Job

/-- What has been read of a job can come of reading. -/
structure Draft.IsReadable (draft : Draft) : Prop where
  pool : draft.pool.join ≠ some .null
  vars : ∀ var ∈ draft.vars.getD [], var.IsReadable
  steps : ∀ step ∈ draft.steps.getD [], step.IsReadable
  parameters : Table.Ascending (draft.parameters.getD [])

theorem Draft.IsReadable.readField {draft next : Draft} {name : String} {place : Yaml.Place}
    {value : Yaml.Value} {left right : Nat} (hdraft : draft.IsReadable)
    (hstep : readField draft name ⟨place, .held value⟩ left = .ok (some next, right)) :
    next.IsReadable := by
  unfold Job.readField at hstep
  split at hstep
  case h_6 =>
      obtain ⟨pool, hpool, heq⟩ := exists_of_once Yaml.Reader.yields_optional_value hstep
      obtain rfl := Option.some.inj heq
      exact { hdraft with pool := hpool }
  case h_7 =>
      obtain ⟨vars, hvars, heq⟩ := exists_of_once Variable.yields_listReader hstep
      obtain rfl := Option.some.inj heq
      exact { hdraft with vars := hvars }
  case h_8 =>
      obtain ⟨steps, hsteps, heq⟩ := exists_of_once (yields_list Step.yields_reader) hstep
      obtain rfl := Option.some.inj heq
      exact { hdraft with steps := hsteps }
  case h_10 =>
      obtain ⟨parameters, hparameters, heq⟩ := exists_of_once (Yaml.Reader.yields_table _) hstep
      obtain rfl := Option.some.inj heq
      exact { hdraft with parameters := hparameters }
  case h_11 => cases (Result.pure_eq_ok hstep).1
  all_goals
    obtain ⟨_, -, heq⟩ := exists_of_once (yields_true _) hstep
    obtain rfl := Option.some.inj heq
    exact { hdraft with }

theorem yields_reader : reader.Yields IsReadable := by
  refine yields_record (p := Draft.IsReadable) ?_ Draft.IsReadable.readField ?_
  · exact ⟨(fun heq => nomatch heq), fun _ hmem => absurd hmem List.not_mem_nil,
      fun _ hmem => absurd hmem List.not_mem_nil, List.Pairwise.nil⟩
  · intro draft job left right hdraft hfinish
    obtain ⟨rfl, -⟩ := Result.pure_eq_ok hfinish
    exact ⟨hdraft.pool, hdraft.vars, hdraft.steps, hdraft.parameters⟩

end Job

namespace Stage

/-- What has been read of a stage can come of reading. -/
structure Draft.IsReadable (draft : Draft) : Prop where
  vars : ∀ var ∈ draft.vars.getD [], var.IsReadable
  jobs : ∀ job ∈ draft.jobs.getD [], job.IsReadable
  pool : draft.pool.join ≠ some .null
  parameters : Table.Ascending (draft.parameters.getD [])

theorem Draft.IsReadable.readField {draft next : Draft} {name : String} {place : Yaml.Place}
    {value : Yaml.Value} {left right : Nat} (hdraft : draft.IsReadable)
    (hstep : readField draft name ⟨place, .held value⟩ left = .ok (some next, right)) :
    next.IsReadable := by
  unfold Stage.readField at hstep
  split at hstep
  case h_5 =>
      obtain ⟨vars, hvars, heq⟩ := exists_of_once Variable.yields_listReader hstep
      obtain rfl := Option.some.inj heq
      exact { hdraft with vars := hvars }
  case h_6 =>
      obtain ⟨jobs, hjobs, heq⟩ := exists_of_once (yields_list Job.yields_reader) hstep
      obtain rfl := Option.some.inj heq
      exact { hdraft with jobs := hjobs }
  case h_7 =>
      obtain ⟨pool, hpool, heq⟩ := exists_of_once Yaml.Reader.yields_optional_value hstep
      obtain rfl := Option.some.inj heq
      exact { hdraft with pool := hpool }
  case h_9 =>
      obtain ⟨parameters, hparameters, heq⟩ := exists_of_once (Yaml.Reader.yields_table _) hstep
      obtain rfl := Option.some.inj heq
      exact { hdraft with parameters := hparameters }
  case h_10 => cases (Result.pure_eq_ok hstep).1
  all_goals
    obtain ⟨_, -, heq⟩ := exists_of_once (yields_true _) hstep
    obtain rfl := Option.some.inj heq
    exact { hdraft with }

theorem yields_reader : reader.Yields IsReadable := by
  refine yields_record (p := Draft.IsReadable) ?_ Draft.IsReadable.readField ?_
  · exact ⟨fun _ hmem => absurd hmem List.not_mem_nil, fun _ hmem => absurd hmem List.not_mem_nil,
      (fun heq => nomatch heq), List.Pairwise.nil⟩
  · intro draft stage left right hdraft hfinish
    obtain ⟨rfl, -⟩ := Result.pure_eq_ok hfinish
    exact ⟨hdraft.vars, hdraft.jobs, hdraft.pool, hdraft.parameters⟩

end Stage

namespace Pipeline

/-- What has been read of a pipeline can come of reading, its parameters aside. -/
structure Draft.IsReadable (draft : Draft) : Prop where
  vars : ∀ var ∈ draft.vars.getD [], var.IsReadable
  stages : ∀ stage ∈ draft.stages.getD [], stage.IsReadable
  jobs : ∀ job ∈ draft.jobs.getD [], job.IsReadable
  steps : ∀ step ∈ draft.steps.getD [], step.IsReadable

theorem Draft.IsReadable.readField {draft next : Draft} {name : String} {place : Yaml.Place}
    {value : Yaml.Value} {left right : Nat} (hdraft : draft.IsReadable)
    (hstep : readField draft name ⟨place, .held value⟩ left = .ok (some next, right)) :
    next.IsReadable := by
  unfold Pipeline.readField at hstep
  split at hstep
  case h_3 =>
      obtain ⟨vars, hvars, heq⟩ := exists_of_once Variable.yields_listReader hstep
      obtain rfl := Option.some.inj heq
      exact { hdraft with vars := hvars }
  case h_4 =>
      obtain ⟨stages, hstages, heq⟩ := exists_of_once (yields_list Stage.yields_reader) hstep
      obtain rfl := Option.some.inj heq
      exact { hdraft with stages := hstages }
  case h_5 =>
      obtain ⟨jobs, hjobs, heq⟩ := exists_of_once (yields_list Job.yields_reader) hstep
      obtain rfl := Option.some.inj heq
      exact { hdraft with jobs := hjobs }
  case h_6 =>
      obtain ⟨steps, hsteps, heq⟩ := exists_of_once (yields_list Step.yields_reader) hstep
      obtain rfl := Option.some.inj heq
      exact { hdraft with steps := hsteps }
  case h_7 => cases (Result.pure_eq_ok hstep).1
  all_goals
    obtain ⟨_, -, heq⟩ := exists_of_once (yields_true _) hstep
    obtain rfl := Option.some.inj heq
    exact { hdraft with }

/-- Whatever is read as a pipeline is readable when it is written. -/
theorem yields_reader : reader.Yields IsReadable := by
  refine yields_record (p := Draft.IsReadable) ?_ Draft.IsReadable.readField ?_
  · exact ⟨fun _ hmem => absurd hmem List.not_mem_nil, fun _ hmem => absurd hmem List.not_mem_nil,
      fun _ hmem => absurd hmem List.not_mem_nil, fun _ hmem => absurd hmem List.not_mem_nil⟩
  · intro draft pipeline left right hdraft hfinish
    obtain ⟨rfl, -⟩ := Result.pure_eq_ok hfinish
    exact ⟨hdraft.vars, hdraft.stages, hdraft.jobs, hdraft.steps⟩

end Pipeline

/-! ## Declarations -/

theorem Parameter.yields_reader :
    Parameter.reader.Yields fun parameter => parameter.default ≠ some .null := by
  refine yields_record (p := fun draft => draft.default.join ≠ some .null) (fun heq => nomatch heq)
    ?_ ?_
  · intro draft next name place value left right hdraft hstep
    unfold readField at hstep
    split at hstep
    case h_4 =>
        obtain ⟨default, hdefault, heq⟩ := exists_of_once Yaml.Reader.yields_optional_value hstep
        obtain rfl := Option.some.inj heq
        exact hdefault
    case h_6 => cases (Result.pure_eq_ok hstep).1
    all_goals
      obtain ⟨_, -, heq⟩ := exists_of_once (yields_true _) hstep
      obtain rfl := Option.some.inj heq
      exact hdraft
  · intro draft parameter left right hdraft hfinish
    obtain ⟨name, middle, -, hfinish⟩ := Result.bind_eq_ok hfinish
    obtain ⟨rfl, -⟩ := Result.pure_eq_ok hfinish
    exact hdraft

theorem Parameter.withoutNullDefault_eq_iff {parameter : Parameter} :
    parameter.withoutNullDefault = parameter ↔ parameter.default ≠ some .null := by
  constructor
  · intro hsame hnull
    have hdefault := congrArg Parameter.default hsame
    rw [withoutNullDefault, hnull] at hdefault
    cases hdefault
  · intro hdefault
    rw [withoutNullDefault, filter_ne_null hdefault]

theorem Pipeline.withoutNullDefaults_eq_iff {pipeline : Pipeline} :
    pipeline.withoutNullDefaults = pipeline ↔
      ∀ parameter ∈ pipeline.parameters, parameter.default ≠ some .null := by
  have hlist : pipeline.withoutNullDefaults = pipeline ↔
      pipeline.parameters.map Parameter.withoutNullDefault = pipeline.parameters.map id := by
    rw [List.map_id]
    exact ⟨fun hsame => congrArg parameters hsame, fun hsame => by rw [withoutNullDefaults, hsame]⟩
  rw [hlist, List.map_inj_left]
  exact forall₂_congr fun parameter _ => Parameter.withoutNullDefault_eq_iff

namespace Template

/-- The document declares a parameter in the short form and writes null for its default. -/
def DeclaresNull [Yaml.Codec] (source origin : String) : Prop :=
  ∃ document declared, rootEntries source origin = .ok document ∧
    Yaml.Value.lookUp? "parameters" document = some (.mapping declared) ∧
      ∃ name, name.scalarText?.isSome ∧ (name, .null) ∈ declared

/-- Only the short form keeps a default that is null. -/
theorem exists_null_iff_of_declarations {origin : String} {value : Option Yaml.Value}
    {declared : List Parameter} (hdeclared : declarations origin value = .ok declared) :
    (∃ parameter ∈ declared, parameter.default = some .null) ↔
      ∃ entries, value = some (.mapping entries) ∧
        ∃ name, name.scalarText?.isSome ∧ (name, .null) ∈ entries := by
  unfold declarations at hdeclared
  split at hdeclared
  case h_1 => cases hdeclared; simp
  case h_2 => cases hdeclared; simp
  case h_3 items =>
      split at hdeclared
      case h_2 => cases hdeclared
      case h_1 parameters hread =>
          cases hdeclared
          have hlisted := yields_list Parameter.yields_reader _ _
            (Yaml.Reader.gives_of_readHeld hread)
          constructor
          · rintro ⟨parameter, hmem, hnull⟩
            exact absurd hnull (hlisted parameter hmem)
          · rintro ⟨entries, heq, -⟩
            cases heq
  case h_4 entries =>
      cases hdeclared
      constructor
      · rintro ⟨parameter, hmem, hnull⟩
        obtain ⟨⟨name, default⟩, hentry, hshort⟩ := List.mem_filterMap.mp hmem
        obtain ⟨text, htext, rfl⟩ := Option.map_eq_some_iff.mp hshort
        obtain rfl := Option.some.inj hnull
        exact ⟨entries, rfl, name, by simp [htext], hentry⟩
      · rintro ⟨_, heq, name, hname, hentry⟩
        cases heq
        obtain ⟨text, htext⟩ := Option.isSome_iff_exists.mp hname
        refine ⟨{ name := text, type := inferredType .null, default := some .null },
          List.mem_filterMap.mpr ⟨(name, .null), hentry, ?_⟩, rfl⟩
        rw [shortDeclaration?, htext, Option.map_some]
  case h_5 => cases hdeclared

/-- A document comes of a text that is given for an origin, or of its file. -/
inductive ExpandsTo [Yaml.Codec] (files : Files) (repository source origin : String)
    (supplied : Arguments) (expanded : Expanded) : Prop
  | text (hexpand : expand files repository source origin supplied = .ok expanded)
  | file (hsource : files.read origin = .ok source)
      (hexpand : expandFile files repository origin supplied = .ok expanded)

section ExpandsTo

variable [Yaml.Codec] {files : Files} {repository source origin : String} {supplied : Arguments}
  {expanded : Expanded}

theorem ExpandsTo.expand_eq
    (hexpands : ExpandsTo files repository source origin supplied expanded) :
    expand files repository source origin supplied = .ok expanded := by
  cases hexpands with
  | text hexpand => exact hexpand
  | file hsource hexpand =>
      rw [expandFile, hsource] at hexpand
      exact hexpand

theorem exists_declarations_of_expand
    (hexpand : expand files repository source origin supplied = .ok expanded) :
    ∃ document, rootEntries source origin = .ok document ∧
      declarations origin (Yaml.Value.lookUp? "parameters" document) =
        .ok expanded.pipeline.parameters := by
  obtain ⟨document, hdocument, hexpand⟩ := bind_eq_ok_iff.mp hexpand
  obtain ⟨declared, hdeclared, hexpand⟩ := bind_eq_ok_iff.mp hexpand
  obtain ⟨arguments, -, hexpand⟩ := bind_eq_ok_iff.mp hexpand
  obtain ⟨evaluated, -, hexpand⟩ := bind_eq_ok_iff.mp hexpand
  obtain ⟨entries, -, hexpand⟩ := bind_eq_ok_iff.mp hexpand
  refine ⟨document, hdocument, ?_⟩
  split at hexpand
  · cases hexpand
    exact hdeclared
  · cases hexpand

theorem isReadable_of_expand
    (hexpand : expand files repository source origin supplied = .ok expanded) :
    expanded.pipeline.IsReadable := by
  obtain ⟨entries, pipeline, hread, ⟨declared, heq⟩, -, -⟩ := exists_entries_of_expand hexpand
  obtain ⟨hvars, hstages, hjobs, hsteps⟩ :=
    Pipeline.yields_reader _ _ (Yaml.Reader.gives_of_readHeld hread)
  rw [heq]
  exact ⟨hvars, hstages, hjobs, hsteps⟩

/-- An expanded pipeline that is written is read back, and nothing gets lost but defaults that are
null.  These come of the short form alone: what reads a list of declarations does not keep them. -/
theorem expanded_pipeline_is_read_back
    (hexpands : ExpandsTo files repository source origin supplied expanded) :
    Yaml.readHeld Pipeline.reader expanded.pipeline.toYaml =
        .ok expanded.pipeline.withoutNullDefaults ∧
      (Yaml.readHeld Pipeline.reader expanded.pipeline.toYaml = .ok expanded.pipeline ↔
        ¬ DeclaresNull source origin) := by
  have hexpand := hexpands.expand_eq
  have hread := (Pipeline.reads_toYaml (isReadable_of_expand hexpand)).readHeld
  obtain ⟨document, hdocument, hdeclared⟩ := exists_declarations_of_expand hexpand
  refine ⟨hread, ?_⟩
  have hnull : DeclaresNull source origin ↔
      ∃ parameter ∈ expanded.pipeline.parameters, parameter.default = some .null := by
    rw [exists_null_iff_of_declarations hdeclared]
    constructor
    · rintro ⟨other, entries, hother, hlookup, hentry⟩
      obtain rfl := Except.ok.inj (hother.symm.trans hdocument)
      exact ⟨entries, hlookup, hentry⟩
    · rintro ⟨entries, hlookup, hentry⟩
      exact ⟨document, entries, hdocument, hlookup, hentry⟩
  rw [hread, Except.ok.injEq, Pipeline.withoutNullDefaults_eq_iff, hnull]
  simp only [not_exists, not_and, ne_eq]

end ExpandsTo

namespace Noted

/-- One parameter in the short form. -/
def source (default : String) : String :=
  "parameters:\n  note:" ++ default ++ "\nsteps:\n- script: make\n"

def step : Yaml.Value := .mapping [(.string "script", .string "make")]

def document (default : Yaml.Value) : Entries :=
  [(.string "parameters", .mapping [(.string "note", default)]),
    (.string "steps", .sequence [step])]

def pipeline (default : Yaml.Value) : Pipeline where
  parameters := [{ name := "note", default := some default }]
  steps := [{ action := .shell .script "make" none }]

def root (default : Yaml.Value) (text : String) : Root where
  library := { files := {}, repository := "/" }
  file := "/pipeline.yml"
  declared := (pipeline default).parameters
  arguments := [("note", .string text)]
  document := [(.string "steps", .sequence [step])]

theorem expand_source (text : String) {written : String} {default : Yaml.Value}
    (hdocument : rootEntries (source written) "/pipeline.yml" = .ok (document default))
    (hdeclared : declarations "/pipeline.yml" (some (.mapping [(.string "note", default)])) =
      .ok (pipeline default).parameters)
    (hbound : bindParameters (pipeline default).parameters [] "/pipeline.yml" =
      .ok [("note", .string text)])
    (hevaluated : (root default text).evaluated = .ok (root default text).document) :
    expand {} "/" (source written) "/pipeline.yml" [] =
      .ok ⟨pipeline default, [("note", .string text)]⟩ := by
  have hroot : Root.prepare {} "/" (source written) "/pipeline.yml" [] =
      .ok (root default text) := by
    have hlookup : Yaml.Value.lookUp? "parameters" (document default) =
        some (.mapping [(.string "note", default)]) := rfl
    rw [Root.prepare, hdocument]
    simp only [bind, Except.bind, hlookup, hdeclared, hbound]
    rfl
  have hstep : resolve (root default text).library (root default text).stack .steps
      (root default text).file [step] = .ok [step] :=
    resolve_of_node rfl (resolveLists.eq_1 ..)
  have hlists : resolveLists (root default text).library (root default text).stack
      (root default text).file [.vars, .stages, .jobs, .steps]
      (root default text).document = .ok (root default text).document := by
    rw [resolveLists_of_noList (by intro items hitems; cases hitems),
      resolveLists_of_noList (by intro items hitems; cases hitems),
      resolveLists_of_noList (by intro items hitems; cases hitems), resolveLists_of_list rfl, hstep]
    exact resolveLists.eq_1 ..
  rw [Root.expand_eq, hroot]
  simp only [Except.bind, hevaluated, hlists]
  rfl

end Noted

/-- A default that is a text survives. -/
theorem expanded_pipeline_is_read_back_noted :
    ∃ expanded, ExpandsTo {} "/" (Noted.source " fast") "/pipeline.yml" [] expanded ∧
      expanded.pipeline = Noted.pipeline (.string "fast") ∧
      Yaml.readHeld Pipeline.reader expanded.pipeline.toYaml = .ok expanded.pipeline := by
  have hdocument : rootEntries (Noted.source " fast") "/pipeline.yml" =
      .ok (Noted.document (.string "fast")) := eq_ok_of_toOption (by decide +kernel)
  have hexpand := Noted.expand_source "fast" hdocument rfl
    (eq_ok_of_toOption (by decide +kernel)) (eq_ok_of_toOption (by decide +kernel))
  refine ⟨_, .text hexpand, rfl, (expanded_pipeline_is_read_back (.text hexpand)).2.mpr ?_⟩
  rintro ⟨document, declared, hother, hlookup, name, -, hnull⟩
  obtain rfl := Except.ok.inj (hother.symm.trans hdocument)
  cases hlookup
  simp at hnull

/-- A default that is null does not. -/
theorem null_default_is_not_read_back :
    ∃ expanded, ExpandsTo {} "/" (Noted.source "") "/pipeline.yml" [] expanded ∧
      Yaml.readHeld Pipeline.reader expanded.pipeline.toYaml ≠ .ok expanded.pipeline := by
  have hdocument : rootEntries (Noted.source "") "/pipeline.yml" = .ok (Noted.document .null) :=
    eq_ok_of_toOption (by decide +kernel)
  have hexpand := Noted.expand_source "" hdocument rfl
    (eq_ok_of_toOption (by decide +kernel)) (eq_ok_of_toOption (by decide +kernel))
  refine ⟨_, .text hexpand, fun hread => ?_⟩
  have hdefault := congrArg (fun outcome : Except Yaml.ReadError Pipeline =>
    outcome.toOption.map fun pipeline => pipeline.parameters.map (·.default)) hread
  cases hdefault

end Template

end BuildPipeline
