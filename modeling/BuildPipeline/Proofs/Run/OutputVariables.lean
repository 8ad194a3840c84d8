import BuildPipeline.Proofs.Artifact.Publications
import BuildPipeline.Proofs.Expression.Documents
import BuildPipeline.Proofs.Run.JobInvariants
import BuildPipeline.Proofs.Run.StepExecution

/-!
# Output variables

The output variables of a step are kept in its job under `step.variable`, and those of a job in its
stage under `job.step.variable`.  Names have no dot, so a key can be read back
(`joined_eq_joined_iff`).  What a key does not tell is whether `step2` is a name or the number of a
step without one.

* `Job.HoldsLatest` says of any job which value it has under a key: that of the last step that
  published one there.  It is the invariant of a running job, and `holdsLatest_invariant` shows all
  moves to keep it.
* `Job.hasOwnKeys_iff`: the keys of a job meet only where a step is called by the number of an
  unnamed one (`Job.NumbersAreFree`).  Validation does not look for that.
* `output_variables_are_kept` puts both together for the runs of plans, up to the stages.
* `numbered_name_is_overwritten` loses a variable.
-/

namespace BuildPipeline

/-! ## Tables that are filled from tables -/

namespace Table

variable {α : Type}

/-- Entries that are put on top of a table hide what is below them. -/
theorem get?_foldl_insert_of_nodup {entries : List (String × α)}
    (hkeys : (keys entries).Nodup) (table : Table α) (key : String) :
    (entries.foldl (fun table entry => table.insert entry.1 entry.2) table).get? key =
      (get? key entries).or (table.get? key) := by
  induction entries generalizing table with
  | nil => rfl
  | cons entry rest ih =>
      obtain ⟨hnew, hrest⟩ := List.nodup_cons.mp hkeys
      rw [List.foldl_cons, ih hrest, get?_insert, get?]
      by_cases hkey : entry.1 = key
      · have hnothing : get? key rest = none := get?_eq_none_iff.mpr (hkey ▸ hnew)
        rw [hnothing, if_pos hkey, if_pos hkey, Option.none_or, Option.some_or]
      · rw [if_neg hkey, if_neg hkey]

theorem get?_ofList_of_nodup {entries : List (String × α)} (hkeys : (keys entries).Nodup)
    {key : String} {value : α} :
    (ofList entries).get? key = some value ↔ (key, value) ∈ entries := by
  rw [ofList, get?_foldl_insert_of_nodup hkeys, get?, Option.or_none, get?_eq_some_iff hkeys]

theorem Ascending.nodup_keys {table : Table α} (hascending : Ascending table) :
    table.keys.Nodup :=
  hascending.imp ne_of_lt

/-- A table that is filled from another one, with its keys changed. -/
theorem get?_foldl_insert_keyed {rekey : String → String} (hrekey : Function.Injective rekey)
    {entries : Table α} (hkeys : entries.keys.Nodup) {table : Table α} {key : String}
    {value : α} :
    (entries.foldl (fun table entry => table.insert (rekey entry.1) entry.2) table).get? key =
        some value ↔
      (∃ name, key = rekey name ∧ entries.get? name = some value) ∨
        (∀ name other, key = rekey name → entries.get? name ≠ some other) ∧
          table.get? key = some value := by
  let keyed : List (String × α) := entries.map fun entry => (rekey entry.1, entry.2)
  have hkeyed : (keys keyed).Nodup := by
    have hmap : keys keyed = entries.keys.map rekey := by simp [keyed, keys]
    rw [hmap]
    exact hkeys.map hrekey
  have hfold : entries.foldl (fun table entry => table.insert (rekey entry.1) entry.2) table =
      keyed.foldl (fun table entry => table.insert entry.1 entry.2) table := by
    rw [List.foldl_map]
  have hfound (other : α) : get? key keyed = some other ↔
      ∃ name, key = rekey name ∧ entries.get? name = some other := by
    simp only [get?_eq_some_iff hkeyed, get?_eq_some_iff hkeys, keyed, List.mem_map, Prod.mk.injEq]
    constructor
    · rintro ⟨⟨name, found⟩, hmem, rfl, rfl⟩
      exact ⟨name, rfl, hmem⟩
    · rintro ⟨name, rfl, hmem⟩
      exact ⟨(name, other), hmem, rfl, rfl⟩
  rw [hfold, get?_foldl_insert_of_nodup hkeyed, Option.or_eq_some_iff, hfound,
    Option.eq_none_iff_forall_ne_some]
  simp only [ne_eq, hfound, not_exists, not_and]
  exact or_congr_right (and_congr_left' forall_comm)

end Table

/-! ## Keys -/

/-- A name has no dot, so it can be told from what is joined to it by one. -/
theorem joined_eq_joined_iff {first second key other : String} (hfirst : IsName first)
    (hsecond : IsName second) :
    first ++ "." ++ key = second ++ "." ++ other ↔ first = second ∧ key = other := by
  have hname {name : String} (hname : IsName name) (key : String) :
      (name ++ "." ++ key).toList.takeWhile (· != '.') = name.toList := by
    have hletters : ∀ c ∈ name.toList, (c != '.') = true := by
      intro c hmem
      rw [bne_iff_ne]
      rintro rfl
      rcases hname.2 '.' hmem with hdot | hdot <;> revert hdot <;> decide
    rw [String.toList_append, String.toList_append, List.append_assoc,
      List.takeWhile_append_of_pos hletters]
    exact List.append_nil name.toList
  constructor
  · intro hsame
    obtain rfl : first = second := by
      rw [← String.toList_inj, ← hname hfirst key, ← hname hsecond other, hsame]
    exact ⟨rfl, (String.append_right_inj _).mp hsame⟩
  · rintro ⟨rfl, rfl⟩
    rfl

/-- The number of an unnamed step makes a name. -/
theorem isName_numbered (number : Nat) : IsName ("step" ++ toString number) := by
  refine ⟨fun hempty => ?_, fun c hmem => ?_⟩
  · have hlength := congrArg String.length hempty
    simp [String.length_append] at hlength
  · rw [String.toList_append, List.mem_append, Nat.toString_eq_repr, Nat.toList_repr] at hmem
    rcases hmem with hletter | hdigit
    · have hletters : ("step".toList.all fun c => c.isAlphanum) = true := by decide
      exact .inl (List.all_eq_true.mp hletters c hletter)
    · have hdigit := Nat.isDigit_of_mem_toDigits (by decide) (by decide) hdigit
      simp [Char.isAlphanum, hdigit]

theorem numbered_injective {number other : Nat}
    (hsame : "step" ++ toString number = "step" ++ toString other) : number = other := by
  have hdigits (number : Nat) : Nat.ofDigitChars 10 (toString number).toList 0 = number := by
    rw [Nat.toString_eq_repr, Nat.toList_repr, Nat.ofDigitChars_ten_toDigits]
  calc
    number = Nat.ofDigitChars 10 (toString number).toList 0 := (hdigits number).symm
    _ = Nat.ofDigitChars 10 (toString other).toList 0 := by
      rw [(String.append_right_inj _).mp hsame]
    _ = other := hdigits other

/-- The key of an output variable of the step with a number. -/
def Step.outputKey (step : Step) (index : Nat) (name : String) : String :=
  step.reference index ++ "." ++ name

theorem Step.outputKey_injective (step : Step) (index : Nat) :
    Function.Injective (step.outputKey index) :=
  fun _ _ hsame => (String.append_right_inj _).mp hsame

namespace Job

variable {job : Job}

/-- No step is called by the number of a step without a name. -/
def NumbersAreFree (job : Job) : Prop :=
  ∀ entry ∈ job.steps.zipIdx, entry.1.name = none →
    some (entry.1.reference entry.2) ∉ job.steps.map (·.name)

instance (job : Job) : Decidable job.NumbersAreFree :=
  inferInstanceAs (Decidable (∀ entry ∈ job.steps.zipIdx, _ → _))

/-- No two pairs of a step and a variable share a key. -/
def HasOwnKeys (job : Job) : Prop :=
  ∀ (index other : Nat) (step second : Step),
    job.steps[index]? = some step → job.steps[other]? = some second →
    ∀ name another, step.outputKey index name = second.outputKey other another →
      index = other ∧ name = another

theorem isName_reference (hwell : job.IsWellFormed) {index : Nat} {step : Step}
    (hstep : job.steps[index]? = some step) : IsName (step.reference index) := by
  unfold Step.reference
  cases hname : step.name with
  | none => exact isName_numbered (index + 1)
  | some name =>
      exact hwell.stepNames name
        (List.mem_filterMap.mpr ⟨step, List.mem_of_getElem? hstep, hname⟩)

/-- Named steps of one name are one step. -/
theorem index_eq_of_name (hwell : job.IsWellFormed) {index other : Nat} {step second : Step}
    {name : String} (hstep : job.steps[index]? = some step)
    (hsecond : job.steps[other]? = some second) (hname : step.name = some name)
    (hsame : second.name = some name) : index = other := by
  have hpairs := List.pairwise_filterMap.mp hwell.distinctSteps
  rw [List.pairwise_iff_getElem] at hpairs
  obtain ⟨hindex, rfl⟩ := List.getElem?_eq_some_iff.mp hstep
  obtain ⟨hother, rfl⟩ := List.getElem?_eq_some_iff.mp hsecond
  -- The pairs are ordered, so the two places are compared first.
  rcases Nat.lt_trichotomy index other with hlt | heq | hlt
  · exact absurd rfl (hpairs index other hindex hother hlt name hname name hsame)
  · exact heq
  · exact absurd rfl (hpairs other index hother hindex hlt name hsame name hname)

/-- Where the numbers are free, no two steps share a reference. -/
theorem index_eq_of_reference (hwell : job.IsWellFormed) (hfree : job.NumbersAreFree)
    {index other : Nat} {step second : Step} (hstep : job.steps[index]? = some step)
    (hsecond : job.steps[other]? = some second)
    (hsame : step.reference index = second.reference other) : index = other := by
  -- Needed in both directions, so it is stated for any two steps.
  have hnumbered {index other : Nat} {step second : Step} {name : String}
      (hstep : job.steps[index]? = some step) (hsecond : job.steps[other]? = some second)
      (hnone : step.name = none) (hname : second.name = some name) :
      step.reference index ≠ name := by
    rintro rfl
    refine hfree (step, index) (List.mem_zipIdx_iff_getElem?.mpr hstep) hnone ?_
    exact List.mem_map.mpr ⟨second, List.mem_of_getElem? hsecond, hname⟩
  cases hfirst : step.name with
  | none =>
      cases hother : second.name with
      | none =>
          simp only [Step.reference, hfirst, hother, Option.getD_none] at hsame
          exact Nat.succ_injective (numbered_injective hsame)
      | some name =>
          refine absurd hsame ?_
          simpa [Step.reference, hother] using hnumbered hstep hsecond hfirst hother
  | some name =>
      cases hother : second.name with
      | none =>
          refine absurd hsame.symm ?_
          simpa [Step.reference, hfirst] using hnumbered hsecond hstep hother hfirst
      | some another =>
          simp only [Step.reference, hfirst, hother, Option.getD_some] at hsame
          exact index_eq_of_name hwell hstep hsecond hfirst (hsame ▸ hother)

/-- The keys of a job are its own exactly if no step is called by the number of an unnamed one. -/
theorem hasOwnKeys_iff (hwell : job.IsWellFormed) : job.HasOwnKeys ↔ job.NumbersAreFree := by
  constructor
  · rintro hown ⟨step, index⟩ hentry hnone hmem
    obtain ⟨second, hsecond, hname⟩ := List.mem_map.mp hmem
    obtain ⟨other, hother⟩ := List.mem_iff_getElem?.mp hsecond
    have hstep := List.mem_zipIdx_iff_getElem?.mp hentry
    -- One reference for two steps is one key for any variable of both.
    have hsame : step.outputKey index "" = second.outputKey other "" := by
      simp [Step.outputKey, Step.reference, hname]
    obtain ⟨rfl, -⟩ := hown index other step second hstep hother "" "" hsame
    obtain rfl : step = second := Option.some.inj (hstep.symm.trans hother)
    rw [hnone] at hname
    cases hname
  · intro hfree index other step second hstep hsecond name another hsame
    obtain ⟨hreference, hname⟩ := (joined_eq_joined_iff (isName_reference hwell hstep)
      (isName_reference hwell hsecond)).mp hsame
    exact ⟨index_eq_of_reference hwell hfree hstep hsecond hreference, hname⟩

end Job

/-! ## What is held of what was published -/

namespace Job

/-- The step with a number publishes a value under a key. -/
def Publishes (job : Job) (results : List StepResult) (index : Nat) (key value : String) : Prop :=
  ∃ step result name, job.steps[index]? = some step ∧ results[index]? = some result ∧
    key = step.outputKey index name ∧ result.outputs.get? name = some value

/-- Outputs that hold under each key what the last step with this key has published. -/
structure HoldsLatest (job : Job) (results : List StepResult) (outputs : Table String) : Prop where
  ascending : Table.Ascending outputs
  latest : ∀ key value, outputs.get? key = some value ↔
    ∃ index, job.Publishes results index key value ∧
      ∀ later other, index < later → ¬ job.Publishes results later key other

variable {job : Job} {results : List StepResult} {outputs : Table String} {key value : String}

theorem Publishes.lt_length {index : Nat} (hpublishes : job.Publishes results index key value) :
    index < results.length := by
  obtain ⟨-, result, -, -, hresult, -⟩ := hpublishes
  exact (List.getElem?_eq_some_iff.mp hresult).1

/-- One more result publishes what is in it, under the number of its step. -/
theorem publishes_append_singleton_iff {step : Step} {result : StepResult} {index : Nat}
    (hstep : job.steps[results.length]? = some step) :
    job.Publishes (results ++ [result]) index key value ↔
      job.Publishes results index key value ∨ index = results.length ∧
        ∃ name, key = step.outputKey results.length name ∧
          result.outputs.get? name = some value := by
  unfold Publishes
  rcases Nat.lt_trichotomy index results.length with hlt | rfl | hgt
  · simp [List.getElem?_append_left hlt, hlt.ne]
  · simp [hstep]
  · have hover : (results ++ [result])[index]? = none := by simp; omega
    have hbefore : results[index]? = none := by simp; omega
    simp [hover, hbefore, hgt.ne']

/-- Nothing is held where nothing was published. -/
theorem holdsLatest_nil (job : Job) (hnothing : ∀ result ∈ results, result.outputs = []) :
    job.HoldsLatest results [] := by
  refine ⟨List.Pairwise.nil, fun key value => ?_⟩
  constructor
  · intro hfound
    cases hfound
  · rintro ⟨index, ⟨step, result, name, -, hresult, -, hfound⟩, -⟩
    rw [hnothing result (List.mem_of_getElem? hresult)] at hfound
    cases hfound

/-- A recorded step puts its variables on top of what is held. -/
theorem HoldsLatest.record {step : Step} {result : StepResult}
    (hholds : job.HoldsLatest results outputs)
    (hstep : job.steps[results.length]? = some step) (hascending : Table.Ascending result.outputs) :
    job.HoldsLatest (results ++ [result]) (result.outputs.foldl (fun outputs entry =>
      outputs.insert (step.outputKey results.length entry.1) entry.2) outputs) := by
  constructor
  · exact hholds.ascending.foldl_insert (fun entry => step.outputKey results.length entry.1)
      Prod.snd result.outputs
  · intro key value
    -- What is found was published by the new step, or else by the latest one before it.
    rw [Table.get?_foldl_insert_keyed (step.outputKey_injective results.length)
      hascending.nodup_keys, hholds.latest]
    constructor
    · rintro (hnew | ⟨hnone, index, hpublishes, hlast⟩)
      · refine ⟨results.length,
          (publishes_append_singleton_iff hstep).mpr (.inr ⟨rfl, hnew⟩), ?_⟩
        intro later other hlater hpublishes
        have hlength := hpublishes.lt_length
        rw [List.length_append, List.length_singleton] at hlength
        omega
      · refine ⟨index, (publishes_append_singleton_iff hstep).mpr (.inl hpublishes), ?_⟩
        intro later other hlater hagain
        rcases (publishes_append_singleton_iff hstep).mp hagain with
          hbefore | ⟨-, name, hkey, hname⟩
        · exact hlast later other hlater hbefore
        · exact hnone name other hkey hname
    · rintro ⟨index, hpublishes, hlast⟩
      rcases (publishes_append_singleton_iff hstep).mp hpublishes with hbefore | ⟨-, hnew⟩
      · refine .inr ⟨fun name other hkey hname => ?_, index, hbefore, ?_⟩
        · exact hlast results.length other hbefore.lt_length
            ((publishes_append_singleton_iff hstep).mpr (.inr ⟨rfl, name, hkey, hname⟩))
        · exact fun later other hlater hagain => hlast later other hlater
            ((publishes_append_singleton_iff hstep).mpr (.inl hagain))
      · exact .inl hnew

/-- Where no two pairs share a key, all that was published is held. -/
theorem HoldsLatest.get?_of_publishes (hholds : job.HoldsLatest results outputs)
    (hown : job.HasOwnKeys) {index : Nat} (hpublishes : job.Publishes results index key value) :
    outputs.get? key = some value := by
  refine (hholds.latest key value).mpr ⟨index, hpublishes, fun later other hlater hagain => ?_⟩
  obtain ⟨step, -, name, hstep, -, hkey, -⟩ := hpublishes
  obtain ⟨second, -, another, hsecond, -, hsame, -⟩ := hagain
  have hindex := (hown index later step second hstep hsecond name another (hkey ▸ hsame)).1
  omega

end Job

/-! ## Moves -/

theorem ascending_applyUpdates {environment : Environment} {outputs : Table String}
    (updates : List VariableUpdate) (hascending : Table.Ascending outputs) :
    Table.Ascending (applyUpdates environment outputs updates).2.1 := by
  induction updates generalizing environment outputs with
  | nil => exact hascending
  | cons update rest ih =>
      unfold applyUpdates
      split
      · exact ih hascending
      · next environment _ =>
          refine ih ?_
          split
          · exact hascending.insert update.name update.value
          · exact hascending

theorem Outcome.ascending_settle (outcome : Outcome) (environment : Environment) (index : Nat)
    (step : Step) (failure : Status) :
    Table.Ascending (outcome.settle environment index step failure).result.outputs :=
  ascending_applyUpdates outcome.vars List.Pairwise.nil

namespace JobNode

variable {node : JobNode} {run : JobRun}

/-- What is known of the outputs of a job in its phase. -/
def PhaseHoldsLatest (node : JobNode) : Phase JobWork JobResult → Prop
  | .active (.running run) => node.job.HoldsLatest run.results run.outputs
  | .returned result =>
    result.name = node.name ∧ node.job.HoldsLatest result.steps result.outputs
  | _ => True

theorem holdsLatest_notRun (node : JobNode) (status steps : Status) (error : Option String) :
    node.PhaseHoldsLatest (.returned (.notRun node status steps error)) := by
  refine ⟨rfl, node.job.holdsLatest_nil fun result hresult => ?_⟩
  obtain ⟨step, -, rfl⟩ := List.mem_map.mp hresult
  rfl

theorem holdsLatest_record {declared : Step} {result : StepResult}
    (hholds : node.job.HoldsLatest run.results run.outputs)
    (hdeclared : node.job.steps[run.results.length]? = some declared)
    (hascending : Table.Ascending result.outputs) :
    node.PhaseHoldsLatest (.active (.running (run.record declared result))) :=
  hholds.record hdeclared hascending

theorem holdsLatest_concluded {declared : Step}
    (hholds : node.job.HoldsLatest run.results run.outputs)
    (hdeclared : node.job.steps[run.results.length]? = some declared) (started : Step)
    (failure : Status) (outcome : Outcome) :
    node.PhaseHoldsLatest (.active (.running (run.concluded declared started failure outcome))) :=
  hholds.record hdeclared (outcome.ascending_settle _ _ _ _)

variable {setup : Setup} {place : Place} {environment : Environment} {shared : Shared}

theorem holdsLatest_of_advances {turn : JobTurn}
    (hadvances : JobWork.Advances setup place shared node run turn)
    (hholds : node.job.HoldsLatest run.results run.outputs) :
    node.PhaseHoldsLatest turn.phase := by
  cases hadvances with
  | ended => exact ⟨rfl, hholds⟩
  | canceled hdeclared => exact holdsLatest_record hholds hdeclared List.Pairwise.nil
  | skipped hdeclared => exact holdsLatest_record hholds hdeclared List.Pairwise.nil
  | refused hdeclared => exact holdsLatest_record hholds hdeclared List.Pairwise.nil
  | immediate hdeclared => exact holdsLatest_concluded hholds hdeclared _ _ _
  | calling => exact hholds

theorem holdsLatest_of_moves {work : JobWork} {move : JobMove} {turn : JobTurn}
    (hmoves : work.Moves setup place environment shared node move turn)
    (hholds : node.PhaseHoldsLatest (.active work)) : node.PhaseHoldsLatest turn.phase := by
  cases hmoves with
  | start dependencies =>
      generalize hstart : JobWork.start setup environment shared node dependencies = turn
      cases JobWork.starts_of_start hstart with
      | queued => exact trivial
      | canceled => exact holdsLatest_notRun node _ _ _
      | skipped => exact holdsLatest_notRun node _ _ _
      | failed => exact holdsLatest_notRun node _ _ _
  | takeAgent context =>
      generalize htake : JobWork.takeAgent environment shared node context = turn
      cases JobWork.takesAgent_of_takeAgent htake with
      | refused => exact holdsLatest_notRun node _ _ _
      | running => exact node.job.holdsLatest_nil fun _ hresult => absurd hresult List.not_mem_nil
  | withdraw => exact holdsLatest_notRun node _ _ _
  | advance run => exact holdsLatest_of_advances (JobWork.advances_of_advance rfl) hholds
  | @answer run ongoing declared reply turn hongoing hdeclared hanswer =>
      rcases JobWork.answer_phase hanswer with ⟨outcome, hphase⟩ | ⟨invocation, number, -, hphase⟩
      · rw [hphase]
        exact holdsLatest_concluded hholds hdeclared _ _ outcome
      · rw [hphase]
        exact hholds
  | die => exact trivial

theorem holdsLatest_invariant : JobNode.Invariant PhaseHoldsLatest where
  waiting _ := trivial
  closed _ := trivial
  released _ _ := trivial
  unstarted node _ _ := holdsLatest_notRun node _ _ _
  lost node := holdsLatest_notRun node _ _ _
  moves := holdsLatest_of_moves

end JobNode

/-! ## Plans -/

/-- Where jobs have names and these differ, the outputs of a stage are those of its jobs. -/
theorem StageResult.get?_outputs_iff {stage : StageResult}
    (hnames : ∀ job ∈ stage.jobs, IsName job.name)
    (hdistinct : (stage.jobs.map (·.name)).Nodup)
    (hascending : ∀ job ∈ stage.jobs, Table.Ascending job.outputs) {key value : String} :
    stage.outputs.get? key = some value ↔
      ∃ job ∈ stage.jobs, ∃ inner, key = job.name ++ "." ++ inner ∧
        job.outputs.get? inner = some value := by
  let entries : List (String × String) := stage.jobs.flatMap fun job =>
    job.outputs.map fun entry => (job.name ++ "." ++ entry.1, entry.2)
  have hkeys : (Table.keys entries).Nodup := by
    rw [Table.keys, List.map_flatMap, List.nodup_flatMap]
    -- Within a job the variables tell the keys apart, and across jobs the names do.
    constructor
    · intro job hjob
      have hkeyed : (job.outputs.map fun entry => (job.name ++ "." ++ entry.1, entry.2)).map
          Prod.fst = job.outputs.keys.map (job.name ++ "." ++ ·) := by simp [Table.keys]
      rw [hkeyed]
      exact (hascending job hjob).nodup_keys.map fun _ _ hsame =>
        (String.append_right_inj _).mp hsame
    · refine (List.pairwise_map.mp hdistinct).imp_of_mem ?_
      intro first second hfirst hsecond hne key hkey hother
      simp only [List.map_map, List.mem_map, Function.comp_apply] at hkey hother
      obtain ⟨entry, -, rfl⟩ := hkey
      obtain ⟨other, -, hsame⟩ := hother
      exact hne ((joined_eq_joined_iff (hnames second hsecond) (hnames first hfirst)).mp
        hsame).1.symm
  have houtputs : stage.outputs = Table.ofList entries := rfl
  rw [houtputs, Table.get?_ofList_of_nodup hkeys]
  simp only [entries, List.mem_flatMap, List.mem_map, Prod.mk.injEq]
  constructor
  · rintro ⟨job, hjob, ⟨inner, found⟩, hmem, rfl, rfl⟩
    exact ⟨job, hjob, inner, rfl,
      (Table.get?_eq_some_iff (hascending job hjob).nodup_keys).mpr hmem⟩
  · rintro ⟨job, hjob, inner, rfl, hfound⟩
    exact ⟨job, hjob, (inner, value),
      (Table.get?_eq_some_iff (hascending job hjob).nodup_keys).mp hfound, rfl, rfl⟩

/-- The outputs of a job in its result. -/
structure JobNode.KeepsOutputs (node : JobNode) (result : JobResult) : Prop where
  name : result.name = node.name
  outputs : node.job.HoldsLatest result.steps result.outputs
  keys : node.job.HasOwnKeys ↔ node.job.NumbersAreFree
  /-- Then every variable is held under the key that is its own. -/
  kept : node.job.NumbersAreFree → ∀ index key value,
    node.job.Publishes result.steps index key value → result.outputs.get? key = some value

/-- The outputs of a stage in its result. -/
structure StageNode.KeepsOutputs (node : StageNode) (stage : StageResult) : Prop where
  jobs : List.Forall₂ JobNode.KeepsOutputs node.jobs stage.jobs
  outputs : ∀ key value, stage.outputs.get? key = some value ↔
    ∃ job ∈ stage.jobs, ∃ inner, key = job.name ++ "." ++ inner ∧
      job.outputs.get? inner = some value
  /-- No two pairs of a job and a key of this job share a key in the stage. -/
  keys : ∀ job ∈ node.jobs, ∀ other ∈ node.jobs, ∀ key another,
    job.name ++ "." ++ key = other.name ++ "." ++ another → job = other ∧ key = another

theorem StageNode.keepsOutputs_of_jobs {node : StageNode} {stage : StageResult}
    (hnames : ∀ job ∈ node.jobs, IsName job.name) (hdistinct : (node.jobs.map (·.name)).Nodup)
    (hjobs : List.Forall₂ JobNode.KeepsOutputs node.jobs stage.jobs) :
    node.KeepsOutputs stage := by
  have hsame : stage.jobs.map (·.name) = node.jobs.map (·.name) := by
    rw [← List.forall₂_eq_eq_eq, List.forall₂_map_left_iff, List.forall₂_map_right_iff]
    exact hjobs.flip.imp fun _ _ hkeeps => hkeeps.name
  refine ⟨hjobs, fun key value => StageResult.get?_outputs_iff ?_ (hsame ▸ hdistinct) ?_, ?_⟩
  · intro job hjob
    obtain ⟨planned, hplanned, hkeeps⟩ := exists_node_of_mem hjobs hjob
    exact hkeeps.name ▸ hnames planned hplanned
  · intro job hjob
    obtain ⟨planned, -, hkeeps⟩ := exists_node_of_mem hjobs hjob
    exact hkeeps.outputs.ascending
  · intro job hjob other hother key another hkey
    obtain ⟨hname, hrest⟩ :=
      (joined_eq_joined_iff (hnames job hjob) (hnames other hother)).mp hkey
    exact ⟨List.inj_on_of_nodup_map hdistinct hjob hother hname, hrest⟩

/-- What becomes of the output variables in every run of a plan.  A job holds under each key what
the last step with this key has published, and nothing else; a stage holds what its jobs hold, under
keys of their own.  If no step is called by the number of a step without a name, the keys of the job
are all different and every output variable of every step is held; if one is, two steps share their
keys. -/
theorem output_variables_are_kept {pipeline : Pipeline} {parameters : Template.Arguments}
    {plan : Plan} {setup : Setup} {state : RunState}
    (hplan : Plan.build pipeline parameters = .ok plan) (hgraph : setup.graph = plan.graph)
    (hreachable : RunState.Reachable setup state) :
    List.Forall₂ StageNode.KeepsOutputs setup.graph.stages (state.result setup).stages := by
  have hdistinct : setup.graph.DistinctNames := by
    rw [hgraph]
    exact (Plan.distinctNames_of_build hplan).2
  have hwell := Plan.isWellFormed_of_build hplan
  rw [← hgraph] at hwell
  have hjobs := RunState.forall₂_jobs_of_invariant JobNode.holdsLatest_invariant hdistinct
    hreachable
  refine ((List.forall₂_and_left _ _).mpr ⟨fun _ hnode => hnode, hjobs⟩).imp
    fun node stage ⟨hnode, hstage⟩ => ?_
  refine StageNode.keepsOutputs_of_jobs (fun job hjob => ?_) (hdistinct.jobs node hnode) ?_
  · obtain ⟨hjobWell, hname⟩ := hwell node hnode job hjob
    obtain ⟨name, hnamed, hword⟩ := hjobWell.named
    obtain rfl : job.name = name := Option.some.inj (hname.symm.trans hnamed)
    exact hword
  · refine ((List.forall₂_and_left _ _).mpr ⟨fun _ hjob => hjob, hstage⟩).imp
      fun job result ⟨hjob, hname, hholds⟩ => ?_
    have hkeys := job.job.hasOwnKeys_iff (hwell node hnode job hjob).1
    exact ⟨hname, hholds, hkeys,
      fun hfree _ _ _ hpublishes => hholds.get?_of_publishes (hkeys.mpr hfree) hpublishes⟩

namespace Delivery

/-- Two steps, the second without a name. -/
def versions (name : String) : Job :=
  { job := some "compile"
    steps := [
      { name := some name, action := .shell .script "fetch" none },
      { action := .shell .script "make" none }] }

def versionsPipeline (name : String) : Pipeline :=
  { stages := [{ build with jobs := [versions name] }] }

def versionsSetup (name : String) : Setup where
  name := "versions"
  graph := ⟨[⟨"build", { build with jobs := [versions name] }, [],
    [⟨"compile", versions name, []⟩]⟩], []⟩

theorem build_versions {name : String} (hvalid : (versionsPipeline name).validate = []) :
    Plan.build (versionsPipeline name) [] =
      .ok ⟨versionsPipeline name, [], (versionsSetup name).graph⟩ := by
  have hgraph : Graph.ofPipeline (versionsPipeline name) = .ok (versionsSetup name).graph := by
    simp [Graph.ofPipeline, versionsPipeline, versionsSetup, build, versions, stageNodes,
      Stage.jobNodes, jobNodes, nodeName, Stage.dependencyNames, DependsOn.names,
      DependsOn.isImplicit, Graph.precedence, JobNode.precedence, checkPrecedence,
      Precedence.dangling?, Precedence.cycle?, Precedence.visit, Precedence.before,
      Precedence.names, List.findSome?_cons, bind, Except.bind, pure, Except.pure]
  simp only [Plan.build, hvalid, hgraph]

/-- A step that publishes a version. -/
def publishing (version : String) : Outcome :=
  { success := true, vars := [⟨"version", version, true, false⟩] }

/-- Both steps publish a version. -/
def versionsMoves : List Move :=
  stageMoves 0 (jobMoves 0 0 [some (publishing "1"), some (publishing "2")])

/-- The outputs of the steps, of the job and of the stage. -/
def outputsOf (result : PipelineResult) :
    List (List (List (Table String) × Table String) × Table String) :=
  result.stages.map fun stage =>
    (stage.jobs.map fun job => (job.steps.map (·.outputs), job.outputs), stage.outputs)

end Delivery

/-- Both versions are kept, one under the name of its step and one under its number. -/
theorem output_variables_are_kept_versions :
    Plan.build (Delivery.versionsPipeline "fetch") [] = .ok
      ⟨Delivery.versionsPipeline "fetch", [], (Delivery.versionsSetup "fetch").graph⟩ ∧
    (Delivery.versions "fetch").NumbersAreFree ∧
    ∃ state, RunState.Reachable (Delivery.versionsSetup "fetch") state ∧ state.isComplete = true ∧
      Delivery.outputsOf (state.result (Delivery.versionsSetup "fetch")) =
        [([([[("version", "1")], [("version", "2")]],
            [("fetch.version", "1"), ("step2.version", "2")])],
          [("compile.fetch.version", "1"), ("compile.step2.version", "2")])] ∧
      List.Forall₂ StageNode.KeepsOutputs (Delivery.versionsSetup "fetch").graph.stages
        (state.result (Delivery.versionsSetup "fetch")).stages := by
  let check (state : RunState) : Bool :=
    state.isComplete && Delivery.outputsOf (state.result (Delivery.versionsSetup "fetch")) ==
      [([([[("version", "1")], [("version", "2")]],
          [("fetch.version", "1"), ("step2.version", "2")])],
        [("compile.fetch.version", "1"), ("compile.step2.version", "2")])]
  obtain ⟨state, hreachable, hcheck⟩ :=
    RunState.exists_reachable_of_replay (Delivery.versionsSetup "fetch") check
      Delivery.versionsMoves (by decide +kernel)
  obtain ⟨hcomplete, houtputs⟩ := Bool.and_eq_true_iff.mp hcheck
  have hplan := Delivery.build_versions (List.isEmpty_iff.mp (by decide +kernel) :
    (Delivery.versionsPipeline "fetch").validate = [])
  exact ⟨hplan, by decide, state, hreachable, hcomplete, beq_iff_eq.mp houtputs,
    output_variables_are_kept hplan rfl hreachable⟩

/-- The first step is called by the number of the second, and its version is lost. -/
theorem numbered_name_is_overwritten :
    Plan.build (Delivery.versionsPipeline "step2") [] = .ok
      ⟨Delivery.versionsPipeline "step2", [], (Delivery.versionsSetup "step2").graph⟩ ∧
    ∃ state, RunState.Reachable (Delivery.versionsSetup "step2") state ∧ state.isComplete = true ∧
      Delivery.outputsOf (state.result (Delivery.versionsSetup "step2")) =
        [([([[("version", "1")], [("version", "2")]], [("step2.version", "2")])],
          [("compile.step2.version", "2")])] := by
  let check (state : RunState) : Bool :=
    state.isComplete && Delivery.outputsOf (state.result (Delivery.versionsSetup "step2")) ==
      [([([[("version", "1")], [("version", "2")]], [("step2.version", "2")])],
        [("compile.step2.version", "2")])]
  obtain ⟨state, hreachable, hcheck⟩ :=
    RunState.exists_reachable_of_replay (Delivery.versionsSetup "step2") check
      Delivery.versionsMoves (by decide +kernel)
  obtain ⟨hcomplete, houtputs⟩ := Bool.and_eq_true_iff.mp hcheck
  exact ⟨Delivery.build_versions (List.isEmpty_iff.mp (by decide +kernel)), state, hreachable,
    hcomplete, beq_iff_eq.mp houtputs⟩

end BuildPipeline
