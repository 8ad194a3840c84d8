import BuildPipeline.Proofs.Run.ScheduleOrder
import BuildPipeline.Proofs.Schedule.Gathering

/-!
# Who holds the name of an artifact

A publication takes three moves: the name is reserved, the store is asked, and the answer either
lets the reservation stand or gives the name back.  Other jobs, which may want the same name, move
in between.

* `publishing` collects the publications that wait for the store, over all jobs of all stages, and
  `published` those that the log tells of.  Both are lists of entries as the ledger has them, and
  both count an entry as often as it occurs.
* `Publishes` is what one move does to the ledger and to the publications of the job that makes it;
  `publishes_of_moves` shows on each level that a move does nothing else.
* `RunState.Account` is the invariant: the ledger is, up to its order, the sum of what is under way,
  what was published and what was lost because its job broke off.
* `ledger_accounts_for_publications` reads the four facts off it that one wants to know of names.
-/

namespace BuildPipeline

/-! ## Entries of a table -/

namespace Table

variable {α : Type} {key : String} {table : Table α}

/-- A new entry is put somewhere between the old ones. -/
theorem perm_insert (value : α) (hnew : table.get? key = none) :
    (table.insert key value).Perm ((key, value) :: table) := by
  induction table with
  | nil => exact .refl _
  | cons entry rest ih =>
      obtain ⟨k, v⟩ := entry
      have hkey : k ≠ key := by
        rintro rfl
        simp [get?] at hnew
      have hrest : get? key rest = none := by simpa [get?, hkey] using hnew
      unfold insert
      rw [if_neg (Ne.symm hkey)]
      split
      · exact .refl _
      · exact ((ih hrest).cons _).trans (.swap _ _ _)

theorem get?_eq_none_iff : table.get? key = none ↔ key ∉ table.keys := by
  induction table with
  | nil => simp [get?, keys]
  | cons entry rest ih =>
      obtain ⟨k, v⟩ := entry
      rw [keys] at ih ⊢
      by_cases hkey : k = key
      · simp [get?, hkey]
      · simp [get?, hkey, ih, Ne.symm hkey]

/-- In a table whose keys stand once, what is found is what is there. -/
theorem get?_eq_some_iff {value : α} (hkeys : table.keys.Nodup) :
    table.get? key = some value ↔ (key, value) ∈ table := by
  induction table with
  | nil => simp [get?]
  | cons entry rest ih =>
      obtain ⟨k, v⟩ := entry
      obtain ⟨hfresh, hrest⟩ := List.nodup_cons.mp hkeys
      by_cases hkey : k = key
      · subst hkey
        have hother : (k, value) ∉ rest := fun hmem =>
          hfresh (List.mem_map.mpr ⟨(k, value), hmem, rfl⟩)
        simp [get?, hother, eq_comm]
      · simp [get?, hkey, ih hrest, Ne.symm hkey]

/-- Erasing a key takes its one entry away. -/
theorem perm_erase {value : α} {rest : List (String × α)} (hkeys : table.keys.Nodup)
    (htable : table.Perm ((key, value) :: rest)) : (table.erase key).Perm rest := by
  have hparts : key ∉ rest.map Prod.fst ∧ (rest.map Prod.fst).Nodup :=
    List.nodup_cons.mp ((htable.map Prod.fst).nodup_iff.mp hkeys)
  have hothers : ∀ entry ∈ rest, decide (entry.1 ≠ key) = true := by
    intro entry hentry
    refine decide_eq_true fun heq => hparts.1 ?_
    exact heq ▸ List.mem_map_of_mem hentry
  have hfilter := htable.filter fun entry => decide (entry.1 ≠ key)
  rw [List.filter_cons_of_neg (by simp), List.filter_eq_self.mpr hothers] at hfilter
  exact hfilter

end Table

/-! ## What is under way and what was published -/

/-- An artifact with the stage that publishes it. -/
abbrev Publication := String × String

/-- What a call publishes for a stage. -/
def Call.publishing (stage : String) : Call → List Publication
  | .publish artifact _ => [(artifact, stage)]
  | _ => []

/-- The publication of a job that waits for the store. -/
def JobWork.publishing (stage : String) : JobWork → List Publication
  | .running run => run.ongoing.toList.flatMap (·.call.publishing stage)
  | _ => []

/-- The publications of the jobs of a stage that wait for the store. -/
def StageWork.publishing (stage : String) : StageWork → List Publication
  | .running run => run.jobs.gather fun _ work => work.publishing stage
  | .released _ => []

/-- All publications that wait for the store. -/
def RunState.publishing (state : RunState) : List Publication :=
  state.stages.gather fun node work => work.publishing node.name

def JobEvent.published (stage : String) : JobEvent → List Publication
  | .artifactPublished artifact => [(artifact, stage)]
  | _ => []

def StageEvent.published (stage : String) : StageEvent → List Publication
  | .job _ event => event.published stage
  | _ => []

def Event.published : Event → List Publication
  | .stage name event => event.published name
  | _ => []

/-- The publications that the log tells of, in order. -/
def RunState.published (state : RunState) : List Publication :=
  state.log.flatMap Event.published

/-! ## Moves and publications -/

/-- The answer that a move brings. -/
def JobMove.reply? : JobMove → Option Reply
  | .answer reply => some reply
  | _ => none

def StageMove.reply? : StageMove → Option Reply
  | .job _ move => move.reply?
  | _ => none

def Move.reply? : Move → Option Reply
  | .stage _ move => move.reply?
  | _ => none

/-- The publications that a move of a stage decides on: those of the job that makes it, or of all
jobs if the stage breaks off. -/
def StageWork.atStake (stage : String) : StageWork → StageMove → List Publication
  | .running run, .job index _ =>
    (run.jobs.tasks[index]?.map (·.phase.gather (·.publishing stage))).getD []
  | work, .die => work.publishing stage
  | _, _ => []

/-- The publications that a move decides on. -/
def RunState.atStake (state : RunState) : Move → List Publication
  | .stage index move =>
    (state.stages.tasks[index]?.map fun task =>
      task.phase.gather (·.atStake task.node.name move)).getD []
  | _ => []

/-- What a move does with the publications it decides on: the ledger and the publications before and
after it, and what it tells. -/
inductive Publishes (reply : Option Reply) (breaksOff : Bool) (ledger : Ledger) :
    List Publication → Ledger → List Publication → List Publication → Prop
  | rest (publications : List Publication) :
      Publishes reply breaksOff ledger publications ledger publications []
  | reserve {artifact stage : String} {after : Ledger}
      (hreserve : ledger.reserve artifact stage = .ok after) :
      Publishes reply breaksOff ledger [] after [(artifact, stage)] []
  | store {artifact stage : String} (hreply : reply = some (.stored (.ok ()))) :
      Publishes reply breaksOff ledger [(artifact, stage)] ledger [] [(artifact, stage)]
  | release {artifact stage : String} {error : ArtifactError}
      (hreply : reply = some (.stored (.error error))) :
      Publishes reply breaksOff ledger [(artifact, stage)] (ledger.release artifact) [] []
  | abandon (publications : List Publication) (hbreaks : breaksOff = true) :
      Publishes reply breaksOff ledger publications ledger [] []

/-! ### Jobs -/

/-- Whether an event tells of nothing outside the job: neither a call nor a publication. -/
def JobEvent.isInternal : JobEvent → Bool
  | .artifactPublished _ | .called .. => false
  | _ => true

theorem JobEvent.published_of_isInternal {event : JobEvent} (hinternal : event.isInternal = true)
    (stage : String) : event.published stage = [] := by
  cases event with
  | artifactPublished => cases hinternal
  | _ => rfl

theorem isInternal_of_mem_applyUpdates {environment : Environment} {outputs : Table String}
    {updates : List VariableUpdate} :
    ∀ event ∈ (applyUpdates environment outputs updates).2.2, event.isInternal = true := by
  induction updates generalizing environment outputs with
  | nil => exact fun _ hevent => absurd hevent List.not_mem_nil
  | cons update rest ih =>
      unfold applyUpdates
      split
      · exact ih
      · exact List.forall_mem_cons.mpr ⟨rfl, ih⟩

/-- The end of a step tells of nothing outside the job. -/
theorem isInternal_of_mem_settle {outcome : Outcome} {environment : Environment} {index : Nat}
    {step : Step} {failure : Status} :
    ∀ event ∈ (outcome.settle environment index step failure).events,
      event.isInternal = true := by
  intro event hevent
  unfold Outcome.settle at hevent
  rcases List.mem_append.mp hevent with hevent | hlast
  · rcases List.mem_append.mp hevent with hline | hupdate
    · obtain ⟨line, -, rfl⟩ := List.mem_map.mp hline
      rfl
    · exact isInternal_of_mem_applyUpdates event hupdate
  · obtain rfl := List.mem_singleton.mp hlast
    rfl

/-- Only a publish step touches the ledger, and it reserves what it then asks the store for. -/
theorem Action.Calls.publishes {setup : Setup} {place : Place} {ledger after : Ledger}
    {invocation : Invocation} {action : Action} {call : Call} (reply : Option Reply)
    (breaksOff : Bool) (hcalls : action.Calls setup place ledger invocation call after) :
    Publishes reply breaksOff ledger [] after (call.publishing place.stage) [] := by
  cases hcalls with
  | publish hreserve => exact .reserve hreserve
  | shell | task | download => exact .rest []

namespace JobWork

variable {setup : Setup} {place : Place} {environment : Environment} {shared : Shared}
  {node : JobNode} {work : JobWork} {move : JobMove} {turn : JobTurn}

/-- A turn of a job that had some publications under way before it. -/
def TurnPublishes (stage : String) (move : JobMove) (ledger : Ledger) (own : List Publication)
    (turn : JobTurn) : Prop :=
  Publishes move.reply? move.breaksOff ledger own turn.shared.ledger
    (turn.phase.gather (·.publishing stage)) (turn.events.flatMap (JobEvent.published stage))

/-- The end of a step leaves nothing under way and tells of nothing more. -/
theorem turnPublishes_conclude {stage : String} {ledger : Ledger} {own : List Publication}
    (move : JobMove) (run : JobRun) (declared started : Step) (failure : Status)
    (outcome : Outcome) (events : List JobEvent)
    (hpublishes : Publishes move.reply? move.breaksOff ledger own shared.ledger []
      (events.flatMap (JobEvent.published stage))) :
    TurnPublishes stage move ledger own
      (conclude shared run declared started failure outcome events) := by
  have hsettle : (outcome.settle run.environment run.results.length started failure).events.flatMap
      (JobEvent.published stage) = [] := by
    refine List.flatMap_eq_nil_iff.mpr fun event hevent => ?_
    exact JobEvent.published_of_isInternal (isInternal_of_mem_settle event hevent) stage
  have hevents : (conclude shared run declared started failure outcome events).events.flatMap
      (JobEvent.published stage) = events.flatMap (JobEvent.published stage) := by
    simp only [conclude, List.flatMap_append, hsettle, List.append_nil]
  unfold TurnPublishes
  rw [hevents]
  exact hpublishes

theorem Advances.publishes {run : JobRun} (hadvances : Advances setup place shared node run turn) :
    TurnPublishes place.stage .advance shared.ledger [] turn := by
  cases hadvances with
  | ended | canceled | skipped | refused => exact .rest []
  | @immediate step outcome =>
      exact turnPublishes_conclude .advance run _ _ _ outcome _ (.rest [])
  | calling hdeclared hlive hcalls =>
      have hpublishes := hcalls.publishes JobMove.advance.reply? JobMove.advance.breaksOff
      unfold TurnPublishes
      simpa [Phase.gather, publishing, JobEvent.published] using hpublishes

theorem publishes_takeOutcome (run : JobRun) (declared : Step) (ongoing : Ongoing)
    (invocation : Invocation) (number : Nat) (outcome : Outcome) (reply : Reply) (stage : String) :
    TurnPublishes stage (.answer reply) shared.ledger []
      (takeOutcome shared run declared ongoing invocation number outcome) := by
  unfold takeOutcome
  split
  · exact turnPublishes_conclude (.answer _) run declared _ _ outcome [] (.rest [])
  · exact .rest []

theorem Answers.publishes {run : JobRun} {declared : Step} {ongoing : Ongoing} {reply : Reply}
    (hanswers : Answers shared run declared ongoing reply turn) (stage : String) :
    TurnPublishes stage (.answer reply) shared.ledger (ongoing.call.publishing stage) turn := by
  cases hanswers with
  | @attempt invocation number _ outcome hcall =>
      rw [hcall]
      exact publishes_takeOutcome run declared ongoing invocation number outcome reply stage
  | @published artifact source hcall =>
      rw [hcall]
      exact turnPublishes_conclude _ run _ _ _ _ [.artifactPublished artifact] (.store rfl)
  | refused error hcall =>
      rw [hcall]
      exact turnPublishes_conclude _ run _ _ _ _ [] (.release rfl)
  | download result outcome hcall =>
      rw [hcall]
      exact turnPublishes_conclude _ run _ _ _ outcome [] (.rest [])

theorem publishes_of_moves
    (hmoves : work.Moves setup place environment shared node move turn) :
    TurnPublishes place.stage move shared.ledger (work.publishing place.stage) turn := by
  cases hmoves with
  | start dependencies =>
      generalize hstart : start setup environment shared node dependencies = turn
      cases starts_of_start hstart <;> exact .rest []
  | takeAgent context =>
      generalize htake : takeAgent environment shared node context = turn
      cases takesAgent_of_takeAgent htake <;> exact .rest []
  | withdraw => exact .rest []
  | advance run hidle =>
      have hown : (running run).publishing place.stage = [] := by
        rw [publishing, hidle]
        rfl
      rw [hown]
      exact (advances_of_advance rfl).publishes
  | @answer run ongoing declared reply turn hongoing hdeclared hanswer =>
      have hown : (running run).publishing place.stage = ongoing.call.publishing place.stage := by
        rw [publishing, hongoing]
        exact List.append_nil _
      rw [hown]
      exact (answers_of_answer hanswer).publishes place.stage
  | die =>
      have hledger : (die shared work).shared.ledger = shared.ledger := by
        unfold die
        dsimp only
        split <;> rfl
      unfold TurnPublishes
      rw [hledger]
      exact .abandon _ rfl

end JobWork

/-! ### Stages and runs -/

namespace StageWork

variable {setup : Setup} {environment : Environment} {shared : Shared} {node : StageNode}
  {work : StageWork} {move : StageMove} {turn : StageTurn}

/-- A stage that starts leaves the ledger alone and has nothing under way yet. -/
theorem Starts.publishing {dependencies : List StageResult}
    (hstarts : Starts setup environment shared node dependencies turn) :
    turn.shared.ledger = shared.ledger ∧ turn.phase.gather (·.publishing node.name) = [] ∧
      turn.events.flatMap (StageEvent.published node.name) = [] := by
  cases hstarts with
  | canceled | skipped | failed | refused => exact ⟨rfl, rfl, rfl⟩
  | running =>
      have hnone : (JobSchedule.ofNodes node.jobs).gather
          (fun _ (work : JobWork) => work.publishing node.name) = [] :=
        JobSchedule.gather_ofNodes (fun _ _ => rfl) node.jobs
      exact ⟨rfl, hnone, rfl⟩

/-- A move of a stage exchanges the publications it decides on for others, and leaves those of the
other jobs alone. -/
theorem publishes_of_moves (hmoves : work.Moves setup environment shared node move turn) :
    ∃ after,
      Publishes move.reply? move.breaksOff shared.ledger (work.atStake node.name move)
        turn.shared.ledger after (turn.events.flatMap (StageEvent.published node.name)) ∧
      (work.atStake node.name move ++ turn.phase.gather (·.publishing node.name)).Perm
        (after ++ work.publishing node.name) := by
  cases hmoves with
  | start dependencies =>
      generalize hstart : start setup environment shared node dependencies = turn
      obtain ⟨hledger, hphase, hevents⟩ := (starts_of_start hstart).publishing
      rw [hledger, hphase, hevents]
      exact ⟨[], .rest [], .refl _⟩
  | @job run index task work move turn htask hwork hmoves =>
      have hpublishes := JobWork.publishes_of_moves hmoves
      have hstake : (running run).atStake node.name (.job index move) =
          task.phase.gather (·.publishing node.name) := by
        rw [atStake, htask]
        rfl
      have hevents :
          (turn.events.map (StageEvent.job task.name ·)).flatMap (StageEvent.published node.name) =
            turn.events.flatMap (JobEvent.published node.name) := by
        rw [List.flatMap_map]
        rfl
      refine ⟨turn.phase.gather (·.publishing node.name), ?_, ?_⟩
      · rw [hstake, hevents, hwork]
        exact hpublishes
      · rw [hstake]
        exact Schedule.perm_gather_setPhase (fun _ work => work.publishing node.name) turn.phase
          htask
  | @notice run index jobs result hnotice =>
      have hcalm := Schedule.perm_gather_notice?
        (fun _ (work : JobWork) => work.publishing node.name) (fun _ _ => rfl) hnotice
      exact ⟨[], .rest [], hcalm⟩
  | finish run hsettled =>
      refine ⟨[], .rest [], ?_⟩
      rw [publishing, Schedule.gather_of_settled hsettled]
      exact .refl _
  | die work =>
      refine ⟨[], ?_, ?_⟩
      · exact .abandon _ rfl
      · have hstake : work.atStake node.name .die = work.publishing node.name := by
          cases work <;> rfl
        rw [hstake]
        exact (List.append_nil _).symm ▸ .refl _

end StageWork

/-- The task of a stage has the name of its node. -/
theorem RunState.Sound.name_of_mem {setup : Setup} {state : RunState} (hsound : state.Sound setup)
    {task : Task StageNode StageWork StageResult} (htask : task ∈ state.stages.tasks) :
    task.name = task.node.name := by
  have hplanned := Schedule.mem_plan_of_mem htask
  rw [hsound.plan] at hplanned
  obtain ⟨node, -, hnode⟩ := List.mem_map.mp hplanned
  have hname : node.name = task.name := congrArg Task.name hnode
  have hsame : node = task.node := congrArg Task.node hnode
  rw [← hname, hsame]

/-- A move of a run exchanges the publications it decides on for others, and the log grows by those
that have come to a good end. -/
theorem RunState.publishes_of_moves {setup : Setup} {state next : RunState} {move : Move}
    (hsound : state.Sound setup) (hmoves : Moves setup state move next) :
    ∃ after told,
      Publishes move.reply? move.breaksOff state.shared.ledger (state.atStake move)
        next.shared.ledger after told ∧
      (state.atStake move ++ next.publishing).Perm (after ++ state.publishing) ∧
      next.published = state.published ++ told := by
  cases hmoves with
  | cancel => exact ⟨[], [], .rest [], .refl _, (List.append_nil _).symm⟩
  | @stage index task work move turn htask hwork hmoves =>
      obtain ⟨after, hpublishes, hperm⟩ := StageWork.publishes_of_moves hmoves
      have hname := hsound.name_of_mem (List.mem_of_getElem? htask)
      have hstake : state.atStake (.stage index move) = work.atStake task.node.name move := by
        rw [atStake, htask, Option.map_some, hwork]
        rfl
      have hevents : (turn.events.map (Event.stage task.name ·)).flatMap Event.published =
          turn.events.flatMap (StageEvent.published task.node.name) := by
        rw [List.flatMap_map, hname]
        rfl
      have hexchange := Schedule.perm_gather_setPhase
        (fun (node : StageNode) (work : StageWork) => work.publishing node.name) turn.phase htask
      rw [hwork] at hexchange
      refine ⟨after, turn.events.flatMap (StageEvent.published task.node.name), ?_, ?_, ?_⟩
      · rw [hstake]
        exact hpublishes
      · -- What the stage gains and loses, the run gains and loses.
        rw [hstake]
        refine List.perm_iff_count.mpr fun publication => ?_
        have hstage := List.perm_iff_count.mp hperm publication
        have hrun := List.perm_iff_count.mp hexchange publication
        simp only [List.count_append] at hstage hrun ⊢
        change _ = List.count publication after +
          List.count publication (state.stages.gather fun node work => work.publishing node.name)
        change _ + List.count publication ((state.stages.setPhase index turn.phase).gather
          fun node work => work.publishing node.name) = _
        simp only [Phase.gather] at hstage hrun
        omega
      · rw [published, List.flatMap_append, hevents]
        rfl
  | notice hnotice =>
      have hcalm := Schedule.perm_gather_notice?
        (fun (node : StageNode) (work : StageWork) => work.publishing node.name) (fun _ _ => rfl)
        hnotice
      exact ⟨[], [], .rest [], hcalm, (List.append_nil _).symm⟩

/-! ## The account of a run -/

/-- A reservation is a new entry. -/
theorem Ledger.reserve_cases {ledger after : Ledger} {artifact stage : String}
    (hreserve : ledger.reserve artifact stage = .ok after) :
    Table.get? artifact ledger = none ∧ after = Table.insert artifact stage ledger := by
  unfold reserve at hreserve
  split at hreserve
  · cases hreserve
  · split at hreserve
    · cases hreserve
    · next hfree =>
        cases hreserve
        exact ⟨by simpa using hfree, rfl⟩

/-- Only a refusal of the store frees a name. -/
theorem Publishes.of_released {reply : Option Reply} {breaksOff : Bool} {ledger after : Ledger}
    {own others told : List Publication} {artifact stage : String}
    (hpublishes : Publishes reply breaksOff ledger own after others told)
    (hheld : ledger.publisher? artifact = some stage)
    (hfreed : after.publisher? artifact ≠ some stage) :
    ∃ holder, own = [(artifact, holder)] ∧ others = [] ∧
      ∃ error, reply = some (.stored (.error error)) := by
  cases hpublishes with
  | rest => exact absurd hheld hfreed
  | store => exact absurd hheld hfreed
  | abandon => exact absurd hheld hfreed
  | @reserve name holder after hreserve =>
      -- The reserved name was free before, so it is another one.
      obtain ⟨hnew, rfl⟩ := Ledger.reserve_cases hreserve
      have hother : name ≠ artifact := by
        rintro rfl
        rw [Ledger.publisher?, hnew] at hheld
        cases hheld
      rw [Ledger.publisher?, Table.get?_insert, if_neg hother] at hfreed
      exact absurd hheld hfreed
  | @release name holder error hreply =>
      rw [Ledger.publisher?, Ledger.release, Table.get?_erase] at hfreed
      by_cases hname : name = artifact
      · subst hname
        exact ⟨holder, rfl, rfl, error, hreply⟩
      · rw [if_neg hname] at hfreed
        exact absurd hheld hfreed

/-- A ledger with one entry for each publication under way, each that is published and each that is
lost, and no entry for anything else. -/
structure Ledger.Accounts (ledger : Ledger) (underWay published lost : List Publication) :
    Prop where
  keys : (Table.keys ledger).Nodup
  entries : ledger.Perm (underWay ++ published ++ lost)

namespace Ledger.Accounts

variable {ledger : Ledger} {underWay published lost : List Publication}

theorem publisher?_iff (haccounts : ledger.Accounts underWay published lost)
    {artifact stage : String} :
    ledger.publisher? artifact = some stage ↔
      ((artifact, stage) ∈ underWay ∨ (artifact, stage) ∈ published) ∨
        (artifact, stage) ∈ lost := by
  rw [publisher?, Table.get?_eq_some_iff haccounts.keys, haccounts.entries.mem_iff,
    List.mem_append, List.mem_append]

/-- A name stands once among all publications. -/
theorem nodup (haccounts : ledger.Accounts underWay published lost) :
    ((underWay ++ published).map Prod.fst).Nodup := by
  have hall := (haccounts.entries.map Prod.fst).nodup_iff.mp haccounts.keys
  rw [List.map_append] at hall
  exact hall.of_append_left

/-- Entries are put in and taken out so that the account stays balanced. -/
theorem perm_of_exchange {own others remaining : List Publication}
    (haccounts : ledger.Accounts underWay published lost)
    (told more added removed : List Publication)
    (hexchange : (own ++ remaining).Perm (others ++ underWay))
    (hbalance : (own ++ added).Perm (others ++ told ++ more ++ removed)) :
    (added ++ ledger).Perm (removed ++ (remaining ++ (published ++ told) ++ (more ++ lost))) := by
  refine List.perm_iff_count.mpr fun publication => ?_
  have hentries := List.perm_iff_count.mp haccounts.entries publication
  have hmove := List.perm_iff_count.mp hexchange publication
  have hsides := List.perm_iff_count.mp hbalance publication
  simp only [List.count_append] at hentries hmove hsides ⊢
  omega

/-- The account is kept by every move.  What a move abandons is lost. -/
theorem publishes {reply : Option Reply} {breaksOff : Bool} {after : Ledger}
    {own others told remaining : List Publication}
    (haccounts : ledger.Accounts underWay published lost)
    (hpublishes : Publishes reply breaksOff ledger own after others told)
    (hexchange : (own ++ remaining).Perm (others ++ underWay)) :
    ∃ more, after.Accounts remaining (published ++ told) (more ++ lost) ∧
      (more = [] ∨ breaksOff = true ∧ more = own) := by
  have hkeys := haccounts.keys
  cases hpublishes with
  | rest publications =>
      have hentries := haccounts.perm_of_exchange [] [] [] [] hexchange (by simp)
      exact ⟨[], ⟨hkeys, hentries⟩, Or.inl rfl⟩
  | @reserve artifact stage after hreserve =>
      obtain ⟨hnew, rfl⟩ := Ledger.reserve_cases hreserve
      have hinsert := Table.perm_insert stage hnew
      have hentries :=
        haccounts.perm_of_exchange [] [] [(artifact, stage)] [] hexchange (.refl _)
      refine ⟨[], ⟨?_, hinsert.trans hentries⟩, Or.inl rfl⟩
      refine (hinsert.map Prod.fst).nodup_iff.mpr ?_
      exact List.nodup_cons.mpr ⟨Table.get?_eq_none_iff.mp hnew, hkeys⟩
  | @store artifact stage hreply =>
      have hentries :=
        haccounts.perm_of_exchange [(artifact, stage)] [] [] [] hexchange (.refl _)
      exact ⟨[], ⟨hkeys, hentries⟩, Or.inl rfl⟩
  | @release artifact stage error hreply =>
      have hentries :=
        haccounts.perm_of_exchange [] [] [] [(artifact, stage)] hexchange (.refl _)
      refine ⟨[], ⟨?_, Table.perm_erase hkeys hentries⟩, Or.inl rfl⟩
      exact hkeys.sublist (List.filter_sublist.map Prod.fst)
  | abandon publications hbreaks =>
      have hentries := haccounts.perm_of_exchange [] own [] [] hexchange (by simp)
      exact ⟨own, ⟨hkeys, hentries⟩, Or.inr ⟨hbreaks, rfl⟩⟩

end Ledger.Accounts

namespace RunState

variable {setup : Setup} {state next : RunState} {move : Move} {lost : List Publication}

/-- The ledger of a run accounts for its publications. -/
def Accounts (state : RunState) (lost : List Publication) : Prop :=
  state.shared.ledger.Accounts state.publishing state.published lost

theorem accounts_start (setup : Setup) : (RunState.start setup).Accounts [] := by
  have hpublishing : (RunState.start setup).publishing = [] :=
    gather_start (fun _ _ => rfl) setup
  unfold Accounts
  rw [hpublishing]
  exact ⟨.nil, .nil⟩

theorem Accounts.moves (haccounts : state.Accounts lost) (hsound : state.Sound setup)
    (hmoves : Moves setup state move next) :
    ∃ more, next.Accounts (more ++ lost) ∧
      (more = [] ∨ move.breaksOff = true ∧ more = state.atStake move) := by
  obtain ⟨after, told, hpublishes, hexchange, hlog⟩ := publishes_of_moves hsound hmoves
  unfold Accounts
  rw [hlog]
  exact haccounts.publishes hpublishes hexchange

theorem exists_accounts_of_reachable (hreachable : Reachable setup state) :
    ∃ lost, state.Accounts lost := by
  induction hreachable with
  | start => exact ⟨[], accounts_start setup⟩
  | step move hstate hstep ih =>
      obtain ⟨lost, haccounts⟩ := ih
      obtain ⟨more, haccounts, -⟩ :=
        haccounts.moves (sound_of_reachable hstate) (moves_of_step? hstep)
      exact ⟨more ++ lost, haccounts⟩

/-- A move that does not break off a publication. -/
def SparesPublications (state : RunState) (move : Move) : Prop :=
  move.breaksOff = true → state.atStake move = []

/-- Nothing is lost as long as no publication is broken off. -/
theorem accounts_of_history {states : List RunState}
    (hhistory : History setup SparesPublications states) :
    ∀ state ∈ states, state.Accounts [] := by
  induction hhistory with
  | start => exact List.forall_mem_singleton.mpr (accounts_start setup)
  | @step state next earlier move hspares hstep hearlier ih =>
      refine List.forall_mem_cons.mpr ⟨?_, ih⟩
      have hsound := sound_of_reachable (hearlier.reachable state List.mem_cons_self)
      obtain ⟨more, haccounts, hmore⟩ :=
        (ih state List.mem_cons_self).moves hsound (moves_of_step? hstep)
      have hnone : more = [] := by
        rcases hmore with hnone | ⟨hbreaks, hstake⟩
        · exact hnone
        · rw [hstake]
          exact hspares hbreaks
      subst hnone
      exact haccounts

/-- A reservation ends with the answer of the store to the one publication that holds it. -/
theorem Accounts.atStake_of_released (haccounts : state.Accounts lost) (hsound : state.Sound setup)
    (hmoves : Moves setup state move next) {artifact stage : String}
    (hheld : state.shared.ledger.publisher? artifact = some stage)
    (hfreed : next.shared.ledger.publisher? artifact ≠ some stage) :
    (∃ error, move.reply? = some (.stored (.error error))) ∧
      state.atStake move = [(artifact, stage)] := by
  obtain ⟨after, told, hpublishes, hexchange, -⟩ := publishes_of_moves hsound hmoves
  obtain ⟨holder, hstake, hafter, herror⟩ := hpublishes.of_released hheld hfreed
  refine ⟨herror, ?_⟩
  -- The publication is under way, so the ledger has it, and a name has one entry.
  rw [hstake, hafter] at hexchange
  have hunderWay : (artifact, holder) ∈ state.publishing := by
    have hown : (artifact, holder) ∈ [(artifact, holder)] ++ next.publishing := List.mem_cons_self
    exact hexchange.mem_iff.mp hown
  have hholder := haccounts.publisher?_iff.mpr (Or.inl (Or.inl hunderWay))
  rw [hheld, Option.some.injEq] at hholder
  rw [hstake, hholder]

end RunState

/-- The names of artifacts in a run, whatever the graph, the answers and the order of the moves.

* A publication that waits for the store or that is published has its name reserved for its stage.
* A name stands once among those publications: no artifact is published twice.
* A reservation is only ever given back by the job that holds it, when the store refuses.
* As long as no publication is broken off, the reserved names are exactly those of the publications
  that wait for the store or are published. -/
theorem ledger_accounts_for_publications {setup : Setup} {state : RunState}
    (hreachable : RunState.Reachable setup state) :
    (∀ artifact stage,
      (artifact, stage) ∈ state.publishing ∨ (artifact, stage) ∈ state.published →
        state.shared.ledger.publisher? artifact = some stage) ∧
    ((state.publishing ++ state.published).map Prod.fst).Nodup ∧
    (∀ move next, state.step? setup move = some next → ∀ artifact stage,
      state.shared.ledger.publisher? artifact = some stage →
      next.shared.ledger.publisher? artifact ≠ some stage →
        (∃ error, move.reply? = some (.stored (.error error))) ∧
          state.atStake move = [(artifact, stage)]) ∧
    ∀ earlier, RunState.History setup RunState.SparesPublications (state :: earlier) →
      ∀ artifact stage, state.shared.ledger.publisher? artifact = some stage ↔
        (artifact, stage) ∈ state.publishing ∨ (artifact, stage) ∈ state.published := by
  have hsound := RunState.sound_of_reachable hreachable
  obtain ⟨lost, haccounts⟩ := RunState.exists_accounts_of_reachable hreachable
  refine ⟨?_, haccounts.nodup, ?_, ?_⟩
  · intro artifact stage hpublication
    exact haccounts.publisher?_iff.mpr (Or.inl hpublication)
  · intro move next hstep artifact stage hheld hfreed
    exact haccounts.atStake_of_released hsound (RunState.moves_of_step? hstep) hheld hfreed
  · intro earlier hhistory artifact stage
    have hexact := RunState.accounts_of_history hhistory state List.mem_cons_self
    rw [hexact.publisher?_iff]
    simp

/-! ## Two publishers of one name

The build and a mirror both want to publish the program, and neither waits for the other.  The
deployment waits for the build. -/

namespace Handover

def publish (name : String) : Job :=
  { job := some name, steps := [{ action := .publish "out" (some "app") }] }

def fetch : Job :=
  { job := some "fetch", steps := [{ action := .download "current" (some "app") none }] }

def graph : Graph where
  stages := [
    ⟨"build", { stage := some "build", jobs := [publish "pack"] }, [],
      [⟨"pack", publish "pack", []⟩]⟩,
    ⟨"mirror", { stage := some "mirror", jobs := [publish "copy"] }, [],
      [⟨"copy", publish "copy", []⟩]⟩,
    ⟨"deploy", { stage := some "deploy", jobs := [fetch] }, ["build"], [⟨"fetch", fetch, []⟩]⟩]
  vars := []

def setup : Setup :=
  { name := "handover", graph }

/-- Take the one job of a stage up to its call to the store. -/
def callMoves (stage : Nat) : List Move :=
  [.stage stage .start, .stage stage (.job 0 .start), .stage stage (.job 0 .takeAgent),
    .stage stage (.job 0 .advance)]

/-- The store answers the one job of a stage. -/
def answerMove (stage : Nat) (result : Except ArtifactError Unit) : Move :=
  .stage stage (.job 0 (.answer (.stored result)))

/-- Take the one job of a stage, and the stage, to its end. -/
def endMoves (stage : Nat) : List Move :=
  [.stage stage (.job 0 .advance), .stage stage (.notice 0), .stage stage .finish, .notice stage]

def refusal : Except ArtifactError Unit :=
  .error (.store "app" (.noSource "out"))

end Handover

/-- The mirror gives the name back after the store refused it, and then the build publishes. -/
theorem ledger_accounts_for_publications_handover :
    (∃ state next, RunState.Reachable Handover.setup state ∧
      state.publishing = [("app", "mirror")] ∧
      state.step? Handover.setup (Handover.answerMove 1 Handover.refusal) = some next ∧
      next.shared.ledger.publisher? "app" = none ∧
      state.atStake (Handover.answerMove 1 Handover.refusal) = [("app", "mirror")]) ∧
    ∃ state earlier,
      RunState.History Handover.setup RunState.SparesPublications (state :: earlier) ∧
      state.published = [("app", "build")] ∧ state.publishing = [] ∧
      ((state.publishing ++ state.published).map Prod.fst).Nodup ∧
      ∀ artifact stage, state.shared.ledger.publisher? artifact = some stage ↔
        (artifact, stage) ∈ state.publishing ∨ (artifact, stage) ∈ state.published := by
  constructor
  · let check (state : RunState) : Bool :=
      decide (state.publishing = [("app", "mirror")]) &&
        (state.step? Handover.setup (Handover.answerMove 1 Handover.refusal)).any fun next =>
          decide (next.shared.ledger.publisher? "app" = none)
    obtain ⟨state, hreachable, hcheck⟩ :=
      RunState.exists_reachable_of_replay Handover.setup check (Handover.callMoves 1)
        (by decide +kernel)
    obtain ⟨hpublishing, hanswer⟩ := Bool.and_eq_true_iff.mp hcheck
    obtain ⟨next, hnext, hfree⟩ := (Option.any_eq_true _ _).mp hanswer
    have hunderWay := of_decide_eq_true hpublishing
    have hfreed := of_decide_eq_true hfree
    obtain ⟨hheld, -, hreleases, -⟩ := ledger_accounts_for_publications hreachable
    have hmirror := hheld "app" "mirror" (Or.inl (by rw [hunderWay]; exact List.mem_cons_self))
    refine ⟨state, next, hreachable, hunderWay, hnext, hfreed, ?_⟩
    exact (hreleases _ next hnext "app" "mirror" hmirror (by simp [hfreed])).2
  · let check (state : RunState) : Bool :=
      decide (state.published = [("app", "build")] ∧ state.publishing = [])
    obtain ⟨state, earlier, hhistory, hcheck⟩ :=
      RunState.exists_history_of_replay Handover.setup (fun _ move => !move.breaksOff) check
        (Handover.callMoves 1 ++ [Handover.answerMove 1 Handover.refusal] ++
          Handover.callMoves 0 ++ [Handover.answerMove 0 (.ok ())])
        (by decide +kernel)
    obtain ⟨hpublished, hpublishing⟩ := of_decide_eq_true hcheck
    have hspares : RunState.History Handover.setup RunState.SparesPublications
        (state :: earlier) := by
      refine hhistory.mono fun before move hreturns hbreaks => ?_
      rw [hbreaks] at hreturns
      cases hreturns
    obtain ⟨-, honce, -, hexact⟩ :=
      ledger_accounts_for_publications (hspares.reachable state List.mem_cons_self)
    exact ⟨state, earlier, hspares, hpublished, hpublishing, honce, hexact earlier hspares⟩

end BuildPipeline
