import BuildPipeline.Proofs.Run.Moves

/-!
# Listings

In which order the variables of a step are listed for its process is not laid down, so it is open
which of several variables with one name for processes is kept.

* `Listing.process_eq_of_isUnambiguous`: the order does not matter for variables whose names do not
  collide.
* `Listing.Alike` says that it does not matter for a step, and `RunState.ListsAlike` that it does
  not matter for some jobs in a state.
* `RunState.History.override`: a run in which another listing would not have mattered for these jobs
  is also one with that listing for them.
-/

namespace BuildPipeline

/-! ## Entries in another order -/

namespace Table

variable {α : Type}

theorem insert_comm {key other : String} (hne : key ≠ other) (value otherValue : α)
    (table : Table α) :
    (table.insert key value).insert other otherValue =
      (table.insert other otherValue).insert key value := by
  -- of the two keys the smaller one goes first, or takes the place of an equal one
  induction table with
  | nil => grind [insert]
  | cons entry rest ih => grind [insert]

/-- Entries make the same table in any order, if the ones with one key have one value. -/
theorem ofList_eq_of_perm {first second : List (String × α)} (hperm : first.Perm second)
    (hvalues : ∀ x ∈ first, ∀ y ∈ first, x.1 = y.1 → x.2 = y.2) : ofList first = ofList second := by
  refine hperm.foldl_eq' (fun x hx y hy table => ?_) []
  by_cases hkey : x.1 = y.1
  · rw [hkey, hvalues x hx y hy hkey]
  · exact insert_comm hkey x.2 y.2 table

end Table

/-- Whether variables with one name for processes have one value. -/
def Environment.IsUnambiguous (environment : Environment) : Prop :=
  ∀ first ∈ environment.flatten, ∀ second ∈ environment.flatten,
    processName first.1 = processName second.1 → first.2 = second.2

namespace Listing

/-- The order does not matter for variables whose names do not collide. -/
theorem process_eq_of_isUnambiguous {environment : Environment}
    (hunambiguous : environment.IsUnambiguous) (first second : Listing) (stage job : String)
    (index : Nat) :
    first.process stage job index environment = second.process stage job index environment := by
  have hfirst := first.perm stage job index environment.flatten
  have hsecond := second.perm stage job index environment.flatten
  refine Table.ofList_eq_of_perm ((hfirst.trans hsecond.symm).map _) fun x hx y hy hname => ?_
  obtain ⟨left, hleft, rfl⟩ := List.mem_map.mp hx
  obtain ⟨right, hright, rfl⟩ := List.mem_map.mp hy
  exact hunambiguous left (hfirst.mem_iff.mp hleft) right (hfirst.mem_iff.mp hright) hname

theorem process_eq_of_list {first second : Listing} {stage job : String}
    (hlist : first.list stage job = second.list stage job) (index : Nat)
    (environment : Environment) :
    first.process stage job index environment = second.process stage job index environment := by
  rw [process, process, hlist]

/-- It does not matter for a step which of two listings is used: no names collide, or the same
variables are kept. -/
def Alike (first second : Listing) (stage job : String) (index : Nat)
    (environment : Environment) : Prop :=
  environment.IsUnambiguous ∨
    first.process stage job index environment = second.process stage job index environment

theorem Alike.process_eq {first second : Listing} {stage job : String} {index : Nat}
    {environment : Environment} (halike : first.Alike second stage job index environment) :
    first.process stage job index environment = second.process stage job index environment :=
  halike.elim (process_eq_of_isUnambiguous · first second stage job index) id

open Classical in
/-- A listing with another one for some jobs. -/
noncomputable def override (relevant : String → String → Prop) (listing other : Listing) :
    Listing where
  list stage job := if relevant stage job then other.list stage job else listing.list stage job
  perm stage job index table := by
    split
    · exact other.perm stage job index table
    · exact listing.perm stage job index table

theorem list_override {relevant : String → String → Prop} {stage job : String}
    (hrelevant : relevant stage job) (listing other : Listing) :
    (listing.override relevant other).list stage job = other.list stage job :=
  if_pos hrelevant

/-- A step for which another listing would not have mattered can have it. -/
theorem process_override {relevant : String → String → Prop} {listing other : Listing}
    {stage job : String} {index : Nat} {environment : Environment}
    (halike : relevant stage job → listing.Alike other stage job index environment) :
    listing.process stage job index environment =
      (listing.override relevant other).process stage job index environment := by
  by_cases hrelevant : relevant stage job
  · rw [(halike hrelevant).process_eq]
    exact process_eq_of_list (list_override hrelevant listing other).symm index environment
  · exact process_eq_of_list (if_neg hrelevant).symm index environment

end Listing

/-! ## Moves under another listing -/

variable {setup : Setup} {listing : Listing}

theorem Action.call_listing (action : Action) (place : Place) (ledger : Ledger)
    (invocation : Invocation) :
    action.call { setup with listing } place ledger invocation =
      action.call setup place ledger invocation := by
  cases action <;> rfl

theorem Step.begin_listing {place : Place} {index : Nat} {environment : Environment}
    (hprocess : setup.listing.process place.stage place.job index environment =
      listing.process place.stage place.job index environment)
    (step : Step) (ledger : Ledger) (context : Expression.Context) :
    step.begin { setup with listing } place ledger environment context index =
      step.begin setup place ledger environment context index := by
  have hinvocation : ∀ started : Step,
      started.invocation { setup with listing } place environment index =
        started.invocation setup place environment index := fun started => by
    simp only [Step.invocation, hprocess]
  simp only [Step.begin, Action.call_listing, hinvocation]

theorem Step.limit?_listing (step : Step) :
    step.limit? { setup with listing } = step.limit? setup :=
  rfl

namespace JobWork

variable {place : Place} {environment : Environment} {shared : Shared} {node : JobNode}

theorem answer_listing (run : JobRun) (declared : Step) (ongoing : Ongoing) (reply : Reply) :
    answer { setup with listing } shared run declared ongoing reply =
      answer setup shared run declared ongoing reply := by
  cases reply <;> simp only [answer, Step.limit?_listing]

theorem advance_listing {run : JobRun}
    (hprocess : setup.listing.process place.stage place.job run.results.length run.environment =
      listing.process place.stage place.job run.results.length run.environment) :
    advance { setup with listing } place shared node run =
      advance setup place shared node run := by
  simp only [advance, Step.begin_listing hprocess]

theorem step?_listing {work : JobWork} (move : JobMove)
    (hprocess : ∀ run, work = .running run →
      setup.listing.process place.stage place.job run.results.length run.environment =
        listing.process place.stage place.job run.results.length run.environment) :
    work.step? { setup with listing } place environment shared node move =
      work.step? setup place environment shared node move := by
  cases work with
  | running run =>
      cases move with
      | advance => simp only [step?, advance_listing (hprocess run rfl)]
      | answer reply => simp only [step?, answer_listing]
      | _ => rfl
  | _ => cases move <;> rfl

end JobWork

/-- Whether it does not matter in a state which of two listings is used for the next step of some
jobs. -/
def RunState.ListsAlike (relevant : String → String → Prop) (first second : Listing)
    (state : RunState) : Prop :=
  ∀ stage ∈ state.stages.tasks, ∀ stageRun : StageRun, stage.phase = .active (.running stageRun) →
    ∀ job ∈ stageRun.jobs.tasks, ∀ run : JobRun, job.phase = .active (.running run) →
      relevant stage.node.name job.name →
        first.Alike second stage.node.name job.name run.results.length run.environment

theorem StageWork.step?_listing {environment : Environment} {shared : Shared} {node : StageNode}
    {work : StageWork} (move : StageMove)
    (hprocess : ∀ run, work = .running run → ∀ job ∈ run.jobs.tasks, ∀ jobRun : JobRun,
      job.phase = .active (.running jobRun) →
        setup.listing.process node.name job.name jobRun.results.length jobRun.environment =
          listing.process node.name job.name jobRun.results.length jobRun.environment) :
    work.step? { setup with listing } environment shared node move =
      work.step? setup environment shared node move := by
  cases work with
  | released dependencies => cases move <;> rfl
  | running run =>
      cases move with
      | job index move =>
          simp only [step?, moveJob]
          cases htask : run.jobs.tasks[index]? with
          | none => simp only [Option.bind_eq_bind, Option.bind_none]
          | some task =>
              have hjob := hprocess run rfl task (List.mem_of_getElem? htask)
              cases hphase : task.phase with
              | active work =>
                  simp only [Option.bind_eq_bind, Option.bind_some, hphase]
                  rw [JobWork.step?_listing move fun jobRun hwork => hjob jobRun (hwork ▸ hphase)]
              | _ => simp [hphase]
      | _ => rfl

namespace RunState

variable {relevant : String → String → Prop} {other : Listing}

theorem step?_override {state : RunState} (move : Move)
    (halike : state.ListsAlike relevant setup.listing other) :
    state.step? { setup with listing := setup.listing.override relevant other } move =
      state.step? setup move := by
  cases move with
  | stage index move =>
      simp only [step?, moveStage]
      cases htask : state.stages.tasks[index]? with
      | none => simp only [Option.bind_eq_bind, Option.bind_none]
      | some task =>
          have hstage := halike task (List.mem_of_getElem? htask)
          cases hphase : task.phase with
          | active work =>
              simp only [Option.bind_eq_bind, Option.bind_some, hphase]
              rw [StageWork.step?_listing move fun run hwork job hjob jobRun hjobPhase =>
                Listing.process_override (hstage run (hwork ▸ hphase) job hjob jobRun hjobPhase)]
          | _ => simp [hphase]
  | _ => rfl

/-- A run in which another listing would not have mattered for some jobs can have it for them. -/
theorem History.override {allowed : RunState → Move → Prop} {states : List RunState}
    (hhistory : History setup allowed states)
    (halike : ∀ state ∈ states, state.ListsAlike relevant setup.listing other) :
    History { setup with listing := setup.listing.override relevant other } allowed states := by
  induction hhistory with
  | start => exact .start
  | step move hallowed hstep _ ih =>
      obtain ⟨-, hearlier⟩ := List.forall_mem_cons.mp halike
      refine .step move hallowed ?_ (ih hearlier)
      rw [step?_override move (hearlier _ List.mem_cons_self)]
      exact hstep

end RunState

end BuildPipeline
