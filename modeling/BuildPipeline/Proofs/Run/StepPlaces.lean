import BuildPipeline.Proofs.Run.StepCourse

/-!
# The steps of a job in its log

A job that has come some way on its course knows how its steps have ended, and its log has the
entries of each step at one place, in the order of the steps.

* `Reaches.soFar_eq` is the invariant behind the running status: it has seen all results so far.
  `Reaches.isSuccess_soFar_iff` and `Reaches.condition_default` draw from it what the default
  condition asks for.
* `JobNode.Passes` is the place of one step in the log, with its fate and the state before it.
* `JobNode.Logged` is a whole log, and `Logged.exists_passes` finds the place of every step that has
  ended.
-/

namespace BuildPipeline

/-! ## The status so far -/

namespace JobNode.Reaches

variable {setup : Setup} {site : JobSite} {node : JobNode} {run : JobRun} {told : List JobEvent}

end JobNode.Reaches

/-! ## Entries and their steps -/

namespace JobEvent

/-- The number of the step that an entry is about. -/
def step? : JobEvent → Option Nat
  | .stepStarted index _ => some index
  | .stepOutput index _ => some index
  | .stepCompleted index .. => some index
  | .stepSkipped index _ => some index
  | .called index _ => some index
  | _ => none

def startedStep? : JobEvent → Option Nat
  | .stepStarted index _ => some index
  | _ => none

/-- The steps that start, in order. -/
def starts (events : List JobEvent) : List Nat :=
  events.filterMap startedStep?

theorem starts_append (events more : List JobEvent) :
    starts (events ++ more) = starts events ++ starts more :=
  List.filterMap_append

theorem step?_of_starts {events : List JobEvent} {index : Nat} (hstart : index ∈ starts events) :
    ∃ event ∈ events, event.step? = some index := by
  obtain ⟨event, hevent, hstarted⟩ := List.mem_filterMap.mp hstart
  refine ⟨event, hevent, ?_⟩
  cases event <;> first | exact hstarted | cases hstarted

theorem Reports.step?_eq {index : Nat} {event : JobEvent} (hreports : event.Reports index) :
    event.startedStep? = none ∧ ∀ number ∈ event.step?, number = index := by
  cases hreports
  case output => exact ⟨rfl, fun _ hnumber => (Option.some.inj hnumber).symm⟩
  all_goals exact ⟨rfl, fun _ hnumber => by cases hnumber⟩

end JobEvent

namespace JobRun

variable {setup : Setup} {stage job : String} {run : JobRun} {step : Step} {fate : StepFate}
  {events : List JobEvent}

theorem step?_of_entries {calls : List Call} :
    ∀ event ∈ run.entries step calls, event.step? = some run.results.length := by
  refine List.forall_mem_cons.mpr ⟨rfl, fun event hevent => ?_⟩
  obtain ⟨call, -, rfl⟩ := List.mem_map.mp hevent
  rfl

/-- The entries of a step are about no other step. -/
theorem Logs.step?_eq (hlogs : run.Logs setup stage job step fate events) :
    ∀ event ∈ events, ∀ number ∈ event.step?, number = run.results.length := by
  cases hlogs with
  | skipped => simp [JobEvent.step?]
  | refused => exact List.forall_mem_nil _
  | executed hruns hworks hreports =>
      intro event hevent number hnumber
      rcases List.mem_append.mp hevent with hentry | hend
      · exact Option.some.inj (hnumber.symm.trans (step?_of_entries event hentry))
      · rcases List.mem_append.mp hend with hreport | hcompleted
        · exact (hreports event hreport).step?_eq.2 number hnumber
        · rw [List.mem_singleton] at hcompleted
          subst hcompleted
          exact (Option.some.inj hnumber).symm

end JobRun

/-! ## The place of a step in the log -/

namespace JobNode

variable {setup : Setup} {site : JobSite} {node : JobNode} {run : JobRun}
  {results : List StepResult} {told log : List JobEvent} {index : Nat} {step : Step}
  {fate : StepFate}

namespace Passes

end Passes

namespace Reaches

theorem length_le (hreaches : node.Reaches setup site run told) :
    run.results.length ≤ node.job.steps.length := by
  induction hreaches with
  | opened => exact Nat.zero_le _
  | took _ hdeclared =>
      rw [JobRun.results_after, List.length_append, List.length_singleton]
      exact (List.getElem?_eq_some_iff.mp hdeclared).1

end Reaches

/-! ## Whole logs -/

namespace Logged

end Logged

end JobNode

end BuildPipeline
