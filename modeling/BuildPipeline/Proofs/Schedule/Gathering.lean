import BuildPipeline.Proofs.Schedule.Results

/-!
# What the nodes at work have in sum

A schedule is asked here for a list that is read off every node at work: the agents it holds, the
calls it waits for.  A change of phase exchanges the part of one node for another
(`perm_gather_setPhase`), and a notice leaves the sum as it is, if nodes begin with nothing
(`perm_gather_notice?`).

The sum counts every node, also those that share a name.  Its order is that of the tasks, which is
why changes of phase are described up to the order.
-/

namespace BuildPipeline

variable {ν α ρ β : Type}

/-- What is read off the work of a node; nothing if the node is not at work. -/
def Phase.gather (view : α → List β) : Phase α ρ → List β
  | .active work => view work
  | _ => []

@[simp] theorem Phase.gather_active (view : α → List β) (work : α) :
    (Phase.active work : Phase α ρ).gather view = view work := rfl

@[simp] theorem Phase.gather_ended (view : α → List β) (result : Option ρ) :
    (Phase.ended result).gather view = [] := by
  cases result <;> rfl

theorem Phase.gather_of_settled {view : α → List β} {phase : Phase α ρ}
    (hsettled : phase.isSettled = true) : phase.gather view = [] := by
  cases phase with
  | active work => cases hsettled
  | _ => rfl

theorem List.perm_flatMap_modify {items : List α} {index : Nat} {item : α} (f : α → α)
    (view : α → List β) (hitem : items[index]? = some item) :
    (view item ++ (items.modify index f).flatMap view).Perm
      (view (f item) ++ items.flatMap view) := by
  induction items generalizing index with
  | nil => cases hitem
  | cons head rest ih =>
      cases index with
      | zero =>
          obtain rfl : head = item := Option.some.inj hitem
          simp only [List.modify_zero_cons, List.flatMap_cons]
          exact List.perm_append_comm_assoc _ _ _
      | succ index =>
          have htail : rest[index]? = some item := hitem
          have hrest := ih htail
          simp only [List.modify_succ_cons, List.flatMap_cons]
          -- Both sides hold the part of the head in second place, so it is brought to the front.
          refine (List.perm_append_comm_assoc _ _ _).trans ?_
          refine (hrest.append_left (view head)).trans ?_
          exact List.perm_append_comm_assoc _ _ _

namespace Schedule

variable {begin : List ρ → α} {index : Nat} {schedule next : Schedule ν α ρ}
  {view : ν → α → List β}

/-- What is read off all nodes at work, in the order of the tasks. -/
def gather (view : ν → α → List β) (schedule : Schedule ν α ρ) : List β :=
  schedule.tasks.flatMap fun task => task.phase.gather (view task.node)

theorem mem_gather {item : β} :
    item ∈ schedule.gather view ↔
      ∃ task ∈ schedule.tasks, ∃ work, task.phase = .active work ∧ item ∈ view task.node work := by
  rw [gather, List.mem_flatMap]
  refine exists_congr fun task => and_congr_right fun _ => ?_
  cases task.phase <;> simp [Phase.gather]

/-- A change of phase exchanges the part of one node. -/
theorem perm_gather_setPhase {task : Task ν α ρ} (view : ν → α → List β) (phase : Phase α ρ)
    (htask : schedule.tasks[index]? = some task) :
    (task.phase.gather (view task.node) ++ (schedule.setPhase index phase).gather view).Perm
      (phase.gather (view task.node) ++ schedule.gather view) :=
  List.perm_flatMap_modify _ (fun task : Task ν α ρ => task.phase.gather (view task.node)) htask

/-- Released nodes bring nothing, if they begin with nothing. -/
theorem gather_release (hbegin : ∀ node results, view node (begin results) = [])
    (schedule : Schedule ν α ρ) : (schedule.release begin).gather view = schedule.gather view := by
  have htask : ∀ task : Task ν α ρ,
      (releaseTask begin schedule.finished task).phase.gather
          (view (releaseTask begin schedule.finished task).node) =
        task.phase.gather (view task.node) := by
    intro task
    unfold releaseTask
    split
    · next hrelease =>
        rw [Bool.and_eq_true] at hrelease
        cases hphase : task.phase with
        | waiting => exact hbegin task.node _
        | _ => simp [hphase, Phase.isWaiting] at hrelease
    · rfl
  rw [gather, release, List.flatMap_map]
  simp only [htask]
  rfl

/-- A notice changes nothing: the noticed node was not at work any more. -/
theorem perm_gather_notice? {result : Option ρ} (view : ν → α → List β)
    (hbegin : ∀ node results, view node (begin results) = [])
    (hnotice : schedule.notice? begin index = some (next, result)) :
    (next.gather view).Perm (schedule.gather view) := by
  obtain ⟨task, htask, hphase, rfl⟩ := notice?_cases hnotice
  have hclosed : (schedule.closed index task.name result).gather view =
      (schedule.setPhase index .closed).gather view := rfl
  rw [gather_release hbegin, hclosed]
  have hperm := perm_gather_setPhase view .closed htask
  rw [hphase, Phase.gather_ended] at hperm
  exact hperm

theorem gather_of_settled (hsettled : schedule.isSettled = true) : schedule.gather view = [] := by
  refine List.flatMap_eq_nil_iff.mpr fun task htask => ?_
  exact Phase.gather_of_settled (List.all_eq_true.mp hsettled task htask)

theorem gather_of_waiting {tasks : List (Task ν α ρ)} {finished : Table ρ}
    (hwaiting : ∀ task ∈ tasks, task.phase = .waiting) :
    (⟨tasks, finished⟩ : Schedule ν α ρ).gather view = [] := by
  refine List.flatMap_eq_nil_iff.mpr fun task htask => ?_
  rw [hwaiting task htask]
  rfl

end Schedule
end BuildPipeline
