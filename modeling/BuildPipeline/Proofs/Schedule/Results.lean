import BuildPipeline.Run.Schedule
import Mathlib.Data.List.Forall2
import Mathlib.Data.List.Nodup

/-!
# Results that a schedule gives out

A schedule changes in two ways: the phase of a node that is at work moves on, and a node that has
ended is noticed.  Neither touches the names, the dependencies or the nodes, which are collected in
`Schedule.plan`.

* `notice?_cases` says once what noticing does.
* `Keeps ok` is a property of phases that every node has and that every noticed result had when it
  was returned.  It survives both kinds of change (`Keeps.setPhase`, `Keeps.notice`) and needs no
  assumption on the names, since a result is only said to come from *some* node of its name.
* `forall₂_collect` reads the property off the results that are given out in the end: one for each
  node, in the order of the plan.  With distinct names `collect_eq_map` says exactly which.

What is known of the results of the dependencies is not covered here.
-/

namespace BuildPipeline

/-! ## Lists that mirror each other -/

/-- Every result of a list that mirrors another stands for one of its members. -/
theorem exists_node_of_mem {α β : Type} {related : α → β → Prop} {nodes : List α}
    {results : List β} (hrelated : List.Forall₂ related nodes results) {result : β}
    (hresult : result ∈ results) : ∃ node ∈ nodes, related node result := by
  induction hrelated with
  | nil => cases hresult
  | @cons node head _ _ hhead _ ih =>
      rcases List.mem_cons.mp hresult with rfl | hrest
      · exact ⟨node, List.mem_cons_self, hhead⟩
      · obtain ⟨other, hother, hfound⟩ := ih hrest
        exact ⟨other, List.mem_cons_of_mem node hother, hfound⟩

/-- The result at the place of a node stands for it. -/
theorem exists_getElem?_of_forall₂ {α β : Type} {related : α → β → Prop} {nodes : List α}
    {results : List β} (hrelated : List.Forall₂ related nodes results) {index : Nat} {node : α}
    (hnode : nodes[index]? = some node) :
    ∃ result, results[index]? = some result ∧ related node result := by
  induction hrelated generalizing index with
  | nil => cases hnode
  | @cons head result _ _ hhead _ ih =>
      cases index with
      | zero =>
          obtain rfl : head = node := Option.some.inj hnode
          exact ⟨result, rfl, hhead⟩
      | succ index => exact ih hnode

/-! ## Tables -/

namespace Table

variable {α : Type}

theorem get?_erase (key other : String) (table : Table α) :
    (table.erase key).get? other = if key = other then none else table.get? other := by
  induction table with
  | nil => simp [erase, get?]
  | cons entry rest ih =>
      obtain ⟨k, value⟩ := entry
      rw [erase] at ih ⊢
      by_cases hkey : k = key
      · subst hkey
        rw [List.filter_cons_of_neg (by simp), ih]
        by_cases hother : k = other <;> simp [get?, hother]
      · rw [List.filter_cons_of_pos (by simpa using hkey)]
        by_cases hother : k = other
        · subst hother
          simp [get?, Ne.symm hkey]
        · simp only [get?, hother, if_false, ih]

theorem contains_eq_true_iff {key : String} {table : Table α} :
    table.contains key = true ↔ ∃ value, table.get? key = some value := by
  rw [contains, Option.isSome_iff_exists]

theorem get?_foldl_insert {entries : List (String × α)} {table : Table α} {key : String}
    {value : α}
    (hfound : (entries.foldl (fun table entry => table.insert entry.1 entry.2) table).get? key =
      some value) :
    (key, value) ∈ entries ∨ table.get? key = some value := by
  induction entries generalizing table with
  | nil => exact Or.inr hfound
  | cons entry rest ih =>
      rcases ih hfound with hrest | hinserted
      · exact Or.inl (List.mem_cons_of_mem entry hrest)
      · rw [get?_insert] at hinserted
        split at hinserted
        · next hkey =>
            rw [Option.some.injEq] at hinserted
            exact Or.inl (List.mem_cons.mpr (Or.inl (by rw [← hkey, ← hinserted])))
        · exact Or.inr hinserted

/-- What is found in a table was among the entries it was made of. -/
theorem mem_of_get?_ofList {entries : List (String × α)} {key : String} {value : α}
    (hfound : (ofList entries).get? key = some value) : (key, value) ∈ entries := by
  rcases get?_foldl_insert hfound with hmem | hempty
  · exact hmem
  · cases hempty

theorem exists_get?_foldl_insert {entries : List (String × α)} {table : Table α} {key : String}
    (hkey : (∃ value, table.get? key = some value) ∨ key ∈ entries.map Prod.fst) :
    ∃ value, (entries.foldl (fun table entry => table.insert entry.1 entry.2) table).get? key =
      some value := by
  induction entries generalizing table with
  | nil => exact hkey.resolve_right List.not_mem_nil
  | cons entry rest ih =>
      refine ih ?_
      rw [get?_insert]
      by_cases hsame : entry.1 = key
      · exact Or.inl ⟨entry.2, if_pos hsame⟩
      · rw [if_neg hsame]
        exact hkey.imp_right fun hmem => (List.mem_cons.mp hmem).resolve_left (Ne.symm hsame)

/-- Every entry that a table was made of left something under its key. -/
theorem exists_get?_ofList {entries : List (String × α)} {key : String}
    (hkey : key ∈ entries.map Prod.fst) : ∃ value, (ofList entries).get? key = some value :=
  exists_get?_foldl_insert (Or.inr hkey)

end Table

/-! ## Tasks and plans -/

namespace Phase

/-- The phase of a node that has ended, with or without a result. -/
def ended {α ρ : Type} : Option ρ → Phase α ρ
  | some result => returned result
  | none => died

theorem isSettled_of_active {α ρ : Type} {phase : Phase α ρ} {work : α}
    (hphase : phase = .active work) : phase.isSettled = false := by
  rw [hphase]
  rfl

theorem ended_injective {α ρ : Type} {first second : Option ρ}
    (hended : (ended first : Phase α ρ) = ended second) : first = second := by
  cases first <;> cases second <;> simp_all [ended]

end Phase

namespace Task

variable {ν α ρ : Type}

/-- The task as it was before its node was released. -/
def reset (task : Task ν α ρ) : Task ν α ρ :=
  { task with phase := .waiting }

@[simp] theorem reset_name (task : Task ν α ρ) : task.reset.name = task.name := rfl

@[simp] theorem reset_node (task : Task ν α ρ) : task.reset.node = task.node := rfl

end Task

namespace Schedule

variable {ν α ρ : Type} {begin : List ρ → α} {index : Nat} {schedule next : Schedule ν α ρ}

/-- The tasks of a schedule before anything was released. -/
def plan (schedule : Schedule ν α ρ) : List (Task ν α ρ) :=
  schedule.tasks.map Task.reset

theorem map_name_plan (schedule : Schedule ν α ρ) :
    schedule.plan.map (·.name) = schedule.tasks.map (·.name) := by
  simp [plan]

/-- A schedule in which everything waits is its own plan. -/
theorem plan_of_waiting {tasks : List (Task ν α ρ)} {finished : Table ρ}
    (hwaiting : ∀ task ∈ tasks, task.phase = .waiting) :
    (⟨tasks, finished⟩ : Schedule ν α ρ).plan = tasks := by
  have hreset : ∀ task ∈ tasks, task.reset = id task := by
    intro task htask
    rw [Task.reset, ← hwaiting task htask]
    rfl
  rw [plan, List.map_congr_left hreset, List.map_id]

theorem mem_plan_of_mem {task : Task ν α ρ} (htask : task ∈ schedule.tasks) :
    task.reset ∈ schedule.plan :=
  List.mem_map_of_mem htask

/-- What is planned at a place is the task there, before its node was released. -/
theorem exists_task_of_plan {planned : Task ν α ρ} (hplanned : schedule.plan[index]? = some planned) :
    ∃ task, schedule.tasks[index]? = some task ∧ task.reset = planned := by
  rw [plan, List.getElem?_map, Option.map_eq_some_iff] at hplanned
  exact hplanned

theorem getElem?_setPhase (schedule : Schedule ν α ρ) (index other : Nat) (phase : Phase α ρ) :
    (schedule.setPhase index phase).tasks[other]? =
      schedule.tasks[other]?.map fun task => if index = other then { task with phase } else task := by
  rw [setPhase, List.getElem?_modify]
  cases schedule.tasks[other]? <;> rfl

@[simp] theorem setPhase_finished (schedule : Schedule ν α ρ) (index : Nat) (phase : Phase α ρ) :
    (schedule.setPhase index phase).finished = schedule.finished := rfl

theorem plan_setPhase (schedule : Schedule ν α ρ) (index : Nat) (phase : Phase α ρ) :
    (schedule.setPhase index phase).plan = schedule.plan := by
  apply List.ext_getElem?
  intro other
  rw [plan, plan, List.getElem?_map, List.getElem?_map, getElem?_setPhase]
  cases schedule.tasks[other]? with
  | none => rfl
  | some task => by_cases hindex : index = other <;> simp [hindex, Task.reset]

/-- A task after a change of phase is an old one at another place, or the one whose phase was
changed. -/
theorem mem_setPhase {phase : Phase α ρ} {task : Task ν α ρ}
    (htask : task ∈ (schedule.setPhase index phase).tasks) :
    (∃ other, other ≠ index ∧ schedule.tasks[other]? = some task) ∨
      ∃ old, schedule.tasks[index]? = some old ∧ task = { old with phase } := by
  obtain ⟨other, hother⟩ := List.mem_iff_getElem?.mp htask
  rw [getElem?_setPhase, Option.map_eq_some_iff] at hother
  obtain ⟨old, hold, heq⟩ := hother
  by_cases hindex : index = other
  · subst hindex
    exact Or.inr ⟨old, hold, by simpa using heq.symm⟩
  · rw [if_neg hindex] at heq
    exact Or.inl ⟨other, Ne.symm hindex, heq ▸ hold⟩

@[simp] theorem release_finished (begin : List ρ → α) (schedule : Schedule ν α ρ) :
    (schedule.release begin).finished = schedule.finished := rfl

theorem reset_releaseTask (begin : List ρ → α) (finished : Table ρ) (task : Task ν α ρ) :
    (releaseTask begin finished task).reset = task.reset := by
  unfold releaseTask
  split <;> rfl

theorem plan_release (begin : List ρ → α) (schedule : Schedule ν α ρ) :
    (schedule.release begin).plan = schedule.plan := by
  simp only [plan, release, List.map_map]
  exact List.map_congr_left fun task _ => reset_releaseTask begin schedule.finished task

/-- The schedule after an ended node is noticed and before others are released. -/
def closed (schedule : Schedule ν α ρ) (index : Nat) (name : String) (result : Option ρ) :
    Schedule ν α ρ where
  tasks := (schedule.setPhase index .closed).tasks
  finished :=
    match result with
    | some result => schedule.finished.insert name result
    | none => schedule.finished

theorem plan_closed (schedule : Schedule ν α ρ) (index : Nat) (name : String)
    (result : Option ρ) : (schedule.closed index name result).plan = schedule.plan :=
  plan_setPhase schedule index .closed

/-- Only a node that has ended is noticed: it is closed, its result is kept, and then others are
released. -/
theorem notice?_cases {result : Option ρ}
    (hnotice : schedule.notice? begin index = some (next, result)) :
    ∃ task, schedule.tasks[index]? = some task ∧ task.phase = .ended result ∧
      next = (schedule.closed index task.name result).release begin := by
  unfold notice? at hnotice
  cases htask : schedule.tasks[index]? with
  | none => simp [htask] at hnotice
  | some task =>
      refine ⟨task, rfl, ?_⟩
      cases hphase : task.phase <;>
        simp only [htask, hphase, Option.bind_eq_bind, Option.bind_some, Option.pure_def,
          Option.some.injEq, Prod.mk.injEq, reduceCtorEq] at hnotice
      case returned value =>
        obtain ⟨rfl, rfl⟩ := hnotice
        exact ⟨rfl, rfl⟩
      case died =>
        obtain ⟨rfl, rfl⟩ := hnotice
        exact ⟨rfl, rfl⟩

theorem plan_notice? {result : Option ρ}
    (hnotice : schedule.notice? begin index = some (next, result)) :
    next.plan = schedule.plan := by
  obtain ⟨task, -, -, rfl⟩ := notice?_cases hnotice
  rw [plan_release, plan_closed]

/-- What releasing does to the tasks. -/
theorem mem_release {task : Task ν α ρ} (htask : task ∈ (schedule.release begin).tasks) :
    task ∈ schedule.tasks ∨ ∃ old ∈ schedule.tasks, ∃ results : List ρ,
      task = { old with phase := .active (begin results) } := by
  obtain ⟨old, hold, rfl⟩ := List.mem_map.mp htask
  unfold releaseTask
  split
  · exact Or.inr ⟨old, hold, _, rfl⟩
  · exact Or.inl hold

theorem getElem?_release (begin : List ρ → α) (schedule : Schedule ν α ρ) (place : Nat) :
    (schedule.release begin).tasks[place]? =
      schedule.tasks[place]?.map (releaseTask begin schedule.finished) := by
  rw [release, List.getElem?_map]

/-- What becomes of a task when a node is noticed: nothing, or it is closed, or it is released. -/
theorem getElem?_of_notice? {result : Option ρ} {place : Nat} {task : Task ν α ρ}
    (hnotice : schedule.notice? begin index = some (next, result))
    (htask : next.tasks[place]? = some task) :
    ∃ old, schedule.tasks[place]? = some old ∧
      (task = old ∨ (old.phase = .ended result ∧ task = { old with phase := .closed }) ∨
        (old.phase = .waiting ∧ ∃ results, task = { old with phase := .active (begin results) })) := by
  obtain ⟨noticed, hnoticed, hended, rfl⟩ := notice?_cases hnotice
  rw [getElem?_release, Option.map_eq_some_iff] at htask
  obtain ⟨middle, hmiddle, rfl⟩ := htask
  change (schedule.setPhase index .closed).tasks[place]? = some middle at hmiddle
  rw [getElem?_setPhase, Option.map_eq_some_iff] at hmiddle
  obtain ⟨old, hold, rfl⟩ := hmiddle
  refine ⟨old, hold, ?_⟩
  by_cases hplace : index = place
  · -- The noticed task is closed by now, so the release passes it over.
    subst hplace
    rw [hnoticed, Option.some.injEq] at hold
    subst hold
    refine Or.inr (Or.inl ⟨hended, ?_⟩)
    simp [releaseTask, Phase.isWaiting]
  · rw [if_neg hplace]
    unfold releaseTask
    split
    · next hrelease =>
        rw [Bool.and_eq_true] at hrelease
        refine Or.inr (Or.inr ⟨?_, _, rfl⟩)
        cases hphase : old.phase with
        | waiting => rfl
        | _ => simp [hphase, Phase.isWaiting] at hrelease
    · exact Or.inl rfl

/-! ## Properties of phases and results -/

/-- Every node has a phase that is fine for it, and every result that was noticed was fine for a
node of its name. -/
structure Keeps (ok : ν → Phase α ρ → Prop) (schedule : Schedule ν α ρ) : Prop where
  tasks : ∀ task ∈ schedule.tasks, ok task.node task.phase
  finished : ∀ name result, schedule.finished.get? name = some result →
    ∃ task ∈ schedule.plan, task.name = name ∧ ok task.node (.returned result)

namespace Keeps

variable {ok : ν → Phase α ρ → Prop}

theorem setPhase {task : Task ν α ρ} {phase : Phase α ρ} (hkeeps : schedule.Keeps ok)
    (htask : schedule.tasks[index]? = some task) (hphase : ok task.node phase) :
    (schedule.setPhase index phase).Keeps ok := by
  constructor
  · intro changed hchanged
    rcases mem_setPhase hchanged with ⟨other, -, hother⟩ | ⟨old, hold, rfl⟩
    · exact hkeeps.tasks changed (List.mem_of_getElem? hother)
    · rw [htask, Option.some.injEq] at hold
      subst hold
      exact hphase
  · rw [setPhase_finished, plan_setPhase]
    exact hkeeps.finished

theorem release (hkeeps : schedule.Keeps ok)
    (hbegin : ∀ node results, ok node (.active (begin results))) :
    (schedule.release begin).Keeps ok := by
  constructor
  · intro task htask
    rcases mem_release htask with htask | ⟨old, -, results, rfl⟩
    · exact hkeeps.tasks task htask
    · exact hbegin old.node results
  · rw [release_finished, plan_release]
    exact hkeeps.finished

theorem closed {task : Task ν α ρ} {result : Option ρ} (hkeeps : schedule.Keeps ok)
    (hclosed : ∀ node, ok node .closed) (htask : schedule.tasks[index]? = some task)
    (hphase : task.phase = .ended result) : (schedule.closed index task.name result).Keeps ok := by
  constructor
  · exact (hkeeps.setPhase htask (hclosed task.node)).tasks
  · rw [plan_closed]
    cases result with
    | none => exact hkeeps.finished
    | some value =>
        intro name found hfound
        simp only [Schedule.closed, Table.get?_insert] at hfound
        by_cases hname : task.name = name
        · rw [if_pos hname, Option.some.injEq] at hfound
          subst hfound
          have hmem := List.mem_of_getElem? htask
          have hok := hkeeps.tasks task hmem
          rw [hphase] at hok
          exact ⟨task.reset, mem_plan_of_mem hmem, hname, hok⟩
        · rw [if_neg hname] at hfound
          exact hkeeps.finished name found hfound

/-- Noticing keeps the property, if closed nodes and released ones have it. -/
theorem notice {result : Option ρ} (hkeeps : schedule.Keeps ok)
    (hclosed : ∀ node, ok node .closed) (hbegin : ∀ node results, ok node (.active (begin results)))
    (hnotice : schedule.notice? begin index = some (next, result)) : next.Keeps ok := by
  obtain ⟨task, htask, hphase, rfl⟩ := notice?_cases hnotice
  exact (hkeeps.closed hclosed htask hphase).release hbegin

end Keeps

/-- A schedule in which everything waits and nothing was noticed has every property of waiting
nodes. -/
theorem keeps_of_waiting {ok : ν → Phase α ρ → Prop} {tasks : List (Task ν α ρ)}
    (hwaiting : ∀ task ∈ tasks, ok task.node task.phase) :
    (⟨tasks, []⟩ : Schedule ν α ρ).Keeps ok :=
  ⟨hwaiting, fun _ _ hfound => absurd hfound (by simp [Table.get?])⟩

/-! ## Giving out the results -/

/-- How a result comes to stand at the place of a task. -/
inductive GivenOut (lost unreleased : ν → ρ) (schedule : Schedule ν α ρ) (task : Task ν α ρ) :
    ρ → Prop
  | noticed {result : ρ} (hresult : schedule.finished.get? task.name = some result) :
      GivenOut lost unreleased schedule task result
  | lost : GivenOut lost unreleased schedule task (lost task.node)
  | unreleased : GivenOut lost unreleased schedule task (unreleased task.node)

theorem forall₂_collectFrom (lost unreleased : ν → ρ) (schedule : Schedule ν α ρ)
    {finished : Table ρ} (tasks : List (Task ν α ρ))
    (hfinished : ∀ name result, finished.get? name = some result →
      schedule.finished.get? name = some result) :
    List.Forall₂ (GivenOut lost unreleased schedule) tasks
      (collectFrom lost unreleased schedule finished tasks) := by
  induction tasks generalizing finished with
  | nil => exact .nil
  | cons task rest ih =>
      unfold collectFrom
      cases hresult : finished.get? task.name with
      | some result =>
          refine .cons (.noticed (hfinished task.name result hresult)) (ih ?_)
          -- What is left in the table after a result is given out was noticed all the same.
          intro name found hfound
          rw [Table.get?_erase] at hfound
          split at hfound
          · cases hfound
          · exact hfinished name found hfound
      | none =>
          refine .cons ?_ (ih hfinished)
          split
          · exact .lost
          · exact .unreleased

/-- One result stands at the place of each task. -/
theorem forall₂_collect (lost unreleased : ν → ρ) (schedule : Schedule ν α ρ) :
    List.Forall₂ (GivenOut lost unreleased schedule) schedule.tasks
      (schedule.collect lost unreleased) :=
  forall₂_collectFrom lost unreleased schedule schedule.tasks fun _ _ hfound => hfound

/-- Every result that is given out is fine for a node with the name of its place. -/
theorem Keeps.forall₂_collect {ok : ν → Phase α ρ → Prop} {lost unreleased : ν → ρ}
    (hkeeps : schedule.Keeps ok) (hlost : ∀ node, ok node (.returned (lost node)))
    (hunreleased : ∀ node, ok node (.returned (unreleased node))) :
    List.Forall₂ (fun task result =>
        ∃ other ∈ schedule.plan, other.name = task.name ∧ ok other.node (.returned result))
      schedule.plan (schedule.collect lost unreleased) := by
  have hgiven := (List.forall₂_and_left _ _).mpr
    ⟨fun _ htask => htask, Schedule.forall₂_collect lost unreleased schedule⟩
  rw [plan, List.forall₂_map_left_iff]
  refine hgiven.imp fun task result hplace => ?_
  obtain ⟨htask, hplace⟩ := hplace
  have hmem := mem_plan_of_mem htask
  cases hplace with
  | noticed hfound => exact hkeeps.finished _ _ hfound
  | lost => exact ⟨task.reset, hmem, rfl, hlost task.node⟩
  | unreleased => exact ⟨task.reset, hmem, rfl, hunreleased task.node⟩

/-- The same for the nodes that the plan was made of. -/
theorem Keeps.forall₂_collect_nodes {ok : ν → Phase α ρ → Prop} {lost unreleased : ν → ρ}
    {plan : ν → Task ν α ρ} {nodes : List ν} (hkeeps : schedule.Keeps ok)
    (hplan : schedule.plan = nodes.map plan) (hnode : ∀ node, (plan node).node = node)
    (hlost : ∀ node, ok node (.returned (lost node)))
    (hunreleased : ∀ node, ok node (.returned (unreleased node))) :
    List.Forall₂ (fun node result =>
        ∃ other ∈ nodes, (plan other).name = (plan node).name ∧ ok other (.returned result))
      nodes (schedule.collect lost unreleased) := by
  have hcollect := hkeeps.forall₂_collect hlost hunreleased
  rw [hplan, List.forall₂_map_left_iff] at hcollect
  refine hcollect.imp fun node result hplace => ?_
  obtain ⟨task, htask, hname, hok⟩ := hplace
  obtain ⟨other, hother, rfl⟩ := List.mem_map.mp htask
  rw [hnode other] at hok
  exact ⟨other, hother, hname, hok⟩

/-- Results are given out by name.  Where names are distinct, only the node at the place of a result
has its name. -/
theorem forall₂_of_names {name : ν → String} {related : ν → ρ → Prop} {nodes : List ν}
    {results : List ρ} (hnames : (nodes.map name).Nodup)
    (hplaces : List.Forall₂ (fun node result =>
        ∃ other ∈ nodes, name other = name node ∧ related other result) nodes results) :
    List.Forall₂ (fun node result => node ∈ nodes ∧ related node result) nodes results := by
  have hmembers := (List.forall₂_and_left _ _).mpr ⟨fun _ hnode => hnode, hplaces⟩
  refine hmembers.imp fun node result hplace => ?_
  obtain ⟨hnode, other, hother, hname, hrelated⟩ := hplace
  rw [List.inj_on_of_nodup_map hnames hother hnode hname] at hrelated
  exact ⟨hnode, hrelated⟩

/-- With distinct names the results are given out by name, whatever was given out before. -/
theorem collectFrom_eq_map (lost unreleased : ν → ρ) (schedule : Schedule ν α ρ)
    {finished : Table ρ} {tasks : List (Task ν α ρ)} (hnames : (tasks.map (·.name)).Nodup) :
    collectFrom lost unreleased schedule finished tasks = tasks.map fun task =>
      (finished.get? task.name).getD
        (if schedule.wasReleased task.name then lost task.node else unreleased task.node) := by
  induction tasks generalizing finished with
  | nil => rfl
  | cons task rest ih =>
      rw [List.map_cons, List.nodup_cons] at hnames
      unfold collectFrom
      cases hresult : finished.get? task.name with
      | none => simp [hresult, ih hnames.2]
      | some result =>
          simp only [List.map_cons, hresult, Option.getD_some, ih hnames.2, List.cons.injEq,
            true_and]
          -- No later task has this name, so erasing it takes nothing from the rest.
          refine List.map_congr_left fun other hother => ?_
          have hne : task.name ≠ other.name := fun heq =>
            hnames.1 (heq ▸ List.mem_map_of_mem hother)
          rw [Table.get?_erase, if_neg hne]

/-- With distinct names a name was released exactly if its only task does not wait. -/
theorem wasReleased_eq {task : Task ν α ρ} (hnames : (schedule.tasks.map (·.name)).Nodup)
    (htask : task ∈ schedule.tasks) :
    schedule.wasReleased task.name = !task.phase.isWaiting := by
  rw [wasReleased, Bool.eq_iff_iff, List.any_eq_true]
  constructor
  · rintro ⟨other, hother, hreleased⟩
    rw [Bool.and_eq_true, beq_iff_eq] at hreleased
    rw [← List.inj_on_of_nodup_map hnames hother htask hreleased.1]
    exact hreleased.2
  · exact fun hreleased => ⟨task, htask, by simpa using hreleased⟩

/-- With distinct names every task gets the result noticed under its name, or the substitute that
its own phase asks for. -/
theorem collect_eq_map (lost unreleased : ν → ρ) (hnames : (schedule.tasks.map (·.name)).Nodup) :
    schedule.collect lost unreleased = schedule.tasks.map fun task =>
      (schedule.finished.get? task.name).getD
        (if task.phase.isWaiting then unreleased task.node else lost task.node) := by
  rw [collect, collectFrom_eq_map lost unreleased schedule hnames]
  refine List.map_congr_left fun task htask => ?_
  rw [wasReleased_eq hnames htask]
  cases task.phase.isWaiting <;> rfl

end Schedule

end BuildPipeline
