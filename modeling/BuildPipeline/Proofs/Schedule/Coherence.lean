import BuildPipeline.Proofs.Graph.Acyclicity
import BuildPipeline.Proofs.Schedule.Results

/-!
# Coherent schedules

With distinct names a schedule records, for every node that was released, the very results it was
released with: they stay in the table under the names of its dependencies.  This module says so as
an invariant and draws the two conclusions that need well-founded dependencies.

* `Coherent course` relates the phase of every node to the results of its dependencies by a
  relation `course`, which is a parameter; a closed node is judged by what was noticed under its
  name.  `Saturated` says that no node waits without a reason.  Both survive a change of phase
  (`Coherent.setPhase`) and a notice (`coherent_notice`).
* `Exhausted.closed_of_alive`: when nothing is under way and no node can have died, nothing waits
  and everything was noticed.
* `get?_eq_of_exhausted` and `getElem?_collect_eq`: two schedules of one plan in which nothing is
  under way agree on every set of names that is closed under dependencies, as soon as the end of a
  node of the set is a function of the results it depends on.
-/

namespace BuildPipeline
namespace Schedule

variable {ν α ρ : Type} {begin : List ρ → α} {index : Nat} {schedule next : Schedule ν α ρ}
  {course : ν → List ρ → Phase α ρ → Prop}

/-! ## Inputs of a node -/

/-- Whether every dependency of a task was noticed with a result. -/
def isReady (finished : Table ρ) (task : Task ν α ρ) : Bool :=
  task.dependencies.all (finished.contains ·)

/-- The results that a task is released with. -/
def inputs (finished : Table ρ) (task : Task ν α ρ) : List ρ :=
  task.dependencies.filterMap (finished.get? ·)

theorem isReady_iff {finished : Table ρ} {task : Task ν α ρ} :
    isReady finished task = true ↔
      ∀ dependency ∈ task.dependencies, ∃ result, finished.get? dependency = some result := by
  simp only [isReady, List.all_eq_true, Table.contains_eq_true_iff]

@[simp] theorem isReady_reset (finished : Table ρ) (task : Task ν α ρ) :
    isReady finished task.reset = isReady finished task := rfl

@[simp] theorem inputs_reset (finished : Table ρ) (task : Task ν α ρ) :
    inputs finished task.reset = inputs finished task := rfl

/-- Only what was noticed of the dependencies counts. -/
theorem isReady_congr {finished finished' : Table ρ} {task : Task ν α ρ}
    (hsame : ∀ dependency ∈ task.dependencies,
      finished.get? dependency = finished'.get? dependency) :
    isReady finished task = isReady finished' task := by
  rw [Bool.eq_iff_iff, isReady_iff, isReady_iff]
  refine forall₂_congr fun dependency hdependency => ?_
  rw [hsame dependency hdependency]

theorem get?_insert_of_new {finished : Table ρ} {name other : String} {result value : ρ}
    (hnew : finished.get? name = none) (hother : finished.get? other = some value) :
    (finished.insert name result).get? other = some value := by
  have hne : name ≠ other := by
    rintro rfl
    rw [hnew] at hother
    cases hother
  rw [Table.get?_insert, if_neg hne, hother]

theorem isReady_insert {finished : Table ρ} {task : Task ν α ρ} {name : String} {result : ρ}
    (hnew : finished.get? name = none) (hready : isReady finished task = true) :
    isReady (finished.insert name result) task = true := by
  rw [isReady_iff] at hready ⊢
  intro dependency hdependency
  obtain ⟨value, hvalue⟩ := hready dependency hdependency
  exact ⟨value, get?_insert_of_new hnew hvalue⟩

/-- A new result changes nothing for a task that was ready before. -/
theorem inputs_insert {finished : Table ρ} {task : Task ν α ρ} {name : String} {result : ρ}
    (hnew : finished.get? name = none) (hready : isReady finished task = true) :
    inputs (finished.insert name result) task = inputs finished task := by
  rw [isReady_iff] at hready
  refine List.filterMap_congr fun dependency hdependency => ?_
  obtain ⟨value, hvalue⟩ := hready dependency hdependency
  rw [get?_insert_of_new hnew hvalue, hvalue]

/-! ## The invariant -/

/-- What the phase of a task says of the results that were noticed. -/
def Fits (course : ν → List ρ → Phase α ρ → Prop) (finished : Table ρ) (task : Task ν α ρ) :
    Prop :=
  match task.phase with
  | .waiting => finished.get? task.name = none
  | .closed =>
      isReady finished task = true ∧
        course task.node (inputs finished task) (.ended (finished.get? task.name))
  | phase =>
      finished.get? task.name = none ∧ isReady finished task = true ∧
        course task.node (inputs finished task) phase

/-- Names stand once, and every task fits the results that were noticed. -/
structure Coherent (course : ν → List ρ → Phase α ρ → Prop) (schedule : Schedule ν α ρ) :
    Prop where
  distinct : (schedule.tasks.map (·.name)).Nodup
  fits : ∀ task ∈ schedule.tasks, Fits course schedule.finished task

/-- Whatever waits has a dependency without a result. -/
def Saturated (schedule : Schedule ν α ρ) : Prop :=
  ∀ task ∈ schedule.tasks, task.phase.isWaiting = true →
    isReady schedule.finished task = false

theorem fits_iff_of_unsettled {finished : Table ρ} {task : Task ν α ρ}
    (hphase : task.phase.isSettled = false) :
    Fits course finished task ↔ finished.get? task.name = none ∧ isReady finished task = true ∧
      course task.node (inputs finished task) task.phase := by
  unfold Fits
  cases hcases : task.phase with
  | waiting => simp [hcases, Phase.isSettled] at hphase
  | closed => simp [hcases, Phase.isSettled] at hphase
  | active work => exact Iff.rfl
  | returned result => exact Iff.rfl
  | died => exact Iff.rfl

theorem fits_iff_of_closed {finished : Table ρ} {task : Task ν α ρ}
    (hphase : task.phase = .closed) :
    Fits course finished task ↔ isReady finished task = true ∧
      course task.node (inputs finished task) (.ended (finished.get? task.name)) := by
  unfold Fits
  rw [hphase]

theorem get?_eq_none_of_waiting {finished : Table ρ} {task : Task ν α ρ}
    (hfits : Fits course finished task) (hphase : task.phase.isWaiting = true) :
    finished.get? task.name = none := by
  unfold Fits at hfits
  cases hcases : task.phase with
  | waiting => simpa [hcases] using hfits
  | _ => simp [hcases, Phase.isWaiting] at hphase

/-- Only a task that was ready has been started. -/
theorem Fits.isReady_of_started {finished : Table ρ} {task : Task ν α ρ}
    (hfits : Fits course finished task) (hphase : task.phase.isWaiting = false) :
    isReady finished task = true := by
  unfold Fits at hfits
  cases hcases : task.phase with
  | waiting => simp [hcases, Phase.isWaiting] at hphase
  | closed => exact (hcases ▸ hfits).1
  | active work => exact (hcases ▸ hfits).2.1
  | returned result => exact (hcases ▸ hfits).2.1
  | died => exact (hcases ▸ hfits).2.1

/-- A task waits, or it is on its course. -/
theorem Fits.exists_course {finished : Table ρ} {task : Task ν α ρ}
    (hfits : Fits course finished task) :
    task.phase.isWaiting = true ∨ ∃ results phase, course task.node results phase := by
  unfold Fits at hfits
  cases hcases : task.phase with
  | waiting => exact .inl rfl
  | closed => exact .inr ⟨_, _, (hcases ▸ hfits).2⟩
  | active work => exact .inr ⟨_, _, (hcases ▸ hfits).2.2⟩
  | returned result => exact .inr ⟨_, _, (hcases ▸ hfits).2.2⟩
  | died => exact .inr ⟨_, _, (hcases ▸ hfits).2.2⟩

theorem Fits.mono {course' : ν → List ρ → Phase α ρ → Prop} {finished : Table ρ}
    {task : Task ν α ρ} (hfits : Fits course finished task)
    (hmono : ∀ results phase, course task.node results phase → course' task.node results phase) :
    Fits course' finished task := by
  unfold Fits at hfits ⊢
  cases hphase : task.phase <;> simp only [hphase] at hfits ⊢
  case waiting => exact hfits
  case closed => exact ⟨hfits.1, hmono _ _ hfits.2⟩
  all_goals exact ⟨hfits.1, hfits.2.1, hmono _ _ hfits.2.2⟩

/-- A result under another name does not disturb a task. -/
theorem Fits.insert {finished : Table ρ} {task : Task ν α ρ} {name : String} {result : ρ}
    (hfits : Fits course finished task) (hnew : finished.get? name = none)
    (hne : name ≠ task.name) : Fits course (finished.insert name result) task := by
  have hown : (finished.insert name result).get? task.name = finished.get? task.name := by
    rw [Table.get?_insert, if_neg hne]
  unfold Fits at hfits ⊢
  cases hphase : task.phase <;> simp only [hphase, hown] at hfits ⊢
  case waiting => exact hfits
  case closed =>
    exact ⟨isReady_insert hnew hfits.1, by rw [inputs_insert hnew hfits.1]; exact hfits.2⟩
  all_goals
    obtain ⟨hunnoticed, hready, hcourse⟩ := hfits
    exact ⟨hunnoticed, isReady_insert hnew hready, by rw [inputs_insert hnew hready]; exact hcourse⟩

/-! ## Changes of phase -/

/-- The place of a name is its own. -/
theorem name_ne_of_place_ne {other : Nat} {task otherTask : Task ν α ρ}
    (hnames : (schedule.tasks.map (·.name)).Nodup) (hne : other ≠ index)
    (htask : schedule.tasks[index]? = some task)
    (hother : schedule.tasks[other]? = some otherTask) : task.name ≠ otherTask.name := by
  intro heq
  have hlt : index < (schedule.tasks.map (·.name)).length := by
    rw [List.length_map]
    exact (List.getElem?_eq_some_iff.mp htask).1
  refine hne ((List.getElem?_inj hlt hnames).mp ?_).symm
  rw [List.getElem?_map, List.getElem?_map, htask, hother, Option.map_some, Option.map_some, heq]

theorem distinct_setPhase (hcoherent : schedule.Coherent course) (phase : Phase α ρ) :
    ((schedule.setPhase index phase).tasks.map (·.name)).Nodup := by
  rw [← map_name_plan, plan_setPhase, map_name_plan]
  exact hcoherent.distinct

namespace Coherent

/-- A node at work may go on to any phase on its course, also when the course is changed in a way
that the nodes of other names do not mind. -/
theorem setPhase_of_others {course' : ν → List ρ → Phase α ρ → Prop} {task : Task ν α ρ}
    {phase : Phase α ρ} (hcoherent : schedule.Coherent course)
    (htask : schedule.tasks[index]? = some task) (hbefore : task.phase.isSettled = false)
    (hafter : phase.isSettled = false)
    (hothers : ∀ other ∈ schedule.tasks, task.name ≠ other.name → ∀ results phase,
      course other.node results phase → course' other.node results phase)
    (hcourse : course' task.node (inputs schedule.finished task) phase) :
    (schedule.setPhase index phase).Coherent course' := by
  refine ⟨distinct_setPhase hcoherent phase, fun changed hchanged => ?_⟩
  rw [setPhase_finished]
  rcases mem_setPhase hchanged with ⟨other, hplace, hother⟩ | ⟨old, hold, rfl⟩
  · have hmem := List.mem_of_getElem? hother
    have hne := name_ne_of_place_ne hcoherent.distinct hplace htask hother
    exact (hcoherent.fits changed hmem).mono (hothers changed hmem hne)
  · rw [htask, Option.some.injEq] at hold
    subst hold
    have hfits := hcoherent.fits task (List.mem_of_getElem? htask)
    rw [fits_iff_of_unsettled hbefore] at hfits
    exact (fits_iff_of_unsettled hafter).mpr ⟨hfits.1, hfits.2.1, hcourse⟩

theorem setPhase {task : Task ν α ρ} {phase : Phase α ρ} (hcoherent : schedule.Coherent course)
    (htask : schedule.tasks[index]? = some task) (hbefore : task.phase.isSettled = false)
    (hafter : phase.isSettled = false)
    (hcourse : course task.node (inputs schedule.finished task) phase) :
    (schedule.setPhase index phase).Coherent course :=
  hcoherent.setPhase_of_others htask hbefore hafter (fun _ _ _ _ _ hother => hother) hcourse

theorem mono {course' : ν → List ρ → Phase α ρ → Prop} (hcoherent : schedule.Coherent course)
    (hmono : ∀ node results phase, course node results phase → course' node results phase) :
    schedule.Coherent course' :=
  ⟨hcoherent.distinct, fun task htask => (hcoherent.fits task htask).mono (hmono task.node)⟩

/-- What is known of a node at work. -/
theorem course_of_getElem? {task : Task ν α ρ} (hcoherent : schedule.Coherent course)
    (htask : schedule.tasks[index]? = some task) (hphase : task.phase.isSettled = false) :
    course task.node (inputs schedule.finished task) task.phase :=
  ((fits_iff_of_unsettled hphase).mp
    (hcoherent.fits task (List.mem_of_getElem? htask))).2.2

end Coherent

theorem saturated_setPhase {phase : Phase α ρ} (hsaturated : schedule.Saturated)
    (hafter : phase.isSettled = false) : (schedule.setPhase index phase).Saturated := by
  intro task htask hwaiting
  rcases mem_setPhase htask with ⟨other, -, hother⟩ | ⟨old, -, rfl⟩
  · exact hsaturated task (List.mem_of_getElem? hother) hwaiting
  · cases phase <;> simp_all [Phase.isWaiting, Phase.isSettled]

/-! ## Releases and notices -/

/-- After a release nothing waits that could begin. -/
theorem saturated_release (begin : List ρ → α) (schedule : Schedule ν α ρ) :
    (schedule.release begin).Saturated := by
  intro task htask hwaiting
  obtain ⟨old, -, rfl⟩ := List.mem_map.mp htask
  unfold releaseTask at hwaiting ⊢
  split at hwaiting
  · simp [Phase.isWaiting] at hwaiting
  · next hblocked =>
      rw [if_neg hblocked]
      rw [hwaiting, Bool.true_and] at hblocked
      exact Bool.eq_false_iff.mpr hblocked

/-- Releasing makes a coherent schedule saturated, if every node that waits may begin. -/
theorem coherent_release_of_waiting (hcoherent : schedule.Coherent course)
    (hbegin : ∀ task ∈ schedule.tasks, task.phase.isWaiting = true →
      ∀ results, course task.node results (.active (begin results))) :
    (schedule.release begin).Coherent course ∧ (schedule.release begin).Saturated := by
  have hdistinct : ((schedule.release begin).tasks.map (·.name)).Nodup := by
    rw [← map_name_plan, plan_release, map_name_plan]
    exact hcoherent.distinct
  refine ⟨⟨hdistinct, fun task htask => ?_⟩, saturated_release begin schedule⟩
  obtain ⟨old, hold, rfl⟩ := List.mem_map.mp htask
  have hfits := hcoherent.fits old hold
  unfold releaseTask
  split
  · next hrelease =>
      rw [Bool.and_eq_true] at hrelease
      have hunnoticed := get?_eq_none_of_waiting hfits hrelease.1
      exact (fits_iff_of_unsettled rfl).mpr
        ⟨hunnoticed, hrelease.2, hbegin old hold hrelease.1 _⟩
  · exact hfits

/-- The same, if every node may begin. -/
theorem coherent_release (hcoherent : schedule.Coherent course)
    (hbegin : ∀ node results, course node results (.active (begin results))) :
    (schedule.release begin).Coherent course ∧ (schedule.release begin).Saturated :=
  coherent_release_of_waiting hcoherent fun task _ _ => hbegin task.node

theorem coherent_closed {task : Task ν α ρ} {result : Option ρ}
    (hcoherent : schedule.Coherent course) (htask : schedule.tasks[index]? = some task)
    (hphase : task.phase = .ended result) :
    (schedule.closed index task.name result).Coherent course := by
  have hunsettled : task.phase.isSettled = false := by
    rw [hphase]
    cases result <;> rfl
  obtain ⟨hunnoticed, hready, hcourse⟩ := (fits_iff_of_unsettled hunsettled).mp
    (hcoherent.fits task (List.mem_of_getElem? htask))
  rw [hphase] at hcourse
  refine ⟨distinct_setPhase hcoherent .closed, fun changed hchanged => ?_⟩
  rcases mem_setPhase hchanged with ⟨other, hplace, hother⟩ | ⟨old, hold, rfl⟩
  · -- Distinct names are needed here: the new result must not stand under the name of another.
    have hfits := hcoherent.fits changed (List.mem_of_getElem? hother)
    cases result with
    | none => exact hfits
    | some value =>
        exact hfits.insert hunnoticed
          (name_ne_of_place_ne hcoherent.distinct hplace htask hother)
  · rw [htask, Option.some.injEq] at hold
    subst hold
    refine (fits_iff_of_closed rfl).mpr ?_
    cases result with
    | none =>
        refine ⟨hready, ?_⟩
        simp only [closed, hunnoticed]
        exact hcourse
    | some value =>
        refine ⟨isReady_insert hunnoticed hready, ?_⟩
        have hfound : (schedule.finished.insert task.name value).get? task.name = some value := by
          rw [Table.get?_insert, if_pos rfl]
        have hinputs : inputs (schedule.finished.insert task.name value) task =
            inputs schedule.finished task := inputs_insert hunnoticed hready
        simp only [closed, hfound]
        exact hinputs ▸ hcourse

/-- A notice keeps a schedule coherent, if every node that waits may begin. -/
theorem coherent_notice_of_waiting {result : Option ρ} (hcoherent : schedule.Coherent course)
    (hbegin : ∀ task ∈ schedule.tasks, task.phase.isWaiting = true →
      ∀ results, course task.node results (.active (begin results)))
    (hnotice : schedule.notice? begin index = some (next, result)) :
    next.Coherent course ∧ next.Saturated := by
  obtain ⟨task, htask, hphase, rfl⟩ := notice?_cases hnotice
  refine coherent_release_of_waiting (coherent_closed hcoherent htask hphase) ?_
  intro other hother hwaiting
  rcases mem_setPhase hother with ⟨place, -, hplace⟩ | ⟨old, -, rfl⟩
  · exact hbegin other (List.mem_of_getElem? hplace) hwaiting
  · cases hwaiting

theorem coherent_notice {result : Option ρ} (hcoherent : schedule.Coherent course)
    (hbegin : ∀ node results, course node results (.active (begin results)))
    (hnotice : schedule.notice? begin index = some (next, result)) :
    next.Coherent course ∧ next.Saturated :=
  coherent_notice_of_waiting hcoherent (fun task _ _ => hbegin task.node) hnotice

/-- What was noticed before a notice is noticed after it. -/
theorem Coherent.get?_of_notice? {result : Option ρ} (hcoherent : schedule.Coherent course)
    (hnotice : schedule.notice? begin index = some (next, result)) {key : String} {value : ρ}
    (hfound : schedule.finished.get? key = some value) : next.finished.get? key = some value := by
  obtain ⟨task, htask, hphase, rfl⟩ := notice?_cases hnotice
  have hunsettled : task.phase.isSettled = false := by
    rw [hphase]
    cases result <;> rfl
  obtain ⟨hunnoticed, -⟩ := (fits_iff_of_unsettled hunsettled).mp
    (hcoherent.fits task (List.mem_of_getElem? htask))
  cases result with
  | none => exact hfound
  | some result => exact get?_insert_of_new hunnoticed hfound

/-- What is noticed after a notice was noticed before, or it is what the notice was about. -/
theorem get?_or_eq_of_notice? {result : Option ρ}
    (hnotice : schedule.notice? begin index = some (next, result)) {key : String} {value : ρ}
    (hfound : next.finished.get? key = some value) :
    schedule.finished.get? key = some value ∨ result = some value := by
  obtain ⟨task, htask, -, rfl⟩ := notice?_cases hnotice
  cases result with
  | none => exact .inl hfound
  | some result =>
      change (schedule.finished.insert task.name result).get? key = some value at hfound
      rw [Table.get?_insert] at hfound
      split at hfound
      · exact .inr hfound
      · exact .inl hfound

/-- Before anything was released, only the names matter. -/
theorem coherent_of_waiting {tasks : List (Task ν α ρ)} (hnames : (tasks.map (·.name)).Nodup)
    (hwaiting : ∀ task ∈ tasks, task.phase = .waiting) :
    (⟨tasks, []⟩ : Schedule ν α ρ).Coherent course := by
  refine ⟨hnames, fun task htask => ?_⟩
  unfold Fits
  rw [hwaiting task htask]
  rfl

/-! ## Dependencies among the tasks -/

/-- The names of a plan with their dependencies. -/
def precedence (schedule : Schedule ν α ρ) : Precedence :=
  schedule.plan.map fun task => (task.name, task.dependencies)

theorem names_precedence (schedule : Schedule ν α ρ) :
    schedule.precedence.names = schedule.tasks.map (·.name) := by
  rw [← map_name_plan]
  simp [precedence, Precedence.names]

theorem exists_mem_plan_of_dependency {task : Task ν α ρ} {dependency : String}
    (hsound : schedule.precedence.Sound) (htask : task ∈ schedule.plan)
    (hdependency : dependency ∈ task.dependencies) :
    ∃ other ∈ schedule.plan, other.name = dependency := by
  have hentry : (task.name, task.dependencies) ∈ schedule.precedence :=
    List.mem_map_of_mem (f := fun task => (task.name, task.dependencies)) htask
  have hknown := hsound.known _ hentry dependency hdependency
  rw [names_precedence, ← map_name_plan] at hknown
  obtain ⟨other, hother, hname⟩ := List.mem_map.mp hknown
  exact ⟨other, hother, hname⟩

theorem before_precedence {task : Task ν α ρ} (hnames : (schedule.tasks.map (·.name)).Nodup)
    (htask : task ∈ schedule.plan) :
    schedule.precedence.before task.name = task.dependencies := by
  rw [← names_precedence] at hnames
  exact Precedence.before_eq_of_mem hnames
    (List.mem_map_of_mem (f := fun task => (task.name, task.dependencies)) htask)

/-- A property of tasks that passes from the dependencies of a task to the task holds of all. -/
theorem plan_induction {motive : Task ν α ρ → Prop}
    (hnames : (schedule.tasks.map (·.name)).Nodup) (hsound : schedule.precedence.Sound)
    (hstep : ∀ task ∈ schedule.plan,
      (∀ dependency ∈ task.dependencies,
        ∃ other ∈ schedule.plan, other.name = dependency ∧ motive other) → motive task) :
    ∀ task ∈ schedule.plan, motive task := by
  -- The descent is along names.  They stand once, so it leads to the dependencies of the task.
  have hbyName : ∀ name, ∀ task ∈ schedule.plan, task.name = name → motive task := by
    intro name
    induction name using hsound.wellFounded.induction with
    | h name ih =>
        rintro task htask rfl
        refine hstep task htask fun dependency hdependency => ?_
        obtain ⟨other, hother, hname⟩ := exists_mem_plan_of_dependency hsound htask hdependency
        refine ⟨other, hother, hname, ih dependency ?_ other hother hname⟩
        rw [Precedence.Precedes, before_precedence hnames htask]
        exact hdependency
  exact fun task htask => hbyName task.name task htask rfl

/-! ## Schedules in which nothing is under way -/

/-- A coherent schedule that waits for nothing it could get. -/
structure Exhausted (course : ν → List ρ → Phase α ρ → Prop) (schedule : Schedule ν α ρ) :
    Prop extends Coherent course schedule where
  saturated : schedule.Saturated
  settled : schedule.isSettled = true

namespace Exhausted

/-- A task that was ready has ended as its course wants it; any other still waits. -/
theorem cases {task : Task ν α ρ} (hexhausted : schedule.Exhausted course)
    (htask : task ∈ schedule.tasks) :
    (isReady schedule.finished task = true ∧ task.phase = .closed ∧
      course task.node (inputs schedule.finished task)
        (.ended (schedule.finished.get? task.name))) ∨
    (isReady schedule.finished task = false ∧ task.phase = .waiting ∧
      schedule.finished.get? task.name = none) := by
  have hfits := hexhausted.fits task htask
  have hsettled := List.all_eq_true.mp hexhausted.settled task htask
  cases hphase : task.phase with
  | waiting =>
      have hwaiting : task.phase.isWaiting = true := by rw [hphase]; rfl
      refine Or.inr ⟨hexhausted.saturated task htask hwaiting, rfl, ?_⟩
      exact get?_eq_none_of_waiting hfits hwaiting
  | closed =>
      rw [fits_iff_of_closed hphase] at hfits
      exact Or.inl ⟨hfits.1, rfl, hfits.2⟩
  | active work => simp [hphase, Phase.isSettled] at hsettled
  | returned result => simp [hphase, Phase.isSettled] at hsettled
  | died => simp [hphase, Phase.isSettled] at hsettled

/-- When no node can have died, every node has ended and was noticed with a result. -/
theorem closed_of_alive (hexhausted : schedule.Exhausted course)
    (hsound : schedule.precedence.Sound)
    (halive : ∀ node results, ¬ course node results .died) :
    ∀ task ∈ schedule.tasks, task.phase = .closed ∧
      ∃ result, schedule.finished.get? task.name = some result := by
  have hclosed : ∀ task ∈ schedule.tasks, isReady schedule.finished task = true →
      task.phase = .closed ∧ ∃ result, schedule.finished.get? task.name = some result := by
    intro task htask hready
    rcases hexhausted.cases htask with ⟨-, hphase, hcourse⟩ | ⟨hblocked, -, -⟩
    · refine ⟨hphase, Option.isSome_iff_exists.mp ?_⟩
      cases hfound : schedule.finished.get? task.name with
      | some result => rfl
      | none =>
          rw [hfound] at hcourse
          exact absurd hcourse (halive task.node _)
    · rw [hready] at hblocked
      cases hblocked
  -- The induction is on the dependencies: a node is ready once they all have results.
  have hready : ∀ task ∈ schedule.plan,
      ∃ result, schedule.finished.get? task.name = some result := by
    refine plan_induction hexhausted.distinct hsound fun planned hplanned ih => ?_
    obtain ⟨task, htask, rfl⟩ := List.mem_map.mp hplanned
    refine (hclosed task htask (isReady_iff.mpr fun dependency hdependency => ?_)).2
    obtain ⟨other, -, rfl, hresult⟩ := ih dependency hdependency
    exact hresult
  intro task htask
  refine ⟨?_, hready task.reset (mem_plan_of_mem htask)⟩
  rcases hexhausted.cases htask with ⟨-, hphase, -⟩ | ⟨-, -, hnone⟩
  · exact hphase
  · obtain ⟨result, hresult⟩ := hready task.reset (mem_plan_of_mem htask)
    rw [Task.reset_name, hnone] at hresult
    cases hresult

/-- The results that are given out, read off the table of what was noticed. -/
theorem collect_eq (hexhausted : schedule.Exhausted course) (lost unreleased : ν → ρ) :
    schedule.collect lost unreleased = schedule.plan.map fun task =>
      (schedule.finished.get? task.name).getD
        (if isReady schedule.finished task then lost task.node else unreleased task.node) := by
  rw [collect_eq_map lost unreleased hexhausted.distinct, plan, List.map_map]
  refine List.map_congr_left fun task htask => ?_
  have hwaiting : task.phase.isWaiting = !isReady schedule.finished task := by
    rcases hexhausted.cases htask with ⟨hready, hphase, -⟩ | ⟨hblocked, hphase, -⟩
    · rw [hphase, hready]
      rfl
    · rw [hphase, hblocked]
      rfl
  rw [hwaiting]
  change _ = (schedule.finished.get? task.name).getD
    (if isReady schedule.finished task then lost task.node else unreleased task.node)
  cases isReady schedule.finished task <;> rfl

end Exhausted

/-! ## Two schedules of one plan -/

section TwoSchedules

variable {first second : Schedule ν α ρ} {course₁ course₂ : ν → List ρ → Phase α ρ → Prop}
  {relevant : String → Prop}

/-- Two ways through the same plan under which the nodes with some names end alike. -/
structure EndAlike (course₁ course₂ : ν → List ρ → Phase α ρ → Prop) (relevant : String → Prop)
    (plan : List (Task ν α ρ)) : Prop where
  closed : ∀ task ∈ plan, relevant task.name →
    ∀ dependency ∈ task.dependencies, relevant dependency
  functional : ∀ task ∈ plan, relevant task.name → ∀ results end₁ end₂,
    course₁ task.node results (.ended end₁) → course₂ task.node results (.ended end₂) →
      end₁ = end₂

/-- Both schedules have noticed the same under every relevant name. -/
theorem get?_eq_of_exhausted (hfirst : first.Exhausted course₁)
    (hsecond : second.Exhausted course₂) (hplan : first.plan = second.plan)
    (hsound : first.precedence.Sound)
    (halike : EndAlike course₁ course₂ relevant first.plan) :
    ∀ task ∈ first.plan, relevant task.name →
      first.finished.get? task.name = second.finished.get? task.name := by
  refine plan_induction hfirst.distinct hsound fun planned hplanned ih hrelevant => ?_
  have hdependencies : ∀ dependency ∈ planned.dependencies,
      first.finished.get? dependency = second.finished.get? dependency := by
    intro dependency hdependency
    obtain ⟨other, -, rfl, heq⟩ := ih dependency hdependency
    exact heq (halike.closed planned hplanned hrelevant other.name hdependency)
  have hready := isReady_congr hdependencies
  have hinputs : inputs first.finished planned = inputs second.finished planned :=
    List.filterMap_congr hdependencies
  obtain ⟨task₁, htask₁, rfl⟩ := List.mem_map.mp hplanned
  obtain ⟨task₂, htask₂, hreset⟩ := List.mem_map.mp (hplan ▸ hplanned)
  have hsecondCases := hsecond.cases htask₂
  rw [← isReady_reset, ← inputs_reset, ← Task.reset_name, ← Task.reset_node, hreset,
    ← hready, ← hinputs] at hsecondCases
  -- Either both schedules have released the task, with the same inputs, or neither has.
  rcases hfirst.cases htask₁ with ⟨hready₁, -, hcourse₁⟩ | ⟨hblocked₁, -, hnone₁⟩
  · rcases hsecondCases with ⟨-, -, hcourse₂⟩ | ⟨hblocked₂, -, -⟩
    · exact halike.functional _ hplanned hrelevant _ _ _ hcourse₁ hcourse₂
    · rw [isReady_reset, hready₁] at hblocked₂
      cases hblocked₂
  · rcases hsecondCases with ⟨hready₂, -, -⟩ | ⟨-, -, hnone₂⟩
    · rw [isReady_reset, hblocked₁] at hready₂
      cases hready₂
    · rw [hnone₂]
      exact hnone₁

/-- Both schedules release a task with the same results, if it depends on relevant names only. -/
theorem inputs_eq_of_exhausted (hfirst : first.Exhausted course₁)
    (hsecond : second.Exhausted course₂) (hplan : first.plan = second.plan)
    (hsound : first.precedence.Sound) (halike : EndAlike course₁ course₂ relevant first.plan)
    {task : Task ν α ρ} (htask : task ∈ first.plan)
    (hrelevant : ∀ dependency ∈ task.dependencies, relevant dependency) :
    isReady first.finished task = isReady second.finished task ∧
      inputs first.finished task = inputs second.finished task := by
  have hsame : ∀ dependency ∈ task.dependencies,
      first.finished.get? dependency = second.finished.get? dependency := by
    intro dependency hdependency
    obtain ⟨other, hother, rfl⟩ := exists_mem_plan_of_dependency hsound htask hdependency
    exact get?_eq_of_exhausted hfirst hsecond hplan hsound halike other hother
      (hrelevant other.name hdependency)
  exact ⟨isReady_congr hsame, List.filterMap_congr hsame⟩

/-- Both schedules give out the same at every relevant place. -/
theorem getElem?_collect_eq (hfirst : first.Exhausted course₁)
    (hsecond : second.Exhausted course₂) (hplan : first.plan = second.plan)
    (hsound : first.precedence.Sound)
    (halike : EndAlike course₁ course₂ relevant first.plan) (lost unreleased : ν → ρ)
    {task : Task ν α ρ} (htask : first.plan[index]? = some task) (hrelevant : relevant task.name) :
    (first.collect lost unreleased)[index]? = (second.collect lost unreleased)[index]? := by
  have hmem := List.mem_of_getElem? htask
  have hsame := get?_eq_of_exhausted hfirst hsecond hplan hsound halike task hmem hrelevant
  obtain ⟨hready, -⟩ := inputs_eq_of_exhausted hfirst hsecond hplan hsound halike hmem
    (halike.closed task hmem hrelevant)
  rw [hfirst.collect_eq, hsecond.collect_eq, ← hplan, List.getElem?_map, List.getElem?_map, htask,
    Option.map_some, Option.map_some, hsame, hready]

theorem length_collect (schedule : Schedule ν α ρ) (lost unreleased : ν → ρ) :
    (schedule.collect lost unreleased).length = schedule.plan.length := by
  rw [← (forall₂_collect lost unreleased schedule).length_eq, plan, List.length_map]

end TwoSchedules

end Schedule
end BuildPipeline
