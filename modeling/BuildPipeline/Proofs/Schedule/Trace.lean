import BuildPipeline.Proofs.Schedule.Coherence

/-!
# The way of a schedule

A schedule is opened by a first release.  After that nodes at work move on, and ended nodes are
noticed, in any order.  `Trace` collects the schedules on such a way, the latest first, as long as
no node dies.

* `startsAt index` lists the schedules with which the node at a place was started.
* `Orderly` is what one wants of a way: every node is started at most once and never before its
  dependencies have finished; and when nothing is under way any more, every node was started, none
  waits, and the results that are given out are the ones that were noticed.
* `Trace.orderly`: a way is orderly, if names stand once and the dependencies are sound.
* `Lossless` is what remains of this where names stand twice: no node dies, so whatever was noticed
  has left a result, and in the end everything was noticed (`Lossless.closed_of_settled`).

How long a way is, and that it comes to an end, is not covered here.
-/

namespace BuildPipeline

namespace Phase

variable {α ρ : Type} {phase : Phase α ρ}

/-- At work, or returned and not noticed yet. -/
def isUnderWay : Phase α ρ → Bool
  | active _ | returned _ => true
  | _ => false

theorem isSettled_of_isUnderWay (hphase : phase.isUnderWay = true) : phase.isSettled = false := by
  cases phase with
  | active work => rfl
  | returned result => rfl
  | _ => cases hphase

theorem ne_died_of_isUnderWay (hphase : phase.isUnderWay = true) : phase ≠ .died := by
  rintro rfl
  cases hphase

end Phase

namespace Schedule

variable {ν α ρ : Type} {begin : List ρ → α} {index : Nat} {tasks : List (Task ν α ρ)}
  {schedule before after latest : Schedule ν α ρ} {earlier schedules : List (Schedule ν α ρ)}

/-! ## Starts -/

/-- Whether the node at a place was started. -/
def isStarted (schedule : Schedule ν α ρ) (index : Nat) : Bool :=
  schedule.tasks[index]?.any (!·.phase.isWaiting)

/-- The schedules with which the node at a place was started, out of a way with the latest first. -/
def startsAt (index : Nat) : List (Schedule ν α ρ) → List (Schedule ν α ρ)
  | [] => []
  | [first] => if first.isStarted index then [first] else []
  | after :: before :: earlier =>
    if after.isStarted index && !before.isStarted index then
      after :: startsAt index (before :: earlier)
    else startsAt index (before :: earlier)

theorem isStarted_eq {task : Task ν α ρ} (htask : schedule.tasks[index]? = some task) :
    schedule.isStarted index = !task.phase.isWaiting := by
  simp [isStarted, htask]

/-! ## Ways -/

/-- One step on the way of a schedule in which no node dies. -/
inductive Next (begin : List ρ → α) (before : Schedule ν α ρ) : Schedule ν α ρ → Prop
  | rest : Next begin before before
  | move {index : Nat} {task : Task ν α ρ} {phase : Phase α ρ}
      (htask : before.tasks[index]? = some task) (hbefore : task.phase.isSettled = false)
      (hafter : phase.isUnderWay = true) : Next begin before (before.setPhase index phase)
  | notice {index : Nat} {after : Schedule ν α ρ} {result : Option ρ}
      (hnotice : before.notice? begin index = some (after, result)) : Next begin before after

/-- The schedules on a way that begins with some tasks, the latest first. -/
inductive Trace (begin : List ρ → α) (tasks : List (Task ν α ρ)) : List (Schedule ν α ρ) → Prop
  | opened : Trace begin tasks [(⟨tasks, []⟩ : Schedule ν α ρ).release begin]
  | next {before after : Schedule ν α ρ} {earlier : List (Schedule ν α ρ)}
      (hnext : Next begin before after) (hearlier : Trace begin tasks (before :: earlier)) :
      Trace begin tasks (after :: before :: earlier)

/-- What is wanted of the way of some tasks, the latest schedule first. -/
structure Orderly (tasks : List (Task ν α ρ)) (schedules : List (Schedule ν α ρ)) : Prop where
  plan : ∀ schedule ∈ schedules, schedule.plan = tasks
  /-- No node is started twice. -/
  once : ∀ index, (startsAt index schedules).length ≤ 1
  /-- A node is started when everything it depends on has finished. -/
  ready : ∀ index task, tasks[index]? = some task → ∀ start ∈ startsAt index schedules,
    ∀ dependency ∈ task.dependencies, start.finished.contains dependency = true
  /-- Once nothing is under way, every node was started exactly once and nothing waits. -/
  complete : ∀ latest earlier, schedules = latest :: earlier → latest.isSettled = true →
    ∀ index, index < tasks.length → (startsAt index schedules).length = 1 ∧
      ∃ task, latest.tasks[index]? = some task ∧ task.phase = .closed
  /-- No substitute is ever given out in the end. -/
  results : ∀ latest earlier, schedules = latest :: earlier → latest.isSettled = true →
    ∀ lost unreleased, (latest.collect lost unreleased).map some =
      tasks.map fun task => latest.finished.get? task.name

theorem orderly_nil (tasks : List (Task ν α ρ)) : Orderly tasks [] where
  plan := fun _ hschedule => by cases hschedule
  once := fun _ => Nat.zero_le 1
  ready := fun _ _ _ _ hstart => by cases hstart
  complete := fun _ _ hschedules => by cases hschedules
  results := fun _ _ hschedules => by cases hschedules

/-! ## What a step keeps -/

theorem isStarted_setPhase (schedule : Schedule ν α ρ) {phase : Phase α ρ}
    (hphase : phase.isSettled = false) (other : Nat) (hstarted : schedule.isStarted other = true) :
    (schedule.setPhase index phase).isStarted other = true := by
  unfold isStarted at hstarted ⊢
  rw [getElem?_setPhase]
  cases htask : schedule.tasks[other]? with
  | none => simp [htask] at hstarted
  | some task =>
      by_cases hindex : index = other
      · cases phase <;> simp_all [Phase.isWaiting, Phase.isSettled]
      · simpa [htask, hindex] using hstarted

theorem isStarted_release (schedule : Schedule ν α ρ) (other : Nat)
    (hstarted : schedule.isStarted other = true) :
    (schedule.release begin).isStarted other = true := by
  unfold isStarted at hstarted ⊢
  rw [release, List.getElem?_map]
  cases htask : schedule.tasks[other]? with
  | none => simp [htask] at hstarted
  | some task =>
      simp only [htask, Option.any_some] at hstarted
      simp only [Option.map_some, Option.any_some, releaseTask]
      split
      · rfl
      · exact hstarted

/-- A node that was started never waits again. -/
theorem Next.isStarted_of_isStarted (hnext : Next begin before after)
    (hstarted : before.isStarted index = true) : after.isStarted index = true := by
  cases hnext with
  | rest => exact hstarted
  | move htask hbefore hafter =>
      exact isStarted_setPhase before (Phase.isSettled_of_isUnderWay hafter) index hstarted
  | @notice noticed _ result hnotice =>
      obtain ⟨task, -, -, rfl⟩ := notice?_cases hnotice
      apply isStarted_release
      unfold isStarted at hstarted ⊢
      change (before.setPhase noticed .closed).tasks[index]?.any _ = true
      rw [getElem?_setPhase]
      cases htask : before.tasks[index]? with
      | none => simp [htask] at hstarted
      | some other =>
          by_cases hindex : noticed = index
          · simp [hindex, Phase.isWaiting]
          · simpa [htask, hindex] using hstarted

/-- The course of nodes that do not die. -/
def Alive (_node : ν) (_results : List ρ) (phase : Phase α ρ) : Prop :=
  phase ≠ .died

theorem Next.coherent (hnext : Next begin before after) (hcoherent : before.Coherent Alive)
    (hsaturated : before.Saturated) : after.Coherent Alive ∧ after.Saturated := by
  cases hnext with
  | rest => exact ⟨hcoherent, hsaturated⟩
  | move htask hbefore hafter =>
      have hunsettled := Phase.isSettled_of_isUnderWay hafter
      refine ⟨?_, saturated_setPhase hsaturated hunsettled⟩
      exact hcoherent.setPhase htask hbefore hunsettled (Phase.ne_died_of_isUnderWay hafter)
  | notice hnotice =>
      refine coherent_notice hcoherent (fun _ _ => ?_) hnotice
      exact fun hdied => by cases hdied

theorem Next.plan_eq (hnext : Next begin before after) : after.plan = before.plan := by
  cases hnext with
  | rest => rfl
  | move => exact plan_setPhase before _ _
  | notice hnotice => exact plan_notice? hnotice

/-! ## Nothing is lost -/

/-- What is kept as long as no node dies, also if names stand twice: whatever could begin has begun,
and whatever was noticed has left a result under its name. -/
structure Lossless (schedule : Schedule ν α ρ) : Prop where
  saturated : schedule.Saturated
  closed : ∀ task ∈ schedule.tasks, task.phase = .closed →
    ∃ result, schedule.finished.get? task.name = some result
  alive : schedule.Keeps fun _ phase => phase ≠ .died

namespace Lossless

theorem opened (begin : List ρ → α) (hwaiting : ∀ task ∈ tasks, task.phase = .waiting) :
    ((⟨tasks, []⟩ : Schedule ν α ρ).release begin).Lossless := by
  refine ⟨saturated_release begin _, fun task htask hclosed => ?_, ?_⟩
  · rcases mem_release htask with hold | ⟨_, -, _, rfl⟩
    · rw [hwaiting task hold] at hclosed
      cases hclosed
    · cases hclosed
  · refine (keeps_of_waiting fun task htask hdied => ?_).release fun _ _ hdied => ?_
    · rw [hwaiting task htask] at hdied
      cases hdied
    · cases hdied

theorem setPhase {task : Task ν α ρ} {phase : Phase α ρ} (hlossless : schedule.Lossless)
    (htask : schedule.tasks[index]? = some task) (hphase : phase.isUnderWay = true) :
    (schedule.setPhase index phase).Lossless := by
  have hunsettled := Phase.isSettled_of_isUnderWay hphase
  refine ⟨saturated_setPhase hlossless.saturated hunsettled, fun changed hchanged hclosed => ?_,
    hlossless.alive.setPhase htask (Phase.ne_died_of_isUnderWay hphase)⟩
  rcases mem_setPhase hchanged with ⟨other, -, hother⟩ | ⟨old, -, rfl⟩
  · exact hlossless.closed changed (List.mem_of_getElem? hother) hclosed
  · obtain rfl : phase = .closed := hclosed
    cases hphase

/-- A node that has ended did so with a result, and the notice leaves it under the name. -/
theorem notice {result : Option ρ} (hlossless : schedule.Lossless)
    (hnotice : schedule.notice? begin index = some (after, result)) : after.Lossless := by
  have halive : after.Keeps fun _ phase => phase ≠ .died := by
    refine hlossless.alive.notice (fun _ hdied => ?_) (fun _ _ hdied => ?_) hnotice
    · cases hdied
    · cases hdied
  obtain ⟨noticed, hnoticed, hended, rfl⟩ := notice?_cases hnotice
  obtain ⟨value, rfl⟩ : ∃ value, result = some value := by
    cases result with
    | some value => exact ⟨value, rfl⟩
    | none => exact absurd hended (hlossless.alive.tasks noticed (List.mem_of_getElem? hnoticed))
  refine ⟨saturated_release begin _, fun task htask hclosed => ?_, halive⟩
  change ∃ result, (schedule.finished.insert noticed.name value).get? task.name = some result
  rw [Table.get?_insert]
  split
  · exact ⟨value, rfl⟩
  · next hother =>
      -- A closed task of another name was closed before, and what it left is still there.
      rcases mem_release htask with hbefore | ⟨_, -, _, rfl⟩
      · rcases mem_setPhase hbefore with ⟨place, -, hplace⟩ | ⟨old, hold, rfl⟩
        · exact hlossless.closed task (List.mem_of_getElem? hplace) hclosed
        · rw [hnoticed, Option.some.injEq] at hold
          exact absurd (congrArg Task.name hold) hother
      · cases hclosed

theorem next (hlossless : before.Lossless) (hnext : Next begin before after) :
    after.Lossless := by
  cases hnext with
  | rest => exact hlossless
  | move htask hbefore hafter => exact hlossless.setPhase htask hafter
  | notice hnotice => exact hlossless.notice hnotice

/-- When nothing is under way, a task whose dependencies all have results was noticed. -/
theorem closed_of_isReady {task : Task ν α ρ} (hlossless : schedule.Lossless)
    (hsettled : schedule.isSettled = true) (htask : task ∈ schedule.tasks)
    (hready : isReady schedule.finished task = true) : task.phase = .closed := by
  have hphase := List.all_eq_true.mp hsettled task htask
  cases hcases : task.phase with
  | closed => rfl
  | waiting =>
      have hwaiting : task.phase.isWaiting = true := by
        rw [hcases]
        rfl
      rw [hlossless.saturated task htask hwaiting] at hready
      cases hready
  | _ => simp [hcases, Phase.isSettled] at hphase

/-- When nothing is under way, every task was noticed and left a result. -/
theorem closed_of_settled (hlossless : schedule.Lossless) (hsettled : schedule.isSettled = true)
    (hsound : schedule.precedence.Sound) :
    ∀ task ∈ schedule.tasks,
      task.phase = .closed ∧ ∃ result, schedule.finished.get? task.name = some result := by
  -- The induction is on names.  Of the tasks with one name it follows the one that counts.
  have hresults : ∀ name, name ∈ schedule.precedence.names →
      ∃ result, schedule.finished.get? name = some result := by
    intro name
    induction name using hsound.wellFounded.induction with
    | h name ih =>
        intro hname
        have hentry := Precedence.mem_before_of_mem_names hname
        obtain ⟨planned, hplanned, heq⟩ := List.mem_map.mp hentry
        obtain ⟨task, htask, rfl⟩ := List.mem_map.mp hplanned
        obtain ⟨rfl, hdependencies⟩ := Prod.mk.inj heq
        have hready : isReady schedule.finished task = true := by
          refine isReady_iff.mpr fun dependency hdependency => ?_
          have hprecedes : dependency ∈ schedule.precedence.before task.name :=
            hdependencies ▸ hdependency
          exact ih dependency hprecedes (hsound.known _ hentry dependency hprecedes)
        exact hlossless.closed task htask (hlossless.closed_of_isReady hsettled htask hready)
  intro task htask
  have hready : isReady schedule.finished task = true := by
    refine isReady_iff.mpr fun dependency hdependency => hresults dependency ?_
    have hentry : (task.name, task.dependencies) ∈ schedule.precedence :=
      List.mem_map_of_mem (f := fun task => (task.name, task.dependencies))
        (mem_plan_of_mem htask)
    exact hsound.known _ hentry dependency hdependency
  have hclosed := hlossless.closed_of_isReady hsettled htask hready
  exact ⟨hclosed, hlossless.closed task htask hclosed⟩

end Lossless

/-! ## What a way keeps -/

namespace Trace

theorem ne_nil (htrace : Trace begin tasks schedules) : schedules ≠ [] := by
  cases htrace <;> exact List.cons_ne_nil _ _

theorem plan_eq (hwaiting : ∀ task ∈ tasks, task.phase = .waiting)
    (htrace : Trace begin tasks schedules) : ∀ schedule ∈ schedules, schedule.plan = tasks := by
  have hopened : ((⟨tasks, []⟩ : Schedule ν α ρ).release begin).plan = tasks := by
    rw [plan_release, plan_of_waiting hwaiting]
  induction htrace with
  | opened => exact List.forall_mem_singleton.mpr hopened
  | next hnext _ ih =>
      refine List.forall_mem_cons.mpr ⟨?_, ih⟩
      rw [hnext.plan_eq]
      exact ih _ List.mem_cons_self

/-- Nothing on a way dies, and what can be started is. -/
theorem coherent (hnames : (tasks.map (·.name)).Nodup)
    (hwaiting : ∀ task ∈ tasks, task.phase = .waiting)
    (htrace : Trace begin tasks (latest :: earlier)) :
    latest.Coherent Alive ∧ latest.Saturated := by
  generalize hschedules : latest :: earlier = schedules at htrace
  induction htrace generalizing latest earlier with
  | opened =>
      cases hschedules
      refine coherent_release (coherent_of_waiting hnames hwaiting) fun _ _ => ?_
      exact fun hdied => by cases hdied
  | next hnext _ ih =>
      cases hschedules
      obtain ⟨hcoherent, hsaturated⟩ := ih rfl
      exact hnext.coherent hcoherent hsaturated

/-- A node was started once if it does not wait any more, and never if it does. -/
theorem length_startsAt (htrace : Trace begin tasks (latest :: earlier)) :
    (startsAt index (latest :: earlier)).length = if latest.isStarted index then 1 else 0 := by
  generalize hschedules : latest :: earlier = schedules at htrace
  induction htrace generalizing latest earlier with
  | opened =>
      cases hschedules
      unfold startsAt
      split <;> rfl
  | @next before after earlier hnext _ ih =>
      cases hschedules
      have hbefore := ih rfl
      unfold startsAt
      -- The count grows only when the node stops waiting, which it does once and for all.
      cases hstarted : before.isStarted index with
      | false =>
          rw [hstarted, if_neg Bool.false_ne_true, List.length_eq_zero_iff] at hbefore
          cases hnow : after.isStarted index <;> simp [hbefore]
      | true =>
          rw [hnext.isStarted_of_isStarted hstarted]
          simpa [hstarted] using hbefore

/-- With every schedule that starts a node, its dependencies have finished. -/
theorem ready_of_mem_startsAt (hnames : (tasks.map (·.name)).Nodup)
    (hwaiting : ∀ task ∈ tasks, task.phase = .waiting) (htrace : Trace begin tasks schedules)
    {task : Task ν α ρ} (htask : tasks[index]? = some task) :
    ∀ start ∈ startsAt index schedules, isReady start.finished task = true := by
  -- Each start is the latest schedule of some part of the way, where the invariant can be asked.
  have hready : ∀ latest earlier, Trace begin tasks (latest :: earlier) →
      latest.isStarted index = true → isReady latest.finished task = true := by
    intro latest earlier hlatest hstarted
    have hplan := hlatest.plan_eq hwaiting latest List.mem_cons_self
    obtain ⟨current, hcurrent, rfl⟩ := exists_task_of_plan (hplan.symm ▸ htask)
    rw [isStarted_eq hcurrent] at hstarted
    have hfits := (hlatest.coherent hnames hwaiting).1.fits current (List.mem_of_getElem? hcurrent)
    exact hfits.isReady_of_started (by simpa using hstarted)
  induction htrace with
  | opened =>
      intro start hstart
      unfold startsAt at hstart
      split at hstart
      · next hstarted =>
          rw [List.mem_singleton] at hstart
          subst hstart
          exact hready _ [] .opened hstarted
      · cases hstart
  | @next before after earlier hnext hearlier ih =>
      intro start hstart
      unfold startsAt at hstart
      split at hstart
      · next hstarted =>
          rw [Bool.and_eq_true] at hstarted
          rcases List.mem_cons.mp hstart with rfl | hstart
          · exact hready _ _ (.next hnext hearlier) hstarted.1
          · exact ih start hstart
      · exact ih start hstart

/-- A way is orderly, if names stand once and dependencies are sound. -/
theorem orderly (hnames : (tasks.map (·.name)).Nodup)
    (hwaiting : ∀ task ∈ tasks, task.phase = .waiting)
    (hsound : Precedence.Sound (tasks.map fun task => (task.name, task.dependencies)))
    (htrace : Trace begin tasks schedules) : Orderly tasks schedules := by
  have hclosed : ∀ latest earlier, schedules = latest :: earlier → latest.isSettled = true →
      latest.plan = tasks ∧ latest.Coherent Alive ∧ ∀ task ∈ latest.tasks,
        task.phase = .closed ∧ ∃ result, latest.finished.get? task.name = some result := by
    rintro latest earlier rfl hsettled
    have hplan := htrace.plan_eq hwaiting latest List.mem_cons_self
    obtain ⟨hcoherent, hsaturated⟩ := htrace.coherent hnames hwaiting
    have hexhausted : latest.Exhausted Alive := ⟨hcoherent, hsaturated, hsettled⟩
    rw [← hplan] at hsound
    exact ⟨hplan, hcoherent, hexhausted.closed_of_alive hsound fun _ _ hdied => hdied rfl⟩
  constructor
  case plan => exact htrace.plan_eq hwaiting
  case once =>
    intro index
    obtain ⟨latest, earlier, rfl⟩ := List.exists_cons_of_ne_nil htrace.ne_nil
    rw [htrace.length_startsAt]
    split <;> omega
  case ready =>
    intro index task htask start hstart dependency hdependency
    have hready := htrace.ready_of_mem_startsAt hnames hwaiting htask start hstart
    exact List.all_eq_true.mp hready dependency hdependency
  case complete =>
    rintro latest earlier rfl hsettled index hindex
    obtain ⟨hplan, -, hended⟩ := hclosed latest earlier rfl hsettled
    have hlength : index < latest.tasks.length := by
      rw [← hplan, plan, List.length_map] at hindex
      exact hindex
    have htask := List.getElem?_eq_getElem hlength
    have hphase := (hended _ (List.getElem_mem hlength)).1
    refine ⟨?_, _, htask, hphase⟩
    rw [htrace.length_startsAt, isStarted_eq htask, hphase]
    rfl
  case results =>
    rintro latest earlier rfl hsettled lost unreleased
    obtain ⟨hplan, hcoherent, hended⟩ := hclosed latest earlier rfl hsettled
    rw [collect_eq_map lost unreleased hcoherent.distinct, List.map_map, ← hplan, plan,
      List.map_map]
    refine List.map_congr_left fun task htask => ?_
    obtain ⟨result, hresult⟩ := (hended task htask).2
    simp [hresult]

end Trace

end Schedule
end BuildPipeline
