import BuildPipeline.Proofs.Schedule.Coherence

/-!
# Schedules whose nodes leave a log

The nodes of a schedule tell what they do in one log, in which the entries of different nodes stand
in any order.  This module relates the phase of every node to what the log holds of it alone.

* `Voice` says under which name an entry stands, and `Voice.heard` is what a log holds of a name.
* `Schedule.Recorded` is the invariant.  The phase of a node fits what is heard of it, nothing is
  heard of a node that waits, and nothing that is heard of a node stands before something that is
  heard of a dependency of it.
* `Recorded.setPhase` and `Recorded.notice` are the two ways in which a schedule changes.
* `Recorded.forall₂_settles`: when nothing is under way any more, every result that is given out
  belongs to what is heard of its node.

Nothing is said of the order in which nodes without a dependency between them are heard.
-/

namespace BuildPipeline

/-! ## Logs of several names -/

/-- How the entries of a log belong to names.  Some events are not for the ears of all. -/
structure Voice (η ε : Type) where
  say : String → ε → η
  isTold : ε → Bool
  hear? : String → η → Option ε
  hear?_say : ∀ name other event,
    hear? other (say name event) = if name = other ∧ isTold event = true then some event else none

namespace Voice

variable {η ε : Type} (voice : Voice η ε)

/-- What a log holds of a name. -/
def heard (name : String) (log : List η) : List ε :=
  log.filterMap (voice.hear? name)

theorem heard_append (name : String) (log more : List η) :
    voice.heard name (log ++ more) = voice.heard name log ++ voice.heard name more :=
  List.filterMap_append

theorem heard_say_self (name : String) (events : List ε) :
    voice.heard name (events.map (voice.say name)) = events.filter voice.isTold := by
  induction events with
  | nil => rfl
  | cons event rest ih =>
      have hhead := voice.hear?_say name name event
      rw [heard] at ih ⊢
      rw [List.map_cons, List.filterMap_cons, List.filter_cons, hhead, ih]
      cases voice.isTold event <;> simp

theorem heard_say_of_ne {name other : String} (hne : name ≠ other) (events : List ε) :
    voice.heard other (events.map (voice.say name)) = [] := by
  refine List.filterMap_eq_nil_iff.mpr fun entry hentry => ?_
  obtain ⟨event, -, rfl⟩ := List.mem_map.mp hentry
  rw [voice.hear?_say, if_neg fun hboth => hne hboth.1]

theorem mem_heard_of_say {name : String} {event : ε} {log : List η}
    (hentry : voice.say name event ∈ log) (htold : voice.isTold event = true) :
    event ∈ voice.heard name log := by
  refine List.mem_filterMap.mpr ⟨_, hentry, ?_⟩
  rw [voice.hear?_say, if_pos ⟨rfl, htold⟩]

end Voice

namespace Schedule

variable {ν α ρ η ε : Type} {voice : Voice η ε} {name : ν → String}
  {course : ν → List ρ → Phase α ρ → List ε → Prop} {begin : List ρ → α} {index : Nat}
  {log : List η} {schedule next : Schedule ν α ρ}

/-- Nothing that is heard of a node stands before something that is heard of a dependency of it. -/
def InOrder (voice : Voice η ε) (plan : List (Task ν α ρ)) (log : List η) : Prop :=
  log.Pairwise fun earlier later => ∀ task ∈ plan, ∀ dependency ∈ task.dependencies,
    voice.hear? task.name earlier = none ∨ voice.hear? dependency later = none

/-! ## The invariant -/

/-- The course of a node, with what is heard of it. -/
def courseIn (voice : Voice η ε) (name : ν → String)
    (course : ν → List ρ → Phase α ρ → List ε → Prop) (log : List η) (node : ν)
    (results : List ρ) (phase : Phase α ρ) : Prop :=
  course node results phase (voice.heard (name node) log)

/-- What a log and the phases of a schedule say of each other. -/
structure Recorded (voice : Voice η ε) (name : ν → String)
    (course : ν → List ρ → Phase α ρ → List ε → Prop) (log : List η)
    (schedule : Schedule ν α ρ) : Prop where
  named : ∀ task ∈ schedule.plan, task.name = name task.node
  /-- Only results of nodes were noticed. -/
  noticed : ∀ key result, schedule.finished.get? key = some result →
    ∃ task ∈ schedule.plan, task.name = key
  coherent : schedule.Coherent (courseIn voice name course log)
  saturated : schedule.Saturated
  /-- Nothing is heard of a node that waits. -/
  quiet : ∀ task ∈ schedule.tasks, task.phase.isWaiting = true → voice.heard task.name log = []
  /-- Every entry comes from a node. -/
  spoken : ∀ entry ∈ log, ∃ task ∈ schedule.plan, ∃ event, entry = voice.say task.name event
  order : InOrder voice schedule.plan log

namespace Recorded

theorem name_eq (hrecorded : schedule.Recorded voice name course log) {task : Task ν α ρ}
    (htask : task ∈ schedule.tasks) : task.name = name task.node :=
  hrecorded.named task.reset (mem_plan_of_mem htask)

/-- Before anything was released the log is empty. -/
theorem opened {tasks : List (Task ν α ρ)} (hnames : (tasks.map (·.name)).Nodup)
    (hwaiting : ∀ task ∈ tasks, task.phase = .waiting)
    (hnamed : ∀ task ∈ tasks, task.name = name task.node)
    (hbegin : ∀ node results, course node results (.active (begin results)) []) :
    ((⟨tasks, []⟩ : Schedule ν α ρ).release begin).Recorded voice name course [] := by
  have hopen : (⟨tasks, []⟩ : Schedule ν α ρ).Coherent (courseIn voice name course []) :=
    coherent_of_waiting hnames hwaiting
  obtain ⟨hcoherent, hsaturated⟩ := coherent_release hopen hbegin
  constructor
  case named =>
    rw [plan_release, plan_of_waiting hwaiting]
    exact hnamed
  case noticed => exact fun _ _ hfound => nomatch hfound
  case coherent => exact hcoherent
  case saturated => exact hsaturated
  case quiet => exact fun _ _ _ => rfl
  case spoken => exact fun _ hentry => nomatch hentry
  case order => exact List.Pairwise.nil

/-- What depends on a node at work waits, so nothing is heard of it. -/
theorem quiet_of_dependency (hrecorded : schedule.Recorded voice name course log)
    {task dependent : Task ν α ρ} (htask : task ∈ schedule.tasks)
    (hbefore : task.phase.isSettled = false) (hdependent : dependent ∈ schedule.plan)
    (hdependency : task.name ∈ dependent.dependencies) :
    dependent.name ≠ task.name ∧ voice.heard dependent.name log = [] := by
  obtain ⟨current, hcurrent, rfl⟩ := List.mem_map.mp hdependent
  obtain ⟨hunnoticed, hready, -⟩ :=
    (fits_iff_of_unsettled hbefore).mp (hrecorded.coherent.fits task htask)
  -- The node itself was not noticed, so whatever depends on it cannot have been released.
  have hblocked : ∀ other : Task ν α ρ, task.name ∈ other.dependencies →
      isReady schedule.finished other ≠ true := by
    intro other hmem hready
    obtain ⟨result, hresult⟩ := isReady_iff.mp hready task.name hmem
    rw [hunnoticed] at hresult
    cases hresult
  constructor
  · intro hname
    have heq : current = task :=
      List.inj_on_of_nodup_map hrecorded.coherent.distinct hcurrent htask hname
    rw [heq] at hdependency
    exact hblocked task hdependency hready
  · refine hrecorded.quiet current hcurrent ?_
    cases hwaiting : current.phase.isWaiting with
    | true => rfl
    | false =>
        have hstarted := (hrecorded.coherent.fits current hcurrent).isReady_of_started hwaiting
        exact absurd hstarted (hblocked current hdependency)

/-- New entries of a node at work stand in order behind the others. -/
theorem inOrder_append (hrecorded : schedule.Recorded voice name course log)
    {task : Task ν α ρ} (htask : task ∈ schedule.tasks) (hbefore : task.phase.isSettled = false)
    (events : List ε) :
    InOrder voice schedule.plan (log ++ events.map (voice.say task.name)) := by
  -- Only the node at work is heard in the new entries, and what depends on it was silent so far.
  have hsilent : ∀ earlier ∈ log ++ events.map (voice.say task.name),
      ∀ later ∈ events.map (voice.say task.name), ∀ dependent ∈ schedule.plan,
        ∀ dependency ∈ dependent.dependencies,
          voice.hear? dependent.name earlier = none ∨ voice.hear? dependency later = none := by
    intro earlier hearlier later hlater dependent hdependent dependency hdependency
    obtain ⟨event, -, rfl⟩ := List.mem_map.mp hlater
    by_cases hname : task.name = dependency
    · subst hname
      obtain ⟨hother, hquiet⟩ :=
        hrecorded.quiet_of_dependency htask hbefore hdependent hdependency
      have hnone : voice.heard dependent.name (log ++ events.map (voice.say task.name)) = [] := by
        rw [voice.heard_append, hquiet, voice.heard_say_of_ne (Ne.symm hother), List.append_nil]
      exact Or.inl (List.filterMap_eq_nil_iff.mp hnone earlier hearlier)
    · rw [voice.hear?_say, if_neg fun hboth => hname hboth.1]
      exact Or.inr rfl
  refine List.pairwise_append.mpr ⟨hrecorded.order, ?_, ?_⟩
  · refine List.pairwise_of_forall_mem_list fun earlier hearlier later hlater => ?_
    exact hsilent earlier (List.mem_append_right log hearlier) later hlater
  · intro earlier hearlier later hlater
    exact hsilent earlier (List.mem_append_left _ hearlier) later hlater

/-- A node at work may go on and tell of it. -/
theorem setPhase (hrecorded : schedule.Recorded voice name course log) {task : Task ν α ρ}
    {phase : Phase α ρ} {events : List ε} (htask : schedule.tasks[index]? = some task)
    (hbefore : task.phase.isSettled = false) (hafter : phase.isSettled = false)
    (hcourse : course task.node (inputs schedule.finished task) phase
      (voice.heard task.name log ++ events.filter voice.isTold)) :
    (schedule.setPhase index phase).Recorded voice name course
      (log ++ events.map (voice.say task.name)) := by
  have hmem := List.mem_of_getElem? htask
  have hothers : ∀ other, task.name ≠ other →
      voice.heard other (log ++ events.map (voice.say task.name)) = voice.heard other log := by
    intro other hne
    rw [voice.heard_append, voice.heard_say_of_ne hne, List.append_nil]
  constructor
  case named =>
    rw [plan_setPhase]
    exact hrecorded.named
  case noticed =>
    rw [plan_setPhase]
    exact hrecorded.noticed
  case coherent =>
    refine hrecorded.coherent.setPhase_of_others htask hbefore hafter ?_ ?_
    · intro other hother hne results phase hkept
      rw [hrecorded.name_eq hother] at hne
      rw [courseIn, hothers _ hne]
      exact hkept
    · rw [courseIn, ← hrecorded.name_eq hmem, voice.heard_append, voice.heard_say_self]
      exact hcourse
  case saturated => exact saturated_setPhase hrecorded.saturated hafter
  case quiet =>
    intro changed hchanged hwaiting
    rcases mem_setPhase hchanged with ⟨other, hplace, hother⟩ | ⟨old, -, rfl⟩
    · have hne := name_ne_of_place_ne hrecorded.coherent.distinct hplace htask hother
      rw [hothers _ hne]
      exact hrecorded.quiet changed (List.mem_of_getElem? hother) hwaiting
    · cases phase <;> simp_all [Phase.isWaiting, Phase.isSettled]
  case spoken =>
    rw [plan_setPhase]
    intro entry hentry
    rcases List.mem_append.mp hentry with hold | hnew
    · exact hrecorded.spoken entry hold
    · obtain ⟨event, -, rfl⟩ := List.mem_map.mp hnew
      exact ⟨task.reset, mem_plan_of_mem hmem, event, rfl⟩
  case order =>
    rw [plan_setPhase]
    exact hrecorded.inOrder_append hmem hbefore events

/-- A notice tells nothing. -/
theorem notice {result : Option ρ} (hrecorded : schedule.Recorded voice name course log)
    (hbegin : ∀ node results, course node results (.active (begin results)) [])
    (hnotice : schedule.notice? begin index = some (next, result)) :
    next.Recorded voice name course log := by
  have hplan := plan_notice? hnotice
  obtain ⟨hcoherent, hsaturated⟩ := coherent_notice_of_waiting hrecorded.coherent
    (fun task htask hwaiting results => by
      rw [courseIn, ← hrecorded.name_eq htask, hrecorded.quiet task htask hwaiting]
      exact hbegin task.node results)
    hnotice
  constructor
  case named =>
    rw [hplan]
    exact hrecorded.named
  case noticed =>
    rw [hplan]
    obtain ⟨task, htask, -, rfl⟩ := notice?_cases hnotice
    intro key found hfound
    cases result with
    | none => exact hrecorded.noticed key found hfound
    | some value =>
        change (schedule.finished.insert task.name value).get? key = some found at hfound
        rw [Table.get?_insert] at hfound
        split at hfound
        · next hname => exact ⟨task.reset, mem_plan_of_mem (List.mem_of_getElem? htask), hname⟩
        · exact hrecorded.noticed key found hfound
  case coherent => exact hcoherent
  case saturated => exact hsaturated
  case quiet =>
    intro task htask hwaiting
    obtain ⟨place, hplace⟩ := List.mem_iff_getElem?.mp htask
    obtain ⟨old, hold, hcases⟩ := getElem?_of_notice? hnotice hplace
    -- A node that waits after the notice has waited before it.
    rcases hcases with rfl | ⟨-, rfl⟩ | ⟨-, results, rfl⟩
    · exact hrecorded.quiet task (List.mem_of_getElem? hold) hwaiting
    · cases hwaiting
    · cases hwaiting
  case spoken =>
    rw [hplan]
    exact hrecorded.spoken
  case order =>
    rw [hplan]
    exact hrecorded.order

/-- Everything that a node depends on, directly or through others, was noticed before the node was
released. -/
theorem exists_get?_of_transGen (hrecorded : schedule.Recorded voice name course log)
    {task : Task ν α ρ} (htask : task ∈ schedule.tasks) (hstarted : task.phase.isWaiting = false)
    {ancestor : String}
    (hancestor : Relation.TransGen schedule.precedence.Precedes ancestor task.name) :
    ∃ result, schedule.finished.get? ancestor = some result := by
  have hdirect : ∀ other ∈ schedule.tasks, other.phase.isWaiting = false → ∀ dependency,
      schedule.precedence.Precedes dependency other.name →
        ∃ result, schedule.finished.get? dependency = some result := by
    intro other hother hphase dependency hdependency
    rw [Precedence.Precedes, ← Task.reset_name other, before_precedence hrecorded.coherent.distinct
      (mem_plan_of_mem hother)] at hdependency
    exact isReady_iff.mp ((hrecorded.coherent.fits other hother).isReady_of_started hphase)
      dependency hdependency
  -- The induction is on the path.  A node with a result has started too, so it hands the fact on.
  induction hancestor using Relation.TransGen.head_induction_on with
  | single hdependency => exact hdirect task htask hstarted _ hdependency
  | head hdependency _ ih =>
      obtain ⟨result, hresult⟩ := ih
      obtain ⟨planned, hplanned, rfl⟩ := hrecorded.noticed _ _ hresult
      obtain ⟨other, hother, rfl⟩ := List.mem_map.mp hplanned
      refine hdirect other hother ?_ _ hdependency
      by_contra hwaiting
      rw [Bool.not_eq_false] at hwaiting
      rw [Task.reset_name,
        get?_eq_none_of_waiting (hrecorded.coherent.fits other hother) hwaiting] at hresult
      cases hresult

/-- The course may be exchanged for one that asks for less. -/
theorem mono {course' : ν → List ρ → Phase α ρ → List ε → Prop}
    (hrecorded : schedule.Recorded voice name course log)
    (hmono : ∀ node results phase events, course node results phase events →
      course' node results phase events) : schedule.Recorded voice name course' log where
  named := hrecorded.named
  noticed := hrecorded.noticed
  coherent := hrecorded.coherent.mono fun node results phase => hmono node results phase _
  saturated := hrecorded.saturated
  quiet := hrecorded.quiet
  spoken := hrecorded.spoken
  order := hrecorded.order

end Recorded

/-! ## When nothing is under way any more -/

/-- How a node stands in the end, with what is heard of it. -/
inductive Settles (course : ν → List ρ → Phase α ρ → List ε → Prop) (lost unreleased : ν → ρ)
    (finished : Table ρ) (task : Task ν α ρ) (events : List ε) : ρ → Prop
  | returned {result : ρ} (hready : isReady finished task = true)
      (hnoticed : finished.get? task.name = some result)
      (hcourse : course task.node (inputs finished task) (.returned result) events) :
      Settles course lost unreleased finished task events result
  | died (hready : isReady finished task = true) (hlost : finished.get? task.name = none)
      (hcourse : course task.node (inputs finished task) .died events) :
      Settles course lost unreleased finished task events (lost task.node)
  | unreleased (hblocked : isReady finished task = false)
      (hunnoticed : finished.get? task.name = none) (hquiet : events = []) :
      Settles course lost unreleased finished task events (unreleased task.node)

/-- If every node opens or is stopped, then a node was released with results on which it opens, or
it was stopped. -/
theorem Settles.opened_or {lost unreleased : ν → ρ} {finished : Table ρ} {task : Task ν α ρ}
    {events : List ε} {result : ρ} (opens : List ρ → Prop) (stopped : ρ → List ε → Prop)
    (hsettles : Settles course lost unreleased finished task events result)
    (hreturned : ∀ results result, course task.node results (.returned result) events →
      opens results ∨ stopped result events)
    (hdied : ∀ results, course task.node results .died events → opens results)
    (hunreleased : stopped (unreleased task.node) []) :
    (isReady finished task = true ∧ opens (inputs finished task)) ∨ stopped result events := by
  cases hsettles with
  | returned hready _ hcourse =>
      exact (hreturned _ _ hcourse).imp_left fun hopens => ⟨hready, hopens⟩
  | died hready _ hcourse => exact Or.inl ⟨hready, hdied _ hcourse⟩
  | unreleased _ _ hquiet => exact Or.inr (hquiet ▸ hunreleased)

/-- Every result that is given out belongs to what is heard of the node at its place. -/
theorem Recorded.forall₂_settles (hrecorded : schedule.Recorded voice name course log)
    (hsettled : schedule.isSettled = true) (lost unreleased : ν → ρ) :
    List.Forall₂
      (fun task result => Settles course lost unreleased schedule.finished task
        (voice.heard task.name log) result)
      schedule.plan (schedule.collect lost unreleased) := by
  have hexhausted : schedule.Exhausted (courseIn voice name course log) :=
    ⟨hrecorded.coherent, hrecorded.saturated, hsettled⟩
  rw [hexhausted.collect_eq, List.forall₂_map_right_iff, List.forall₂_same]
  intro planned hplanned
  obtain ⟨task, htask, rfl⟩ := List.mem_map.mp hplanned
  have hname := hrecorded.name_eq htask
  rcases hexhausted.cases htask with ⟨hready, -, hcourse⟩ | ⟨hblocked, hphase, hnone⟩
  · rw [courseIn, ← hname] at hcourse
    cases hnoticed : schedule.finished.get? task.name with
    | some result =>
        rw [hnoticed] at hcourse
        simp only [Task.reset_name, hnoticed, Option.getD_some]
        exact .returned hready hnoticed hcourse
    | none =>
        rw [hnoticed] at hcourse
        simp only [Task.reset_name, hnoticed, Option.getD_none, isReady_reset, hready, if_true]
        exact .died hready hnoticed hcourse
  · have hwaiting : task.phase.isWaiting = true := by rw [hphase]; rfl
    simp only [Task.reset_name, hnone, Option.getD_none, isReady_reset, hblocked,
      Bool.false_eq_true, if_false]
    exact .unreleased hblocked hnone (hrecorded.quiet task htask hwaiting)

/-- Behind a node that was released stand the results of all its dependencies, and they are given
out under their names. -/
theorem Recorded.exists_of_dependency (hrecorded : schedule.Recorded voice name course log)
    (hsettled : schedule.isSettled = true) (lost unreleased : ν → ρ) {label : ρ → String}
    (hlabel : ∀ node results result events,
      course node results (.returned result) events → label result = name node)
    {task : Task ν α ρ} (hready : isReady schedule.finished task = true) {dependency : String}
    (hdependency : dependency ∈ task.dependencies) :
    ∃ result ∈ inputs schedule.finished task,
      result ∈ schedule.collect lost unreleased ∧ label result = dependency := by
  obtain ⟨result, hfound⟩ := isReady_iff.mp hready dependency hdependency
  obtain ⟨other, hother, rfl⟩ := hrecorded.noticed dependency result hfound
  obtain ⟨place, hplace⟩ := List.mem_iff_getElem?.mp hother
  obtain ⟨given, hgiven, hsettles⟩ := exists_getElem?_of_forall₂
    (hrecorded.forall₂_settles hsettled lost unreleased) hplace
  -- The other node has returned the very result that was noticed under its name.
  cases hsettles with
  | returned _ hnoticed hcourse =>
      obtain rfl : result = given := Option.some.inj (hfound.symm.trans hnoticed)
      refine ⟨result, List.mem_filterMap.mpr ⟨other.name, hdependency, hfound⟩, ?_, ?_⟩
      · exact List.mem_of_getElem? hgiven
      · rw [hlabel _ _ _ _ hcourse, hrecorded.named other hother]
  | died _ hlost =>
      rw [hfound] at hlost
      cases hlost
  | unreleased _ hunnoticed =>
      rw [hfound] at hunnoticed
      cases hunnoticed

end Schedule
end BuildPipeline
