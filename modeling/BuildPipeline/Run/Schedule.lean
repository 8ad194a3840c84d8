import BuildPipeline.Table

/-!
# Schedules

Nodes that wait for one another.  A node is released once everything it depends on has ended and
been noticed; what ended is noticed one at a time, in any order.  The stages of a pipeline and the
jobs of a stage are schedules alike.
-/

namespace BuildPipeline

/-- How far a node is, with the work it is doing or the result of it. -/
inductive Phase (α ρ : Type) where
  /-- Until all dependencies are noticed. -/
  | waiting
  | active (work : α)
  /-- Ended and not noticed yet. -/
  | returned (result : ρ)
  /-- Ended without a result and not noticed yet. -/
  | died
  /-- Ended and noticed. -/
  | closed

namespace Phase

variable {α ρ : Type}

def isWaiting : Phase α ρ → Bool
  | waiting => true
  | _ => false

/-- Whether nothing remains to be noticed. -/
def isSettled : Phase α ρ → Bool
  | waiting | closed => true
  | _ => false

end Phase

structure Task (ν α ρ : Type) where
  name : String
  dependencies : List String
  node : ν
  phase : Phase α ρ := .waiting

structure Schedule (ν α ρ : Type) where
  tasks : List (Task ν α ρ)
  /-- The results that were noticed, by name. -/
  finished : Table ρ := []

namespace Schedule

variable {ν α ρ : Type}

/-- Release a waiting node whose dependencies have all finished, with their results. -/
def releaseTask (begin : List ρ → α) (finished : Table ρ) (task : Task ν α ρ) : Task ν α ρ :=
  if task.phase.isWaiting && task.dependencies.all (finished.contains ·) then
    { task with phase := .active (begin (task.dependencies.filterMap (finished.get? ·))) }
  else task

def release (begin : List ρ → α) (schedule : Schedule ν α ρ) : Schedule ν α ρ :=
  { schedule with tasks := schedule.tasks.map (releaseTask begin schedule.finished) }

def setPhase (schedule : Schedule ν α ρ) (index : Nat) (phase : Phase α ρ) : Schedule ν α ρ :=
  { schedule with tasks := schedule.tasks.modify index fun task => { task with phase } }

/-- Notice that a node has ended.  The result of one that died is lost, so nothing that depends on
it is ever released. -/
def notice? (begin : List ρ → α) (index : Nat) (schedule : Schedule ν α ρ) :
    Option (Schedule ν α ρ × Option ρ) := do
  let task ← schedule.tasks[index]?
  match task.phase with
  | .returned result =>
    let noticed := { schedule.setPhase index .closed with
      finished := schedule.finished.insert task.name result }
    return (noticed.release begin, some result)
  | .died => return ((schedule.setPhase index .closed).release begin, none)
  | _ => none

/-- Whether nothing is under way any more. -/
def isSettled (schedule : Schedule ν α ρ) : Bool :=
  schedule.tasks.all (·.phase.isSettled)

/-- Whether a node with the name was released. -/
def wasReleased (schedule : Schedule ν α ρ) (name : String) : Bool :=
  schedule.tasks.any fun task => task.name == name && !task.phase.isWaiting

/-- One result for each of some tasks: the one that was noticed, or a substitute for a node that
died or was never released.  A result is given out once. -/
def collectFrom (lost unreleased : ν → ρ) (schedule : Schedule ν α ρ) (finished : Table ρ) :
    List (Task ν α ρ) → List ρ
  | [] => []
  | task :: rest =>
    match finished.get? task.name with
    | some result => result :: collectFrom lost unreleased schedule (finished.erase task.name) rest
    | none =>
      (if schedule.wasReleased task.name then lost task.node else unreleased task.node) ::
        collectFrom lost unreleased schedule finished rest

def collect (lost unreleased : ν → ρ) (schedule : Schedule ν α ρ) : List ρ :=
  collectFrom lost unreleased schedule schedule.finished schedule.tasks

end Schedule

end BuildPipeline
