import BuildPipeline.Graph.Basic

/-!
# Stages in an order

Every stage counts the entries of its dependencies that are not placed yet.  The stages that wait
for nothing stand in a queue, first come, first served.  A stage that is placed is counted off
everywhere, and the stages whose count comes down to zero by that join the queue in the order of
their declaration.
-/

namespace BuildPipeline

/-- A stage with the number of its dependencies that are not placed yet.  One that is listed twice
counts twice. -/
structure Countdown where
  node : StageNode
  missing : Nat

namespace Countdown

def start (node : StageNode) : Countdown where
  node := node
  missing := node.dependencies.length

/-- Count off a stage that was placed.  Nothing if more would be taken away than is missing. -/
def countOff? (name : String) (countdown : Countdown) : Option Countdown :=
  if countdown.node.dependencies.count name ≤ countdown.missing then
    some { countdown with missing := countdown.missing - countdown.node.dependencies.count name }
  else none

/-- Whether a stage that was counted off was the last one to wait for. -/
def isOver (name : String) (countdown : Countdown) : Bool :=
  countdown.node.dependencies.contains name && countdown.missing == 0

theorem isOver_of_countOff? {name : String} {before after : Countdown}
    (hcounted : before.countOff? name = some after) :
    (if after.isOver name then 1 else 0) + (if 0 < after.missing then 1 else 0) =
      if 0 < before.missing then 1 else 0 := by
  unfold countOff? at hcounted
  split at hcounted
  · cases hcounted
    have hmem := List.count_pos_iff (a := name) (l := before.node.dependencies)
    by_cases hname : name ∈ before.node.dependencies
    · have hcount := hmem.mpr hname
      by_cases hlast : before.missing = before.node.dependencies.count name
      · simp [isOver, hname, hlast]
      · have hleft : 0 < before.missing - before.node.dependencies.count name := by omega
        have hbefore : 0 < before.missing := by omega
        simp [isOver, hleft, hbefore, Nat.ne_of_gt hleft]
    · have hcount : before.node.dependencies.count name = 0 := List.count_eq_zero.mpr hname
      simp [isOver, hname, hcount]
  · cases hcounted

/-- A stage that is counted off keeps waiting or joins the queue. -/
theorem countP_of_countOff? {name : String} {before after : List Countdown}
    (hcounted : before.mapM (countOff? name) = some after) :
    after.countP (isOver name) + after.countP (0 < ·.missing) =
      before.countP (0 < ·.missing) := by
  induction before generalizing after with
  | nil =>
    obtain rfl : [] = after := by simpa using hcounted
    rfl
  | cons countdown rest ih =>
    simp only [List.mapM_cons, Option.bind_eq_bind, Option.bind_eq_some_iff, Option.pure_def,
      Option.some.injEq] at hcounted
    obtain ⟨counted, hcountdown, others, hothers, rfl⟩ := hcounted
    have hrest := ih hothers
    have hhead := isOver_of_countOff? hcountdown
    simp only [List.countP_cons, decide_eq_true_eq]
    omega

/-- The stages that have nothing to wait for any more, in the order of declaration. -/
def opened (name : String) (countdowns : List Countdown) : List StageNode :=
  (countdowns.filter (isOver name)).map (·.node)

end Countdown

/-- Stages on their way into an order. -/
structure Placement where
  /-- All stages in the order of declaration. -/
  countdowns : List Countdown
  /-- The stages that can be placed, first come, first served. -/
  ready : List StageNode

namespace Placement

def start (stages : List StageNode) : Placement where
  countdowns := stages.map Countdown.start
  ready := stages.filter (·.dependencies.isEmpty)

/-- The stages in the order in which they are placed.  Nothing if a count would fall below zero. -/
def order? (placement : Placement) : Option (List StageNode) :=
  match _hready : placement.ready with
  | [] => some []
  | node :: ready =>
    match _hcounted : placement.countdowns.mapM (Countdown.countOff? node.name) with
    | none => none
    | some countdowns =>
      (order? ⟨countdowns, ready ++ Countdown.opened node.name countdowns⟩).map (node :: ·)
termination_by placement.ready.length + placement.countdowns.countP (0 < ·.missing)
decreasing_by
  have hsame := Countdown.countP_of_countOff? _hcounted
  simp only [_hready, Countdown.opened, List.length_append, List.length_map,
    ← List.countP_eq_length_filter, List.length_cons]
  omega

theorem order?_nil (countdowns : List Countdown) : order? ⟨countdowns, []⟩ = some [] := by
  rw [order?]

theorem order?_cons (countdowns : List Countdown) (node : StageNode) (ready : List StageNode) :
    order? ⟨countdowns, node :: ready⟩ =
      (countdowns.mapM (Countdown.countOff? node.name)).bind fun after =>
        (order? ⟨after, ready ++ Countdown.opened node.name after⟩).map (node :: ·) := by
  rw [order?]
  dsimp only
  split
  · next hcounted => rw [hcounted, Option.bind_none]
  · next hcounted => rw [hcounted, Option.bind_some]

end Placement

namespace Graph

/-- The stages, each after what it depends on.  Those that become ready together keep the order of
declaration. -/
def order? (graph : Graph) : Option (List StageNode) :=
  (Placement.start graph.stages).order?

/-- The names of the stages in their order. -/
def order (graph : Graph) : List String :=
  (graph.order?.getD []).map (·.name)

end Graph

end BuildPipeline
