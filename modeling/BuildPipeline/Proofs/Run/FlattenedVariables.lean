import BuildPipeline.Proofs.Run.OutputVariables
import BuildPipeline.Proofs.Run.ReadonlyVariables
import BuildPipeline.Proofs.Template.StructuredParameters

/-!
# Flattened variables

Conditions and macros read one table of all visible variables, a lookup goes through the scopes.
The two agree in every scope that can be reached.

A lookup goes from the innermost frame outwards and takes the first value it finds.  Flattening goes
the other way and lets every frame write over what the frames around it have written.  Tables of
frames have each name once, which is what a frame has to keep for that: `Environment.IsOrdered` is
the invariant, `ScopeMove.isOrdered_apply` the step lemma and `ScopeMove.isOrdered_run` the run
lemma; `Environment.get?_flatten` compares the two ways through the frames.
-/

namespace BuildPipeline

theorem Table.Ascending.union {α : Type} {lower : Table α} (hlower : Ascending lower)
    (upper : Table α) : Ascending (Table.union upper lower) :=
  Ascending.foldl_insert Prod.fst Prod.snd upper hlower

theorem Table.Ascending.get?_union {α : Type} {upper : Table α} (hupper : Ascending upper)
    (lower : Table α) (key : String) :
    (Table.union upper lower).get? key = (upper.get? key).or (lower.get? key) :=
  get?_foldl_insert_of_nodup hupper.nodup_keys lower key

namespace Environment

/-- Every frame has its variables in the order of their names. -/
def IsOrdered (environment : Environment) : Prop :=
  ∀ frame ∈ environment.frames, Table.Ascending frame.values

/-! ## Two ways through the frames -/

theorem ascending_flatten (environment : Environment) : Table.Ascending environment.flatten := by
  rw [flatten]
  induction environment.frames with
  | nil => exact List.Pairwise.nil
  | cons frame frames ih => exact ih.union frame.values

/-- Going inwards and writing over what is there gives what going outwards finds first. -/
theorem get?_flatten {environment : Environment} (hordered : environment.IsOrdered)
    (name : String) : environment.flatten.get? name = environment.get? name := by
  unfold IsOrdered at hordered
  rw [flatten, get?]
  generalize environment.frames = frames at hordered
  induction frames with
  | nil => rfl
  | cons frame frames ih =>
      obtain ⟨hframe, hframes⟩ := List.forall_mem_cons.mp hordered
      rw [List.foldr_cons, hframe.get?_union, ih hframes, List.findSome?_cons]
      cases frame.values.get? name <;> rfl

/-! ## Operations on one environment -/

theorem isOrdered_ofTable {values : Table String} (hvalues : Table.Ascending values) :
    (ofTable values).IsOrdered := by
  intro frame hframe
  rwa [List.mem_singleton.mp hframe]

namespace IsOrdered

variable {environment : Environment}

theorem child (hordered : environment.IsOrdered) : environment.child.IsOrdered := by
  intro frame hframe
  rcases List.mem_cons.mp hframe with rfl | houter
  · exact List.Pairwise.nil
  · exact hordered frame houter

theorem writeIfAllowed (hordered : environment.IsOrdered) (name value : String) (lock : Bool) :
    (environment.writeIfAllowed name value lock).IsOrdered := by
  rw [Environment.writeIfAllowed, write]
  split
  case h_1 written hwritten =>
      split at hwritten
      · cases hwritten
      · cases hwritten
        -- only the innermost frame is another one
        obtain ⟨hown, houter⟩ := List.forall_mem_cons.mp hordered
        exact List.forall_mem_cons.mpr ⟨hown.insert name value, houter⟩
  case h_2 => exact hordered

theorem declare (hordered : environment.IsOrdered) (base : Expression.Context)
    (vars : List Variable) : (environment.declare base vars).1.IsOrdered := by
  fun_induction Environment.declare base environment vars with
  | case1 => exact hordered
  | case2 _ _ _ _ ih => exact ih hordered
  | case3 => exact hordered
  | case4 _ name _ lock _ value _ ih => exact ih (hordered.writeIfAllowed name value lock)

end IsOrdered

end Environment

/-! ## A population of scopes -/

namespace ScopeMove

theorem isOrdered_modify {scopes : List OpenScope}
    (hordered : ∀ scope ∈ scopes, scope.environment.IsOrdered) (chosen : Nat)
    {change : Environment → Environment}
    (hchange : ∀ environment, environment.IsOrdered → (change environment).IsOrdered) :
    ∀ scope ∈ scopes.modify chosen fun scope =>
        { scope with environment := change scope.environment },
      scope.environment.IsOrdered := by
  intro scope hscope
  obtain ⟨place, hplace⟩ := List.mem_iff_getElem?.mp hscope
  rw [List.getElem?_modify] at hplace
  obtain ⟨before, hbefore, rfl⟩ := Option.map_eq_some_iff.mp hplace
  have hkept := hordered before (List.mem_of_getElem? hbefore)
  split
  · exact hchange _ hkept
  · exact hkept

theorem isOrdered_apply {scopes : List OpenScope}
    (hordered : ∀ scope ∈ scopes, scope.environment.IsOrdered) (move : ScopeMove) :
    ∀ scope ∈ apply scopes move, scope.environment.IsOrdered := by
  cases move with
  | write number name value lock =>
      exact isOrdered_modify hordered number fun _ hkept => hkept.writeIfAllowed name value lock
  | declare number base vars =>
      exact isOrdered_modify hordered number fun _ hkept => hkept.declare base vars
  | child number =>
      rw [apply]
      split
      · exact hordered
      · rename_i opener hopener
        intro scope hscope
        rcases List.mem_append.mp hscope with hold | hnew
        · exact hordered scope hold
        · rw [List.mem_singleton.mp hnew]
          exact (hordered opener (List.mem_of_getElem? hopener)).child

theorem isOrdered_run {scopes : List OpenScope}
    (hordered : ∀ scope ∈ scopes, scope.environment.IsOrdered) (moves : List ScopeMove) :
    ∀ scope ∈ run moves scopes, scope.environment.IsOrdered := by
  induction moves generalizing scopes with
  | nil => exact hordered
  | cons move rest ih => exact ih (isOrdered_apply hordered move)

/-- Scopes outside of all others, each with its first variables in any order. -/
def outermost (initial : List (List (String × String))) : List OpenScope :=
  initial.map fun entries => { environment := .ofTable (.ofList entries) }

theorem isOrdered_outermost (initial : List (List (String × String))) :
    ∀ scope ∈ outermost initial, scope.environment.IsOrdered := by
  intro scope hscope
  obtain ⟨entries, -, rfl⟩ := List.mem_map.mp hscope
  exact Environment.isOrdered_ofTable (Table.ascending_ofList entries)

end ScopeMove

/-- Take scopes outside of all others, and set, lock and declare variables in them and open scopes
within them, in any order and to any depth.  In every scope there is then, flattening gives each
name at most once and gives it the value that a lookup finds, and no value where a lookup finds
none; and this is the text that expressions see under the name. -/
theorem flattened_view_agrees_with_lookup (initial : List (List (String × String)))
    (moves : List ScopeMove) {scope : OpenScope}
    (hscope : scope ∈ ScopeMove.run moves (ScopeMove.outermost initial)) :
    scope.environment.flatten.keys.Nodup ∧
      (∀ name, scope.environment.flatten.get? name = scope.environment.get? name) ∧
      (∀ name value, (name, value) ∈ scope.environment.flatten ↔
        scope.environment.get? name = some value) ∧
      ∀ (context : Expression.Context) (name : String),
        (context.withVariables scope.environment.flatten).vars.get? name =
          (scope.environment.get? name).map Expression.Value.string := by
  have hordered : scope.environment.IsOrdered :=
    ScopeMove.isOrdered_run (ScopeMove.isOrdered_outermost initial) moves scope hscope
  have hkeys : scope.environment.flatten.keys.Nodup :=
    scope.environment.ascending_flatten.nodup_keys
  refine ⟨hkeys, Environment.get?_flatten hordered, fun name value => ?_, fun context name => ?_⟩
  · rw [← Environment.get?_flatten hordered, Table.get?_eq_some_iff hkeys]
  · rw [Expression.Context.withVariables, Table.get?_mapValues, Environment.get?_flatten hordered]

namespace ScopeMove

/-- Three scopes in one another: a variable is set in each of them, one in the outer two and one in
the outermost alone, where it is also locked. -/
def nested : List ScopeMove :=
  [.write 0 "region" "eu" true, .child 0, .write 1 "target" "tests" false,
    .write 1 "config" "Release" false, .child 1, .write 2 "region" "us" false,
    .declare 2 {} [.definition "config" "Profile" false]]

end ScopeMove

theorem flattened_view_agrees_with_lookup_nested :
    ∃ scope, scope ∈ ScopeMove.run ScopeMove.nested
        (ScopeMove.outermost [[("target", "all"), ("config", "Debug")]]) ∧
      scope.environment.get? "config" = some "Profile" ∧
      ("config", "Profile") ∈ scope.environment.flatten ∧
      ("config", "Release") ∉ scope.environment.flatten ∧
      ("target", "tests") ∈ scope.environment.flatten ∧
      scope.environment.flatten.get? "region" = some "eu" := by
  have hscope : (ScopeMove.run ScopeMove.nested
      (ScopeMove.outermost [[("target", "all"), ("config", "Debug")]]))[2] ∈
        ScopeMove.run ScopeMove.nested
          (ScopeMove.outermost [[("target", "all"), ("config", "Debug")]]) :=
    List.getElem_mem _
  obtain ⟨-, hget, hmem, -⟩ := flattened_view_agrees_with_lookup _ _ hscope
  refine ⟨_, hscope, by decide +kernel, (hmem _ _).mpr (by decide +kernel),
    fun hother => ?_, (hmem _ _).mpr (by decide +kernel), (hget _).trans (by decide +kernel)⟩
  have hfound := (hmem _ _).mp hother
  revert hfound
  decide +kernel

end BuildPipeline
