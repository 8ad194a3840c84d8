import BuildPipeline.Run.Environment

/-!
# Read-only variables

A read-only name is settled: whatever is written, declared or opened later, the scope that has it
read-only and the scopes opened in that scope read the same value under it.

A scope does not know the scopes opened in it, since each of them starts from a copy of the frames
around it.  The statement is therefore about a population of scopes, numbered in the order of
opening, each with the numbers of the scopes it stands in.  An operation acts on one scope of the
population, and opening one adds a scope at the end.

* `Environment.Holds` is the property of one environment that carries the argument: the name is
  read-only there and has this value.  Each operation on an environment preserves it
  (`Holds.writeIfAllowed`, `Holds.declare`, `Holds.child`), and it refuses all writes of the name
  (`Holds.write_eq`).
* `OpenScope.IsWithin` says that a scope is the given one, or was opened in it later, at any depth.
* `ScopeMove.keepsHolding_apply` is the step lemma, `ScopeMove.keepsHolding_run` the run lemma, and
  `readonly_value_settled` what they give for a scope that has the name read-only.
-/

namespace BuildPipeline

namespace Environment

/-! ## One environment -/

/-- The name is read-only in the environment, where it has this value. -/
structure Holds (environment : Environment) (name : String) (value : Option String) : Prop where
  locked : environment.isReadonly name = true
  value_eq : environment.get? name = value

theorem get?_write {environment written : Environment} {name value : String} {lock : Bool}
    (hwritten : environment.write name value lock = .ok written) (other : String) :
    written.get? other = if name = other then some value else environment.get? other := by
  unfold write at hwritten
  split at hwritten
  · cases hwritten
  · cases hwritten
    simp only [get?, frames, List.findSome?_cons, Table.get?_insert]
    by_cases hname : name = other
    · simp only [if_pos hname]
    · simp only [if_neg hname]

theorem isReadonly_write {environment written : Environment} {name value : String} {lock : Bool}
    (hwritten : environment.write name value lock = .ok written) (other : String) :
    written.isReadonly other = (lock && name == other || environment.isReadonly other) := by
  unfold write at hwritten
  split at hwritten
  · cases hwritten
  · cases hwritten
    cases lock with
    | false => simp [isReadonly, frames]
    | true =>
        simp only [isReadonly, frames, List.any_cons, if_pos, List.contains_cons, Bool.true_and,
          Bool.or_assoc]
        rw [BEq.comm]

/-- A locking write that is accepted leaves the name read-only with the value written. -/
theorem holds_of_write {environment written : Environment} {name value : String}
    (hwritten : environment.write name value true = .ok written) :
    written.Holds name (some value) where
  locked := by simp [isReadonly_write hwritten]
  value_eq := by simp [get?_write hwritten]

namespace Holds

variable {environment : Environment} {name : String} {value : Option String}

theorem write_eq (hholds : environment.Holds name value) (new : String) (lock : Bool) :
    environment.write name new lock = .error ⟨name⟩ := by
  rw [write, if_pos hholds.locked]

theorem writeIfAllowed_eq (hholds : environment.Holds name value) (new : String) (lock : Bool) :
    environment.writeIfAllowed name new lock = environment := by
  rw [writeIfAllowed, hholds.write_eq]

theorem writeIfAllowed (hholds : environment.Holds name value) (other new : String)
    (lock : Bool) : (environment.writeIfAllowed other new lock).Holds name value := by
  cases hwritten : environment.write other new lock with
  | error error => rwa [Environment.writeIfAllowed, hwritten]
  | ok written =>
      -- an accepted write is of another name, as a write of this one is refused
      have hother : other ≠ name := by
        rintro rfl
        rw [hholds.write_eq] at hwritten
        cases hwritten
      rw [Environment.writeIfAllowed, hwritten]
      constructor
      · rw [isReadonly_write hwritten, hholds.locked, Bool.or_true]
      · rw [get?_write hwritten, if_neg hother, hholds.value_eq]

theorem declare (hholds : environment.Holds name value) (base : Expression.Context)
    (vars : List Variable) : (environment.declare base vars).1.Holds name value := by
  fun_induction Environment.declare base environment vars with
  | case1 => exact hholds
  | case2 _ _ _ _ ih => exact ih hholds
  | case3 => exact hholds
  | case4 _ other _ lock _ new _ ih => exact ih (hholds.writeIfAllowed other new lock)

theorem child (hholds : environment.Holds name value) : environment.child.Holds name value where
  locked := by simpa [Environment.child, isReadonly, frames] using hholds.locked
  value_eq := by
    simpa [Environment.child, get?, frames, List.findSome?_cons, Table.get?]
      using hholds.value_eq

end Holds

end Environment

/-! ## A population of scopes -/

/-- An open scope: its variables, and the numbers of the scopes it stands in, the innermost
first. -/
structure OpenScope where
  environment : Environment
  line : List Nat := []

/-- The scope with this number is `outer`, or was opened in it, directly or in a scope within it,
after the first `count` scopes. -/
def OpenScope.IsWithin (scope : OpenScope) (number outer count : Nat) : Prop :=
  ∃ inner rest, number :: scope.line = inner ++ outer :: rest ∧ ∀ between ∈ inner, count ≤ between

/-- An operation on one of the open scopes. -/
inductive ScopeMove where
  | write (number : Nat) (name value : String) (lock : Bool)
  | declare (number : Nat) (base : Expression.Context) (vars : List Variable)
  | child (number : Nat)

namespace ScopeMove

/-- What an operation leaves of the open scopes.  A refused write leaves them as they are. -/
def apply (scopes : List OpenScope) : ScopeMove → List OpenScope
  | .write number name value lock =>
    scopes.modify number fun scope =>
      { scope with environment := scope.environment.writeIfAllowed name value lock }
  | .declare number base vars =>
    scopes.modify number fun scope =>
      { scope with environment := (scope.environment.declare base vars).1 }
  | .child number =>
    match scopes[number]? with
    | none => scopes
    | some scope =>
      scopes ++ [{ environment := scope.environment.child, line := number :: scope.line }]

def run (moves : List ScopeMove) (scopes : List OpenScope) : List OpenScope :=
  moves.foldl apply scopes

theorem length_le_apply (scopes : List OpenScope) (move : ScopeMove) :
    scopes.length ≤ (apply scopes move).length := by
  cases move with
  | write => simp [apply]
  | declare => simp [apply]
  | child number =>
      rw [apply]
      split <;> simp

/-- All scopes within `outer` since the first `count` hold the name at this value. -/
def KeepsHolding (outer count : Nat) (name : String) (value : Option String)
    (scopes : List OpenScope) : Prop :=
  ∀ (number : Nat) (scope : OpenScope), scopes[number]? = some scope →
    scope.IsWithin number outer count → scope.environment.Holds name value

variable {outer count : Nat} {name : String} {value : Option String} {scopes : List OpenScope}

/-- An operation that changes one environment in a way that preserves the name changes no scope's
place in the population. -/
theorem keepsHolding_modify (hkeeps : KeepsHolding outer count name value scopes)
    (chosen : Nat) {change : Environment → Environment}
    (hchange : ∀ environment, environment.Holds name value →
      (change environment).Holds name value) :
    KeepsHolding outer count name value
      (scopes.modify chosen fun scope =>
        { scope with environment := change scope.environment }) := by
  intro number scope hscope hwithin
  rw [List.getElem?_modify] at hscope
  obtain ⟨before, hbefore, rfl⟩ := Option.map_eq_some_iff.mp hscope
  split at hwithin
  · rw [if_pos ‹_›]
    exact hchange _ (hkeeps number before hbefore hwithin)
  · rw [if_neg ‹_›]
    exact hkeeps number before hbefore hwithin

theorem keepsHolding_apply (hkeeps : KeepsHolding outer count name value scopes)
    (hcount : count ≤ scopes.length) (houter : outer < count) (move : ScopeMove) :
    KeepsHolding outer count name value (apply scopes move) := by
  cases move with
  | write number other new lock =>
      exact keepsHolding_modify hkeeps number fun _ hholds => hholds.writeIfAllowed other new lock
  | declare number base vars =>
      exact keepsHolding_modify hkeeps number fun _ hholds => hholds.declare base vars
  | child parent =>
      rw [apply]
      split
      · exact hkeeps
      · rename_i opener hopener
        intro number scope hscope hwithin
        rw [List.getElem?_append] at hscope
        split at hscope
        · exact hkeeps number scope hscope hwithin
        · -- the new scope is within `outer` only through the scope it was opened in
          rename_i hnew
          obtain ⟨hnumber, rfl⟩ : number - scopes.length = 0 ∧ _ := by
            simpa [List.getElem?_singleton] using hscope
          obtain ⟨inner, rest, hline, hlater⟩ := hwithin
          cases inner with
          | nil =>
              obtain ⟨rfl, -⟩ := List.cons_eq_cons.mp hline
              omega
          | cons first inner =>
              obtain ⟨-, hline⟩ := List.cons_eq_cons.mp hline
              have hopenerWithin : opener.IsWithin parent outer count :=
                ⟨inner, rest, hline, fun between hbetween =>
                  hlater between (List.mem_cons_of_mem first hbetween)⟩
              exact (hkeeps parent opener hopener hopenerWithin).child

theorem keepsHolding_run (hkeeps : KeepsHolding outer count name value scopes)
    (hcount : count ≤ scopes.length) (houter : outer < count) (moves : List ScopeMove) :
    KeepsHolding outer count name value (run moves scopes) := by
  induction moves generalizing scopes with
  | nil => exact hkeeps
  | cons move rest ih =>
      exact ih (keepsHolding_apply hkeeps hcount houter move)
        (Nat.le_trans hcount (length_le_apply scopes move))

/-- A refused write changes nothing. -/
theorem apply_write_eq {number : Nat} {scope : OpenScope} (hscope : scopes[number]? = some scope)
    (hholds : scope.environment.Holds name value) (new : String) (lock : Bool) :
    apply scopes (.write number name new lock) = scopes := by
  apply List.ext_getElem?
  intro place
  rw [apply, List.getElem?_modify]
  split
  · rename_i hplace
    subst hplace
    simp [hscope, hholds.writeIfAllowed_eq]
  · simp

/-- A scope with the name read-only is, when it becomes so, the only one to consider: all other
scopes within it are opened later. -/
theorem keepsHolding_of_holds {opened : OpenScope} (hopened : scopes[outer]? = some opened)
    (hholds : opened.environment.Holds name value) :
    KeepsHolding outer scopes.length name value scopes := by
  intro number scope hscope hwithin
  obtain ⟨inner, rest, hline, hlater⟩ := hwithin
  cases inner with
  | nil =>
      obtain ⟨rfl, -⟩ := List.cons_eq_cons.mp hline
      obtain rfl : opened = scope := Option.some.inj (hopened.symm.trans hscope)
      exact hholds
  | cons first inner =>
      obtain ⟨rfl, -⟩ := List.cons_eq_cons.mp hline
      have hold : number < scopes.length := (List.getElem?_eq_some_iff.mp hscope).1
      have hnew : scopes.length ≤ number := hlater number (List.mem_cons_self ..)
      omega

end ScopeMove

/-- A read-only name is settled.  Take any open scopes, one of which has the name read-only, and
apply any operations to any of them and of those opened meanwhile.  Then in that scope and in every
scope opened in it since, at any depth, the name has the value it had and is read-only; and a write
of it there, locking or not, is refused and changes no scope. -/
theorem readonly_value_settled {scopes : List OpenScope} {outer : Nat} {opened : OpenScope}
    {name : String} (hopened : scopes[outer]? = some opened)
    (hlocked : opened.environment.isReadonly name = true) (moves : List ScopeMove)
    {number : Nat} {scope : OpenScope}
    (hscope : (ScopeMove.run moves scopes)[number]? = some scope)
    (hwithin : scope.IsWithin number outer scopes.length) :
    scope.environment.get? name = opened.environment.get? name ∧
      scope.environment.isReadonly name = true ∧
      ∀ new lock, scope.environment.write name new lock = .error ⟨name⟩ ∧
        ScopeMove.apply (ScopeMove.run moves scopes) (.write number name new lock) =
          ScopeMove.run moves scopes := by
  have houter : outer < scopes.length := (List.getElem?_eq_some_iff.mp hopened).1
  have hholds : scope.environment.Holds name (opened.environment.get? name) :=
    ScopeMove.keepsHolding_run (ScopeMove.keepsHolding_of_holds hopened ⟨hlocked, rfl⟩)
      (Nat.le_refl _) houter moves number scope hscope hwithin
  exact ⟨hholds.value_eq, hholds.locked, fun new lock =>
    ⟨hholds.write_eq new lock, ScopeMove.apply_write_eq hscope hholds new lock⟩⟩

namespace ScopeMove

/-- A scope has set a version, opened a scope and then locked another version. -/
def pinned : List OpenScope :=
  run [.write 0 "version" "1.0" false, .child 0, .write 0 "version" "2.0" true]
    [{ environment := {} }]

/-- Two scopes are opened in one another, and the inner one declares a version of its own; the
scope opened before the version was locked writes its own as well. -/
def overrides : List ScopeMove :=
  [.child 0, .write 2 "region" "eu" false, .child 2,
    .declare 3 {} [.definition "version" "3.0" true, .definition "region" "us" false],
    .write 1 "version" "4.0" true, .write 0 "region" "asia" true]

end ScopeMove

theorem readonly_value_settled_pinned :
    ∃ opened scope : OpenScope, ScopeMove.pinned[0]? = some opened ∧
      opened.environment.isReadonly "version" = true ∧
      (ScopeMove.run ScopeMove.overrides ScopeMove.pinned)[3]? = some scope ∧
      scope.IsWithin 3 0 2 ∧ scope.environment.get? "region" = some "us" ∧
      scope.environment.get? "version" = some "2.0" ∧
      scope.environment.isReadonly "version" = true ∧
      scope.environment.write "version" "5.0" true = .error ⟨"version"⟩ := by
  have hopened : ScopeMove.pinned[0]? = some ScopeMove.pinned[0] := rfl
  have hpinned : ScopeMove.pinned[0].environment.isReadonly "version" = true := by decide +kernel
  have hscope : (ScopeMove.run ScopeMove.overrides ScopeMove.pinned)[3]? =
      some (ScopeMove.run ScopeMove.overrides ScopeMove.pinned)[3] := rfl
  have hwithin : (ScopeMove.run ScopeMove.overrides ScopeMove.pinned)[3].IsWithin 3 0 2 :=
    ⟨[3, 2], [], rfl, by decide⟩
  obtain ⟨hvalue, hlocked, hrefused⟩ :=
    readonly_value_settled hopened hpinned ScopeMove.overrides hscope hwithin
  exact ⟨_, _, hopened, hpinned, hscope, hwithin, by decide +kernel, hvalue, hlocked,
    (hrefused "5.0" true).1⟩

end BuildPipeline
