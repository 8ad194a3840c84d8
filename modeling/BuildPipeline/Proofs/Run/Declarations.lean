import BuildPipeline.Proofs.Run.ReadonlyVariables

/-!
# Declaring variables in order

Declarations are applied one after the other.  A name has the value that was declared last, unless
an earlier declaration has locked it.

* `declare_append` cuts the declarations, as long as the first part does not fail.
* `get?_declare_of_not_mem` and `isReadonly_declare` are what declarations leave alone.
* `get?_declare_of_last`: a declaration that is not refused and not overwritten decides the value.
-/

namespace BuildPipeline

namespace Environment

variable {environment : Environment} {base : Expression.Context} {name : String}

theorem declare_append {before : List Variable} (after : List Variable)
    (hbefore : (environment.declare base before).2 = none) :
    environment.declare base (before ++ after) =
      (environment.declare base before).1.declare base after := by
  fun_induction Environment.declare base environment before with
  | case1 => rfl
  | case2 _ _ _ _ ih => exact ih hbefore
  | case3 => cases hbefore
  | case4 environment other text lock rest content hcontent ih =>
      rw [List.cons_append, declare, hcontent]
      exact ih hbefore

theorem write_eq_ok (value : String) (lock : Bool)
    (hopen : environment.isReadonly name = false) :
    environment.write name value lock = .ok (environment.writeIfAllowed name value lock) := by
  rw [writeIfAllowed, write, if_neg (by rw [hopen]; exact Bool.false_ne_true)]

/-- Writing one name leaves the others alone. -/
theorem get?_writeIfAllowed_of_ne {other : String} (value : String) (lock : Bool)
    (hother : other ≠ name) :
    (environment.writeIfAllowed other value lock).get? name = environment.get? name := by
  rw [writeIfAllowed]
  cases hwritten : environment.write other value lock with
  | error error => rfl
  | ok written => exact (get?_write hwritten name).trans (if_neg hother)

theorem get?_declare_of_not_mem {vars : List Variable}
    (hother : ∀ value lock, .definition name value lock ∉ vars) :
    (environment.declare base vars).1.get? name = environment.get? name := by
  fun_induction Environment.declare base environment vars with
  | case1 => rfl
  | case2 _ _ _ _ ih =>
      exact ih fun value lock hmem => hother value lock (List.mem_cons_of_mem _ hmem)
  | case3 => rfl
  | case4 environment other text lock rest content _ ih =>
      have hne : other ≠ name := by
        rintro rfl
        exact hother text lock List.mem_cons_self
      rw [ih fun value lock hmem => hother value lock (List.mem_cons_of_mem _ hmem),
        get?_writeIfAllowed_of_ne content lock hne]

/-- A name is locked by a read-only definition of it only. -/
theorem isReadonly_declare {vars : List Variable}
    (hunlocked : ∀ value, .definition name value true ∉ vars)
    (hopen : environment.isReadonly name = false) :
    (environment.declare base vars).1.isReadonly name = false := by
  fun_induction Environment.declare base environment vars with
  | case1 => exact hopen
  | case2 _ _ _ _ ih =>
      exact ih (fun value hmem => hunlocked value (List.mem_cons_of_mem _ hmem)) hopen
  | case3 => exact hopen
  | case4 environment other text lock rest content _ ih =>
      refine ih (fun value hmem => hunlocked value (List.mem_cons_of_mem _ hmem)) ?_
      rw [writeIfAllowed]
      cases hwritten : environment.write other content lock with
      | error error => exact hopen
      | ok written =>
          have hnew : (lock && other == name) = false := by
            rw [← Bool.not_eq_true, Bool.and_eq_true, beq_iff_eq]
            rintro ⟨rfl, rfl⟩
            exact hunlocked text List.mem_cons_self
          exact (isReadonly_write hwritten name).trans (by rw [hnew, hopen]; rfl)

/-- A variable has the value of a definition without runtime spans, if no earlier one has locked the
name, and if no later one sets it again or the definition locks it. -/
theorem get?_declare_of_last {earlier later : List Variable} {value : String} {lock : Bool}
    (hearlier : (declare base {} earlier).2 = none)
    (hunlocked : ∀ other, .definition name other true ∉ earlier)
    (hlast : lock = true ∨ ∀ other lock, .definition name other lock ∉ later)
    (hplain : Text.contains value "$[" = false) :
    (declare base {} (earlier ++ .definition name value lock :: later)).1.get? name =
      some value := by
  have hopen : (declare base {} earlier).1.isReadonly name = false :=
    isReadonly_declare hunlocked rfl
  have hwritten := write_eq_ok value lock hopen
  rw [declare_append _ hearlier, declare, Expression.substituteRuntime, hplain]
  rcases hlast with rfl | hlater
  · exact ((holds_of_write hwritten).declare base later).value_eq
  · exact (get?_declare_of_not_mem hlater).trans
      ((get?_write hwritten name).trans (if_pos rfl))

end Environment

end BuildPipeline
