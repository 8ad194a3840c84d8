import Mathlib.Tactic.Common

/-!
# Steps that succeed

What can be told of a step from the outcome of the steps that it is a part of.
-/

namespace BuildPipeline

variable {ε α β : Type} {outcome : Except ε α} {result : β}

/-- Two steps succeed where the first one does, and the second one does on its value. -/
theorem bind_eq_ok_iff {next : α → Except ε β} :
    outcome >>= next = .ok result ↔ ∃ value, outcome = .ok value ∧ next value = .ok result := by
  cases outcome with
  | error error => simp [bind, Except.bind]
  | ok value => simp [bind, Except.bind]

theorem exists_of_map_eq_ok {f : α → β} (houtcome : outcome.map f = .ok result) :
    ∃ value, outcome = .ok value ∧ f value = result := by
  cases outcome with
  | error error => cases houtcome
  | ok value => exact ⟨value, rfl, Except.ok.inj houtcome⟩

theorem eq_ok_of_toOption {value : α} (hoption : outcome.toOption = some value) :
    outcome = .ok value := by
  cases outcome with
  | error error => cases hoption
  | ok other => exact congrArg _ (Option.some.inj hoption)

theorem mapError_eq_ok_iff {ε' : Type} {value : α} {f : ε → ε'} :
    outcome.mapError f = .ok value ↔ outcome = .ok value := by
  cases outcome <;> simp [Except.mapError]

end BuildPipeline
