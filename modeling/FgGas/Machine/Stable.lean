import Mathlib.Data.Nat.Init
import Mathlib.Logic.Function.Iterate

/-!
# Repeated until nothing changes

A step taken again and again until it changes nothing, as a `do` loop that compares what it has with
what it had. It ends where a measure falls with every step that changes something.
-/

namespace FgGas.Machine

universe u

variable {α : Type u} [DecidableEq α]

/-- The step, taken until it changes nothing; `none` where that needs more steps. -/
def untilStable (step : α → α) : ℕ → α → Option α
  | 0, _ => none
  | steps + 1, previous =>
      let current := step previous
      if current = previous then some current else untilStable step steps current

/-- With a measure that falls with every change, the loop ends, and where the step changes
nothing. -/
theorem untilStable_ends {step : α → α} (measure : α → ℕ)
    (hfalls : ∀ x, step x ≠ x → measure (step x) < measure x) (x : α) :
    ∃ n, step (step^[n] x) = step^[n] x ∧
      ∀ steps, measure x < steps → untilStable step steps x = some (step^[n] x) := by
  induction hm : measure x using Nat.strong_induction_on generalizing x with
  | h m ih =>
    subst hm
    by_cases hx : step x = x
    · refine ⟨0, hx, fun steps hsteps ↦ ?_⟩
      obtain ⟨steps, rfl⟩ := Nat.exists_eq_succ_of_ne_zero (Nat.ne_of_gt (Nat.zero_lt_of_lt hsteps))
      simp [untilStable, hx]
    · obtain ⟨n, hfixed, hends⟩ := ih _ (hfalls x hx) (step x) rfl
      refine ⟨n + 1, hfixed, fun steps hsteps ↦ ?_⟩
      obtain ⟨steps, rfl⟩ := Nat.exists_eq_succ_of_ne_zero (Nat.ne_of_gt (Nat.zero_lt_of_lt hsteps))
      have hless := hfalls x hx
      rw [untilStable, if_neg hx, hends steps (by omega), Function.iterate_succ_apply]

end FgGas.Machine
