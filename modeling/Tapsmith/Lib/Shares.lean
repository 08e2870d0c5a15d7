import Mathlib.Algebra.BigOperators.Group.List.Basic
import Mathlib.Algebra.Order.BigOperators.Group.List
import Mathlib.Algebra.Order.Ring.Nat

namespace Lib.Shares

/-!
# Rounding shares down

A budget is divided in proportion to weights and every share is rounded down.

* `sum_floor_le` — the shares do not exceed the budget;
* `lt_sum_floor_add_length` — what they leave is less than one for each weight.
-/

theorem sum_ones {α : Type} (l : List α) : (l.map fun _ => 1).sum = l.length := by
  simp

/-- The budget times the weights, as shares and remainders. -/
theorem mul_sum_floor_add (budget total : ℕ) (weights : List ℕ) :
    total * (weights.map fun w => budget * w / total).sum +
      (weights.map fun w => budget * w % total).sum = budget * weights.sum := by
  induction weights with
  | nil => simp
  | cons w weights ih =>
    have hw := Nat.div_add_mod (budget * w) total
    simp only [List.map_cons, List.sum_cons, Nat.mul_add]
    omega

theorem sum_floor_le (budget : ℕ) {weights : List ℕ} (hpos : 0 < weights.sum) :
    (weights.map fun w => budget * w / weights.sum).sum ≤ budget := by
  have hsplit := mul_sum_floor_add budget weights.sum weights
  apply Nat.le_of_mul_le_mul_left _ hpos
  rw [Nat.mul_comm _ budget]
  omega

/-- Every remainder is less than the total. -/
theorem sum_mod_lt (budget : ℕ) {total : ℕ} (hpos : 0 < total) {weights : List ℕ}
    (hne : weights ≠ []) :
    (weights.map fun w => budget * w % total).sum < total * weights.length := by
  induction weights with
  | nil => exact absurd rfl hne
  | cons w weights ih =>
    have hw := Nat.mod_lt (budget * w) hpos
    rw [List.map_cons, List.sum_cons, List.length_cons, Nat.mul_add, Nat.mul_one]
    by_cases hnil : weights = []
    · subst hnil
      simpa using hw
    · have := ih hnil
      omega

/-- **The floor-sum bound.**  One more for each weight would exceed the budget. -/
theorem lt_sum_floor_add_length (budget : ℕ) (weights : List ℕ) (hpos : 0 < weights.sum) :
    budget < (weights.map fun w => budget * w / weights.sum).sum + weights.length := by
  have hne : weights ≠ [] := by
    rintro rfl
    exact absurd hpos (by simp)
  have hsplit := mul_sum_floor_add budget weights.sum weights
  have hmod := sum_mod_lt budget hpos hne
  apply Nat.lt_of_mul_lt_mul_left (a := weights.sum)
  rw [Nat.mul_add, Nat.mul_comm _ budget]
  omega

end Lib.Shares
