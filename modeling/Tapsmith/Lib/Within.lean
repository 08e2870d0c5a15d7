import Mathlib

namespace Lib.Within

/-!
# The longest front within a budget

* `takeWithin` — elements are taken off the front while their costs fit;
* `takeWithin_spec` — what is taken, what is left, and that no more fits.
-/

variable {α : Type} (cost : α → ℕ)

def total (xs : List α) : ℕ := (xs.map cost).sum

/-- Elements off the front, with what has been used so far. -/
def takeWithin (budget : ℕ) : ℕ → List α → List α
  | _, [] => []
  | used, x :: xs =>
    if used + cost x > budget then [] else x :: takeWithin budget (used + cost x) xs

@[simp] theorem total_nil : total cost [] = 0 := rfl

@[simp] theorem total_cons (x : α) (xs : List α) : total cost (x :: xs) = cost x + total cost xs := by
  rw [total, total, List.map_cons, List.sum_cons]

@[simp] theorem total_append (xs ys : List α) :
    total cost (xs ++ ys) = total cost xs + total cost ys := by
  rw [total, total, total, List.map_append, List.sum_append]

theorem total_reverse (xs : List α) : total cost xs.reverse = total cost xs := by
  rw [total, total, List.map_reverse, List.sum_reverse]

/-- **What is taken** is within the budget, and the next element is not. -/
theorem takeWithin_spec (xs : List α) {budget used : ℕ} (hused : used ≤ budget) :
    ∃ rest, xs = takeWithin cost budget used xs ++ rest ∧
      used + total cost (takeWithin cost budget used xs) ≤ budget ∧
      ∀ y ∈ rest.head?, budget < used + total cost (takeWithin cost budget used xs) + cost y := by
  induction xs generalizing used with
  | nil =>
    refine ⟨[], rfl, hused, fun y hy => ?_⟩
    cases hy
  | cons x xs ih =>
    rw [takeWithin]
    split_ifs with hover
    · refine ⟨x :: xs, rfl, hused, fun y hy => ?_⟩
      obtain rfl := Option.some.inj hy
      exact hover
    · obtain ⟨rest, hrest, hfits, hnext⟩ := ih (Nat.le_of_not_lt hover)
      refine ⟨rest, by rw [List.cons_append, ← hrest], ?_, fun y hy => ?_⟩
      · rw [total_cons]
        omega
      · have hlt := hnext y hy
        rw [total_cons]
        omega

end Lib.Within
