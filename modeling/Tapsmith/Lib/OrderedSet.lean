import Mathlib.Data.List.Nodup

namespace Lib.OrderedSet

/-!
# Sets that remember the order of insertion

A set is the list of its elements in the order in which they were first added.

* `mem_addAll`, `nodup_addAll` — the elements, each once;
* `addAll_of_nodup` — adding distinct new elements appends them.
-/

variable {α : Type} [DecidableEq α] {set elems : List α} {a : α}

/-- Add one element after the other. -/
def addAll (set elems : List α) : List α :=
  elems.foldl (fun set a => if a ∈ set then set else set ++ [a]) set

theorem addAll_cons : addAll set (a :: elems) =
    addAll (if a ∈ set then set else set ++ [a]) elems := rfl

@[simp] theorem mem_addAll : a ∈ addAll set elems ↔ a ∈ set ∨ a ∈ elems := by
  induction elems generalizing set with
  | nil => simp [addAll]
  | cons b elems ih =>
    rw [addAll_cons, ih, List.mem_cons]
    by_cases hb : b ∈ set
    · rw [if_pos hb]
      constructor
      · rintro (h | h)
        · exact .inl h
        · exact .inr (.inr h)
      · rintro (h | rfl | h)
        · exact .inl h
        · exact .inl hb
        · exact .inr h
    · rw [if_neg hb, List.mem_append, List.mem_singleton, or_assoc]

theorem nodup_addAll (h : set.Nodup) : (addAll set elems).Nodup := by
  induction elems generalizing set with
  | nil => exact h
  | cons b elems ih =>
    rw [addAll_cons]
    apply ih
    by_cases hb : b ∈ set
    · rw [if_pos hb]
      exact h
    · rw [if_neg hb, List.nodup_append]
      refine ⟨h, List.nodup_singleton b, ?_⟩
      rintro a ha c hc rfl
      exact hb (List.mem_singleton.mp hc ▸ ha)

/-- Distinct elements are appended as they are, where none of them is in the set yet. -/
theorem addAll_of_nodup (h : (set ++ elems).Nodup) : addAll set elems = set ++ elems := by
  induction elems generalizing set with
  | nil => exact (List.append_nil set).symm
  | cons b elems ih =>
    have hb : b ∉ set := by
      intro hmem
      exact (List.nodup_append.mp h).2.2 b hmem b List.mem_cons_self rfl
    rw [addAll_cons, if_neg hb, ih (by rwa [List.append_assoc, List.singleton_append]),
      List.append_assoc, List.singleton_append]

end Lib.OrderedSet
