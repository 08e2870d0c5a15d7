import Mathlib.Algebra.BigOperators.Group.List.Basic
import Mathlib.Algebra.Order.BigOperators.Group.List
import Mathlib.Algebra.Order.Ring.Nat

namespace Lib.Tally

/-!
# Tallies over a list of parties

What the parties of a system hold between them, and how it changes when one of them does.

* `tally_change` — a tally changes by what the changed party's share changes by;
* `tally_eq_length_iff` — a headcount is complete just if everybody is counted;
* `countP_lt_countP` — fewer are counted where one drops out and nobody comes in.
-/

variable {ι : Type} {parties : List ι} {f g : ι → ℕ}

/-- The sum of the shares of all parties. -/
def tally (parties : List ι) (share : ι → ℕ) : ℕ :=
  (parties.map share).sum

theorem tally_cons (i : ι) : tally (i :: parties) f = f i + tally parties f := by
  rw [tally, List.map_cons, List.sum_cons]
  rfl

theorem tally_congr (h : ∀ i ∈ parties, f i = g i) : tally parties f = tally parties g :=
  congrArg List.sum (List.map_congr_left h)

theorem tally_eq_zero (h : ∀ i ∈ parties, f i = 0) : tally parties f = 0 := by
  induction parties with
  | nil => rfl
  | cons i parties ih =>
    rw [tally_cons, h i List.mem_cons_self, ih fun j hj => h j (List.mem_cons_of_mem i hj)]

/-- **One party changes.**  The tally changes by as much as its share. -/
theorem tally_change {i : ι} (hnodup : parties.Nodup) (hi : i ∈ parties)
    (hothers : ∀ j ∈ parties, j ≠ i → f j = g j) :
    tally parties f + g i = tally parties g + f i := by
  induction parties with
  | nil => exact absurd hi List.not_mem_nil
  | cons j parties ih =>
    obtain ⟨hj, hnodup⟩ := List.nodup_cons.mp hnodup
    rw [tally_cons, tally_cons]
    rcases List.mem_cons.mp hi with rfl | hi
    · have hrest : tally parties f = tally parties g := by
        apply tally_congr
        intro k hk
        apply hothers k (List.mem_cons_of_mem i hk)
        rintro rfl
        exact hj hk
      omega
    · have hij : j ≠ i := by
        rintro rfl
        exact hj hi
      have hhead := hothers j List.mem_cons_self hij
      have := ih hnodup hi fun k hk => hothers k (List.mem_cons_of_mem j hk)
      omega

/-- Shares of at most one add up to the number of parties just if every party has one. -/
theorem tally_eq_length_iff (h : ∀ i ∈ parties, f i ≤ 1) :
    tally parties f = parties.length ↔ ∀ i ∈ parties, f i = 1 := by
  have hle : ∀ l : List ι, (∀ i ∈ l, f i ≤ 1) → tally l f ≤ l.length := by
    intro l hl
    have := List.sum_le_card_nsmul (l.map f) 1 (by simpa using hl)
    simpa [tally] using this
  induction parties with
  | nil => simp [tally]
  | cons i parties ih =>
    have hi := h i List.mem_cons_self
    have hrest : ∀ j ∈ parties, f j ≤ 1 := fun j hj => h j (List.mem_cons_of_mem i hj)
    have hsum := hle parties hrest
    rw [tally_cons, List.length_cons]
    constructor
    · intro heq j hj
      rcases List.mem_cons.mp hj with rfl | hj
      · omega
      · exact (ih hrest).mp (by omega) j hj
    · intro hall
      rw [hall i List.mem_cons_self, (ih hrest).mpr fun j hj => hall j (List.mem_cons_of_mem i hj)]
      omega

/-! ### Counting -/

/-- Nobody comes in, and somebody drops out. -/
theorem countP_lt_countP {α : Type} {l : List α} {p q : α → Bool}
    (himp : ∀ a ∈ l, q a = true → p a = true) {a : α} (ha : a ∈ l) (hp : p a = true)
    (hq : q a = false) : l.countP q < l.countP p := by
  obtain ⟨s, t, rfl⟩ := List.append_of_mem ha
  have hs : s.countP q ≤ s.countP p :=
    List.countP_mono_left fun b hb => himp b (List.mem_append_left _ hb)
  have ht : t.countP q ≤ t.countP p := List.countP_mono_left fun b hb =>
    himp b (List.mem_append_right _ (List.mem_cons_of_mem _ hb))
  rw [List.countP_append, List.countP_append, List.countP_cons_of_pos hp,
    List.countP_cons_of_neg (by rw [hq]; exact Bool.false_ne_true)]
  omega

end Lib.Tally
