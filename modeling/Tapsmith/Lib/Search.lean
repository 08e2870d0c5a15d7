import Mathlib.Data.List.Basic
import Mathlib.Data.List.Infix
import Mathlib.Tactic.Linarith

namespace Lib.Search

/-!
# First occurrence of a word in a list

`position w l` is the index of the first occurrence of the word `w` in `l`, the
list form of `windows(k).position(|x| x == w)`.

* `position_eq_some` / `position_eq_none` — the characterisation every other fact rests on;
* `position_append` / `position_take` — an occurrence depends only on the items it covers;
* `position_resume` — an incremental search that steps back by `|w| - 1` items finds
  what a search from the start would find.
-/

variable {α : Type} [DecidableEq α]

omit [DecidableEq α] in
/-- A quantifier over the items of a list is decided by running through the list, also where
    the type of the items is finite. -/
instance (priority := 1100) decidableForallMem {p : α → Prop} [DecidablePred p] (l : List α) :
    Decidable (∀ x ∈ l, p x) :=
  List.decidableBAll p l

/-- Index of the first occurrence of `w` in `l`. -/
def position (w : List α) : List α → Option ℕ
  | [] => if w = [] then some 0 else none
  | x :: l => if w <+: x :: l then some 0 else (position w l).map (· + 1)

theorem position_nil {w : List α} : position w [] = if w = [] then some 0 else none := rfl

theorem position_cons {w l : List α} {x : α} : position w (x :: l) =
    if w <+: x :: l then some 0 else (position w l).map (· + 1) := rfl

/-! ### Occurrences at an index -/

omit [DecidableEq α] in
/-- An occurrence lies inside the list. -/
theorem length_of_prefix_drop {w l : List α} {i : ℕ} (hw : w ≠ []) (h : w <+: l.drop i) :
    i + w.length ≤ l.length := by
  have hle := h.length_le
  have hpos : 0 < w.length := List.length_pos_of_ne_nil hw
  rw [List.length_drop] at hle
  omega

omit [DecidableEq α] in
/-- An occurrence survives what is appended after it. -/
theorem prefix_drop_append {w l : List α} {i : ℕ} (hw : w ≠ []) (h : w <+: l.drop i)
    (m : List α) : w <+: (l ++ m).drop i := by
  have hle := length_of_prefix_drop hw h
  rw [List.drop_append_of_le_length (by omega)]
  exact h.trans (List.prefix_append _ _)

omit [DecidableEq α] in
/-- An occurrence that ends inside the first part of an append is one of that part. -/
theorem prefix_drop_of_append {w l m : List α} {i : ℕ} (h : w <+: (l ++ m).drop i)
    (hle : i + w.length ≤ l.length) : w <+: l.drop i := by
  rw [List.drop_append_of_le_length (by omega)] at h
  refine List.prefix_of_prefix_length_le h (List.prefix_append _ _) ?_
  rw [List.length_drop]
  omega

omit [DecidableEq α] in
/-- Occurrences in the first `n` items are the occurrences that end by `n`. -/
theorem prefix_drop_take {w l : List α} {i n : ℕ} (hw : w ≠ []) (hn : n ≤ l.length) :
    w <+: (l.take n).drop i ↔ w <+: l.drop i ∧ i + w.length ≤ n := by
  have hlen : (l.take n).length = n := by simp [hn]
  constructor
  · intro h
    have hle := length_of_prefix_drop hw h
    have happ := prefix_drop_append hw h (l.drop n)
    rw [List.take_append_drop] at happ
    exact ⟨happ, by omega⟩
  · rintro ⟨h, hle⟩
    rw [← List.take_append_drop n l] at h
    exact prefix_drop_of_append h (by omega)

/-! ### The characterisation -/

theorem position_eq_some {w l : List α} {i : ℕ} :
    position w l = some i ↔ w <+: l.drop i ∧ i ≤ l.length ∧ ∀ j < i, ¬ w <+: l.drop j := by
  induction l generalizing i with
  | nil =>
    by_cases hw : w = []
    · subst hw
      simp only [position_nil, if_true, Option.some.injEq, List.drop_nil, List.length_nil]
      refine ⟨fun h => by subst h; simp, fun ⟨_, h, _⟩ => by omega⟩
    · simp [position_nil, hw]
  | cons x l ih =>
    by_cases hpre : w <+: x :: l
    · simp only [position_cons, hpre, if_true, Option.some.injEq]
      refine ⟨fun h => by subst h; simpa using hpre, fun ⟨_, _, h⟩ => ?_⟩
      by_contra hne
      exact h 0 (by omega) (by simpa using hpre)
    · simp only [position_cons, hpre, if_false, Option.map_eq_some_iff]
      constructor
      · rintro ⟨k, hk, rfl⟩
        obtain ⟨hocc, hle, hmin⟩ := ih.mp hk
        refine ⟨by simpa using hocc, by simpa using hle, fun j hj => ?_⟩
        cases j with
        | zero => simpa using hpre
        | succ j => simpa using hmin j (by omega)
      · rintro ⟨hocc, hle, hmin⟩
        cases i with
        | zero => exact absurd (by simpa using hocc) hpre
        | succ k =>
          refine ⟨k, ih.mpr ⟨by simpa using hocc, by simpa using hle, fun j hj => ?_⟩, rfl⟩
          simpa using hmin (j + 1) (by omega)

example : position [2, 3] [1, 2, 3, 2, 3] = some 1 := by decide +kernel

theorem position_eq_none {w l : List α} (hw : w ≠ []) :
    position w l = none ↔ ∀ j, ¬ w <+: l.drop j := by
  constructor
  · intro h
    by_contra hex
    simp only [not_forall, not_not] at hex
    classical
    have hmin := fun j hj => Nat.find_min hex (m := j) hj
    have hsome : position w l = some (Nat.find hex) :=
      position_eq_some.mpr ⟨Nat.find_spec hex, by
        have := length_of_prefix_drop hw (Nat.find_spec hex); omega, hmin⟩
    rw [h] at hsome
    cases hsome
  · intro h
    cases hp : position w l with
    | none => rfl
    | some i => exact absurd (position_eq_some.mp hp).1 (h i)

/-- The word found lies inside the list. -/
theorem position_lt {w l : List α} {i : ℕ} (hw : w ≠ []) (h : position w l = some i) :
    i + w.length ≤ l.length :=
  length_of_prefix_drop hw (position_eq_some.mp h).1

/-! ### Appending, cutting, resuming -/

/-- What is appended later does not move the first occurrence. -/
theorem position_append {w l : List α} {i : ℕ} (hw : w ≠ []) (h : position w l = some i)
    (m : List α) : position w (l ++ m) = some i := by
  obtain ⟨hocc, hle, hmin⟩ := position_eq_some.mp h
  have hlen := length_of_prefix_drop hw hocc
  refine position_eq_some.mpr ⟨prefix_drop_append hw hocc m, by simp; omega, fun j hj hj' => ?_⟩
  exact hmin j hj (prefix_drop_of_append hj' (by omega))

/-- Cutting the list anywhere behind the first occurrence keeps it. -/
theorem position_take {w l : List α} {i n : ℕ} (hw : w ≠ []) (h : position w l = some i)
    (hn : i + w.length ≤ n) : position w (l.take n) = some i := by
  rcases le_total l.length n with hle | hle
  · rwa [List.take_of_length_le hle]
  obtain ⟨hocc, _, hmin⟩ := position_eq_some.mp h
  refine position_eq_some.mpr ⟨(prefix_drop_take hw hle).mpr ⟨hocc, hn⟩, ?_, fun j hj hj' => ?_⟩
  · simp; omega
  · exact hmin j hj ((prefix_drop_take hw hle).mp hj').1

/-- Before the first occurrence is complete, nothing is found. -/
theorem position_take_none {w l : List α} {i n : ℕ} (hw : w ≠ []) (h : position w l = some i)
    (hn : n < i + w.length) : position w (l.take n) = none := by
  obtain ⟨hocc, _, hmin⟩ := position_eq_some.mp h
  have hlen := length_of_prefix_drop hw hocc
  refine (position_eq_none hw).mpr fun j hj => ?_
  obtain ⟨hj', hle⟩ := (prefix_drop_take hw (by omega)).mp hj
  exact hmin j (by omega) hj'

/-- A word without an occurrence in the list has none in a prefix of it. -/
theorem position_take_of_none {w l : List α} (n : ℕ) (hw : w ≠ []) (h : position w l = none) :
    position w (l.take n) = none := by
  cases hp : position w (l.take n) with
  | none => rfl
  | some i =>
    have happ := position_append hw hp (l.drop n)
    rw [List.take_append_drop, h] at happ
    cases happ

/-- A search may start behind indices known to hold no occurrence. -/
theorem position_drop {w l : List α} {k : ℕ} (hw : w ≠ []) (hk : k ≤ l.length)
    (h : ∀ j < k, ¬ w <+: l.drop j) :
    position w l = (position w (l.drop k)).map (k + ·) := by
  have hlate : ∀ j, w <+: l.drop j → k ≤ j := fun j hj => by
    by_contra hlt
    exact h j (by omega) hj
  cases hp : position w (l.drop k) with
  | none =>
    refine (position_eq_none hw).mpr fun j hj => ?_
    refine (position_eq_none hw).mp hp (j - k) ?_
    rwa [List.drop_drop, show k + (j - k) = j from by have := hlate j hj; omega]
  | some i =>
    obtain ⟨hocc, hle, hmin⟩ := position_eq_some.mp hp
    rw [List.drop_drop] at hocc
    show position w l = some (k + i)
    rw [List.length_drop] at hle
    refine position_eq_some.mpr ⟨hocc, by omega, fun j hj hj' => ?_⟩
    refine hmin (j - k) (by have := hlate j hj'; omega) ?_
    rwa [List.drop_drop, show k + (j - k) = j from by have := hlate j hj'; omega]

/-- **Resuming a search.** If the first `c` items hold no occurrence, searching again from
    `|w| - 1` items before `c` finds what a search of the whole list finds. -/
theorem position_resume {w l : List α} {c : ℕ} (hw : w ≠ []) (hc : c ≤ l.length)
    (h : position w (l.take c) = none) :
    position w l = (position w (l.drop (c - (w.length - 1)))).map (c - (w.length - 1) + ·) := by
  have hpos : 0 < w.length := List.length_pos_of_ne_nil hw
  -- an occurrence further left would lie inside the first `c` items
  refine position_drop hw (by omega) fun j hj hocc => ?_
  exact (position_eq_none hw).mp h j ((prefix_drop_take hw hc).mpr ⟨hocc, by omega⟩)

/-! ### Words whose first item is rare -/

/-- A prefix without the first item of the word is skipped. -/
theorem position_skip {a : α} {w l : List α} (ha : a ∉ l) (m : List α) :
    position (a :: w) (l ++ m) = (position (a :: w) m).map (l.length + ·) := by
  induction l with
  | nil => simp
  | cons x l ih =>
    have hx : ¬ (a :: w) <+: x :: (l ++ m) := by
      rw [List.cons_prefix_cons]
      exact fun h => ha (by simp [h.1])
    rw [List.cons_append, position_cons, if_neg hx, ih (fun h => ha (by simp [h])), Option.map_map]
    congr 1
    funext n
    simp only [Function.comp, List.length_cons]
    omega

/-- An item that does not start the word is skipped. -/
theorem position_cons_of_absent {w l : List α} {x : α} (h : ¬ w <+: x :: l) :
    position w (x :: l) = (position w l).map (· + 1) := by
  rw [position_cons, if_neg h]

end Lib.Search
