import Mathlib.Data.List.Forall2
import Mathlib.Data.List.Sort

namespace Lib.Pointwise

/-!
# Lists related position by position

What `List.Forall₂` says of one position, and of the elements of the two lists.
-/

variable {α β : Type} {R S : α → β → Prop} {l : List α} {l' : List β}

theorem getElem?_left (h : List.Forall₂ R l l') {i : ℕ} {a : α} (ha : l[i]? = some a) :
    ∃ b, l'[i]? = some b ∧ R a b := by
  induction h generalizing i with
  | nil => cases ha
  | cons hab _ ih =>
    cases i with
    | zero =>
      cases ha
      exact ⟨_, rfl, hab⟩
    | succ i => exact ih ha

theorem getElem?_right (h : List.Forall₂ R l l') {i : ℕ} {b : β} (hb : l'[i]? = some b) :
    ∃ a, l[i]? = some a ∧ R a b :=
  getElem?_left h.flip hb

theorem exists_of_mem_left (h : List.Forall₂ R l l') {a : α} (ha : a ∈ l) : ∃ b ∈ l', R a b := by
  obtain ⟨i, hi⟩ := List.mem_iff_getElem?.mp ha
  obtain ⟨b, hb, hab⟩ := getElem?_left h hi
  exact ⟨b, List.mem_of_getElem? hb, hab⟩

theorem exists_of_mem_right (h : List.Forall₂ R l l') {b : β} (hb : b ∈ l') : ∃ a ∈ l, R a b :=
  exists_of_mem_left h.flip hb

theorem comp {γ : Type} {T : β → γ → Prop} {l'' : List γ} (h : List.Forall₂ R l l')
    (h' : List.Forall₂ T l' l'') : List.Forall₂ (fun a c => ∃ b, R a b ∧ T b c) l l'' := by
  induction h generalizing l'' with
  | nil =>
    cases h'
    exact .nil
  | cons hab _ ih =>
    cases h' with
    | cons hbc hrest => exact .cons ⟨_, hab, hbc⟩ (ih hrest)

/-- A relation between elements may use that they are elements. -/
theorem imp_of_mem (h : List.Forall₂ R l l')
    (himp : ∀ a ∈ l, ∀ b ∈ l', R a b → S a b) : List.Forall₂ S l l' := by
  induction h with
  | nil => exact .nil
  | cons hab _ ih =>
    refine .cons (himp _ List.mem_cons_self _ List.mem_cons_self hab) (ih ?_)
    intro a ha b hb
    exact himp a (List.mem_cons_of_mem _ ha) b (List.mem_cons_of_mem _ hb)

/-! ### Sorting -/

section Sorted

variable {r : α → α → Prop} {s : β → β → Prop} [DecidableRel r] [DecidableRel s]

theorem orderedInsert (hrs : ∀ a b a' b', R a b → R a' b' → (r a a' ↔ s b b'))
    (h : List.Forall₂ R l l') {a : α} {b : β} (hab : R a b) :
    List.Forall₂ R (l.orderedInsert r a) (l'.orderedInsert s b) := by
  induction h with
  | nil => exact .cons hab .nil
  | @cons x y xs ys hxy hrest ih =>
    rw [List.orderedInsert_cons, List.orderedInsert_cons]
    by_cases hr : r a x
    · rw [if_pos hr, if_pos ((hrs _ _ _ _ hab hxy).mp hr)]
      exact .cons hab (.cons hxy hrest)
    · rw [if_neg hr, if_neg fun hs => hr ((hrs _ _ _ _ hab hxy).mpr hs)]
      exact .cons hxy ih

/-- Lists that are related stay so when they are sorted by keys that agree. -/
theorem insertionSort (hrs : ∀ a b a' b', R a b → R a' b' → (r a a' ↔ s b b'))
    (h : List.Forall₂ R l l') : List.Forall₂ R (l.insertionSort r) (l'.insertionSort s) := by
  induction h with
  | nil => exact .nil
  | cons hab _ ih => exact orderedInsert hrs ih hab

end Sorted

end Lib.Pointwise
