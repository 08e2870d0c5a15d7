import Mathlib.Data.List.Basic
import Mathlib.Data.List.Infix

namespace Lib.Glob

/-!
# Globs

A glob is a list of atoms: a run of any length, one unit of any kind, or a given unit.

* `fits` — whether a text is one that a glob stands for, computed;
* `fits_append` — the glob of a concatenation;
* `fits_mono` — a glob whose atoms stand for more stands for more.
-/

variable {α : Type}

inductive Atom (α : Type)
  | run
  | one
  | lit (a : α)
deriving DecidableEq

variable [DecidableEq α]

/-- A glob stands for a text as a whole. -/
def fits : List (Atom α) → List α → Bool
  | [], s => s.isEmpty
  | .run :: p, s => s.tails.any (fits p)
  | .one :: p, s => s.head?.isSome && fits p s.tail
  | .lit a :: p, s => (s.head? = some a) && fits p s.tail

variable {p q : List (Atom α)} {s : List α}

theorem fits_nil : fits [] s = true ↔ s = [] := List.isEmpty_iff

theorem fits_run : fits (.run :: p) s = true ↔ ∃ u v, s = u ++ v ∧ fits p v = true := by
  show s.tails.any (fits p) = true ↔ _
  rw [List.any_eq_true]
  constructor
  · rintro ⟨v, hv, hfits⟩
    obtain ⟨u, rfl⟩ := (List.mem_tails _ _).mp hv
    exact ⟨u, v, rfl, hfits⟩
  · rintro ⟨u, v, rfl, hfits⟩
    exact ⟨v, (List.mem_tails _ _).mpr (List.suffix_append u v), hfits⟩

theorem fits_one : fits (.one :: p) s = true ↔ ∃ a v, s = a :: v ∧ fits p v = true := by
  show (s.head?.isSome && fits p s.tail) = true ↔ _
  cases s with
  | nil => simp
  | cons a v => simp

theorem fits_lit {a : α} : fits (.lit a :: p) s = true ↔ ∃ v, s = a :: v ∧ fits p v = true := by
  show (decide (s.head? = some a) && fits p s.tail) = true ↔ _
  cases s with
  | nil => simp
  | cons b v =>
    rw [List.head?_cons, List.tail_cons, Bool.and_eq_true, decide_eq_true_iff]
    constructor
    · rintro ⟨hab, hfits⟩
      exact ⟨v, congrArg (· :: v) (Option.some.inj hab), hfits⟩
    · rintro ⟨w, hw, hfits⟩
      obtain ⟨rfl, rfl⟩ := List.cons.inj hw
      exact ⟨rfl, hfits⟩

/-- The glob of a concatenation stands for the concatenations. -/
theorem fits_append : fits (p ++ q) s = true ↔
    ∃ u v, s = u ++ v ∧ fits p u = true ∧ fits q v = true := by
  induction p generalizing s with
  | nil => simp [fits_nil]
  | cons atom p ih =>
    cases atom with
    | run =>
      rw [List.cons_append, fits_run]
      constructor
      · rintro ⟨u, v, rfl, hfits⟩
        obtain ⟨u', v', rfl, hp, hq⟩ := ih.mp hfits
        exact ⟨u ++ u', v', (List.append_assoc _ _ _).symm, fits_run.mpr ⟨u, u', rfl, hp⟩, hq⟩
      · rintro ⟨w, v, rfl, hp, hq⟩
        obtain ⟨u, u', rfl, hrest⟩ := fits_run.mp hp
        exact ⟨u, u' ++ v, List.append_assoc _ _ _, ih.mpr ⟨u', v, rfl, hrest, hq⟩⟩
    | one =>
      rw [List.cons_append, fits_one]
      constructor
      · rintro ⟨a, v, rfl, hfits⟩
        obtain ⟨u', v', rfl, hp, hq⟩ := ih.mp hfits
        exact ⟨a :: u', v', rfl, fits_one.mpr ⟨a, u', rfl, hp⟩, hq⟩
      · rintro ⟨w, v, rfl, hp, hq⟩
        obtain ⟨a, u, rfl, hrest⟩ := fits_one.mp hp
        exact ⟨a, u ++ v, rfl, ih.mpr ⟨u, v, rfl, hrest, hq⟩⟩
    | lit a =>
      rw [List.cons_append, fits_lit]
      constructor
      · rintro ⟨v, rfl, hfits⟩
        obtain ⟨u', v', rfl, hp, hq⟩ := ih.mp hfits
        exact ⟨a :: u', v', rfl, fits_lit.mpr ⟨u', rfl, hp⟩, hq⟩
      · rintro ⟨w, v, rfl, hp, hq⟩
        obtain ⟨u, rfl, hrest⟩ := fits_lit.mp hp
        exact ⟨u ++ v, rfl, ih.mpr ⟨u, v, rfl, hrest, hq⟩⟩

/-- Two runs in a row are one. -/
theorem fits_run_run : fits (.run :: .run :: p) s = fits (.run :: p) s := by
  rw [Bool.eq_iff_iff, fits_run, fits_run]
  constructor
  · rintro ⟨u, v, rfl, hfits⟩
    obtain ⟨u', v', rfl, hrest⟩ := fits_run.mp hfits
    exact ⟨u ++ u', v', (List.append_assoc _ _ _).symm, hrest⟩
  · rintro ⟨u, v, rfl, hfits⟩
    exact ⟨u, v, rfl, fits_run.mpr ⟨[], v, rfl, hfits⟩⟩

/-- An atom stands for all that another one does. -/
def Atom.Covers (b a : Atom α) : Prop :=
  b = a ∨ b = .one ∧ a ≠ .run

/-- A glob whose atoms stand for more stands for more. -/
theorem fits_mono (h : List.Forall₂ Atom.Covers q p) (hfits : fits p s = true) :
    fits q s = true := by
  induction h generalizing s with
  | nil => exact hfits
  | @cons b a q p hcovers _ ih =>
    rcases hcovers with rfl | ⟨rfl, hne⟩
    · cases b with
      | run =>
        obtain ⟨u, v, rfl, hrest⟩ := fits_run.mp hfits
        exact fits_run.mpr ⟨u, v, rfl, ih hrest⟩
      | one =>
        obtain ⟨a, v, rfl, hrest⟩ := fits_one.mp hfits
        exact fits_one.mpr ⟨a, v, rfl, ih hrest⟩
      | lit a =>
        obtain ⟨v, rfl, hrest⟩ := fits_lit.mp hfits
        exact fits_lit.mpr ⟨v, rfl, ih hrest⟩
    · cases a with
      | run => exact absurd rfl hne
      | one =>
        obtain ⟨a, v, rfl, hrest⟩ := fits_one.mp hfits
        exact fits_one.mpr ⟨a, v, rfl, ih hrest⟩
      | lit a =>
        obtain ⟨v, rfl, hrest⟩ := fits_lit.mp hfits
        exact fits_one.mpr ⟨a, v, rfl, ih hrest⟩

/-- Every unit a glob asks for is in the texts it stands for. -/
theorem mem_of_fits {a : α} (ha : .lit a ∈ p) (hfits : fits p s = true) : a ∈ s := by
  induction p generalizing s with
  | nil => exact absurd ha List.not_mem_nil
  | cons atom p ih =>
    cases atom with
    | run =>
      obtain ⟨u, v, rfl, hrest⟩ := fits_run.mp hfits
      rcases List.mem_cons.mp ha with ha | ha
      · cases ha
      · exact List.mem_append_right u (ih ha hrest)
    | one =>
      obtain ⟨b, v, rfl, hrest⟩ := fits_one.mp hfits
      rcases List.mem_cons.mp ha with ha | ha
      · cases ha
      · exact List.mem_cons_of_mem b (ih ha hrest)
    | lit b =>
      obtain ⟨v, rfl, hrest⟩ := fits_lit.mp hfits
      rcases List.mem_cons.mp ha with ha | ha
      · cases ha
        exact List.mem_cons_self
      · exact List.mem_cons_of_mem b (ih ha hrest)

end Lib.Glob
