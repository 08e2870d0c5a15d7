import Mathlib.Logic.Relation
import Mathlib.Order.Bounds.Basic
import Mathlib.Order.ConditionallyCompleteLattice.Basic
import Mathlib.Order.Nat
import Mathlib.Order.Lattice.Nat
import Mathlib.Data.Fintype.Card
import Mathlib.Data.Set.Finite.List

namespace Lib.Graph

/-!
# Dependency graphs

A relation `r a b` reads "`a` needs `b`".  Where the chains below every element are bounded,
an element has a depth: the length of the longest chain below it.

* `Ordered` — a list in which everything comes behind what it needs;
* `Ordered.chain_le` — such a list bounds the chains;
* `Acyclic.wellFounded` — in a finite acyclic relation every climb ends;
* `depth_isGreatest`, `depth_lt`, `exists_need_depth` — the depth and how one step changes it;
* `exists_reach_depth` — every smaller depth is met on the way down.
-/

variable {α : Type} {r : α → α → Prop}

/-! ### Chains -/

/-- A chain of `n` needs starts at the element. -/
inductive Chain (r : α → α → Prop) : ℕ → α → Prop
  | zero (a : α) : Chain r 0 a
  | step {a b : α} {n : ℕ} (hab : r a b) (hchain : Chain r n b) : Chain r (n + 1) a

/-- Everything in the list comes behind all it needs. -/
def Ordered (r : α → α → Prop) (order : List α) : Prop :=
  ∀ pre a post, order = pre ++ a :: post → ∀ b, r a b → b ∈ pre

theorem Ordered.nil : Ordered r [] := by
  intro pre a post h
  exact absurd h (by simp)

/-- An element may be listed once all it needs is. -/
theorem Ordered.snoc {order : List α} {a : α} (h : Ordered r order) (ha : ∀ b, r a b → b ∈ order) :
    Ordered r (order ++ [a]) := by
  intro pre c post hsplit b hb
  rcases List.eq_nil_or_concat post with rfl | ⟨front, last, rfl⟩
  · obtain ⟨rfl, hlast⟩ := List.append_inj' hsplit rfl
    obtain rfl := List.singleton_inj.mp hlast
    exact ha b hb
  · rw [List.concat_eq_append, ← List.cons_append, ← List.append_assoc] at hsplit
    obtain ⟨hfront, -⟩ := List.append_inj' hsplit rfl
    exact h pre c front hfront b hb

/-- No chain below an element is longer than what is listed before it. -/
theorem Ordered.chain_le {order : List α} (h : Ordered r order) {n : ℕ} {a : α}
    (hchain : Chain r n a) :
    ∀ pre post, order = pre ++ a :: post → n ≤ pre.length := by
  induction hchain with
  | zero a =>
    intro pre post _
    exact Nat.zero_le _
  | @step a b n hab _ ih =>
    intro pre post hsplit
    obtain ⟨pre', post', rfl⟩ := List.append_of_mem (h pre a post hsplit b hab)
    have hle := ih pre' (post' ++ a :: post) (by rw [hsplit, List.append_assoc, List.cons_append])
    rw [List.length_append, List.length_cons]
    omega

/-- The chains below every element are bounded. -/
def Bounded (r : α → α → Prop) : Prop :=
  ∀ a, BddAbove {n | Chain r n a}

/-- Where everything that needs something is listed, the chains are bounded. -/
theorem Ordered.bounded {order : List α} (h : Ordered r order) (hall : ∀ a b, r a b → a ∈ order) :
    Bounded r := by
  intro a
  refine ⟨order.length, ?_⟩
  intro n hn
  cases hn with
  | zero => exact Nat.zero_le _
  | @step _ b n hab hchain =>
    obtain ⟨pre, post, hsplit⟩ := List.append_of_mem (hall a b hab)
    have hle := h.chain_le (.step hab hchain) pre post hsplit
    rw [hsplit, List.length_append]
    omega

/-! ### Acyclic relations -/

/-- Nothing needs itself, over any number of steps. -/
def Acyclic (r : α → α → Prop) : Prop :=
  ∀ a, ¬ Relation.TransGen r a a

theorem acyclic_of_rank (rank : α → ℕ) (h : ∀ a b, r a b → rank b < rank a) : Acyclic r := by
  have htrans : ∀ a b, Relation.TransGen r a b → rank b < rank a := by
    intro a b hab
    induction hab with
    | single hab => exact h _ _ hab
    | tail _ hbc ih => exact (h _ _ hbc).trans ih
  intro a ha
  exact Nat.lt_irrefl _ (htrans a a ha)

/-- In a finite acyclic relation there is no infinite climb from an element to the ones that
    need it. -/
theorem Acyclic.wellFounded (h : Acyclic r) {l : List α} (hl : ∀ a b, r a b → a ∈ l) :
    WellFounded r := by
  let R : {a // a ∈ l} → {a // a ∈ l} → Prop := fun a b => Relation.TransGen r a.1 b.1
  have hfinite : Finite {a // a ∈ l} := (List.finite_toSet l).to_subtype
  have htrans : IsTrans _ R := ⟨fun _ _ _ hab hbc => hab.trans hbc⟩
  have hirrefl : Std.Irrefl R := ⟨fun a => h a.1⟩
  have hwf : WellFounded R := Finite.wellFounded_of_trans_of_irrefl R
  have hlisted : ∀ a : {a // a ∈ l}, Acc r a.1 := by
    intro a
    induction a using hwf.induction with
    | _ a ih =>
      constructor
      intro b hba
      exact ih ⟨b, hl b a.1 hba⟩ (.single hba)
  constructor
  intro a
  constructor
  intro b hba
  exact hlisted ⟨b, hl b a hba⟩

/-! ### Depth -/

/-- The length of the longest chain below an element. -/
noncomputable def depth (r : α → α → Prop) (a : α) : ℕ :=
  sSup {n | Chain r n a}

theorem depth_isGreatest (hb : Bounded r) (a : α) : IsGreatest {n | Chain r n a} (depth r a) :=
  ⟨Nat.sSup_mem ⟨0, .zero a⟩ (hb a), fun _ hn => le_csSup (hb a) hn⟩

theorem Chain.le_depth (hb : Bounded r) {n : ℕ} {a : α} (h : Chain r n a) : n ≤ depth r a :=
  (depth_isGreatest hb a).2 h

/-- What is needed is less deep. -/
theorem depth_lt (hb : Bounded r) {a b : α} (hab : r a b) : depth r b < depth r a :=
  (Chain.step hab (depth_isGreatest hb b).1).le_depth hb

/-- An element needs something that is exactly one step less deep. -/
theorem exists_need_depth (hb : Bounded r) {a : α} {k : ℕ} (h : depth r a = k + 1) :
    ∃ b, r a b ∧ depth r b = k := by
  have hchain : Chain r (depth r a) a := (depth_isGreatest hb a).1
  rw [h] at hchain
  cases hchain with
  | @step _ b _ hab hk =>
    have hle := hk.le_depth hb
    have hlt := depth_lt hb hab
    exact ⟨b, hab, by omega⟩

/-- Every smaller depth is met on the way down. -/
theorem exists_reach_depth (hb : Bounded r) {a : α} {k : ℕ} (h : k ≤ depth r a) :
    ∃ b, Relation.ReflTransGen r a b ∧ depth r b = k := by
  obtain ⟨j, hj⟩ := Nat.exists_eq_add_of_le h
  induction j generalizing a with
  | zero => exact ⟨a, .refl, hj⟩
  | succ j ih =>
    obtain ⟨b, hab, hdb⟩ := exists_need_depth hb (a := a) (k := k + j) (by omega)
    obtain ⟨c, hbc, hdc⟩ := ih (by omega) hdb
    exact ⟨c, .head hab hbc, hdc⟩

end Lib.Graph
