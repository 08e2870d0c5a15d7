import Mathlib.Data.List.Forall2

namespace Lib.Fallible

/-!
# Computations that may fail

When a chain of computations in `Except` succeeds, and when one along a list does.
-/

variable {ε α β : Type}

/-- A value that must be there. -/
def orThrow (e : ε) : Option α → Except ε α
  | none => .error e
  | some a => .ok a

/-- A condition that must hold. -/
def ensure (e : ε) (p : Prop) [Decidable p] : Except ε Unit := if p then .ok () else .error e

theorem orThrow_eq_ok {e : ε} {x : Option α} {a : α} : orThrow e x = .ok a ↔ x = some a := by
  cases x with
  | none => simp [orThrow]
  | some b => simp [orThrow]

theorem ensure_eq_ok {e : ε} {p : Prop} [Decidable p] {u : Unit} :
    ensure e p = .ok u ↔ p := by
  unfold ensure
  by_cases h : p
  · simp [h]
  · simp [h]

theorem bind_eq_ok {x : Except ε α} {f : α → Except ε β} {b : β} :
    (x >>= f) = .ok b ↔ ∃ a, x = .ok a ∧ f a = .ok b := by
  cases x with
  | error e => exact ⟨nofun, fun ⟨_, h, _⟩ => nomatch h⟩
  | ok a =>
    refine ⟨fun h => ⟨a, rfl, h⟩, fun ⟨a', ha, h⟩ => ?_⟩
    cases ha
    exact h

theorem mapM_eq_ok {f : α → Except ε β} {l : List α} {l' : List β} :
    l.mapM f = .ok l' ↔ List.Forall₂ (fun a b => f a = .ok b) l l' := by
  induction l generalizing l' with
  | nil =>
    rw [List.mapM_nil, List.forall₂_nil_left_iff]
    exact ⟨fun h => (Except.ok.inj h).symm, fun h => congrArg Except.ok h.symm⟩
  | cons a l ih =>
    rw [List.mapM_cons, bind_eq_ok]
    constructor
    · intro ⟨b, hb, hrest⟩
      obtain ⟨bs, hbs, heq⟩ := bind_eq_ok.mp hrest
      cases heq
      exact .cons hb (ih.mp hbs)
    · intro h
      cases h with
      | cons hb hrest => exact ⟨_, hb, bind_eq_ok.mpr ⟨_, ih.mpr hrest, rfl⟩⟩

theorem mapM_eq_some {f : α → Option β} {l : List α} {l' : List β} :
    l.mapM f = some l' ↔ List.Forall₂ (fun a b => f a = some b) l l' := by
  induction l generalizing l' with
  | nil =>
    rw [List.mapM_nil, List.forall₂_nil_left_iff]
    exact ⟨fun h => (Option.some.inj h).symm, fun h => congrArg some h.symm⟩
  | cons a l ih =>
    rw [List.mapM_cons]
    constructor
    · intro h
      obtain ⟨b, hb, hrest⟩ := Option.bind_eq_some_iff.mp h
      obtain ⟨bs, hbs, heq⟩ := Option.bind_eq_some_iff.mp hrest
      cases heq
      exact .cons hb (ih.mp hbs)
    · intro h
      cases h with
      | cons hb hrest =>
        exact Option.bind_eq_some_iff.mpr ⟨_, hb,
          Option.bind_eq_some_iff.mpr ⟨_, ih.mpr hrest, rfl⟩⟩

/-- Along a list on which it always succeeds. -/
theorem mapM_eq_map {f : α → Except ε β} {g : α → β} {l : List α} (h : ∀ a ∈ l, f a = .ok (g a)) :
    l.mapM f = .ok (l.map g) := by
  rw [mapM_eq_ok, List.forall₂_map_right_iff]
  exact List.forall₂_same.mpr h

end Lib.Fallible
