import Mathlib.Data.Nat.Notation

namespace Lib.Tickets

/-!
# Tickets

Numbers handed out from a growing counter.  `Issued base next has` says that the relation `has`
between owners and numbers came about that way: nobody has two numbers, no number has two owners,
and all of them lie from `base` on, below the next one.

* `Issued.congr`, `Issued.issue` — nothing is handed out; the next number is.
-/

variable {α : Type}

structure Issued (base next : ℕ) (has : α → ℕ → Prop) : Prop where
  base_le : base ≤ next
  lt : ∀ a i, has a i → i < next
  ge : ∀ a i, has a i → base ≤ i
  inj : ∀ a b i, has a i → has b i → a = b
  unique : ∀ a i j, has a i → has a j → i = j

variable {base next i : ℕ} {has has' : α → ℕ → Prop} {a : α}

/-- The next number is still free. -/
theorem Issued.not_next (h : Issued base next has) : ¬ has a next :=
  fun hhas => Nat.lt_irrefl _ (h.lt _ _ hhas)

theorem Issued.congr (h : Issued base next has) (hiff : ∀ a i, has' a i ↔ has a i) :
    Issued base next has' := by
  constructor
  · exact h.base_le
  · exact fun a i ha => h.lt a i ((hiff a i).mp ha)
  · exact fun a i ha => h.ge a i ((hiff a i).mp ha)
  · exact fun a b i ha hb => h.inj a b i ((hiff a i).mp ha) ((hiff b i).mp hb)
  · exact fun a i j hi hj => h.unique a i j ((hiff a i).mp hi) ((hiff a j).mp hj)

/-- Whoever has no number gets the next one. -/
theorem Issued.issue (h : Issued base next has) (hnew : ∀ i, ¬ has a i)
    (hiff : ∀ b i, has' b i ↔ (b = a ∧ i = next) ∨ has b i) : Issued base (next + 1) has' := by
  constructor
  · exact Nat.le_succ_of_le h.base_le
  · intro b i hi
    rcases (hiff b i).mp hi with ⟨-, rfl⟩ | hi
    · exact Nat.lt_succ_self _
    · exact Nat.lt_succ_of_lt (h.lt b i hi)
  · intro b i hi
    rcases (hiff b i).mp hi with ⟨-, rfl⟩ | hi
    · exact h.base_le
    · exact h.ge b i hi
  · intro b b' i hb hb'
    rcases (hiff b i).mp hb with ⟨rfl, rfl⟩ | hb
    · rcases (hiff b' _).mp hb' with ⟨rfl, -⟩ | hb'
      · rfl
      · exact absurd hb' h.not_next
    · rcases (hiff b' _).mp hb' with ⟨-, rfl⟩ | hb'
      · exact absurd hb h.not_next
      · exact h.inj b b' i hb hb'
  · intro b i j hi hj
    rcases (hiff b i).mp hi with ⟨rfl, rfl⟩ | hi
    · rcases (hiff _ j).mp hj with ⟨-, rfl⟩ | hj
      · rfl
      · exact absurd hj (hnew j)
    · rcases (hiff _ j).mp hj with ⟨rfl, rfl⟩ | hj
      · exact absurd hi (hnew i)
      · exact h.unique b i j hi hj

end Lib.Tickets
