import Mathlib.Data.Char
import Mathlib.Data.List.Lex
import Tapsmith.Lib.OrderedSet

namespace Lib.CodeUnits

open Lib.OrderedSet

/-!
# Strings in the order of their UTF-16 code units

The order in which a list of strings is sorted where no other order is given.

* `codeUnits_injective` — different strings have different code units;
* `sort_eq_of_mem_iff` — so the sorted list of distinct elements depends on the set alone.
-/

/-- One unit, or a surrogate pair. -/
def charUnits (c : Char) : List ℕ :=
  if c.toNat < 0x10000 then [c.toNat]
  else [0xD800 + (c.toNat - 0x10000) / 0x400, 0xDC00 + (c.toNat - 0x10000) % 0x400]

def codeUnits (s : String) : List ℕ :=
  s.toList.flatMap charUnits

/-! ### Decoding -/

/-- No character is a surrogate. -/
theorem toNat_range (c : Char) : c.toNat < 0xD800 ∨ 0xDFFF < c.toNat ∧ c.toNat < 0x110000 :=
  c.valid

/-- The units of a character are read off the front in one way only. -/
theorem charUnits_append_inj {c d : Char} {xs ys : List ℕ}
    (h : charUnits c ++ xs = charUnits d ++ ys) : c = d ∧ xs = ys := by
  have hc := toNat_range c
  have hd := toNat_range d
  unfold charUnits at h
  split_ifs at h with h₁ h₂ h₃
  · obtain ⟨hhead, htail⟩ := List.cons.inj h
    exact ⟨Char.toNat_inj.mp hhead, htail⟩
  · obtain ⟨hhead, -⟩ := List.cons.inj h
    omega
  · obtain ⟨hhead, -⟩ := List.cons.inj h
    omega
  · obtain ⟨hhead, hrest⟩ := List.cons.inj h
    obtain ⟨hlow, htail⟩ := List.cons.inj hrest
    exact ⟨Char.toNat_inj.mp (by omega), htail⟩

theorem charUnits_ne_nil (c : Char) : charUnits c ≠ [] := by
  unfold charUnits
  split <;> simp

theorem codeUnits_injective : Function.Injective codeUnits := by
  intro a b h
  apply String.toList_injective
  unfold codeUnits at h
  generalize a.toList = as at h
  generalize b.toList = bs at h
  induction as generalizing bs with
  | nil =>
    cases bs with
    | nil => rfl
    | cons d bs =>
      rw [List.flatMap_nil, List.flatMap_cons] at h
      exact absurd (List.append_eq_nil_iff.mp h.symm).1 (charUnits_ne_nil d)
  | cons c as ih =>
    cases bs with
    | nil =>
      rw [List.flatMap_nil, List.flatMap_cons] at h
      exact absurd (List.append_eq_nil_iff.mp h).1 (charUnits_ne_nil c)
    | cons d bs =>
      rw [List.flatMap_cons, List.flatMap_cons] at h
      obtain ⟨rfl, hrest⟩ := charUnits_append_inj h
      rw [ih bs hrest]

/-! ### Sorting -/

def unitsLe (a b : String) : Bool :=
  decide (codeUnits a ≤ codeUnits b)

def sort (strings : List String) : List String :=
  strings.mergeSort unitsLe

@[simp] theorem mem_sort {strings : List String} {s : String} : s ∈ sort strings ↔ s ∈ strings :=
  List.mem_mergeSort

theorem sort_perm (strings : List String) : (sort strings).Perm strings :=
  List.mergeSort_perm strings unitsLe

theorem sort_pairwise (strings : List String) :
    (sort strings).Pairwise fun a b => unitsLe a b = true := by
  apply List.pairwise_mergeSort
  · intro a b c hab hbc
    exact decide_eq_true (le_trans (of_decide_eq_true hab) (of_decide_eq_true hbc))
  · intro a b
    rw [Bool.or_eq_true, unitsLe, unitsLe, decide_eq_true_iff, decide_eq_true_iff]
    exact le_total _ _

theorem unitsLe_antisymm {a b : String} (hab : unitsLe a b = true) (hba : unitsLe b a = true) :
    a = b :=
  codeUnits_injective (le_antisymm (of_decide_eq_true hab) (of_decide_eq_true hba))

/-- Two lists of distinct strings with the same elements are sorted into the same list. -/
theorem sort_eq_of_mem_iff {xs ys : List String} (hx : xs.Nodup) (hy : ys.Nodup)
    (h : ∀ s, s ∈ xs ↔ s ∈ ys) : sort xs = sort ys := by
  have hperm : (sort xs).Perm (sort ys) :=
    ((sort_perm xs).trans ((List.perm_ext_iff_of_nodup hx hy).mpr h)).trans (sort_perm ys).symm
  exact hperm.eq_of_pairwise (fun a b _ _ hab hba => unitsLe_antisymm hab hba)
    (sort_pairwise xs) (sort_pairwise ys)

/-- The distinct elements of a list, sorted. -/
def sortDistinct (strings : List String) : List String :=
  sort (addAll [] strings)

@[simp] theorem mem_sortDistinct {strings : List String} {s : String} :
    s ∈ sortDistinct strings ↔ s ∈ strings := by
  rw [sortDistinct, mem_sort, mem_addAll]
  simp

theorem sortDistinct_nodup (strings : List String) : (sortDistinct strings).Nodup :=
  (sort_perm _).nodup_iff.mpr (nodup_addAll List.nodup_nil)

theorem length_sortDistinct (strings : List String) :
    (sortDistinct strings).length = (addAll [] strings).length :=
  (sort_perm _).length_eq

theorem sortDistinct_congr {xs ys : List String} (h : ∀ s, s ∈ xs ↔ s ∈ ys) :
    sortDistinct xs = sortDistinct ys := by
  apply sort_eq_of_mem_iff (nodup_addAll List.nodup_nil) (nodup_addAll List.nodup_nil)
  intro s
  rw [mem_addAll, mem_addAll, h s]

end Lib.CodeUnits
