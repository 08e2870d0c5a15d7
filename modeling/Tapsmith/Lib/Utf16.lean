import Mathlib.Algebra.BigOperators.Group.List.Basic
import Tapsmith.Lib.CodeUnits

namespace Lib.Utf16

/-!
# Texts of UTF-16 code units

A text may hold surrogates that are not in a pair. A character is a pair or any other unit.

* `characters` — a text in characters; `flatten_characters`;
* `Splits` — a cut between two texts is inside of a pair; `characters_append` — where it is not, the
  characters are those of the two;
* `cut_at` — a cut between two characters.
-/

def isHigh (c : UInt16) : Bool := 0xD800 ≤ c.toNat && c.toNat ≤ 0xDBFF

def isLow (c : UInt16) : Bool := 0xDC00 ≤ c.toNat && c.toNat ≤ 0xDFFF

/-- The code point of a pair. -/
def pairValue (high low : UInt16) : ℕ :=
  0x10000 + (high.toNat - 0xD800) * 0x400 + (low.toNat - 0xDC00)

def characters : List UInt16 → List (List UInt16)
  | [] => []
  | [c] => [[c]]
  | c :: d :: rest =>
    if isHigh c = true ∧ isLow d = true then [c, d] :: characters rest
    else [c] :: characters (d :: rest)

/-- The code point at the front of a text. -/
def codePoint : List UInt16 → ℕ
  | [] => 0
  | [c] => c.toNat
  | c :: d :: _ => if isHigh c = true ∧ isLow d = true then pairValue c d else c.toNat

/-- The units of a text of characters. -/
def units (s : String) : List UInt16 := (CodeUnits.codeUnits s).map UInt16.ofNat

/-- Between the two texts is the middle of a pair. -/
def Splits (s t : List UInt16) : Prop :=
  s.getLast?.any isHigh = true ∧ t.head?.any isLow = true

instance (s t : List UInt16) : Decidable (Splits s t) := by
  unfold Splits
  infer_instance

theorem isLow_of_isHigh {c : UInt16} (h : isHigh c = true) : isLow c = false := by
  simp only [isHigh, Bool.and_eq_true, decide_eq_true_eq] at h
  simp only [isLow, Bool.and_eq_false_iff, decide_eq_false_iff_not]
  omega

/-- Only a pair has a code point beyond the units. -/
theorem pairValue_gt (high low : UInt16) : 0xffff < pairValue high low := by
  unfold pairValue
  omega

theorem toNat_le (c : UInt16) : c.toNat ≤ 0xffff := Nat.le_of_lt_succ c.toNat_lt

theorem not_splits_nil_left (t : List UInt16) : ¬ Splits [] t := fun h => by cases h.1

theorem not_splits_nil_right (s : List UInt16) : ¬ Splits s [] := fun h => by cases h.2

theorem not_splits_of_head {s t : List UInt16} {c : UInt16} (h : t.head? = some c)
    (hlow : isLow c = false) : ¬ Splits s t := by
  intro hsplit
  rw [Splits, h, Option.any_some, hlow] at hsplit
  exact Bool.false_ne_true hsplit.2

theorem not_splits_of_getLast {s t : List UInt16} {c : UInt16} (h : s.getLast? = some c)
    (hhigh : isHigh c = false) : ¬ Splits s t := by
  intro hsplit
  rw [Splits, h, Option.any_some, hhigh] at hsplit
  exact Bool.false_ne_true hsplit.1

theorem splits_append_left {s t u : List UInt16} (hne : t ≠ []) :
    Splits (s ++ t) u ↔ Splits t u := by
  rw [Splits, Splits, List.getLast?_append_of_ne_nil s hne]

theorem splits_append_right {s t u : List UInt16} (hne : t ≠ []) :
    Splits s (t ++ u) ↔ Splits s t := by
  obtain ⟨c, t, rfl⟩ := List.exists_cons_of_ne_nil hne
  exact Iff.rfl

theorem characters_pair {c d : UInt16} (hpair : isHigh c = true ∧ isLow d = true)
    (rest : List UInt16) : characters (c :: d :: rest) = [c, d] :: characters rest := by
  rw [characters, if_pos hpair]

theorem characters_unit {c d : UInt16} (hpair : ¬ (isHigh c = true ∧ isLow d = true))
    (rest : List UInt16) : characters (c :: d :: rest) = [c] :: characters (d :: rest) := by
  rw [characters, if_neg hpair]

theorem flatten_characters (s : List UInt16) : (characters s).flatten = s := by
  induction s using characters.induct with
  | case1 => rfl
  | case2 c => rfl
  | case3 c d rest hpair ih =>
    rw [characters_pair hpair, List.flatten_cons, ih]
    rfl
  | case4 c d rest hpair ih =>
    rw [characters_unit hpair, List.flatten_cons, ih]
    rfl

/-- **A cut that splits no pair** leaves the characters as they are. -/
theorem characters_append {s t : List UInt16} (h : ¬ Splits s t) :
    characters (s ++ t) = characters s ++ characters t := by
  induction s using characters.induct with
  | case1 => rfl
  | case2 c =>
    cases t with
    | nil => rfl
    | cons d t =>
      have hpair : ¬ (isHigh c = true ∧ isLow d = true) := h
      exact characters_unit hpair t
  | case3 c d rest hpair ih =>
    have hrest : ¬ Splits rest t := by
      cases rest with
      | nil => exact not_splits_nil_left t
      | cons e rest =>
        have hsame : Splits ([c, d] ++ e :: rest) t ↔ _ := splits_append_left (List.cons_ne_nil _ _)
        exact mt hsame.mpr h
    show characters (c :: d :: (rest ++ t)) = _
    rw [characters_pair hpair, ih hrest, characters_pair hpair, List.cons_append]
  | case4 c d rest hpair ih =>
    have hrest : ¬ Splits (d :: rest) t := by
      have hsame : Splits ([c] ++ d :: rest) t ↔ _ := splits_append_left (List.cons_ne_nil _ _)
      exact mt hsame.mpr h
    show characters (c :: d :: (rest ++ t)) = _
    rw [characters_unit hpair, characters_unit hpair, List.cons_append, ← ih hrest, List.cons_append]

/-- What a character is. -/
theorem mem_characters {s : List UInt16} {x : List UInt16} (hx : x ∈ characters s) :
    (∃ c, x = [c]) ∨ ∃ c d, x = [c, d] ∧ isHigh c = true ∧ isLow d = true := by
  induction s using characters.induct with
  | case1 => cases hx
  | case2 c => exact .inl ⟨c, List.mem_singleton.mp hx⟩
  | case3 c d rest hpair ih =>
    rw [characters_pair hpair] at hx
    rcases List.mem_cons.mp hx with rfl | hx
    · exact .inr ⟨c, d, rfl, hpair⟩
    · exact ih hx
  | case4 c d rest hpair ih =>
    rw [characters_unit hpair] at hx
    rcases List.mem_cons.mp hx with rfl | hx
    · exact .inl ⟨c, rfl⟩
    · exact ih hx

/-- **A cut between two characters** splits no pair, and leaves the characters as they are. -/
theorem cut_at {s : List UInt16} {xs ys : List (List UInt16)} (h : characters s = xs ++ ys) :
    ¬ Splits xs.flatten ys.flatten ∧ characters xs.flatten = xs ∧ characters ys.flatten = ys := by
  induction s using characters.induct generalizing xs with
  | case1 =>
    obtain ⟨rfl, rfl⟩ := List.append_eq_nil_iff.mp h.symm
    exact ⟨not_splits_nil_left _, rfl, rfl⟩
  | case2 c =>
    cases xs with
    | nil =>
      obtain rfl : ys = [[c]] := h.symm
      exact ⟨not_splits_nil_left _, rfl, rfl⟩
    | cons x xs =>
      obtain ⟨rfl, hrest⟩ := List.cons.inj h
      obtain ⟨rfl, rfl⟩ := List.append_eq_nil_iff.mp hrest.symm
      exact ⟨not_splits_nil_right _, rfl, rfl⟩
  | case3 c d rest hpair ih =>
    cases xs with
    | nil =>
      have hys : ys.flatten = c :: d :: rest := by
        rw [← flatten_characters (c :: d :: rest), h, List.nil_append]
      refine ⟨not_splits_nil_left _, rfl, ?_⟩
      rw [hys, h, List.nil_append]
    | cons x xs =>
      rw [characters_pair hpair] at h
      obtain ⟨rfl, hrest⟩ := List.cons.inj h
      obtain ⟨hsplit, hxs, hys⟩ := ih hrest
      refine ⟨?_, ?_, hys⟩
      · rw [List.flatten_cons]
        by_cases hnil : xs.flatten = []
        · rw [hnil]
          intro hhigh
          have hlow : isHigh d = true := hhigh.1
          rw [isLow_of_isHigh hlow] at hpair
          exact absurd hpair.2 Bool.false_ne_true
        · rwa [splits_append_left hnil]
      · show characters (c :: d :: xs.flatten) = _
        rw [characters_pair hpair, hxs]
  | case4 c d rest hpair ih =>
    cases xs with
    | nil =>
      have hys : ys.flatten = c :: d :: rest := by
        rw [← flatten_characters (c :: d :: rest), h, List.nil_append]
      refine ⟨not_splits_nil_left _, rfl, ?_⟩
      rw [hys, h, List.nil_append]
    | cons x xs =>
      rw [characters_unit hpair] at h
      obtain ⟨rfl, hrest⟩ := List.cons.inj h
      obtain ⟨hsplit, hxs, hys⟩ := ih hrest
      have hall : xs.flatten ++ ys.flatten = d :: rest := by
        rw [← List.flatten_append]
        exact (congrArg List.flatten hrest).symm.trans (flatten_characters (d :: rest))
      rw [List.flatten_cons]
      by_cases hnil : xs.flatten = []
      · rw [hnil] at hxs
        rw [hnil, List.nil_append] at hall
        refine ⟨?_, ?_, hys⟩
        · rw [hnil, hall]
          exact hpair
        · rw [hnil, ← hxs]
          rfl
      · obtain ⟨e, xs', hxs'⟩ := List.exists_cons_of_ne_nil hnil
        rw [hxs'] at hall
        obtain rfl : e = d := (List.cons.inj hall).1
        refine ⟨by rwa [splits_append_left hnil], ?_, hys⟩
        rw [hxs']
        show characters (c :: e :: xs') = _
        rw [characters_unit hpair, ← hxs', hxs]

theorem length_units_le (s : String) : (units s).length ≤ 2 * s.length := by
  have hall : ∀ cs : List Char, (cs.flatMap CodeUnits.charUnits).length ≤ 2 * cs.length := by
    intro cs
    induction cs with
    | nil => exact Nat.zero_le _
    | cons c cs ih =>
      have hone : (CodeUnits.charUnits c).length ≤ 2 := by
        unfold CodeUnits.charUnits
        split_ifs
        · exact Nat.le_succ 1
        · exact le_rfl
      rw [List.flatMap_cons, List.length_append, List.length_cons]
      omega
  rw [units, List.length_map, ← String.length_toList]
  exact hall s.toList

end Lib.Utf16
