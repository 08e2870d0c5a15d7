import Mathlib.Data.List.DropRight
import Mathlib.Tactic.IntervalCases
import Tapsmith.Lib.Search

namespace Lib.Text

/-!
# Text operations of `str`

Texts are lists of Unicode scalar values.  The definitions follow the documented
behaviour of the standard library functions they are named after:

* `trim`, `lines`, `splitWhitespace`, `splitOnce` — cutting a text;
* `eqIgnoreAsciiCase`, `toLowercase` — comparing names;
* `fromStrRadix`, `parseUsize`, `parseI32` — reading numbers, with the round trips
  `parseUsize_toDigits` and `parseI32_i32ToString`.
-/

/-! ### White space -/

/-- `char::is_whitespace` (the Unicode property White_Space). -/
def isWhitespace (c : Char) : Bool :=
  let n := c.toNat
  (9 ≤ n && n ≤ 13) || n == 0x20 || n == 0x85 || n == 0xA0 || n == 0x1680 ||
    (0x2000 ≤ n && n ≤ 0x200A) || n == 0x2028 || n == 0x2029 || n == 0x202F ||
    n == 0x205F || n == 0x3000

/-- `str::trim`. -/
def trim (s : List Char) : List Char := (s.dropWhile isWhitespace).rdropWhile isWhitespace

/-- `str::trim_end_matches(c)`. -/
def trimEndMatches (c : Char) (s : List Char) : List Char := s.rdropWhile (· == c)

/-- `str::split_whitespace`. -/
def splitWhitespace (s : List Char) : List (List Char) :=
  (s.splitOnP isWhitespace).filter (· ≠ [])

/-- A text without white space is its own trim. -/
theorem trim_eq_self {s : List Char} (h : ∀ c ∈ s, isWhitespace c = false) : trim s = s := by
  have h1 : s.dropWhile isWhitespace = s := by
    cases s with
    | nil => rfl
    | cons c s => simp [h c (by simp)]
  have h2 : s.rdropWhile isWhitespace = s :=
    List.rdropWhile_eq_self_iff.mpr fun hne => by
      have := h (s.getLast hne) (List.getLast_mem hne)
      simp [this]
  rw [trim, h1, h2]

/-- White space around a text is trimmed away. -/
theorem trim_append_append {a s b : List Char} (ha : ∀ c ∈ a, isWhitespace c = true)
    (hb : ∀ c ∈ b, isWhitespace c = true) (hs : ∀ c ∈ s, isWhitespace c = false) :
    trim (a ++ s ++ b) = s := by
  have hdrop : ∀ (u v : List Char), (∀ c ∈ u, isWhitespace c = true) →
      (u ++ v).dropWhile isWhitespace = v.dropWhile isWhitespace := by
    intro u v hu
    induction u with
    | nil => rfl
    | cons c u ih =>
      rw [List.cons_append, List.dropWhile_cons_of_pos (hu c (by simp)),
        ih fun c hc => hu c (by simp [hc])]
  have hrev : ∀ c ∈ b.reverse, isWhitespace c = true := fun c hc => hb c (by simpa using hc)
  unfold trim
  rw [List.append_assoc, hdrop a _ ha]
  cases s with
  | nil =>
    have hnil : b.dropWhile isWhitespace = [] := by simpa using hdrop b [] hb
    rw [List.nil_append, hnil, List.rdropWhile_nil]
  | cons c s =>
    rw [List.cons_append, List.dropWhile_cons_of_neg (by simp [hs c (by simp)]), ← List.cons_append,
      List.rdropWhile, List.reverse_append, hdrop _ _ hrev]
    exact List.rdropWhile_eq_self_iff.mpr fun hne => by
      simp [hs _ (List.getLast_mem hne)]

/-- Words separated by single blanks. -/
theorem splitWhitespace_cons {w s : List Char} {b : Char} (hw : w ≠ [])
    (hns : ∀ c ∈ w, isWhitespace c = false) (hb : isWhitespace b = true) :
    splitWhitespace (w ++ b :: s) = w :: splitWhitespace s := by
  unfold splitWhitespace
  rw [List.splitOnP_append_cons_of_forall_mem hns b hb, List.filter_cons_of_pos (by simpa using hw)]

/-- White space between two texts separates their words. -/
theorem splitWhitespace_append_cons {c : Char} (hc : isWhitespace c = true) (s t : List Char) :
    splitWhitespace (s ++ c :: t) = splitWhitespace s ++ splitWhitespace t := by
  unfold splitWhitespace
  rw [List.splitOnP_append_cons _ _ hc, List.filter_append]

theorem splitWhitespace_cons_of_space {c : Char} (hc : isWhitespace c = true) (s : List Char) :
    splitWhitespace (c :: s) = splitWhitespace s :=
  splitWhitespace_append_cons hc [] s

theorem splitWhitespace_concat {c : Char} (hc : isWhitespace c = true) (s : List Char) :
    splitWhitespace (s ++ [c]) = splitWhitespace s := by
  rw [splitWhitespace_append_cons hc, show splitWhitespace [] = [] from rfl, List.append_nil]

/-- Trimming keeps the words. -/
theorem splitWhitespace_trim (s : List Char) : splitWhitespace (trim s) = splitWhitespace s := by
  have hfront : ∀ u : List Char, splitWhitespace (u.dropWhile isWhitespace) = splitWhitespace u := by
    intro u
    induction u with
    | nil => rfl
    | cons c u ih =>
      by_cases hc : isWhitespace c = true
      · rw [List.dropWhile_cons_of_pos hc, ih, splitWhitespace_cons_of_space hc]
      · rw [List.dropWhile_cons_of_neg hc]
  have hback : ∀ u : List Char,
      splitWhitespace (u.rdropWhile isWhitespace) = splitWhitespace u := by
    intro u
    induction u using List.reverseRecOn with
    | nil => rfl
    | append_singleton u c ih =>
      by_cases hc : isWhitespace c = true
      · rw [List.rdropWhile_concat_pos _ _ _ hc, ih, splitWhitespace_concat hc]
      · rw [List.rdropWhile_concat_neg _ _ _ hc]
  rw [trim, hback, hfront]

/-! ### Lines and pieces -/

/-- A line loses the one `\r` in front of its `\n`. -/
def stripCr (s : List Char) : List Char :=
  if s.getLast? = some '\r' then s.dropLast else s

/-- `str::lines`. -/
def lines (s : List Char) : List (List Char) :=
  let pieces := s.splitOn '\n'
  pieces.dropLast.map stripCr ++ (pieces.getLast?.toList).filter (· ≠ [])

theorem lines_cons {l s : List Char} (hl : '\n' ∉ l) :
    lines (l ++ '\n' :: s) = stripCr l :: lines s := by
  have hne : s.splitOn '\n' ≠ [] := List.splitOn_ne_nil _ _
  unfold lines
  rw [List.splitOn_append_cons_self_of_not_mem hl]
  dsimp only
  rw [List.dropLast_cons_of_ne_nil hne, List.map_cons, List.cons_append,
    List.getLast?_cons_of_ne_nil hne]

/-- The first line of a text that starts with a word and a blank starts with them. -/
theorem lines_headD {u : List Char} (hu : '\n' ∉ u) (s : List Char) :
    ∃ t, (lines (u ++ ' ' :: s)).headD [] = u ++ ' ' :: t := by
  by_cases hs : '\n' ∈ s
  · obtain ⟨a, b, rfl, ha⟩ := List.eq_append_cons_of_mem hs
    have hno : '\n' ∉ u ++ ' ' :: a := by simp [hu, ha]
    rw [← List.cons_append, ← List.append_assoc, lines_cons hno, List.headD_cons, stripCr]
    split
    · rename_i hlast
      cases a with
      | nil => simp at hlast
      | cons c a => exact ⟨(c :: a).dropLast, by simp⟩
    · exact ⟨a, rfl⟩
  · have hno : '\n' ∉ u ++ ' ' :: s := by simp [hu, hs]
    refine ⟨s, ?_⟩
    rw [lines, List.splitOn_eq_singleton hno]
    simp

/-- `str::split_once(sep)`. -/
def splitOnce (sep : Char) (s : List Char) : Option (List Char × List Char) :=
  if sep ∈ s then some (s.takeWhile (· ≠ sep), (s.dropWhile (· ≠ sep)).tail) else none

theorem splitOnce_append {sep : Char} {k v : List Char} (hk : sep ∉ k) :
    splitOnce sep (k ++ sep :: v) = some (k, v) := by
  have hne : ∀ c ∈ k, (decide (c ≠ sep)) = true := fun c hc => by
    simpa using fun h : c = sep => hk (h ▸ hc)
  unfold splitOnce
  rw [if_pos (by simp), List.takeWhile_append_of_pos hne, List.dropWhile_append_of_pos hne]
  simp

/-! ### Comparing names -/

/-- `str::eq_ignore_ascii_case`. -/
def eqIgnoreAsciiCase (a b : List Char) : Bool := a.map Char.toLower = b.map Char.toLower

/-- `str::to_lowercase`, on the characters whose lower case holds an ASCII character: the
    ASCII capitals, U+212A (Kelvin) and U+0130.  Every other character keeps a lower case
    outside ASCII, which a comparison with an ASCII name cannot tell from the character. -/
def toLowercase (s : List Char) : List Char :=
  s.flatMap fun c =>
    if c = Char.ofNat 0x212A then ['k']
    else if c = Char.ofNat 0x130 then ['i', Char.ofNat 0x307]
    else [c.toLower]

/-- Against an ASCII name without `i` and `k` the two comparisons agree. -/
theorem toLowercase_eq_iff {s t : List Char}
    (ht : ∀ c ∈ t, c ≠ 'i' ∧ c ≠ 'k' ∧ c ≠ Char.ofNat 0x212A ∧ c ≠ Char.ofNat 0x130) :
    toLowercase s = t ↔ s.map Char.toLower = t := by
  have hK : (Char.ofNat 0x212A).toLower = Char.ofNat 0x212A := by decide
  have hI : (Char.ofNat 0x130).toLower = Char.ofNat 0x130 := by decide
  induction s generalizing t with
  | nil => rfl
  | cons c s ih =>
    rw [toLowercase, List.flatMap_cons, ← toLowercase, List.map_cons]
    by_cases hcK : c = Char.ofNat 0x212A
    · subst hcK
      rw [if_pos rfl, hK]
      constructor <;> rintro rfl
      · exact absurd rfl (ht 'k' (by simp)).2.1
      · exact absurd rfl (ht (Char.ofNat 0x212A) (by simp)).2.2.1
    by_cases hcI : c = Char.ofNat 0x130
    · subst hcI
      rw [if_neg hcK, if_pos rfl, hI]
      constructor <;> rintro rfl
      · exact absurd rfl (ht 'i' (by simp)).1
      · exact absurd rfl (ht (Char.ofNat 0x130) (by simp)).2.2.2
    · rw [if_neg hcK, if_neg hcI]
      cases t with
      | nil => simp
      | cons d t =>
        simp only [List.singleton_append, List.cons.injEq]
        exact and_congr_right fun _ => ih fun e he => ht e (List.mem_cons_of_mem _ he)

/-! ### Numbers -/

/-- `char::to_digit(radix)`. -/
def toDigit (radix : ℕ) (c : Char) : Option ℕ :=
  let n := c.toNat
  let d := if 48 ≤ n ∧ n ≤ 57 then some (n - 48)
    else if 97 ≤ n ∧ n ≤ 122 then some (n - 87)
    else if 65 ≤ n ∧ n ≤ 90 then some (n - 55)
    else none
  d.filter (· < radix)

/-- The value of a digit text, most significant digit first. -/
def digitsValue (radix : ℕ) : ℕ → List Char → Option ℕ
  | acc, [] => some acc
  | acc, c :: s => (toDigit radix c).bind fun d => digitsValue radix (acc * radix + d) s

/-- The digits of a number text: one leading `+` is allowed, an empty rest is not. -/
def unsignedDigits (s : List Char) : Option (List Char) :=
  let digits := if s.head? = some '+' then s.tail else s
  if digits = [] then none else some digits

/-- `usize::from_str_radix` on a 64-bit target. -/
def fromStrRadix (radix : ℕ) (s : List Char) : Option ℕ :=
  ((unsignedDigits s).bind (digitsValue radix 0)).filter (· < 2 ^ 64)

/-- `str::parse::<usize>`. -/
def parseUsize (s : List Char) : Option ℕ := fromStrRadix 10 s

/-- `str::parse::<i32>`. -/
def parseI32 (s : List Char) : Option ℤ :=
  if s.head? = some '-' then
    if s.tail = [] then none
    else ((digitsValue 10 0 s.tail).filter (· ≤ 2 ^ 31)).map fun n : ℕ => -(n : ℤ)
  else (((unsignedDigits s).bind (digitsValue 10 0)).filter (· < 2 ^ 31)).map fun n : ℕ => (n : ℤ)

/-- `i32::to_string`. -/
def i32ToString (z : ℤ) : List Char :=
  if z < 0 then '-' :: Nat.toDigits 10 z.natAbs else Nat.toDigits 10 z.natAbs

theorem toDigit_digitChar {d : ℕ} (hd : d < 10) : toDigit 10 d.digitChar = some d := by
  interval_cases d <;> decide

theorem digitsValue_append (radix acc : ℕ) (s t : List Char) :
    digitsValue radix acc (s ++ t)
      = (digitsValue radix acc s).bind fun n => digitsValue radix n t := by
  induction s generalizing acc with
  | nil => rfl
  | cons c s ih =>
    simp only [List.cons_append, digitsValue]
    cases toDigit radix c with
    | none => rfl
    | some d => exact ih _

/-- A digit is an ASCII digit or letter. -/
theorem toDigit_range {radix d : ℕ} {c : Char} (h : toDigit radix c = some d) :
    (48 ≤ c.toNat ∧ c.toNat ≤ 57) ∨ (65 ≤ c.toNat ∧ c.toNat ≤ 90) ∨
      (97 ≤ c.toNat ∧ c.toNat ≤ 122) := by
  by_contra hno
  simp only [not_or] at hno
  rw [toDigit, if_neg hno.1, if_neg hno.2.2, if_neg hno.2.1] at h
  cases h

theorem toDigit_of_digitsValue {radix acc n : ℕ} {s : List Char}
    (h : digitsValue radix acc s = some n) : ∀ c ∈ s, ∃ d, toDigit radix c = some d := by
  induction s generalizing acc with
  | nil => simp
  | cons c s ih =>
    rw [digitsValue, Option.bind_eq_some_iff] at h
    obtain ⟨d, hd, hrest⟩ := h
    intro c' hc'
    obtain rfl | hs := List.mem_cons.mp hc'
    · exact ⟨d, hd⟩
    · exact ih hrest c' hs

theorem digitsValue_toDigits (n : ℕ) : digitsValue 10 0 (Nat.toDigits 10 n) = some n := by
  induction n using Nat.strong_induction_on with
  | _ n ih =>
    rw [Nat.toDigits_eq_if (by omega)]
    split
    · rename_i h
      simp [digitsValue, toDigit_digitChar h]
    · rw [digitsValue_append, ih (n / 10) (by omega)]
      simp only [Option.bind_some, digitsValue, toDigit_digitChar (Nat.mod_lt n (by omega))]
      rw [show n / 10 * 10 + n % 10 = n by omega]

theorem isDigit_of_mem_toDigits {n : ℕ} {c : Char} (hc : c ∈ Nat.toDigits 10 n) :
    48 ≤ c.toNat ∧ c.toNat ≤ 57 := by
  have h := Nat.isDigit_of_mem_toDigits (by omega) (by omega) hc
  rw [Char.isDigit, Bool.and_eq_true, decide_eq_true_eq, decide_eq_true_eq] at h
  exact ⟨UInt32.le_iff_toNat_le.mp h.1, UInt32.le_iff_toNat_le.mp h.2⟩

theorem unsignedDigits_toDigits (n : ℕ) :
    unsignedDigits (Nat.toDigits 10 n) = some (Nat.toDigits 10 n) := by
  have hplus : (Nat.toDigits 10 n).head? ≠ some '+' := by
    intro h
    have := isDigit_of_mem_toDigits (List.mem_of_mem_head? h)
    revert this
    decide
  rw [unsignedDigits, if_neg hplus]
  exact if_neg Nat.toDigits_ne_nil

/-- **Round trip of `usize`.** -/
theorem parseUsize_toDigits {n : ℕ} (hn : n < 2 ^ 64) :
    parseUsize (Nat.toDigits 10 n) = some n := by
  rw [parseUsize, fromStrRadix, unsignedDigits_toDigits, Option.bind_some,
    digitsValue_toDigits, Option.filter_some, if_pos (decide_eq_true hn)]

/-- **Round trip of `i32`.** -/
theorem parseI32_i32ToString {z : ℤ} (hlo : -(2 ^ 31) ≤ z) (hhi : z < 2 ^ 31) :
    parseI32 (i32ToString z) = some z := by
  unfold i32ToString
  split
  · rename_i hz
    have hle : z.natAbs ≤ 2 ^ 31 := by omega
    rw [parseI32, List.head?_cons, if_pos rfl, List.tail_cons, if_neg Nat.toDigits_ne_nil,
      digitsValue_toDigits, Option.filter_some, if_pos (decide_eq_true hle), Option.map_some,
      Option.some.injEq]
    omega
  · rename_i hz
    have hlt : z.natAbs < 2 ^ 31 := by omega
    have hminus : (Nat.toDigits 10 z.natAbs).head? ≠ some '-' := by
      intro h
      have := isDigit_of_mem_toDigits (List.mem_of_mem_head? h)
      revert this
      decide
    rw [parseI32, if_neg hminus, unsignedDigits_toDigits, Option.bind_some,
      digitsValue_toDigits, Option.filter_some, if_pos (decide_eq_true hlt), Option.map_some,
      Option.some.injEq]
    omega

/-- What `i32::to_string` writes: eleven characters at most, a sign or digits. -/
theorem i32ToString_chars {z : ℤ} {c : Char} (hc : c ∈ i32ToString z) :
    c = '-' ∨ (48 ≤ c.toNat ∧ c.toNat ≤ 57) := by
  unfold i32ToString at hc
  split at hc
  · obtain rfl | hd := List.mem_cons.mp hc
    · exact Or.inl rfl
    · exact Or.inr (isDigit_of_mem_toDigits hd)
  · exact Or.inr (isDigit_of_mem_toDigits hc)

theorem i32ToString_ne_nil (z : ℤ) : i32ToString z ≠ [] := by
  unfold i32ToString
  split
  · simp
  · exact Nat.toDigits_ne_nil

theorem length_i32ToString {z : ℤ} (hlo : -(2 ^ 31) ≤ z) (hhi : z < 2 ^ 31) :
    (i32ToString z).length ≤ 11 := by
  have hlen : (Nat.toDigits 10 z.natAbs).length ≤ 10 :=
    (Nat.length_toDigits_le_iff (by omega) (by omega)).mpr (by omega)
  unfold i32ToString
  split
  · rw [List.length_cons]
    omega
  · omega

end Lib.Text
