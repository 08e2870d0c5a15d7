import Mathlib.Tactic.Ring
import Tapsmith.Lib.Search

namespace Lib.Utf8

/-!
# UTF-8 decoding that never fails

`fromUtf8Lossy` decodes a byte list the way `String::from_utf8_lossy` does: well-formed
sequences become their characters, every maximal broken part becomes one U+FFFD.

* `fromUtf8Lossy_append_ascii` — an ASCII byte is a hard boundary: the bytes before and
  after it decode on their own;
* `mem_fromUtf8Lossy_ascii` — decoding never invents an ASCII character;
* `fromUtf8Lossy_encode` — decoding what was encoded gives it back.
-/

/-- U+FFFD, written for every maximal broken part. -/
def replacement : Char := Char.ofNat 0xFFFD

/-- The decoder between two bytes: at a character boundary, or inside a multi-byte
    sequence with `acc` collected so far, the next byte due in
    `0x80 + low ..= 0x80 + high` and `more` further ones behind it. -/
inductive State where
  | start
  | tail (more low high acc : ℕ)
  deriving DecidableEq

/-- The first byte of a character: what it emits and the state behind it. -/
def first (b : UInt8) : List Char × State :=
  let n := b.toNat
  if n < 0x80 then ([Char.ofNat n], .start)
  else if n < 0xC2 then ([replacement], .start)
  else if n < 0xE0 then ([], .tail 0 0 0x3F (n - 0xC0))
  else if n = 0xE0 then ([], .tail 1 0x20 0x3F 0)
  else if n = 0xED then ([], .tail 1 0 0x1F 0xD)
  else if n < 0xF0 then ([], .tail 1 0 0x3F (n - 0xE0))
  else if n = 0xF0 then ([], .tail 2 0x10 0x3F 0)
  else if n < 0xF4 then ([], .tail 2 0 0x3F (n - 0xF0))
  else if n = 0xF4 then ([], .tail 2 0 0x0F 4)
  else ([replacement], .start)

/-- What is owed at the end of the input, or when a sequence breaks off. -/
def flush : State → List Char
  | .start => []
  | .tail .. => [replacement]

/-- One byte.  A byte that cannot continue the sequence ends it as broken and is read
    again as a first byte. -/
def step : State → UInt8 → List Char × State
  | .start, b => first b
  | .tail more low high acc, b =>
    if 0x80 + low ≤ b.toNat ∧ b.toNat ≤ 0x80 + high then
      let acc' := acc * 64 + (b.toNat - 0x80)
      match more with
      | 0 => ([Char.ofNat acc'], .start)
      | more + 1 => ([], .tail more 0 0x3F acc')
    else
      (replacement :: (first b).1, (first b).2)

/-- Decode from a state to the end of the input. -/
def run : State → List UInt8 → List Char
  | s, [] => flush s
  | s, b :: bs => (step s b).1 ++ run (step s b).2 bs

/-- `String::from_utf8_lossy`. -/
def fromUtf8Lossy (bs : List UInt8) : List Char := run .start bs

/-- The UTF-8 bytes of a text (`str::as_bytes`). -/
def encode (s : List Char) : List UInt8 := s.flatMap String.utf8EncodeChar

/-- `std::str::from_utf8`: bytes are valid exactly when decoding them loses nothing. -/
def fromUtf8 (bs : List UInt8) : Option (List Char) :=
  if encode (fromUtf8Lossy bs) = bs then some (fromUtf8Lossy bs) else none

@[simp] theorem fromUtf8Lossy_nil : fromUtf8Lossy [] = [] := rfl
@[simp] theorem encode_nil : encode [] = [] := rfl
@[simp] theorem encode_cons (c : Char) (s : List Char) :
    encode (c :: s) = String.utf8EncodeChar c ++ encode s := rfl

theorem encode_append (s t : List Char) : encode (s ++ t) = encode s ++ encode t :=
  List.flatMap_append

/-! ### ASCII bytes -/

theorem first_ascii {b : UInt8} (hb : b.toNat < 0x80) :
    first b = ([Char.ofNat b.toNat], .start) := by
  simp [first, hb]

theorem step_ascii (s : State) {b : UInt8} (hb : b.toNat < 0x80) :
    step s b = (flush s ++ [Char.ofNat b.toNat], .start) := by
  cases s with
  | start => simp [step, flush, first_ascii hb]
  | tail more low high acc =>
    have hno : ¬ (0x80 + low ≤ b.toNat ∧ b.toNat ≤ 0x80 + high) := by omega
    simp only [step, if_neg hno, first_ascii hb, flush, List.cons_append, List.nil_append]

/-- An ASCII byte decodes to itself and leaves the decoder at a boundary. -/
theorem run_append_ascii (s : State) (as : List UInt8) {b : UInt8} (hb : b.toNat < 0x80)
    (bs : List UInt8) :
    run s (as ++ b :: bs) = run s as ++ Char.ofNat b.toNat :: fromUtf8Lossy bs := by
  induction as generalizing s with
  | nil => simp [run, step_ascii s hb, fromUtf8Lossy]
  | cons a as ih => simp [run, ih]

/-- **ASCII bytes are hard boundaries.** -/
theorem fromUtf8Lossy_append_ascii (as : List UInt8) {b : UInt8} (hb : b.toNat < 0x80)
    (bs : List UInt8) :
    fromUtf8Lossy (as ++ b :: bs) = fromUtf8Lossy as ++ Char.ofNat b.toNat :: fromUtf8Lossy bs :=
  run_append_ascii .start as hb bs

theorem fromUtf8Lossy_cons_ascii {b : UInt8} (hb : b.toNat < 0x80) (bs : List UInt8) :
    fromUtf8Lossy (b :: bs) = Char.ofNat b.toNat :: fromUtf8Lossy bs :=
  fromUtf8Lossy_append_ascii [] hb bs

/-- ASCII bytes in front decode to themselves. -/
theorem fromUtf8Lossy_ascii_append {as : List UInt8} (has : ∀ b ∈ as, b.toNat < 0x80)
    (bs : List UInt8) :
    fromUtf8Lossy (as ++ bs) = as.map (fun b => Char.ofNat b.toNat) ++ fromUtf8Lossy bs := by
  induction as with
  | nil => simp
  | cons a as ih =>
    have ha : a.toNat < 0x80 := has a (by simp)
    rw [List.cons_append, fromUtf8Lossy_cons_ascii ha, ih fun b hb => has b (by simp [hb])]
    rfl

theorem fromUtf8Lossy_ascii {as : List UInt8} (has : ∀ b ∈ as, b.toNat < 0x80) :
    fromUtf8Lossy as = as.map (fun b => Char.ofNat b.toNat) := by
  simpa using fromUtf8Lossy_ascii_append has []

/-! ### Decoding invents no ASCII character -/

theorem toNat_ofNat {n : ℕ} (h : n.isValidChar) : (Char.ofNat n).toNat = n := by
  rw [Char.ofNat, dif_pos h]
  rfl

theorem toNat_ofNat_byte (b : UInt8) : (Char.ofNat b.toNat).toNat = b.toNat :=
  toNat_ofNat (Or.inl (by have := b.toNat_lt; omega))

/-- Every value a sequence in this state can end with is a character beyond ASCII. -/
def Sound : State → Prop
  | .start => True
  | .tail more low high acc =>
    ∀ v, (acc * 64 + low) * 64 ^ more ≤ v → v < (acc * 64 + high + 1) * 64 ^ more →
      0x80 ≤ v ∧ v.isValidChar

theorem sound_first (b : UInt8) : Sound (first b).2 := by
  have hlt : b.toNat < 256 := b.toNat_lt
  unfold first
  dsimp only
  repeat' split
  all_goals simp only [Sound, Nat.isValidChar]
  all_goals intro v hlo hhi; omega

theorem sound_step {s : State} (hs : Sound s) (b : UInt8) : Sound (step s b).2 := by
  cases s with
  | start => exact sound_first b
  | tail more low high acc =>
    by_cases hin : 0x80 + low ≤ b.toNat ∧ b.toNat ≤ 0x80 + high
    · cases more with
      | zero => simp [step, hin, Sound]
      | succ more =>
        simp only [step, if_pos hin]
        intro v hlo hhi
        -- the next byte only narrows the range of possible values
        obtain ⟨d, hd⟩ : ∃ d, d = b.toNat - 0x80 := ⟨_, rfl⟩
        rw [← hd] at hlo hhi
        have hdl : low ≤ d := by omega
        have hdh : d ≤ high := by omega
        refine hs v ?_ ?_
        · calc (acc * 64 + low) * 64 ^ (more + 1)
              ≤ (acc * 64 + d) * 64 ^ (more + 1) := Nat.mul_le_mul_right _ (by omega)
            _ = ((acc * 64 + d) * 64 + 0) * 64 ^ more := by ring
            _ ≤ v := hlo
        · calc v < ((acc * 64 + d) * 64 + 0x3F + 1) * 64 ^ more := hhi
            _ = (acc * 64 + d + 1) * 64 ^ (more + 1) := by ring
            _ ≤ (acc * 64 + high + 1) * 64 ^ (more + 1) := Nat.mul_le_mul_right _ (by omega)
    · simp only [step, if_neg hin]
      exact sound_first b

/-- A character emitted by a first byte is that byte or not ASCII. -/
theorem mem_first {b : UInt8} {c : Char} (hc : c ∈ (first b).1) :
    c = Char.ofNat b.toNat ∨ 0x80 ≤ c.toNat := by
  have hrep : 0x80 ≤ replacement.toNat := by decide
  unfold first at hc
  dsimp only at hc
  repeat' split at hc
  all_goals first
    | (rw [List.mem_singleton] at hc; subst hc; exact .inl rfl)
    | (rw [List.mem_singleton] at hc; subst hc; exact .inr hrep)
    | (exact absurd hc List.not_mem_nil)

theorem mem_step {s : State} (hs : Sound s) {b : UInt8} {c : Char} (hc : c ∈ (step s b).1) :
    c = Char.ofNat b.toNat ∨ 0x80 ≤ c.toNat := by
  cases s with
  | start => exact mem_first hc
  | tail more low high acc =>
    by_cases hin : 0x80 + low ≤ b.toNat ∧ b.toNat ≤ 0x80 + high
    · cases more with
      | zero =>
        simp only [step, if_pos hin, List.mem_singleton] at hc
        have hv := hs (acc * 64 + (b.toNat - 0x80)) (by simp; omega) (by simp; omega)
        right
        rw [hc, toNat_ofNat hv.2]
        exact hv.1
      | succ more => simp [step, hin] at hc
    · simp only [step, if_neg hin, List.mem_cons] at hc
      rcases hc with rfl | hc
      · exact .inr (by decide)
      · exact mem_first hc

theorem mem_run_ascii {s : State} (hs : Sound s) {bs : List UInt8} {c : Char}
    (hc : c ∈ run s bs) (hascii : c.toNat < 0x80) : ∃ b ∈ bs, c = Char.ofNat b.toNat := by
  induction bs generalizing s with
  | nil =>
    cases s with
    | start => simp [run, flush] at hc
    | tail more low high acc =>
      simp only [run, flush, List.mem_singleton] at hc
      subst hc
      exact absurd hascii (by decide)
  | cons b bs ih =>
    rw [run, List.mem_append] at hc
    rcases hc with hc | hc
    · rcases mem_step hs hc with h | h
      · exact ⟨b, by simp, h⟩
      · omega
    · obtain ⟨b', hb', h⟩ := ih (sound_step hs b) hc
      exact ⟨b', by simp [hb'], h⟩

/-- **No ASCII character is invented.** -/
theorem mem_fromUtf8Lossy_ascii {bs : List UInt8} {c : Char} (hc : c ∈ fromUtf8Lossy bs)
    (hascii : c.toNat < 0x80) : ∃ b ∈ bs, c = Char.ofNat b.toNat :=
  mem_run_ascii (s := .start) trivial hc hascii

/-! ### Round trip -/

/-- A two-byte sequence. -/
private theorem run_two {n : ℕ} (h1 : 0x80 ≤ n) (h2 : n ≤ 0x7FF) (bs : List UInt8) :
    run .start (UInt8.ofNat (n / 64 % 32 + 192) :: UInt8.ofNat (n % 64 + 128) :: bs)
      = Char.ofNat n :: fromUtf8Lossy bs := by
  have e1 : (UInt8.ofNat (n / 64 % 32 + 192)).toNat = n / 64 + 192 := by
    rw [UInt8.toNat_ofNat']; omega
  have e2 : (UInt8.ofNat (n % 64 + 128)).toNat = n % 64 + 128 := by
    rw [UInt8.toNat_ofNat']; omega
  have hf : first (UInt8.ofNat (n / 64 % 32 + 192)) = ([], .tail 0 0 0x3F (n / 64)) := by
    simp only [first, e1]
    rw [if_neg (by omega), if_neg (by omega), if_pos (by omega), Nat.add_sub_cancel]
  simp only [run, step, hf, e2, List.nil_append]
  rw [if_pos (by omega)]
  simp only [List.cons_append, List.nil_append]
  rw [show n / 64 * 64 + (n % 64 + 128 - 128) = n by omega]
  rfl

/-- A three-byte sequence. -/
private theorem run_three {n : ℕ} (h1 : 0x800 ≤ n) (h2 : n ≤ 0xFFFF) (hv : n.isValidChar)
    (bs : List UInt8) :
    run .start (UInt8.ofNat (n / 4096 % 16 + 224) :: UInt8.ofNat (n / 64 % 64 + 128) ::
      UInt8.ofNat (n % 64 + 128) :: bs) = Char.ofNat n :: fromUtf8Lossy bs := by
  have e1 : (UInt8.ofNat (n / 4096 % 16 + 224)).toNat = n / 4096 + 224 := by
    rw [UInt8.toNat_ofNat']; omega
  have e2 : (UInt8.ofNat (n / 64 % 64 + 128)).toNat = n / 64 % 64 + 128 := by
    rw [UInt8.toNat_ofNat']; omega
  have e3 : (UInt8.ofNat (n % 64 + 128)).toNat = n % 64 + 128 := by
    rw [UInt8.toNat_ofNat']; omega
  -- the first byte narrows the second for E0 (overlong) and ED (surrogates)
  obtain ⟨low, high, hf, hlow, hhigh⟩ : ∃ low high,
      first (UInt8.ofNat (n / 4096 % 16 + 224)) = ([], .tail 1 low high (n / 4096)) ∧
        low ≤ n / 64 % 64 ∧ n / 64 % 64 ≤ high := by
    simp only [Nat.isValidChar] at hv
    simp only [first, e1]
    rw [if_neg (by omega), if_neg (by omega), if_neg (by omega)]
    by_cases hE0 : n / 4096 = 0
    · exact ⟨0x20, 0x3F, by simp [hE0], by omega, by omega⟩
    by_cases hED : n / 4096 = 0xD
    · exact ⟨0, 0x1F, by simp [hED], by omega, by omega⟩
    · refine ⟨0, 0x3F, ?_, by omega, by omega⟩
      rw [if_neg (by omega), if_neg (by omega), if_pos (by omega), Nat.add_sub_cancel]
  simp only [run, step, hf, e2, List.nil_append]
  rw [if_pos (by omega)]
  simp only [e3, List.nil_append]
  rw [if_pos (by omega)]
  simp only [List.cons_append, List.nil_append]
  rw [show (n / 4096 * 64 + (n / 64 % 64 + 128 - 128)) * 64 + (n % 64 + 128 - 128) = n by omega]
  rfl

/-- A four-byte sequence. -/
private theorem run_four {n : ℕ} (h1 : 0x10000 ≤ n) (hv : n.isValidChar) (bs : List UInt8) :
    run .start (UInt8.ofNat (n / 262144 % 8 + 240) :: UInt8.ofNat (n / 4096 % 64 + 128) ::
      UInt8.ofNat (n / 64 % 64 + 128) :: UInt8.ofNat (n % 64 + 128) :: bs)
      = Char.ofNat n :: fromUtf8Lossy bs := by
  simp only [Nat.isValidChar] at hv
  have e1 : (UInt8.ofNat (n / 262144 % 8 + 240)).toNat = n / 262144 + 240 := by
    rw [UInt8.toNat_ofNat']; omega
  have e2 : (UInt8.ofNat (n / 4096 % 64 + 128)).toNat = n / 4096 % 64 + 128 := by
    rw [UInt8.toNat_ofNat']; omega
  have e3 : (UInt8.ofNat (n / 64 % 64 + 128)).toNat = n / 64 % 64 + 128 := by
    rw [UInt8.toNat_ofNat']; omega
  have e4 : (UInt8.ofNat (n % 64 + 128)).toNat = n % 64 + 128 := by
    rw [UInt8.toNat_ofNat']; omega
  -- the first byte narrows the second for F0 (overlong) and F4 (beyond U+10FFFF)
  obtain ⟨low, high, hf, hlow, hhigh⟩ : ∃ low high,
      first (UInt8.ofNat (n / 262144 % 8 + 240)) = ([], .tail 2 low high (n / 262144)) ∧
        low ≤ n / 4096 % 64 ∧ n / 4096 % 64 ≤ high := by
    simp only [first, e1]
    rw [if_neg (by omega), if_neg (by omega), if_neg (by omega), if_neg (by omega),
      if_neg (by omega), if_neg (by omega)]
    by_cases hF0 : n / 262144 = 0
    · exact ⟨0x10, 0x3F, by simp [hF0], by omega, by omega⟩
    by_cases hF4 : n / 262144 = 4
    · exact ⟨0, 0x0F, by simp [hF4], by omega, by omega⟩
    · refine ⟨0, 0x3F, ?_, by omega, by omega⟩
      rw [if_neg (by omega), if_pos (by omega), Nat.add_sub_cancel]
  simp only [run, step, hf, e2, List.nil_append]
  rw [if_pos (by omega)]
  simp only [e3, List.nil_append]
  rw [if_pos (by omega)]
  simp only [e4, List.nil_append]
  rw [if_pos (by omega)]
  simp only [List.cons_append, List.nil_append]
  rw [show ((n / 262144 * 64 + (n / 4096 % 64 + 128 - 128)) * 64 + (n / 64 % 64 + 128 - 128)) * 64
    + (n % 64 + 128 - 128) = n by omega]
  rfl

theorem fromUtf8Lossy_encodeChar (c : Char) (bs : List UInt8) :
    fromUtf8Lossy (String.utf8EncodeChar c ++ bs) = c :: fromUtf8Lossy bs := by
  have hv : c.toNat.isValidChar := c.valid
  have hc : Char.ofNat c.toNat = c := Char.ofNat_toNat c
  unfold String.utf8EncodeChar
  dsimp only
  rw [show c.val.toNat = c.toNat from rfl]
  split
  · rename_i h
    have hn : (UInt8.ofNat c.toNat).toNat = c.toNat := by rw [UInt8.toNat_ofNat']; omega
    rw [List.cons_append, List.nil_append, fromUtf8Lossy_cons_ascii (by omega), hn, hc]
  split
  · exact (run_two (by omega) (by omega) bs).trans (by rw [hc])
  split
  · exact (run_three (by omega) (by omega) hv bs).trans (by rw [hc])
  · exact (run_four (by omega) hv bs).trans (by rw [hc])

/-- **Round trip.** -/
theorem fromUtf8Lossy_encode (s : List Char) : fromUtf8Lossy (encode s) = s := by
  induction s with
  | nil => rfl
  | cons c s ih => rw [encode_cons, fromUtf8Lossy_encodeChar, ih]

/-- A text in front of any bytes decodes on its own. -/
theorem fromUtf8Lossy_encode_append (s : List Char) (bs : List UInt8) :
    fromUtf8Lossy (encode s ++ bs) = s ++ fromUtf8Lossy bs := by
  induction s with
  | nil => rfl
  | cons c s ih => rw [encode_cons, List.append_assoc, fromUtf8Lossy_encodeChar, ih]; rfl

/-- An ASCII byte of an encoded text is one of its characters. -/
theorem mem_of_mem_encode {s : List Char} {b : UInt8} (hb : b ∈ encode s)
    (hascii : b.toNat < 0x80) : Char.ofNat b.toNat ∈ s := by
  obtain ⟨as, bs, hsplit⟩ := List.append_of_mem hb
  rw [← fromUtf8Lossy_encode s, hsplit, fromUtf8Lossy_append_ascii as hascii]
  simp

/-- ASCII text is encoded byte by byte. -/
theorem encode_ascii {s : List Char} (hs : ∀ c ∈ s, c.toNat < 0x80) :
    encode s = s.map fun c => UInt8.ofNat c.toNat := by
  induction s with
  | nil => rfl
  | cons c s ih =>
    have hc : String.utf8EncodeChar c = [UInt8.ofNat c.toNat] := by
      unfold String.utf8EncodeChar
      rw [show c.val.toNat = c.toNat from rfl]
      exact if_pos (by have := hs c (by simp); omega)
    rw [encode_cons, hc, ih fun c hc => hs c (by simp [hc])]
    rfl

theorem fromUtf8_eq_some {bs : List UInt8} {s : List Char} :
    fromUtf8 bs = some s ↔ encode s = bs := by
  unfold fromUtf8
  split
  · rename_i h
    rw [Option.some.injEq]
    constructor
    · rintro rfl
      exact h
    · rintro rfl
      exact fromUtf8Lossy_encode s
  · rename_i h
    constructor
    · intro he
      cases he
    · rintro rfl
      exact absurd (by rw [fromUtf8Lossy_encode]) h

end Lib.Utf8
