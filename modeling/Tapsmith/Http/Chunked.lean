import Tapsmith.Http.Head

namespace Tapsmith.Http

open Lib Lib.Search Lib.Text

/-!
# The chunked coding

`parseChunked` reads the chunked coding off the front of a byte list, by the grammar that
`read_chunked_body` documents:

* chunked-body  = *chunk last-chunk trailer-section CRLF
* chunk         = chunk-size [ chunk-ext ] CRLF chunk-data CRLF
* last-chunk    = "0" [ chunk-ext ] CRLF

It returns the payload and the number of bytes consumed.  `ChunkedBody` is the same grammar
as a data type.

* `parseChunked_length` — the coding is longer than its payload, by five bytes at least;
* `parseChunked_take_append` — only the bytes consumed matter;
* `ChunkedBody.parseChunked_bytes` — what is read off a written body is that body.
-/

/-- The size a chunk-size line declares: extensions are cut off at `;`. -/
def chunkSize (line : Bytes) : Option ℕ :=
  (Utf8.fromUtf8 line).bind fun text => fromStrRadix 16 (trim ((text.splitOn ';').headD []))

/-- The length of a trailer section with the blank line that ends it. -/
def trailersEnd (bs : Bytes) : Option ℕ :=
  if crlf <+: bs then some 2 else (position headerTerminator bs).map (· + 4)

/-- One round of the chunk loop for each unit of fuel. -/
def parseChunks : ℕ → Bytes → Option (Bytes × ℕ)
  | 0, _ => none
  | fuel + 1, bs =>
    match position crlf bs with
    | none => none
    | some p =>
      match chunkSize (bs.take p) with
      | none => none
      | some 0 => (trailersEnd (bs.drop (p + 2))).map fun k => ([], p + 2 + k)
      | some (n + 1) =>
        let rest := bs.drop (p + 2)
        if (rest.drop (n + 1)).take 2 = crlf then
          (parseChunks fuel (rest.drop (n + 3))).map fun r =>
            (rest.take (n + 1) ++ r.1, p + n + 5 + r.2)
        else none

/-- The payload of the chunked body in front of `bs` and the number of bytes it takes. -/
def parseChunked (bs : Bytes) : Option (Bytes × ℕ) := parseChunks (bs.length + 1) bs

/-! ### Fuel -/

/-- Every round consumes bytes, so fuel beyond the length does not matter. -/
theorem parseChunks_fuel (f g : ℕ) (bs : Bytes) (hf : bs.length < f) (hg : bs.length < g) :
    parseChunks f bs = parseChunks g bs := by
  induction f generalizing g bs with
  | zero => omega
  | succ f ih =>
    obtain ⟨g, rfl⟩ : ∃ k, g = k + 1 := ⟨g - 1, by omega⟩
    cases hp : position crlf bs with
    | none => simp only [parseChunks, hp]
    | some p =>
      have hlt := position_lt (by decide) hp
      simp only [crlf, List.length_cons, List.length_nil] at hlt
      have hrec : ∀ n, parseChunks f ((bs.drop (p + 2)).drop (n + 3))
          = parseChunks g ((bs.drop (p + 2)).drop (n + 3)) := fun n =>
        ih g _ (by simp only [List.length_drop]; omega) (by simp only [List.length_drop]; omega)
      simp only [parseChunks, hp, hrec]

/-- **One round of the parser.** -/
theorem parseChunked_eq (bs : Bytes) :
    parseChunked bs = match position crlf bs with
      | none => none
      | some p =>
        match chunkSize (bs.take p) with
        | none => none
        | some 0 => (trailersEnd (bs.drop (p + 2))).map fun k => ([], p + 2 + k)
        | some (n + 1) =>
          let rest := bs.drop (p + 2)
          if (rest.drop (n + 1)).take 2 = crlf then
            (parseChunked (rest.drop (n + 3))).map fun r =>
              (rest.take (n + 1) ++ r.1, p + n + 5 + r.2)
          else none := by
  cases hp : position crlf bs with
  | none => simp only [parseChunked, parseChunks, hp]
  | some p =>
    have hlt := position_lt (by decide) hp
    simp only [crlf, List.length_cons, List.length_nil] at hlt
    have hrec : ∀ n, parseChunks bs.length ((bs.drop (p + 2)).drop (n + 3))
        = parseChunked ((bs.drop (p + 2)).drop (n + 3)) := fun n =>
      parseChunks_fuel _ _ _ (by simp only [List.length_drop]; omega) (by omega)
    simp only [parseChunked, parseChunks, hp, hrec]

/-- The last chunk and its trailers. -/
theorem parseChunked_last {bs : Bytes} {p k : ℕ} (hp : position crlf bs = some p)
    (hs : chunkSize (bs.take p) = some 0) (hk : trailersEnd (bs.drop (p + 2)) = some k) :
    parseChunked bs = some ([], p + 2 + k) := by
  rw [parseChunked_eq]
  simp only [hp, hs, hk, Option.map_some]

/-- A data chunk and what follows it. -/
theorem parseChunked_chunk {bs d : Bytes} {p m n : ℕ} (hp : position crlf bs = some p)
    (hs : chunkSize (bs.take p) = some (m + 1))
    (hcr : (bs.drop (p + m + 3)).take 2 = crlf)
    (hrec : parseChunked (bs.drop (p + m + 5)) = some (d, n)) :
    parseChunked bs = some ((bs.drop (p + 2)).take (m + 1) ++ d, p + m + 5 + n) := by
  rw [parseChunked_eq]
  simp only [hp, hs, List.drop_drop]
  rw [show p + 2 + (m + 1) = p + m + 3 by omega, show p + 2 + (m + 3) = p + m + 5 by omega,
    if_pos hcr, hrec, Option.map_some]

/-- **What an accepted body looks like.** -/
theorem parseChunked_cases {bs d : Bytes} {n : ℕ} (h : parseChunked bs = some (d, n)) :
    ∃ p, position crlf bs = some p ∧ 0 < p ∧ p + 2 ≤ bs.length ∧
      ((∃ k, chunkSize (bs.take p) = some 0 ∧ trailersEnd (bs.drop (p + 2)) = some k ∧
          d = [] ∧ n = p + 2 + k) ∨
        ∃ m d' n', chunkSize (bs.take p) = some (m + 1) ∧
          (bs.drop (p + m + 3)).take 2 = crlf ∧ p + m + 5 ≤ bs.length ∧
          parseChunked (bs.drop (p + m + 5)) = some (d', n') ∧
          d = (bs.drop (p + 2)).take (m + 1) ++ d' ∧ n = p + m + 5 + n') := by
  rw [parseChunked_eq] at h
  cases hp : position crlf bs with
  | none => simp only [hp] at h; cases h
  | some p =>
    have hlt := position_lt (by decide) hp
    simp only [crlf, List.length_cons, List.length_nil] at hlt
    simp only [hp, List.drop_drop] at h
    cases hs : chunkSize (bs.take p) with
    | none => simp only [hs] at h; cases h
    | some size =>
      -- an empty size line declares nothing
      have hp0 : 0 < p := by
        by_contra h0
        obtain rfl : p = 0 := by omega
        exact absurd hs (by rw [List.take_zero, show chunkSize [] = none by decide]; simp)
      simp only [hs] at h
      refine ⟨p, rfl, hp0, hlt, ?_⟩
      cases size with
      | zero =>
        obtain ⟨k, hk, hdk⟩ := Option.map_eq_some_iff.mp h
        cases hdk
        exact Or.inl ⟨k, hs, hk, rfl, rfl⟩
      | succ m =>
        dsimp only at h
        rw [show p + 2 + (m + 1) = p + m + 3 by omega,
          show p + 2 + (m + 3) = p + m + 5 by omega] at h
        split at h
        · rename_i hcr
          obtain ⟨⟨d', n'⟩, hrec, hdn⟩ := Option.map_eq_some_iff.mp h
          cases hdn
          have hlen := congrArg List.length hcr
          simp only [List.length_take, List.length_drop, crlf, List.length_cons,
            List.length_nil] at hlen
          exact Or.inr ⟨m, d', n', hs, hcr, by omega, hrec, rfl, rfl⟩
        · cases h

/-! ### Only the bytes consumed matter -/

theorem trailersEnd_length {bs : Bytes} {k : ℕ} (h : trailersEnd bs = some k) :
    2 ≤ k ∧ k ≤ bs.length := by
  unfold trailersEnd at h
  split at h
  · rename_i hpre
    cases h
    exact ⟨le_refl 2, hpre.length_le⟩
  · obtain ⟨p, hp, rfl⟩ := Option.map_eq_some_iff.mp h
    have := position_lt (by decide) hp
    simp only [headerTerminator, List.length_cons, List.length_nil] at this
    omega

/-- A trailer line leaves the end of the section where it is. -/
theorem trailersEnd_line {bs : Bytes} {p : ℕ} (hp : position crlf bs = some (p + 1)) :
    trailersEnd bs = (trailersEnd (bs.drop (p + 3))).map (p + 3 + ·) := by
  obtain ⟨⟨rest, hrest⟩, hle, hmin⟩ := position_eq_some.mp hp
  have hsub : crlf <+: headerTerminator := ⟨crlf, rfl⟩
  have hdrop : bs.drop (p + 3) = rest := by
    rw [show p + 3 = p + 1 + 2 by omega, ← List.drop_drop, ← hrest]
    rfl
  have hno : ¬ crlf <+: bs := by simpa using hmin 0 (by omega)
  have hskip : position headerTerminator bs
      = (position headerTerminator (crlf ++ rest)).map (p + 1 + ·) := by
    rw [hrest]
    exact position_drop (by decide) hle fun j hj hocc => hmin j hj (hsub.trans hocc)
  rw [trailersEnd, if_neg hno, hskip, hdrop, trailersEnd]
  by_cases hend : crlf <+: rest
  · have hhere : position headerTerminator (crlf ++ rest) = some 0 := by
      obtain ⟨rest', rfl⟩ := hend
      simp [crlf, headerTerminator, position]
    rw [hhere, if_pos hend]
    rfl
  · have h1 : ¬ headerTerminator <+: 13 :: 10 :: rest := by
      simp only [headerTerminator, List.cons_prefix_cons, true_and]
      exact hend
    have h2 : ¬ headerTerminator <+: 10 :: rest := by
      simp [headerTerminator, List.cons_prefix_cons]
    rw [if_neg hend]
    show Option.map _ (Option.map _ (position headerTerminator (13 :: 10 :: rest))) = _
    rw [position_cons_of_absent h1, position_cons_of_absent h2]
    simp only [Option.map_map]
    congr 1
    funext n
    simp only [Function.comp]
    omega

/-- A trailer section starts with a line. -/
theorem trailersEnd_position {bs : Bytes} {k : ℕ} (h : trailersEnd bs = some k) :
    ∃ p, position crlf bs = some p ∧ p + 2 ≤ k := by
  unfold trailersEnd at h
  split at h
  · rename_i hpre
    cases h
    exact ⟨0, position_eq_some.mpr ⟨by simpa using hpre, Nat.zero_le _, by simp⟩, by omega⟩
  · obtain ⟨q, hq, rfl⟩ := Option.map_eq_some_iff.mp h
    have hsub : crlf <+: headerTerminator := ⟨crlf, rfl⟩
    have hocc : crlf <+: bs.drop q := hsub.trans (position_eq_some.mp hq).1
    cases hp : position crlf bs with
    | none => exact absurd hocc ((position_eq_none (by decide)).mp hp q)
    | some p =>
      refine ⟨p, rfl, ?_⟩
      have hmin := (position_eq_some.mp hp).2.2 q
      by_contra hlt
      exact hmin (by omega) hocc

theorem trailersEnd_take_append {bs : Bytes} {k : ℕ} (h : trailersEnd bs = some k)
    (more : Bytes) : trailersEnd (bs.take k ++ more) = some k := by
  unfold trailersEnd at h
  split at h
  · rename_i hpre
    cases h
    obtain ⟨rest, rfl⟩ := hpre
    rw [trailersEnd, if_pos]
    exact List.prefix_append crlf more
  · rename_i hpre
    obtain ⟨p, hp, rfl⟩ := Option.map_eq_some_iff.mp h
    have hle := position_lt (by decide) hp
    simp only [headerTerminator, List.length_cons, List.length_nil] at hle
    have htake : position headerTerminator (bs.take (p + 4)) = some p :=
      position_take (by decide) hp (by simp [headerTerminator])
    have hno : ¬ crlf <+: bs.take (p + 4) ++ more := by
      intro hcon
      refine hpre ?_
      have hlen : crlf.length ≤ (bs.take (p + 4)).length := by
        simp [crlf]
        omega
      have hshort := List.prefix_of_prefix_length_le hcon (List.prefix_append _ _) hlen
      exact hshort.trans (List.take_prefix _ _)
    rw [trailersEnd, if_neg hno, position_append (by decide) htake]
    rfl

/-- A chunked coding is longer than its payload: size line, CRLF and last chunk. -/
theorem parseChunked_length {bs : Bytes} {d : Bytes} {n : ℕ}
    (h : parseChunked bs = some (d, n)) : d.length + 5 ≤ n ∧ n ≤ bs.length := by
  induction hlen : bs.length using Nat.strong_induction_on generalizing bs d n with
  | _ len ih =>
    obtain ⟨p, -, hp0, hle, ⟨k, -, hk, rfl, rfl⟩ | ⟨m, d', n', -, -, hle', hrec, rfl, rfl⟩⟩ :=
      parseChunked_cases h
    · have := trailersEnd_length hk
      rw [List.length_drop] at this
      simp only [List.length_nil]
      omega
    · have hrec' := ih _ (by simp only [List.length_drop]; omega) hrec rfl
      simp only [List.length_drop] at hrec'
      simp only [List.length_append, List.length_take, List.length_drop]
      omega

/-- No bytes are a chunked coding of themselves. -/
theorem parseChunked_ne_self {body : Bytes} {n : ℕ} : parseChunked body ≠ some (body, n) := by
  intro h
  have := parseChunked_length h
  omega

/-- **Only the bytes consumed matter.** -/
theorem parseChunked_take_append {bs d : Bytes} {n : ℕ} (h : parseChunked bs = some (d, n))
    (more : Bytes) : parseChunked (bs.take n ++ more) = some (d, n) := by
  induction hlen : bs.length using Nat.strong_induction_on generalizing bs d n with
  | _ len ih =>
    have hn := parseChunked_length h
    have hdrop : ∀ k, k ≤ n → (bs.take n ++ more).drop k = (bs.drop k).take (n - k) ++ more :=
      fun k hk => by rw [List.drop_append_of_le_length (by simp; omega), List.drop_take]
    have htake : ∀ j k, k + j ≤ n →
        ((bs.drop k).take (n - k) ++ more).take j = (bs.drop k).take j := fun j k hk => by
      rw [List.take_append_of_le_length (by simp; omega), List.take_take,
        Nat.min_eq_left (by omega)]
    have hsame : ∀ p, p + 2 ≤ n → position crlf bs = some p →
        position crlf (bs.take n ++ more) = some p := fun p hpn hp =>
      position_append (by decide) (position_take (by decide) hp (by simpa [crlf] using hpn)) more
    obtain ⟨p, hp, hp0, hle, ⟨k, hs, hk, rfl, rfl⟩ | ⟨m, d', n', hs, hcr, hle', hrec, rfl, rfl⟩⟩ :=
      parseChunked_cases h
    · have hline := htake p 0 (by omega)
      rw [List.drop_zero, Nat.sub_zero] at hline
      refine parseChunked_last (hsame p (by omega) hp) (by rw [hline, hs]) ?_
      rw [hdrop (p + 2) (by omega), Nat.add_sub_cancel_left]
      exact trailersEnd_take_append hk more
    · have hline := htake p 0 (by omega)
      rw [List.drop_zero, Nat.sub_zero] at hline
      have hdata := htake (m + 1) (p + 2) (by omega)
      rw [← hdata, ← hdrop (p + 2) (by omega)]
      refine parseChunked_chunk (hsame p (by omega) hp) (by rw [hline, hs]) ?_ ?_
      · rw [hdrop (p + m + 3) (by omega), htake 2 (p + m + 3) (by omega), hcr]
      · rw [hdrop (p + m + 5) (by omega), Nat.add_sub_cancel_left]
        exact ih _ (by simp only [List.length_drop]; omega) hrec rfl

/-! ### The grammar as data -/

/-- A chunk extension: nothing, or a `;` (blanks may precede it) and any rest of the line. -/
def IsExtension (ext : Bytes) : Prop :=
  OneLine ext ∧ (ext = [] ∨ ∃ blanks rest, ext = blanks ++ 59 :: rest ∧
    ∀ b ∈ blanks, b = 32 ∨ b = 9)

/-- A chunk-size line: hexadecimal digits and an extension. -/
structure SizeLine where
  digits : Str
  ext : Bytes
  value : ℕ
  digits_ne : digits ≠ []
  digits_value : digitsValue 16 0 digits = some value
  ext_valid : IsExtension ext

/-- A data chunk. -/
structure Chunk where
  size : SizeLine
  data : Bytes
  data_ne : data ≠ []
  size_eq : size.value = data.length

/-- A chunked body: data chunks, the last chunk and the trailers. -/
structure ChunkedBody where
  chunks : List Chunk
  last : SizeLine
  trailers : List Field
  last_eq : last.value = 0

def SizeLine.bytes (l : SizeLine) : Bytes := Utf8.encode l.digits ++ l.ext

def Chunk.bytes (c : Chunk) : Bytes := c.size.bytes ++ crlf ++ c.data ++ crlf

/-- The bytes of a chunked body. -/
def ChunkedBody.bytes (b : ChunkedBody) : Bytes :=
  b.chunks.flatMap Chunk.bytes ++ (b.last.bytes ++ crlf ++ fieldLines b.trailers ++ crlf)

/-- What a chunked body carries. -/
def ChunkedBody.payload (b : ChunkedBody) : Bytes := b.chunks.flatMap Chunk.data

theorem SizeLine.digit_range (l : SizeLine) {c : Char} (hc : c ∈ l.digits) :
    (48 ≤ c.toNat ∧ c.toNat ≤ 57) ∨ (65 ≤ c.toNat ∧ c.toNat ≤ 90) ∨
      (97 ≤ c.toNat ∧ c.toNat ≤ 122) := by
  obtain ⟨d, hd⟩ := toDigit_of_digitsValue l.digits_value c hc
  exact toDigit_range hd

theorem SizeLine.digit_not_whitespace (l : SizeLine) {c : Char} (hc : c ∈ l.digits) :
    isWhitespace c = false := by
  have := l.digit_range hc
  simp only [isWhitespace, Bool.or_eq_false_iff, Bool.and_eq_false_iff, decide_eq_false_iff_not,
    beq_eq_false_iff_ne]
  omega

theorem SizeLine.oneLine (l : SizeLine) : OneLine l.bytes := by
  have hdigits : OneLine (Utf8.encode l.digits) := by
    apply oneLine_encode
    intro c hc
    have hrange := l.digit_range hc
    constructor <;> rintro rfl <;> revert hrange <;> decide
  intro b hb
  rcases List.mem_append.mp hb with hd | hext
  · exact hdigits b hd
  · exact l.ext_valid.1 b hext

/-- The text before the extension, trimmed, is the digits. -/
theorem SizeLine.digits_text (l : SizeLine) :
    trim (((Utf8.fromUtf8Lossy l.bytes).splitOn ';').headD []) = l.digits := by
  have hsemi : ∀ c ∈ l.digits, c ≠ ';' := by
    rintro c hc rfl
    have h : (';' : Char).toNat = 59 := rfl
    have := l.digit_range hc
    omega
  have hws : ∀ c ∈ l.digits, isWhitespace c = false := fun c hc => l.digit_not_whitespace hc
  rw [SizeLine.bytes, Utf8.fromUtf8Lossy_encode_append]
  obtain hnil | ⟨blanks, rest, hext, hblanks⟩ := l.ext_valid.2
  · have hnot : ';' ∉ l.digits := fun hm => hsemi _ hm rfl
    rw [hnil, Utf8.fromUtf8Lossy_nil, List.append_nil, List.splitOn_eq_singleton hnot]
    exact trim_eq_self hws
  · have hblank : ∀ c ∈ Utf8.fromUtf8Lossy blanks, c = ' ' ∨ c = '\t' := by
      have hascii : ∀ b ∈ blanks, b.toNat < 0x80 := fun b hb => by
        obtain rfl | rfl := hblanks b hb <;> decide
      rw [Utf8.fromUtf8Lossy_ascii hascii]
      intro c hc
      obtain ⟨b, hb, rfl⟩ := List.mem_map.mp hc
      obtain rfl | rfl := hblanks b hb <;> decide
    have hnot : ';' ∉ l.digits ++ Utf8.fromUtf8Lossy blanks := by
      intro hm
      obtain hd | hb := List.mem_append.mp hm
      · exact hsemi _ hd rfl
      · exact absurd (hblank _ hb) (by decide)
    rw [hext, Utf8.fromUtf8Lossy_append_ascii _ (by decide), ← List.append_assoc,
      show Char.ofNat (59 : UInt8).toNat = ';' from rfl,
      List.splitOn_append_cons_self_of_not_mem hnot, List.headD_cons]
    have htrim := trim_append_append (a := []) (s := l.digits) (b := Utf8.fromUtf8Lossy blanks)
      (by simp) (fun c hc => by obtain rfl | rfl := hblank c hc <;> decide) hws
    rwa [List.nil_append] at htrim

/-- A size line that is accepted is read as its value. -/
theorem SizeLine.chunkSize_bytes (l : SizeLine) {n : ℕ} (h : chunkSize l.bytes = some n) :
    n = l.value := by
  rw [chunkSize, Option.bind_eq_some_iff] at h
  obtain ⟨text, htext, hn⟩ := h
  obtain rfl : text = Utf8.fromUtf8Lossy l.bytes := by
    rw [← Utf8.fromUtf8_eq_some.mp htext, Utf8.fromUtf8Lossy_encode]
  have hplus : l.digits.head? ≠ some '+' := by
    intro hm
    have := l.digit_range (List.mem_of_mem_head? hm)
    rw [show ('+' : Char).toNat = 43 from rfl] at this
    omega
  rw [l.digits_text, fromStrRadix, unsignedDigits, if_neg hplus, if_neg l.digits_ne,
    Option.bind_some, l.digits_value, Option.filter_eq_some_iff] at hn
  exact (Option.some.inj hn.1).symm

theorem trailersEnd_fieldLines (trailers : List Field) (tail : Bytes) :
    trailersEnd (fieldLines trailers ++ crlf ++ tail)
      = some (fieldLines trailers ++ crlf).length := by
  cases trailers with
  | nil => rw [trailersEnd, if_pos (by simp [fieldLines])]; rfl
  | cons f fs =>
    obtain ⟨b, bs, hcons, hb⟩ := f.line_eq_cons
    have hpre : ¬ crlf <+: fieldLines (f :: fs) ++ crlf ++ tail := by
      simp only [fieldLines_cons, hcons, crlf, List.cons_append, List.cons_prefix_cons]
      exact fun h => hb h.1.symm
    rw [trailersEnd, if_neg hpre, fieldLines_cons, position_lines _ f.line_oneLine fs tail,
      Option.map_some, Option.some.injEq]
    simp only [List.length_append, crlf, List.length_cons, List.length_nil]
    omega

/-- The first line break behind a size line is its own. -/
theorem SizeLine.position_crlf (l : SizeLine) (rest : Bytes) :
    position crlf (l.bytes ++ crlf ++ rest) = some l.bytes.length := by
  rw [List.append_assoc, crlf, position_skip (not_mem_of_oneLine l.oneLine)]
  simp [position]

theorem SizeLine.drop_append (l : SizeLine) (rest : Bytes) (k : ℕ) :
    (l.bytes ++ crlf ++ rest).drop (l.bytes.length + 2 + k) = rest.drop k := by
  have hlen : (l.bytes ++ crlf).length = l.bytes.length + 2 := by simp [crlf]
  rw [← hlen, ← List.drop_drop, List.drop_left]

/-- A size line in front of accepted bytes was read as its value. -/
theorem SizeLine.parseChunked_cases (l : SizeLine) {rest d : Bytes} {n : ℕ}
    (h : parseChunked (l.bytes ++ crlf ++ rest) = some (d, n)) :
    (l.value = 0 ∧ ∃ k, trailersEnd rest = some k ∧ d = [] ∧ n = l.bytes.length + 2 + k) ∨
      ∃ d' n', l.value ≠ 0 ∧ parseChunked (rest.drop (l.value + 2)) = some (d', n') ∧
        d = rest.take l.value ++ d' ∧ n = l.bytes.length + 2 + l.value + 2 + n' := by
  have hline : (l.bytes ++ crlf ++ rest).take l.bytes.length = l.bytes := by
    rw [List.append_assoc, List.take_left]
  obtain ⟨p, hp, -, -, hcase⟩ := Http.parseChunked_cases h
  obtain rfl : l.bytes.length = p := Option.some.inj ((l.position_crlf rest).symm.trans hp)
  rw [hline] at hcase
  obtain ⟨k, hs, hk, rfl, rfl⟩ | ⟨m, d', n', hs, -, -, hrec, rfl, rfl⟩ := hcase
  · have hdrop := l.drop_append rest 0
    rw [Nat.add_zero, List.drop_zero] at hdrop
    rw [hdrop] at hk
    exact Or.inl ⟨(l.chunkSize_bytes hs).symm, k, hk, rfl, rfl⟩
  · have hvalue := l.chunkSize_bytes hs
    have hdrop := l.drop_append rest 0
    rw [Nat.add_zero, List.drop_zero] at hdrop
    rw [hdrop, hvalue]
    rw [show l.bytes.length + m + 5 = l.bytes.length + 2 + (l.value + 2) by omega,
      l.drop_append] at hrec
    exact Or.inr ⟨d', n', by omega, hrec, rfl, by omega⟩

/-- **What is read off a written body is that body**, whatever follows it. -/
theorem ChunkedBody.parseChunked_bytes (b : ChunkedBody) (tail : Bytes) {r : Bytes × ℕ}
    (h : parseChunked (b.bytes ++ tail) = some r) : r = (b.payload, b.bytes.length) := by
  obtain ⟨chunks, last, trailers, hlast⟩ := b
  obtain ⟨d, n⟩ := r
  simp only [ChunkedBody.bytes, ChunkedBody.payload] at h ⊢
  induction chunks generalizing d n with
  | nil =>
    have hassoc : [].flatMap Chunk.bytes ++ (last.bytes ++ crlf ++ fieldLines trailers ++ crlf) ++ tail
        = last.bytes ++ crlf ++ (fieldLines trailers ++ crlf ++ tail) := by
      simp only [List.flatMap_nil, List.nil_append, List.append_assoc]
    rw [hassoc] at h
    obtain ⟨-, k, hk, rfl, rfl⟩ | ⟨_, _, hne, -⟩ := last.parseChunked_cases h
    · rw [trailersEnd_fieldLines, Option.some.injEq] at hk
      subst hk
      simp [crlf]
      omega
    · exact absurd hlast hne
  | cons c cs ih =>
    have hassoc : (c :: cs).flatMap Chunk.bytes
        ++ (last.bytes ++ crlf ++ fieldLines trailers ++ crlf) ++ tail
        = c.size.bytes ++ crlf ++ (c.data ++ crlf ++ (cs.flatMap Chunk.bytes
          ++ (last.bytes ++ crlf ++ fieldLines trailers ++ crlf) ++ tail)) := by
      simp only [List.flatMap_cons, Chunk.bytes, List.append_assoc]
    rw [hassoc] at h
    obtain ⟨hzero, -⟩ | ⟨d', n', -, hrec, rfl, rfl⟩ := c.size.parseChunked_cases h
    · have := List.length_pos_of_ne_nil c.data_ne
      have := c.size_eq
      omega
    · have hdata : (c.data ++ crlf).length = c.size.value + 2 := by
        simp [crlf, c.size_eq]
      rw [← hdata, List.drop_left] at hrec
      have hrec' := ih d' n' hrec
      rw [Prod.mk.injEq] at hrec' ⊢
      obtain ⟨rfl, rfl⟩ := hrec'
      rw [c.size_eq, List.append_assoc, List.take_left]
      refine ⟨rfl, ?_⟩
      simp [Chunk.bytes, crlf]
      omega

end Tapsmith.Http
