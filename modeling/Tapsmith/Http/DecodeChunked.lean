import Tapsmith.Http.Chunked

namespace Tapsmith.Http

open Lib Lib.Search Lib.Text

/-!
# Decoding a fetched body

`decode_chunked` (`route_handler.rs`) turns the chunked body of a fetched upstream response into a
plain one.  Unlike `read_chunked_body` it adds the size that a chunk declares to an offset without
a check, so the sum is taken modulo `2 ^ 64`, as a release build does it.

* `decodeLoop_isSome` — the loop ends;
* `decodeChunked_returned_iff` — it slices in range exactly where no declared size wraps;
* `decodeChunked_body` — what it makes of a well-formed body: the data up to the first size line
  that is not UTF-8;
* `decodeChunked_sound_iff` — both together.
-/

/-- `+` on `usize` in a release build. -/
def wrappingAdd (a b : ℕ) : ℕ := (a + b) % 2 ^ 64

/-- A byte slice.  No allocation is larger than `isize::MAX`. -/
structure Slice where
  bytes : Bytes
  fits : bytes.length < 2 ^ 63

/-- `&data[start..stop]`; `none` where it panics. -/
def slice (data : Bytes) (start stop : ℕ) : Option Bytes :=
  if start ≤ stop ∧ stop ≤ data.length then some ((data.take stop).drop start) else none

/-- How `decode_chunked` ends. -/
inductive Decoded
  | returned (out : Bytes)
  | panicked
deriving DecidableEq

/-- The loop of `decode_chunked`, with a unit of fuel for each round. -/
def decodeLoop (data : Bytes) : ℕ → ℕ → Bytes → Option Decoded
  | 0, _, _ => none
  | fuel + 1, pos, result =>
    if pos < data.length then
      match position crlf (data.drop pos) with
      | none => some (.returned result)
      | some p =>
        let lineEnd := wrappingAdd pos p
        match slice data pos lineEnd with
        | none => some .panicked
        | some line =>
          -- a size that cannot be read counts as `0`, the last chunk
          let size := (chunkSize line).getD 0
          if size = 0 then some (.returned result)
          else
            let chunkStart := wrappingAdd lineEnd 2
            let chunkEnd := wrappingAdd chunkStart size
            if chunkEnd > data.length then some (.returned result)
            else
              match slice data chunkStart chunkEnd with
              | none => some .panicked
              | some chunk => decodeLoop data fuel (wrappingAdd chunkEnd 2) (result ++ chunk)
    else some (.returned result)

/-- `decode_chunked`. -/
def decodeChunked (data : Slice) : Option Decoded :=
  decodeLoop data.bytes (data.bytes.length + 1) 0 []

/-! ### One round -/

theorem wrappingAdd_eq {a b : ℕ} (h : a + b < 2 ^ 64) : wrappingAdd a b = a + b :=
  Nat.mod_eq_of_lt h

/-- A size line at `pos`: its length, and the size that `decode_chunked` reads off it. -/
def LineAt (data : Bytes) (pos p n : ℕ) : Prop :=
  position crlf (data.drop pos) = some p ∧ (chunkSize ((data.drop pos).take p)).getD 0 = n

theorem LineAt.bound {data : Bytes} {pos p n : ℕ} (h : LineAt data pos p n) :
    pos + p + 2 ≤ data.length := by
  have hlt := position_lt (by decide) h.1
  simp only [crlf, List.length_cons, List.length_nil, List.length_drop] at hlt
  omega

/-- The sizes that are read fit a `usize`. -/
theorem LineAt.size_lt {data : Bytes} {pos p n : ℕ} (h : LineAt data pos p n) : n < 2 ^ 64 := by
  obtain ⟨-, hn⟩ := h
  cases hsize : chunkSize ((data.drop pos).take p) with
  | none =>
    rw [hsize] at hn
    rw [← hn]
    decide
  | some m =>
    rw [hsize] at hn
    obtain rfl : m = n := hn
    rw [chunkSize, Option.bind_eq_some_iff] at hsize
    obtain ⟨text, -, hm⟩ := hsize
    rw [fromStrRadix, Option.filter_eq_some_iff] at hm
    exact of_decide_eq_true hm.2

section Round

variable {data : Bytes} {pos p n : ℕ} (hfits : data.length < 2 ^ 63)
  (fuel : ℕ) (result : Bytes)

theorem decodeLoop_end (h : data.length ≤ pos) :
    decodeLoop data (fuel + 1) pos result = some (.returned result) := by
  rw [decodeLoop, if_neg (Nat.not_lt.mpr h)]

theorem decodeLoop_noLine (h : position crlf (data.drop pos) = none) :
    decodeLoop data (fuel + 1) pos result = some (.returned result) := by
  rw [decodeLoop, h]
  split <;> rfl

include hfits

/-- The round that reads a size line, up to its size. -/
theorem decodeLoop_line (h : LineAt data pos p n) :
    decodeLoop data (fuel + 1) pos result =
      if n = 0 then some (.returned result)
      else if wrappingAdd (pos + p + 2) n > data.length then some (.returned result)
      else
        match slice data (pos + p + 2) (wrappingAdd (pos + p + 2) n) with
        | none => some .panicked
        | some chunk =>
          decodeLoop data fuel (wrappingAdd (wrappingAdd (pos + p + 2) n) 2) (result ++ chunk) := by
  have hbound := h.bound
  have hline : slice data pos (pos + p) = some ((data.drop pos).take p) := by
    rw [slice, if_pos ⟨by omega, by omega⟩, List.drop_take, Nat.add_sub_cancel_left]
  obtain ⟨hp, rfl⟩ := h
  rw [decodeLoop, if_pos (by omega), hp]
  dsimp only
  rw [wrappingAdd_eq (a := pos) (by omega), hline]
  dsimp only
  rw [wrappingAdd_eq (a := pos + p) (by omega)]

theorem decodeLoop_last (h : LineAt data pos p 0) :
    decodeLoop data (fuel + 1) pos result = some (.returned result) := by
  rw [decodeLoop_line hfits fuel result h, if_pos rfl]

/-- A chunk that is not complete ends the loop. -/
theorem decodeLoop_incomplete (h : LineAt data pos p n) (hn : n ≠ 0)
    (hwrap : pos + p + 2 + n < 2 ^ 64) (hlong : data.length < pos + p + 2 + n) :
    decodeLoop data (fuel + 1) pos result = some (.returned result) := by
  rw [decodeLoop_line hfits fuel result h, if_neg hn, wrappingAdd_eq hwrap, if_pos hlong]

/-- A complete chunk is appended. -/
theorem decodeLoop_chunk (h : LineAt data pos p n) (hn : n ≠ 0)
    (hin : pos + p + 2 + n ≤ data.length) :
    decodeLoop data (fuel + 1) pos result =
      decodeLoop data fuel (pos + p + 2 + n + 2)
        (result ++ (data.drop (pos + p + 2)).take n) := by
  have hchunk : slice data (pos + p + 2) (pos + p + 2 + n) =
      some ((data.drop (pos + p + 2)).take n) := by
    rw [slice, if_pos ⟨by omega, hin⟩, List.drop_take, Nat.add_sub_cancel_left]
  rw [decodeLoop_line hfits fuel result h, if_neg hn, wrappingAdd_eq (by omega),
    if_neg (by omega), hchunk]
  dsimp only
  rw [wrappingAdd_eq (by omega)]

/-- An end offset that wraps is smaller than the start, so it passes the bounds test. -/
theorem decodeLoop_wrapped (h : LineAt data pos p n) (hwrap : 2 ^ 64 ≤ pos + p + 2 + n) :
    decodeLoop data (fuel + 1) pos result = some .panicked := by
  have hbound := h.bound
  have hsize := h.size_lt
  have hend : wrappingAdd (pos + p + 2) n = pos + p + 2 + n - 2 ^ 64 := by
    rw [wrappingAdd, Nat.mod_eq_sub_mod hwrap, Nat.mod_eq_of_lt (by omega)]
  rw [decodeLoop_line hfits fuel result h, if_neg (by omega), hend, if_neg (by omega), slice,
    if_neg (by omega)]

end Round

/-- The loop is at its end, finds no size line, or finds one. -/
theorem line_cases (data : Bytes) (pos : ℕ) :
    data.length ≤ pos ∨ position crlf (data.drop pos) = none ∨ ∃ p n, LineAt data pos p n := by
  cases h : position crlf (data.drop pos) with
  | none => exact .inr (.inl rfl)
  | some p => exact .inr (.inr ⟨p, _, h, rfl⟩)

/-- **The loop ends**, on any bytes. -/
theorem decodeLoop_isSome {data : Bytes} (hfits : data.length < 2 ^ 63) {fuel pos : ℕ}
    (result : Bytes) (hfuel : data.length - pos < fuel) :
    (decodeLoop data fuel pos result).isSome := by
  induction fuel generalizing pos result with
  | zero => exact absurd hfuel (Nat.not_lt_zero _)
  | succ fuel ih =>
    obtain hend | hnone | ⟨p, n, hline⟩ := line_cases data pos
    · rw [decodeLoop_end fuel result hend]
      rfl
    · rw [decodeLoop_noLine fuel result hnone]
      rfl
    · rcases Nat.eq_zero_or_pos n with rfl | hn
      · rw [decodeLoop_last hfits fuel result hline]
        rfl
      have hn : n ≠ 0 := Nat.pos_iff_ne_zero.mp hn
      rcases Nat.lt_or_ge (pos + p + 2 + n) (2 ^ 64) with hwrap | hwrap
      · rcases Nat.lt_or_ge data.length (pos + p + 2 + n) with hlong | hin
        · rw [decodeLoop_incomplete hfits fuel result hline hn hwrap hlong]
          rfl
        · rw [decodeLoop_chunk hfits fuel result hline hn hin]
          exact ih _ (by omega)
      · rw [decodeLoop_wrapped hfits fuel result hline hwrap]
        rfl

/-! ### Sizes that wrap -/

/-- The offsets at which a size line is looked for: the front, and behind each complete chunk. -/
inductive ChunkAt (data : Bytes) : ℕ → Prop
  | front : ChunkAt data 0
  | next {pos p n : ℕ} : ChunkAt data pos → LineAt data pos p n → n ≠ 0 →
      pos + p + 2 + n ≤ data.length → ChunkAt data (pos + p + 2 + n + 2)

/-- No chunk declares a size whose end is beyond `usize`. -/
def Unwrapped (data : Bytes) : Prop :=
  ∀ pos p n, ChunkAt data pos → LineAt data pos p n → pos + p + 2 + n < 2 ^ 64

section Slice

variable (data : Slice)

theorem decodeLoop_returned {fuel pos : ℕ} (hunwrapped : Unwrapped data.bytes)
    (hat : ChunkAt data.bytes pos) (result : Bytes) (hfuel : data.bytes.length - pos < fuel) :
    ∃ out, decodeLoop data.bytes fuel pos result = some (.returned out) := by
  induction fuel generalizing pos result with
  | zero => exact absurd hfuel (Nat.not_lt_zero _)
  | succ fuel ih =>
    obtain hend | hnone | ⟨p, n, hline⟩ := line_cases data.bytes pos
    · exact ⟨_, decodeLoop_end fuel result hend⟩
    · exact ⟨_, decodeLoop_noLine fuel result hnone⟩
    · rcases Nat.eq_zero_or_pos n with rfl | hn
      · exact ⟨_, decodeLoop_last data.fits fuel result hline⟩
      have hn : n ≠ 0 := Nat.pos_iff_ne_zero.mp hn
      rcases Nat.lt_or_ge data.bytes.length (pos + p + 2 + n) with hlong | hin
      · exact ⟨_, decodeLoop_incomplete data.fits fuel result hline hn
          (hunwrapped pos p n hat hline) hlong⟩
      · rw [decodeLoop_chunk data.fits fuel result hline hn hin]
        exact ih (hat.next hline hn hin) _ (by omega)

/-- Where the loop returns, it comes by every offset of a size line. -/
theorem ChunkAt.passed {out : Bytes} (hout : decodeChunked data = some (.returned out)) {pos : ℕ}
    (hat : ChunkAt data.bytes pos) :
    ∃ fuel result, decodeLoop data.bytes fuel pos result = some (.returned out) := by
  induction hat with
  | front => exact ⟨_, _, hout⟩
  | @next pos p n _ hline hn hin ih =>
    obtain ⟨fuel, result, hloop⟩ := ih
    cases fuel with
    | zero => cases hloop
    | succ fuel =>
      rw [decodeLoop_chunk data.fits fuel result hline hn hin] at hloop
      exact ⟨fuel, _, hloop⟩

/-- **Slices in range.**  The body is decoded exactly where no declared size wraps. -/
theorem decodeChunked_returned_iff :
    (∃ out, decodeChunked data = some (.returned out)) ↔ Unwrapped data.bytes := by
  constructor
  · rintro ⟨out, hout⟩ pos p n hat hline
    obtain ⟨fuel, result, hloop⟩ := hat.passed data hout
    by_contra hwrap
    cases fuel with
    | zero => cases hloop
    | succ fuel =>
      rw [decodeLoop_wrapped data.fits fuel result hline (Nat.le_of_not_lt hwrap)] at hloop
      cases hloop
  · intro hunwrapped
    exact decodeLoop_returned data hunwrapped .front [] (Nat.lt_succ_of_le (Nat.sub_le _ _))

end Slice

/-! ### Well-formed bodies -/

/-- Whether a size line is UTF-8; an extension may hold any bytes but line breaks. -/
def SizeLine.readable (l : SizeLine) : Bool := (Utf8.fromUtf8 l.bytes).isSome

def Chunk.readable (c : Chunk) : Bool := c.size.readable

theorem SizeLine.chunkSize_readable (l : SizeLine) (hread : l.readable = true)
    (hvalue : l.value < 2 ^ 64) : chunkSize l.bytes = some l.value := by
  obtain ⟨text, htext⟩ := Option.isSome_iff_exists.mp hread
  have hlossy : text = Utf8.fromUtf8Lossy l.bytes := by
    rw [← Utf8.fromUtf8_eq_some.mp htext, Utf8.fromUtf8Lossy_encode]
  have hplus : l.digits.head? ≠ some '+' := by
    intro hm
    have := l.digit_range (List.mem_of_mem_head? hm)
    rw [show ('+' : Char).toNat = 43 from rfl] at this
    omega
  rw [chunkSize, htext, Option.bind_some, hlossy, l.digits_text, fromStrRadix, unsignedDigits,
    if_neg hplus, if_neg l.digits_ne, Option.bind_some, l.digits_value,
    Option.filter_some, if_pos (decide_eq_true hvalue)]

/-- What `decode_chunked` reads off a size line that stands behind `front`. -/
theorem SizeLine.lineAt (l : SizeLine) (front rest : Bytes)
    (hvalue : l.value < 2 ^ 64) :
    LineAt (front ++ (l.bytes ++ crlf ++ rest)) front.length l.bytes.length
      (if l.readable then l.value else 0) := by
  rw [LineAt, List.drop_left, List.append_assoc, List.take_left, ← List.append_assoc]
  refine ⟨l.position_crlf rest, ?_⟩
  by_cases hread : l.readable = true
  · rw [if_pos hread, l.chunkSize_readable hread hvalue]
    rfl
  · have hnone : Utf8.fromUtf8 l.bytes = none :=
      Option.not_isSome_iff_eq_none.mp hread
    rw [if_neg hread, chunkSize, hnone]
    rfl

/-- The chunks are decoded up to the first whose size line is not UTF-8, whatever stands behind a
    last chunk. -/
theorem decodeLoop_chunks (chunks : List Chunk) (last : SizeLine) (hlast : last.value = 0)
    (front rest : Bytes) {data : Bytes}
    (hdata : data = front ++ (chunks.flatMap Chunk.bytes ++ (last.bytes ++ crlf ++ rest)))
    (hfits : data.length < 2 ^ 63) (fuel : ℕ) (hfuel : data.length - front.length < fuel)
    (result : Bytes) :
    decodeLoop data fuel front.length result =
      some (.returned (result ++ (chunks.takeWhile Chunk.readable).flatMap Chunk.data)) := by
  induction chunks generalizing front fuel result with
  | nil =>
    obtain ⟨fuel, rfl⟩ : ∃ k, fuel = k + 1 := ⟨fuel - 1, by omega⟩
    have hline := last.lineAt front rest (by rw [hlast]; decide)
    rw [hlast, ite_self] at hline
    subst hdata
    exact (decodeLoop_last hfits fuel result hline).trans (by simp)
  | cons c cs ih =>
    obtain ⟨fuel, rfl⟩ : ∃ k, fuel = k + 1 := ⟨fuel - 1, by omega⟩
    obtain ⟨tail, htail⟩ : ∃ tail,
        tail = cs.flatMap Chunk.bytes ++ (last.bytes ++ crlf ++ rest) := ⟨_, rfl⟩
    have hdata' : data = front ++ (c.size.bytes ++ crlf ++ (c.data ++ (crlf ++ tail))) := by
      rw [hdata, htail]
      simp only [List.flatMap_cons, Chunk.bytes, List.append_assoc]
    have hlen : front.length + c.size.bytes.length + 2 + c.data.length + 2 + tail.length =
        data.length := by
      rw [hdata']
      simp only [List.length_append, crlf, List.length_cons, List.length_nil]
      omega
    have hsize := c.size_eq
    have hline := c.size.lineAt front (c.data ++ (crlf ++ tail)) (by omega)
    rw [← hdata'] at hline
    rw [← Chunk.readable] at hline
    by_cases hread : c.readable = true
    · rw [if_pos hread] at hline
      have hne : c.size.value ≠ 0 := by
        rw [hsize]
        exact Nat.pos_iff_ne_zero.mp (List.length_pos_of_ne_nil c.data_ne)
      have hchunk : (data.drop (front.length + c.size.bytes.length + 2)).take c.size.value =
          c.data := by
        have hfront : front.length + c.size.bytes.length + 2 =
            (front ++ (c.size.bytes ++ crlf)).length := by simp [crlf, Nat.add_assoc]
        have hassoc : data = front ++ (c.size.bytes ++ crlf) ++ (c.data ++ (crlf ++ tail)) := by
          rw [hdata', List.append_assoc front]
        rw [hfront, hassoc, List.drop_left, hsize, List.take_left]
      rw [decodeLoop_chunk hfits fuel result hline hne (by omega), hchunk]
      have hnext : front.length + c.size.bytes.length + 2 + c.size.value + 2 =
          (front ++ c.bytes).length := by
        simp only [Chunk.bytes, List.length_append, crlf, List.length_cons, List.length_nil, hsize]
        omega
      rw [hnext, ih (front ++ c.bytes)
        (by rw [hdata, List.flatMap_cons]; simp only [List.append_assoc]) fuel (by omega),
        List.takeWhile_cons_of_pos hread, List.flatMap_cons, List.append_assoc]
    · rw [if_neg hread] at hline
      rw [decodeLoop_last hfits fuel result hline, List.takeWhile_cons_of_neg hread]
      simp

/-- **What is made of a well-formed body.** -/
theorem decodeChunked_body (b : ChunkedBody) (hfits : b.bytes.length < 2 ^ 63) :
    decodeChunked ⟨b.bytes, hfits⟩ =
      some (.returned ((b.chunks.takeWhile Chunk.readable).flatMap Chunk.data)) := by
  have hbytes : b.bytes = [] ++ (b.chunks.flatMap Chunk.bytes ++
      (b.last.bytes ++ crlf ++ (fieldLines b.trailers ++ crlf))) := by
    simp only [ChunkedBody.bytes, List.nil_append, List.append_assoc]
  exact decodeLoop_chunks b.chunks b.last b.last_eq [] _ hbytes hfits _
    (Nat.lt_succ_of_le (Nat.sub_le _ _)) []

/-- No data is lost exactly where every size line is UTF-8. -/
theorem takeWhile_readable_iff (chunks : List Chunk) :
    (chunks.takeWhile Chunk.readable).flatMap Chunk.data = chunks.flatMap Chunk.data ↔
      ∀ c ∈ chunks, c.readable = true := by
  induction chunks with
  | nil => simp
  | cons c cs ih =>
    by_cases hread : c.readable = true
    · rw [List.takeWhile_cons_of_pos hread, List.flatMap_cons, List.flatMap_cons,
        List.append_cancel_left_eq, ih, List.forall_mem_cons, and_iff_right hread]
    · rw [List.takeWhile_cons_of_neg hread, List.flatMap_nil, List.flatMap_cons]
      constructor
      · intro h
        exact absurd (List.append_eq_nil_iff.mp h.symm).1 c.data_ne
      · intro h
        exact absurd (h c List.mem_cons_self) hread

/-- The bytes are decoded as the claim on chunked bodies has it: they are sliced in range, and where
    they are a well-formed body its payload is returned. -/
def DecodedSoundly (data : Slice) : Prop :=
  (∃ out, decodeChunked data = some (.returned out)) ∧
    ∀ b : ChunkedBody, data.bytes = b.bytes → decodeChunked data = some (.returned b.payload)

/-- **Decoding.**  Any bytes are decoded soundly exactly where no declared size wraps and the size
    lines of the data chunks, if they are a well-formed body, are UTF-8. -/
theorem decodeChunked_sound_iff (data : Slice) :
    (decodeChunked data).isSome ∧ (DecodedSoundly data ↔ Unwrapped data.bytes ∧
      ∀ b : ChunkedBody, data.bytes = b.bytes → ∀ c ∈ b.chunks, c.readable = true) := by
  refine ⟨decodeLoop_isSome data.fits [] (Nat.lt_succ_of_le (Nat.sub_le _ _)), ?_⟩
  rw [DecodedSoundly, decodeChunked_returned_iff]
  refine and_congr_right fun _ => forall_congr' fun b => forall_congr' fun hb => ?_
  obtain ⟨bytes, hfits⟩ := data
  subst hb
  rw [decodeChunked_body b hfits, Option.some.injEq, Decoded.returned.injEq, ChunkedBody.payload,
    takeWhile_readable_iff]

/-- A size of `2 ^ 64 - 1` bytes: the end offset is one less than the start. -/
theorem decodeChunked_wraps :
    decodeChunked ⟨bytes "ffffffffffffffff\r\nx", by decide +kernel⟩ = some .panicked := by
  decide +kernel

end Tapsmith.Http
