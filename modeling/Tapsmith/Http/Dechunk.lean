import Mathlib.Data.Set.List
import Tapsmith.Http.ChunkedGrammar

namespace Tapsmith.Http.Dechunk

open Lib Lib.Search Lib.Text Tapsmith.Http

/-!
# Removing the chunk framing of a captured body

`dechunkHttpBody` (`http-body.ts`) of the bodies that the proxy captured, which may be cut off
anywhere. It reads sizes with `parseInt` and gives back what it was given where it fails.

* `dechunkHttpBody` — the loop, with fuel;
* `Reads` — the pieces that it takes off the front of a body; `exists_reads`, `dechunk_reads` —
  where it stops, and what it returns there;
* `chunkSizeOf_bytes`, `Reads.chunks` — it takes the chunks of a well-formed body;
* `dechunk_exact_iff` — where what it returns is exact or the body itself.
-/

/-! ### The loop -/

/-- `toString('ascii')`, which drops the highest bit. -/
def ascii (line : Bytes) : Str := line.map fun b => Char.ofNat (b.toNat % 128)

/-- `parseInt(text, 16)`; `none` is `NaN`. -/
def parseInt16 (text : Str) : Option ℤ :=
  let text := text.dropWhile isWhitespace
  let negative := text.head? = some '-'
  let text := if negative ∨ text.head? = some '+' then text.tail else text
  let text := if ['0', 'x'] <+: text ∨ ['0', 'X'] <+: text then text.drop 2 else text
  let digits := text.takeWhile fun c => (toDigit 16 c).isSome
  if digits = [] then none
  else (digitsValue 16 0 digits).map fun n : ℕ => if negative then -(n : ℤ) else n

/-- The size that is read off a line, unless it is `NaN` or negative. -/
def chunkSizeOf (line : Bytes) : Option ℕ :=
  ((parseInt16 (trim ((ascii line).takeWhile (· ≠ ';')))).filter (0 ≤ ·)).map Int.toNat

/-- The loop, with a unit of fuel for each round. -/
def dechunkLoop (body : Bytes) : ℕ → ℕ → Bytes → Option Bytes
  | 0, _, _ => none
  | fuel + 1, pos, parts =>
    if pos < body.length then
      (position crlf (body.drop pos)).elim (some body) fun p =>
        (chunkSizeOf ((body.drop pos).take p)).elim (some body) fun size =>
          let pos := pos + p + 2
          if size = 0 then some parts
          else if pos + size > body.length then some body
          else
            let parts := parts ++ (body.drop pos).take size
            let pos := pos + size
            dechunkLoop body fuel (if crlf <+: body.drop pos then pos + 2 else pos) parts
    else some parts

def dechunkHttpBody (body : Bytes) : Option Bytes := dechunkLoop body (body.length + 1) 0 []

/-! ### What is taken off a body -/

/-- A size line, the data behind it, and whether a line break closes it. -/
structure Piece where
  line : Bytes
  data : Bytes
  closed : Bool

/-- The pieces at the front of some bytes, with what is left. -/
inductive Reads : Bytes → List Piece → Bytes → Prop
  | stop (rest : Bytes) : Reads rest [] rest
  | closed {line data tail rest : Bytes} {pieces : List Piece} (hline : IsLine line)
      (hsize : chunkSizeOf line = some data.length) (hdata : data ≠ [])
      (htail : Reads tail pieces rest) :
      Reads (line ++ (crlf ++ (data ++ (crlf ++ tail)))) (⟨line, data, true⟩ :: pieces) rest
  | unclosed {line data tail rest : Bytes} {pieces : List Piece} (hline : IsLine line)
      (hsize : chunkSizeOf line = some data.length) (hdata : data ≠ []) (hopen : ¬ crlf <+: tail)
      (htail : Reads tail pieces rest) :
      Reads (line ++ (crlf ++ (data ++ tail))) (⟨line, data, false⟩ :: pieces) rest

/-- A size line of `0` is next. -/
def LastLine (rest : Bytes) : Prop :=
  ∃ line tail, IsLine line ∧ chunkSizeOf line = some 0 ∧ rest = line ++ (crlf ++ tail)

/-- No line, no size on it, or too little data. -/
def Stuck (rest : Bytes) : Prop :=
  (rest ≠ [] ∧ position crlf rest = none) ∨
    ∃ line tail, IsLine line ∧ rest = line ++ (crlf ++ tail) ∧
      ∀ n, chunkSizeOf line = some n → tail.length < n

/-- Every body is read up to its end, a last line, or a place where reading fails. -/
theorem exists_reads (body : Bytes) :
    ∃ pieces rest, Reads body pieces rest ∧ (rest = [] ∨ LastLine rest ∨ Stuck rest) := by
  induction hlen : body.length using Nat.strong_induction_on generalizing body with
  | _ len ih =>
    by_cases hnil : body = []
    · exact ⟨[], body, .stop body, .inl hnil⟩
    cases hp : position crlf body with
    | none => exact ⟨[], body, .stop body, .inr (.inr (.inl ⟨hnil, hp⟩))⟩
    | some p =>
      obtain ⟨hline, hbody, -⟩ := exists_line hp
      generalize body.take p = line at hline hbody
      generalize body.drop (p + 2) = tail at hbody
      cases hsize : chunkSizeOf line with
      | none =>
        refine ⟨[], body, .stop body, .inr (.inr (.inr ⟨line, tail, hline, hbody, ?_⟩))⟩
        intro n hn
        rw [hsize] at hn
        cases hn
      | some n =>
        rcases Nat.eq_zero_or_pos n with rfl | hpos
        · exact ⟨[], body, .stop body, .inr (.inl ⟨line, tail, hline, hsize, hbody⟩)⟩
        rcases Nat.lt_or_ge tail.length n with hshort | hlong
        · refine ⟨[], body, .stop body, .inr (.inr (.inr ⟨line, tail, hline, hbody, ?_⟩))⟩
          intro m hm
          rw [hsize] at hm
          exact (Option.some.inj hm) ▸ hshort
        obtain ⟨data, tail, rfl, rfl⟩ : ∃ data rest, tail = data ++ rest ∧ data.length = n :=
          ⟨tail.take n, tail.drop n, (List.take_append_drop n tail).symm,
            List.length_take_of_le hlong⟩
        have hne : data ≠ [] := List.ne_nil_of_length_pos hpos
        have hshorter : tail.length < len := by
          rw [← hlen, hbody]
          simp only [List.length_append]
          omega
        by_cases hbreak : crlf <+: tail
        · obtain ⟨rest, rfl⟩ := hbreak
          rw [List.length_append] at hshorter
          obtain ⟨pieces, stop, hreads, hstop⟩ := ih _ (by omega) rest rfl
          refine ⟨⟨line, data, true⟩ :: pieces, stop, ?_, hstop⟩
          rw [hbody]
          exact .closed hline hsize hne hreads
        · obtain ⟨pieces, stop, hreads, hstop⟩ := ih _ hshorter tail rfl
          refine ⟨⟨line, data, false⟩ :: pieces, stop, ?_, hstop⟩
          rw [hbody]
          exact .unclosed hline hsize hne hbreak hreads

/-! ### What the loop returns -/

section Loop

variable {body : Bytes} (fuel : ℕ) (parts : Bytes)

theorem dechunkLoop_end {pos : ℕ} (h : body.length ≤ pos) :
    dechunkLoop body (fuel + 1) pos parts = some parts := by
  rw [dechunkLoop, if_neg (Nat.not_lt.mpr h)]

/-- A round that finds a line. -/
theorem dechunkLoop_line {pos : ℕ} {line tail : Bytes} (hline : IsLine line)
    (hbody : body.drop pos = line ++ (crlf ++ tail)) :
    dechunkLoop body (fuel + 1) pos parts =
      (chunkSizeOf line).elim (some body) fun size =>
        if size = 0 then some parts
        else if tail.length < size then some body
        else dechunkLoop body fuel
          (if crlf <+: tail.drop size then pos + line.length + 2 + size + 2
            else pos + line.length + 2 + size) (parts ++ tail.take size) := by
  have hlength := congrArg List.length hbody
  have hcrlf : crlf.length = 2 := rfl
  rw [List.length_drop, List.length_append, List.length_append, hcrlf] at hlength
  have hposition : position crlf (body.drop pos) = some line.length := by
    rw [hbody, hline.position]
  have htail : body.drop (pos + line.length + 2) = tail := by
    rw [Nat.add_assoc, ← List.drop_drop, hbody, ← List.append_assoc,
      ← (by rw [List.length_append, hcrlf] : (line ++ crlf).length = line.length + 2),
      List.drop_left]
  rw [dechunkLoop, if_pos (by omega), hposition, Option.elim_some, hbody, List.take_left]
  refine congrArg _ (funext fun size => ?_)
  dsimp only
  rw [htail, ← List.drop_drop, htail]
  refine if_congr Iff.rfl rfl (if_congr ?_ rfl rfl)
  omega

/-- **The loop takes the pieces** off the body. -/
theorem dechunkLoop_reads {rest stop : Bytes} {pieces : List Piece} (h : Reads rest pieces stop)
    {fuel pos : ℕ} (hbody : body.drop pos = rest) (hfuel : rest.length < fuel) :
    ∃ fuel' pos', body.drop pos' = stop ∧ stop.length < fuel' ∧
      dechunkLoop body fuel pos parts =
        dechunkLoop body fuel' pos' (parts ++ pieces.flatMap Piece.data) := by
  induction h generalizing fuel pos parts with
  | stop rest => exact ⟨fuel, pos, hbody, hfuel, by rw [List.flatMap_nil, List.append_nil]⟩
  | @closed line data tail stop pieces hline hsize hdata _ ih =>
    obtain ⟨fuel, rfl⟩ := Nat.exists_eq_add_one.mpr (Nat.zero_lt_of_lt hfuel)
    have hnext : body.drop (pos + line.length + 2 + data.length + 2) = tail := by
      have hsplit : body.drop pos = (line ++ (crlf ++ (data ++ crlf))) ++ tail := by
        rw [hbody]
        simp only [List.append_assoc]
      have hlength : (line ++ (crlf ++ (data ++ crlf))).length =
          line.length + 2 + data.length + 2 := by
        simp only [List.length_append, crlf, List.length_cons, List.length_nil]
        omega
      rw [show pos + line.length + 2 + data.length + 2 =
        pos + (line.length + 2 + data.length + 2) by omega, ← List.drop_drop, hsplit, ← hlength,
        List.drop_left]
    simp only [List.length_append, crlf, List.length_cons, List.length_nil] at hfuel
    obtain ⟨fuel', pos', hpos', hfuel', hloop⟩ :=
      @ih (parts ++ data) _ _ hnext (by omega : tail.length < fuel)
    refine ⟨fuel', pos', hpos', hfuel', ?_⟩
    rw [dechunkLoop_line fuel parts hline hbody, hsize, Option.elim_some,
      if_neg (Nat.pos_iff_ne_zero.mp (List.length_pos_of_ne_nil hdata)),
      if_neg (by rw [List.length_append]; omega), List.drop_left, List.take_left,
      if_pos (List.prefix_append crlf tail), hloop, List.flatMap_cons, List.append_assoc]
  | @unclosed line data tail stop pieces hline hsize hdata hopen _ ih =>
    obtain ⟨fuel, rfl⟩ := Nat.exists_eq_add_one.mpr (Nat.zero_lt_of_lt hfuel)
    have hnext : body.drop (pos + line.length + 2 + data.length) = tail := by
      have hsplit : body.drop pos = (line ++ (crlf ++ data)) ++ tail := by
        rw [hbody]
        simp only [List.append_assoc]
      have hlength : (line ++ (crlf ++ data)).length = line.length + 2 + data.length := by
        simp only [List.length_append, crlf, List.length_cons, List.length_nil]
        omega
      rw [show pos + line.length + 2 + data.length = pos + (line.length + 2 + data.length) by omega,
        ← List.drop_drop, hsplit, ← hlength, List.drop_left]
    simp only [List.length_append, crlf, List.length_cons, List.length_nil] at hfuel
    obtain ⟨fuel', pos', hpos', hfuel', hloop⟩ :=
      @ih (parts ++ data) _ _ hnext (by omega : tail.length < fuel)
    refine ⟨fuel', pos', hpos', hfuel', ?_⟩
    rw [dechunkLoop_line fuel parts hline hbody, hsize, Option.elim_some,
      if_neg (Nat.pos_iff_ne_zero.mp (List.length_pos_of_ne_nil hdata)),
      if_neg (by rw [List.length_append]; omega), List.drop_left, List.take_left, if_neg hopen,
      hloop, List.flatMap_cons, List.append_assoc]

end Loop

/-- **What is returned**: the data of the pieces up to the end or a last line, and else the body. -/
theorem dechunk_reads {body rest : Bytes} {pieces : List Piece} (h : Reads body pieces rest) :
    (rest = [] ∨ LastLine rest → dechunkHttpBody body = some (pieces.flatMap Piece.data)) ∧
      (Stuck rest → dechunkHttpBody body = some body) := by
  obtain ⟨fuel, pos, hdrop, hfuel, hloop⟩ :=
    dechunkLoop_reads [] h (List.drop_zero (l := body)) (Nat.lt_succ_self body.length)
  rw [List.nil_append] at hloop
  obtain ⟨fuel, rfl⟩ := Nat.exists_eq_add_one.mpr (Nat.zero_lt_of_lt hfuel)
  rw [dechunkHttpBody, hloop]
  refine ⟨?_, ?_⟩
  · rintro (rfl | ⟨line, tail, hline, hsize, rfl⟩)
    · exact dechunkLoop_end fuel _ (List.drop_eq_nil_iff.mp hdrop)
    · rw [dechunkLoop_line fuel _ hline hdrop, hsize, Option.elim_some, if_pos rfl]
  · rintro (⟨hne, hnone⟩ | ⟨line, tail, hline, rfl, hshort⟩)
    · have hpos : pos < body.length := by
        by_contra hge
        rw [List.drop_eq_nil_of_le (Nat.le_of_not_lt hge)] at hdrop
        exact hne hdrop.symm
      rw [dechunkLoop, if_pos hpos, hdrop, hnone, Option.elim_none]
    · rw [dechunkLoop_line fuel _ hline hdrop]
      cases hsize : chunkSizeOf line with
      | none => rw [Option.elim_none]
      | some n =>
        have hlt := hshort n hsize
        rw [Option.elim_some, if_neg (Nat.pos_iff_ne_zero.mp (Nat.zero_lt_of_lt hlt)), if_pos hlt]

/-! ### Well-formed chunks -/

theorem isLine_bytes (l : SizeLine) : IsLine l.bytes := by
  refine (position_eq_none crlf_ne_nil).mpr fun i hbreak => ?_
  have hmem : (13 : UInt8) ∈ l.bytes.drop i := hbreak.subset (by decide)
  exact (l.oneLine 13 (List.mem_of_mem_drop hmem)).1 rfl

theorem ascii_append (a b : Bytes) : ascii (a ++ b) = ascii a ++ ascii b := List.map_append

/-- Encoded ASCII is read back. -/
theorem ascii_encode {s : Str} (hs : ∀ c ∈ s, c.toNat < 128) : ascii (Utf8.encode s) = s := by
  rw [Utf8.encode_ascii hs, ascii, List.map_map]
  refine (List.map_congr_left fun c hc => ?_).trans (List.map_id s)
  have hlt := hs c hc
  have hbyte : (UInt8.ofNat c.toNat).toNat % 128 = c.toNat := by
    rw [UInt8.toNat_ofNat']
    omega
  show Char.ofNat ((UInt8.ofNat c.toNat).toNat % 128) = c
  rw [hbyte, Char.ofNat_toNat]

/-- Hexadecimal digits are read as their value. -/
theorem parseInt16_digits (l : SizeLine) : parseInt16 l.digits = some (l.value : ℤ) := by
  have hdigit : ∀ c ∈ l.digits, ∃ d, toDigit 16 c = some d := toDigit_of_digitsValue l.digits_value
  have hno : ∀ c, toDigit 16 c = none → c ∉ l.digits := by
    intro c hnone hc
    obtain ⟨d, hd⟩ := hdigit c hc
    rw [hnone] at hd
    cases hd
  have hhead : ∀ c, toDigit 16 c = none → l.digits.head? ≠ some c := fun c hnone hc =>
    hno c hnone (List.mem_of_mem_head? hc)
  have hspace : l.digits.dropWhile isWhitespace = l.digits := by
    cases hdigits : l.digits with
    | nil => rfl
    | cons c s =>
      refine List.dropWhile_cons_of_neg ?_
      rw [l.digit_not_whitespace (hdigits ▸ List.mem_cons_self)]
      exact Bool.false_ne_true
  have hhex : ¬ (['0', 'x'] <+: l.digits ∨ ['0', 'X'] <+: l.digits) := by
    rintro (hpre | hpre)
    · exact hno 'x' (by decide) (hpre.subset (by decide))
    · exact hno 'X' (by decide) (hpre.subset (by decide))
  have hall : l.digits.takeWhile (fun c => (toDigit 16 c).isSome) = l.digits :=
    List.takeWhile_eq_self_iff.mpr fun c hc => Option.isSome_iff_exists.mpr (hdigit c hc)
  rw [parseInt16, hspace, if_neg (not_or_intro (hhead '-' (by decide)) (hhead '+' (by decide))), if_neg hhex,
    hall, if_neg l.digits_ne, l.digits_value, Option.map_some, if_neg (hhead '-' (by decide))]

/-- **A well-formed size line** is read as its value. -/
theorem chunkSizeOf_bytes (l : SizeLine) : chunkSizeOf l.bytes = some l.value := by
  have hascii : ascii (Utf8.encode l.digits) = l.digits := by
    refine ascii_encode fun c hc => ?_
    have hrange := l.digit_range hc
    omega
  have hsemi : ∀ c ∈ l.digits, decide (c ≠ ';') = true := by
    intro c hc
    refine decide_eq_true ?_
    rintro rfl
    exact absurd (l.digit_range hc) (by decide)
  have htext : trim ((ascii l.bytes).takeWhile (· ≠ ';')) = l.digits := by
    rw [SizeLine.bytes, ascii_append, hascii]
    obtain hnil | ⟨blanks, rest, hext, hblanks⟩ := l.ext_valid.2
    · rw [hnil, ascii, List.map_nil, List.append_nil, List.takeWhile_eq_self_iff.mpr hsemi]
      exact trim_eq_self fun c hc => l.digit_not_whitespace hc
    · have hblank : ∀ c ∈ ascii blanks, c = ' ' ∨ c = '\t' := by
        intro c hc
        obtain ⟨b, hb, rfl⟩ := List.mem_map.mp hc
        rcases hblanks b hb with rfl | rfl
        · exact .inl rfl
        · exact .inr rfl
      have hfront : ∀ c ∈ l.digits ++ ascii blanks, decide (c ≠ ';') = true := by
        intro c hc
        rcases List.mem_append.mp hc with hdigit | hspace
        · exact hsemi c hdigit
        · rcases hblank c hspace with rfl | rfl
          · rfl
          · rfl
      have htake : (l.digits ++ ascii l.ext).takeWhile (· ≠ ';') = l.digits ++ ascii blanks := by
        rw [hext, ascii_append, ← List.append_assoc, List.takeWhile_append_of_pos hfront,
          show ascii (59 :: rest) = ';' :: ascii rest from rfl,
          List.takeWhile_cons_of_neg (by decide), List.append_nil]
      have htrim := trim_append_append (a := []) (s := l.digits) (b := ascii blanks)
        (fun c hc => absurd hc List.not_mem_nil)
        (fun c hc => by rcases hblank c hc with rfl | rfl <;> decide)
        fun c hc => l.digit_not_whitespace hc
      rw [List.nil_append] at htrim
      rw [htake, htrim]
  rw [chunkSizeOf, htext, parseInt16_digits, Option.filter_some,
    if_pos (decide_eq_true (Int.natCast_nonneg _)), Option.map_some, Int.toNat_natCast]

/-- A well-formed chunk as a piece. -/
def ofChunk (c : Chunk) : Piece := ⟨c.size.bytes, c.data, true⟩

theorem bytes_append (c : Chunk) (rest : Bytes) :
    c.bytes ++ rest = c.size.bytes ++ (crlf ++ (c.data ++ (crlf ++ rest))) := by
  rw [Chunk.bytes]
  simp only [List.append_assoc]

theorem chunkSizeOf_chunk (c : Chunk) : chunkSizeOf c.size.bytes = some c.data.length := by
  rw [chunkSizeOf_bytes, c.size_eq]

theorem flatMap_ofChunk (chunks : List Chunk) :
    (chunks.map ofChunk).flatMap Piece.data = chunks.flatMap Chunk.data :=
  List.flatMap_map ..

/-- The chunks of a body can be taken off it. -/
theorem reads_chunks (chunks : List Chunk) (rest : Bytes) :
    Reads (chunks.flatMap Chunk.bytes ++ rest) (chunks.map ofChunk) rest := by
  induction chunks with
  | nil => exact .stop rest
  | cons c chunks ih =>
    rw [List.flatMap_cons, List.append_assoc, bytes_append]
    exact .closed (isLine_bytes c.size) (chunkSizeOf_chunk c) c.data_ne ih

/-- A last line does not declare data. -/
theorem LastLine.not_chunk {c : Chunk} {rest : Bytes} : ¬ LastLine (c.bytes ++ rest) := by
  rintro ⟨line, tail, hline, hsize, heq⟩
  rw [bytes_append] at heq
  obtain ⟨rfl, -⟩ := (isLine_bytes c.size).unique hline heq
  rw [chunkSizeOf_chunk, Option.some_inj] at hsize
  exact c.data_ne (List.length_eq_zero_iff.mp hsize)

theorem Reads.two_le_length {body rest : Bytes} {pieces : List Piece} (h : Reads body pieces rest)
    (hlast : LastLine rest) : 2 ≤ body.length := by
  have hfront : ∀ line tail : Bytes, 2 ≤ (line ++ (crlf ++ tail)).length := by
    intro line tail
    simp only [List.length_append, crlf, List.length_cons, List.length_nil]
    omega
  cases h with
  | stop =>
    obtain ⟨line, tail, -, -, rfl⟩ := hlast
    exact hfront line tail
  | closed => exact hfront _ _
  | unclosed => exact hfront _ _

/-- **A well-formed chunk is taken as it is**, where reading goes on to a last line, or to the end
    of all there is. -/
theorem Reads.chunk {body more rest tail : Bytes} {pieces : List Piece} {c : Chunk}
    (h : Reads body pieces rest) (hstop : LastLine rest ∨ rest = [] ∧ more = [])
    (heq : body ++ more = c.bytes ++ tail) :
    ∃ pieces' body', pieces = ofChunk c :: pieces' ∧ Reads body' pieces' rest ∧
      body = c.bytes ++ body' ∧ body' ++ more = tail := by
  have hdata : ∀ {line data other : Bytes}, IsLine line → chunkSizeOf line = some data.length →
      line ++ (crlf ++ (data ++ other)) ++ more = c.bytes ++ tail →
      line = c.size.bytes ∧ data = c.data ∧ other ++ more = crlf ++ tail := by
    intro line data other hline hsize hsame
    rw [bytes_append] at hsame
    simp only [List.append_assoc] at hsame
    obtain ⟨rfl, hrest⟩ := hline.unique (isLine_bytes c.size) hsame
    rw [chunkSizeOf_chunk, Option.some_inj] at hsize
    obtain ⟨rfl, hother⟩ := List.append_inj hrest hsize.symm
    exact ⟨rfl, rfl, hother⟩
  cases h with
  | stop =>
    rcases hstop with ⟨line, behind, hline, hsize, rfl⟩ | ⟨rfl, rfl⟩
    · refine absurd ?_ (@LastLine.not_chunk c tail)
      exact ⟨line, behind ++ more, hline, hsize, by rw [← heq]; simp only [List.append_assoc]⟩
    · rw [bytes_append] at heq
      have hlength := congrArg List.length heq
      simp only [List.length_append, crlf, List.length_cons, List.length_nil] at hlength
      omega
  | @closed line data body' _ pieces' hline hsize _ htail =>
    obtain ⟨rfl, rfl, hother⟩ := hdata hline hsize heq
    rw [List.append_assoc] at hother
    refine ⟨pieces', body', rfl, htail, ?_, List.append_cancel_left hother⟩
    rw [bytes_append]
  | @unclosed line data body' _ pieces' hline hsize _ hopen htail =>
    obtain ⟨rfl, rfl, hother⟩ := hdata hline hsize heq
    refine absurd ?_ hopen
    rcases hstop with hlast | ⟨-, rfl⟩
    · exact List.prefix_of_prefix_length_le (List.prefix_append crlf tail)
        (hother ▸ List.prefix_append body' more) (htail.two_le_length hlast)
    · rw [List.append_nil] at hother
      exact ⟨tail, hother.symm⟩

/-- The well-formed chunks in front are taken as they are. -/
theorem Reads.chunks {body rest : Bytes} {pieces : List Piece} {chunks : List Chunk} {tail : Bytes}
    (h : Reads body pieces rest) (hstop : rest = [] ∨ LastLine rest)
    (heq : body = chunks.flatMap Chunk.bytes ++ tail) :
    ∃ pieces', pieces = chunks.map ofChunk ++ pieces' ∧ Reads tail pieces' rest := by
  induction chunks generalizing body pieces with
  | nil =>
    rw [List.flatMap_nil, List.nil_append] at heq
    exact ⟨pieces, rfl, heq ▸ h⟩
  | cons c chunks ih =>
    have hsplit : body ++ [] = c.bytes ++ (chunks.flatMap Chunk.bytes ++ tail) := by
      rw [List.append_nil, heq, List.flatMap_cons, List.append_assoc]
    obtain ⟨pieces', body', rfl, hbelow, -, htail⟩ :=
      h.chunk (hstop.symm.imp_right fun hnil => ⟨hnil, rfl⟩) hsplit
    rw [List.append_nil] at htail
    obtain ⟨pieces'', rfl, hrest⟩ := ih hbelow htail
    exact ⟨pieces'', rfl, hrest⟩

/-- A body that is cut off before the end of its last size line has no last line. -/
theorem Reads.not_lastLine {body more rest : Bytes} {pieces : List Piece} {chunks : List Chunk}
    {last : SizeLine} (h : Reads body pieces rest) (hlast : LastLine rest)
    (heq : body ++ more = chunks.flatMap Chunk.bytes ++ (last.bytes ++ crlf)) : more = [] := by
  induction chunks generalizing body pieces with
  | nil =>
    have hline : ∃ line tail, IsLine line ∧ body = line ++ (crlf ++ tail) := by
      cases h with
      | stop =>
        obtain ⟨line, tail, hline, -, rfl⟩ := hlast
        exact ⟨line, tail, hline, rfl⟩
      | closed hline => exact ⟨_, _, hline, rfl⟩
      | unclosed hline => exact ⟨_, _, hline, rfl⟩
    obtain ⟨line, tail, hline, rfl⟩ := hline
    have hsame : line ++ (crlf ++ (tail ++ more)) = last.bytes ++ (crlf ++ []) := by
      rw [List.append_nil, ← List.nil_append (last.bytes ++ crlf), ← List.flatMap_nil, ← heq]
      simp only [List.append_assoc]
    obtain ⟨-, hnil⟩ := hline.unique (isLine_bytes last) hsame
    exact (List.append_eq_nil_iff.mp hnil).2
  | cons c chunks ih =>
    rw [List.flatMap_cons, List.append_assoc] at heq
    obtain ⟨pieces', body', -, hbelow, -, htail⟩ := h.chunk (.inl hlast) heq
    exact ih hbelow htail

theorem Reads.data_ne {body rest : Bytes} {pieces : List Piece} (h : Reads body pieces rest) :
    ∀ piece ∈ pieces, piece.data ≠ [] := by
  induction h with
  | stop => exact fun _ hmem => absurd hmem List.not_mem_nil
  | closed _ _ hdata _ ih => exact List.forall_mem_cons.mpr ⟨hdata, ih⟩
  | unclosed _ _ hdata _ _ ih => exact List.forall_mem_cons.mpr ⟨hdata, ih⟩

theorem Reads.nil_of_data {body rest : Bytes} {pieces : List Piece} (h : Reads body pieces rest)
    (hdata : pieces.flatMap Piece.data = []) : pieces = [] := by
  cases pieces with
  | nil => rfl
  | cons piece pieces =>
    rw [List.flatMap_cons, List.append_eq_nil_iff] at hdata
    exact absurd hdata.1 (h.data_ne piece List.mem_cons_self)

/-- The data is shorter than what it was taken off. -/
theorem Reads.length_le {body rest : Bytes} {pieces : List Piece} (h : Reads body pieces rest) :
    (pieces.flatMap Piece.data).length + 2 * pieces.length + rest.length ≤ body.length := by
  induction h with
  | stop => simp
  | closed _ _ _ _ ih =>
    simp only [List.flatMap_cons, List.length_append, List.length_cons, crlf, List.length_nil]
    omega
  | unclosed _ _ _ _ _ ih =>
    simp only [List.flatMap_cons, List.length_append, List.length_cons, crlf, List.length_nil]
    omega

theorem Reads.eq_append {body rest : Bytes} {chunks : List Chunk}
    (h : Reads body (chunks.map ofChunk) rest) : body = chunks.flatMap Chunk.bytes ++ rest := by
  induction chunks generalizing body with
  | nil =>
    cases h
    rfl
  | cons c chunks ih =>
    obtain ⟨pieces, hpieces⟩ : ∃ pieces, pieces = (c :: chunks).map ofChunk := ⟨_, rfl⟩
    rw [← hpieces] at h
    cases h with
    | stop => cases hpieces
    | closed _ _ _ htail =>
      obtain ⟨hpiece, rfl⟩ := List.cons.inj hpieces
      rw [ofChunk, Piece.mk.injEq] at hpiece
      obtain ⟨rfl, rfl, -⟩ := hpiece
      rw [List.flatMap_cons, List.append_assoc, bytes_append, ← ih htail]
    | unclosed =>
      obtain ⟨hpiece, -⟩ := List.cons.inj hpieces
      rw [ofChunk, Piece.mk.injEq] at hpiece
      cases hpiece.2.2

/-! ### Exact or the body itself -/

/-- What is returned is the payload of a well-formed body, the body itself if it is one that is cut
    off before the end of its last size line, and in any case the body or the data of well-formed
    chunks at its front. -/
structure Exact (body : Bytes) : Prop where
  payload : ∀ b : ChunkedBody, body = b.bytes → dechunkHttpBody body = some b.payload
  cut : ∀ b : ChunkedBody, body <+: b.bytes →
    body.length < (b.chunks.flatMap Chunk.bytes ++ (b.last.bytes ++ crlf)).length →
    dechunkHttpBody body = some body
  framed : dechunkHttpBody body = some body ∨ ∃ chunks : List Chunk,
    chunks.flatMap Chunk.bytes <+: body ∧ dechunkHttpBody body = some (chunks.flatMap Chunk.data)

/-- The body does not end right behind a piece, and all pieces up to a last line are well-formed
    chunks. -/
def StopsWell (body : Bytes) : Prop :=
  ∀ pieces rest, Reads body pieces rest → (rest = [] → pieces = []) ∧
    (LastLine rest → ∀ piece ∈ pieces, ∃ c, piece = ofChunk c)

theorem digitsValue_zero : digitsValue 16 0 ['0'] = some 0 := by decide

theorem isExtension_nil : IsExtension [] :=
  ⟨fun _ hmem => absurd hmem List.not_mem_nil, .inl rfl⟩

/-- The size line of a last chunk. -/
def zeroLine : SizeLine where
  digits := ['0']
  ext := []
  value := 0
  digits_ne := List.cons_ne_nil _ _
  digits_value := digitsValue_zero
  ext_valid := isExtension_nil

/-- **A well-formed body** is decoded to its payload, whatever its spelling. -/
theorem dechunkHttpBody_bytes (b : ChunkedBody) : dechunkHttpBody b.bytes = some b.payload := by
  have hreads := reads_chunks b.chunks (b.last.bytes ++ crlf ++ fieldLines b.trailers ++ crlf)
  have hlast : LastLine (b.last.bytes ++ crlf ++ fieldLines b.trailers ++ crlf) :=
    ⟨b.last.bytes, fieldLines b.trailers ++ crlf, isLine_bytes b.last,
      by rw [chunkSizeOf_bytes, b.last_eq], by simp only [List.append_assoc]⟩
  rw [ChunkedBody.bytes, (dechunk_reads hreads).1 (.inr hlast), flatMap_ofChunk]
  rfl

/-- **Exact or nothing.**  What is returned of a body is exact exactly where the body does not end
    right behind a piece and no piece in front of a last line is malformed. -/
theorem dechunk_exact_iff (body : Bytes) : Exact body ↔ StopsWell body := by
  constructor
  · intro hexact pieces rest hreads
    have hvalue := (dechunk_reads hreads).1
    have hlength := hreads.length_le
    have hdata : rest = [] ∨ LastLine rest → pieces ≠ [] ∨ rest ≠ [] →
        ∃ (chunks : List Chunk) (r : Bytes), body = chunks.flatMap Chunk.bytes ++ r ∧
          pieces = chunks.map ofChunk ∧ Reads r [] rest := by
      intro hstop hne
      rcases hexact.framed with hbody | ⟨chunks, ⟨r, hr⟩, hchunks⟩
      · rw [hvalue hstop, Option.some_inj] at hbody
        rw [hbody] at hlength
        rcases hne with hne | hne
        · have := List.length_pos_of_ne_nil hne
          omega
        · have := List.length_pos_of_ne_nil hne
          omega
      · obtain ⟨pieces', rfl, hrest⟩ := hreads.chunks hstop hr.symm
        rw [hvalue hstop, Option.some_inj, List.flatMap_append, flatMap_ofChunk,
          List.append_right_eq_self] at hchunks
        obtain rfl := hrest.nil_of_data hchunks
        exact ⟨chunks, r, hr.symm, List.append_nil _, hrest⟩
    refine ⟨?_, ?_⟩
    · rintro rfl
      by_contra hne
      obtain ⟨chunks, r, rfl, rfl, hr⟩ := hdata (.inl rfl) (.inl hne)
      cases hr
      have hcut := hexact.cut ⟨chunks, zeroLine, [], rfl⟩ (by
        rw [ChunkedBody.bytes, List.append_nil]
        exact List.prefix_append _ _) (by
        simp only [List.length_append, crlf, List.length_cons, List.length_nil]
        omega)
      rw [hvalue (.inl rfl), Option.some_inj] at hcut
      rw [hcut] at hlength
      have := List.length_pos_of_ne_nil hne
      omega
    · intro hlast piece hpiece
      have hne : rest ≠ [] := by
        rintro rfl
        exact absurd ((Reads.stop []).two_le_length hlast) (by decide)
      obtain ⟨chunks, r, -, rfl, -⟩ := hdata (.inr hlast) (.inr hne)
      obtain ⟨c, -, rfl⟩ := List.mem_map.mp hpiece
      exact ⟨c, rfl⟩
  · intro hwell
    obtain ⟨pieces, rest, hreads, hstop⟩ := exists_reads body
    obtain ⟨hend, hlast⟩ := hwell pieces rest hreads
    obtain ⟨hvalue, hstuck⟩ := dechunk_reads hreads
    have hnil : rest = [] → dechunkHttpBody body = some body := by
      intro hrest
      rw [hvalue (.inl hrest)]
      obtain rfl := hend hrest
      subst hrest
      cases hreads
      rfl
    refine ⟨?_, ?_, ?_⟩
    · rintro b rfl
      exact dechunkHttpBody_bytes b
    · intro b hprefix hshort
      rcases hstop with hrest | hrest | hrest
      · exact hnil hrest
      · have hwithin : body <+: b.chunks.flatMap Chunk.bytes ++ (b.last.bytes ++ crlf) := by
          refine List.prefix_of_prefix_length_le hprefix ?_ hshort.le
          refine ⟨fieldLines b.trailers ++ crlf, ?_⟩
          rw [ChunkedBody.bytes]
          simp only [List.append_assoc]
        obtain ⟨more, hmore⟩ := hwithin
        obtain rfl := hreads.not_lastLine hrest hmore
        rw [← hmore, List.append_nil] at hshort
        exact absurd hshort (Nat.lt_irrefl _)
      · exact hstuck hrest
    · rcases hstop with hrest | hrest | hrest
      · exact .inl (hnil hrest)
      · obtain ⟨chunks, rfl⟩ : pieces ∈ Set.range (List.map ofChunk) := by
          rw [Set.range_list_map]
          intro piece hpiece
          obtain ⟨c, hc⟩ := hlast hrest piece hpiece
          exact ⟨c, hc.symm⟩
        refine .inr ⟨chunks, ?_, ?_⟩
        · rw [hreads.eq_append]
          exact List.prefix_append _ _
        · rw [hvalue (.inr hrest), flatMap_ofChunk]
      · exact .inl (hstuck hrest)

/-- A stream that is cut off behind a chunk loses its framing. -/
theorem not_exact_behind_chunk :
    dechunkHttpBody (bytes "5\r\nhello\r\n") = some (bytes "hello") ∧
      ¬ Exact (bytes "5\r\nhello\r\n") := by
  have hvalue : dechunkHttpBody (bytes "5\r\nhello\r\n") = some (bytes "hello") := by
    decide +kernel
  refine ⟨hvalue, fun hexact => ?_⟩
  have hcut := hexact.cut ⟨[⟨⟨['5'], [], 5, by decide, by decide, by decide, .inl rfl⟩,
    bytes "hello", by decide +kernel, by decide +kernel⟩], zeroLine, [], rfl⟩
    (by decide +kernel) (by decide +kernel)
  rw [hvalue] at hcut
  exact absurd hcut (by decide +kernel)

/-- A size line that `parseInt` reads, and data without a line break behind it. -/
example : dechunkHttpBody (bytes "0x5 bytes\r\nhello0\r\n\r\n") = some (bytes "hello") := by
  decide +kernel

end Tapsmith.Http.Dechunk
