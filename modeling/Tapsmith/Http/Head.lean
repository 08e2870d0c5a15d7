import Tapsmith.Http.Headers

namespace Tapsmith.Http

open Lib Lib.Search Lib.Text

/-!
# Well-formed heads

`Head` is the head of an HTTP/1.1 message as a structure that cannot be ill-formed: a start
line and field lines without CR and LF, every field name a token.

* `position_head` — the terminator the readers look for is the one that ends the head;
* `parseHeaders_head` — reading the head gives back its fields, and the body starts right
  behind it.
-/

/-! ### Tokens -/

/-- The bytes `is_valid_header_name` accepts. -/
def isTokenByte (b : UInt8) : Bool :=
  b ∈ bytes "!#$%&'*+-.^_`|~" || (48 ≤ b && b ≤ 57) || (65 ≤ b && b ≤ 90) || (97 ≤ b && b ≤ 122)

/-- `is_valid_header_name`. -/
def isValidHeaderName (name : Str) : Bool :=
  !name.isEmpty && (Utf8.encode name).all isTokenByte

theorem isTokenByte_range {b : UInt8} (hb : isTokenByte b = true) :
    33 ≤ b.toNat ∧ b.toNat ≤ 126 ∧ b ≠ 58 := by
  have hmarks : ∀ m ∈ bytes "!#$%&'*+-.^_`|~", 33 ≤ m.toNat ∧ m.toNat ≤ 126 ∧ m ≠ 58 := by
    decide
  have hranges : ∀ lo hi : UInt8, lo ≤ b → b ≤ hi → lo.toNat ≤ b.toNat ∧ b.toNat ≤ hi.toNat :=
    fun lo hi h1 h2 => ⟨UInt8.le_iff_toNat_le.mp h1, UInt8.le_iff_toNat_le.mp h2⟩
  have hcolon : b.toNat ≠ 58 → b ≠ 58 := fun h he => h (he ▸ rfl)
  simp only [isTokenByte, Bool.or_eq_true, Bool.and_eq_true, decide_eq_true_eq] at hb
  obtain ((hm | ⟨h1, h2⟩) | ⟨h1, h2⟩) | ⟨h1, h2⟩ := hb
  · exact hmarks b hm
  all_goals
    obtain ⟨hlo, hhi⟩ := hranges _ _ h1 h2
    simp only [UInt8.reduceToNat] at hlo hhi
    exact ⟨by omega, by omega, hcolon (by omega)⟩

theorem token_bytes {name : Str} (h : isValidHeaderName name = true) {b : UInt8}
    (hb : b ∈ Utf8.encode name) : 33 ≤ b.toNat ∧ b.toNat ≤ 126 ∧ b ≠ 58 := by
  rw [isValidHeaderName, Bool.and_eq_true, List.all_eq_true] at h
  exact isTokenByte_range (h.2 b hb)

/-- The characters of a token are printable ASCII, none of them the colon. -/
theorem token_chars {name : Str} (h : isValidHeaderName name = true) {c : Char}
    (hc : c ∈ name) : 33 ≤ c.toNat ∧ c.toNat ≤ 126 ∧ c ≠ ':' := by
  have hascii : ∀ b ∈ Utf8.encode name, b.toNat < 0x80 := fun b hb => by
    have := (token_bytes h hb).2.1
    omega
  have hname : name = (Utf8.encode name).map fun b => Char.ofNat b.toNat := by
    rw [← Utf8.fromUtf8Lossy_ascii hascii, Utf8.fromUtf8Lossy_encode]
  rw [hname, List.mem_map] at hc
  obtain ⟨b, hb, rfl⟩ := hc
  obtain ⟨hlo, hhi, hne⟩ := token_bytes h hb
  have hval : (Char.ofNat b.toNat).toNat = b.toNat :=
    Utf8.toNat_ofNat_byte b
  refine ⟨by omega, by omega, fun hcolon => hne ?_⟩
  rw [hcolon] at hval
  exact UInt8.toNat_inj.mp hval.symm

theorem token_not_whitespace {name : Str} (h : isValidHeaderName name = true) {c : Char}
    (hc : c ∈ name) : isWhitespace c = false := by
  obtain ⟨hlo, hhi, _⟩ := token_chars h hc
  simp only [isWhitespace, Bool.or_eq_false_iff, Bool.and_eq_false_iff, decide_eq_false_iff_not,
    beq_eq_false_iff_ne]
  omega

theorem trim_token {name : Str} (h : isValidHeaderName name = true) : trim name = name :=
  trim_eq_self fun _ hc => token_not_whitespace h hc

/-! ### Fields and heads -/

/-- Bytes of one line: no CR, no LF. -/
def OneLine (bs : Bytes) : Prop := ∀ b ∈ bs, b ≠ 13 ∧ b ≠ 10

instance (bs : Bytes) : Decidable (OneLine bs) := by unfold OneLine; infer_instance

/-- A text of one line is encoded as one line. -/
theorem oneLine_encode {s : Str} (h : ∀ c ∈ s, c ≠ '\r' ∧ c ≠ '\n') : OneLine (Utf8.encode s) := by
  intro b hb
  constructor <;> rintro rfl
  · exact (h _ (Utf8.mem_of_mem_encode hb (by decide))).1 rfl
  · exact (h _ (Utf8.mem_of_mem_encode hb (by decide))).2 rfl

/-- A field line: a token for a name, and any bytes of one line for a value. -/
structure Field where
  name : Str
  value : Bytes
  name_valid : isValidHeaderName name = true
  value_line : OneLine value

/-- The field line without its CRLF. -/
def Field.line (f : Field) : Bytes := Utf8.encode f.name ++ 58 :: f.value

/-- The header a reader makes of the field. -/
def Field.header (f : Field) : Header := (f.name, trim (Utf8.fromUtf8Lossy f.value))

/-- The head of a message. -/
structure Head where
  start : Bytes
  fields : List Field
  start_line : OneLine start

/-- The lines behind the start line, up to the blank one that ends the head. -/
def fieldLines (fields : List Field) : Bytes := fields.flatMap fun f => f.line ++ crlf

/-- The bytes of a head: start line, field lines, blank line. -/
def Head.bytes (h : Head) : Bytes := h.start ++ crlf ++ fieldLines h.fields ++ crlf

/-- The headers a reader makes of a head. -/
def Head.headers (h : Head) : List Header := h.fields.map Field.header

theorem fieldLines_cons (f : Field) (fs : List Field) :
    fieldLines (f :: fs) = f.line ++ crlf ++ fieldLines fs := rfl

theorem Field.line_oneLine (f : Field) : OneLine f.line := by
  intro b hb
  rw [Field.line, List.mem_append, List.mem_cons] at hb
  obtain hname | rfl | hvalue := hb
  · have := (token_bytes f.name_valid hname).1
    constructor <;> rintro rfl <;> simp at this
  · decide
  · exact f.value_line b hvalue

/-- A field line starts with a byte of its name. -/
theorem Field.line_eq_cons (f : Field) : ∃ b bs, f.line = b :: bs ∧ b ≠ 13 := by
  have hline := f.line_oneLine
  cases hl : f.line with
  | nil => simp [Field.line] at hl
  | cons b bs => exact ⟨b, bs, rfl, (hline b (by simp [hl])).1⟩

theorem not_mem_of_oneLine {bs : Bytes} (h : OneLine bs) : (13 : UInt8) ∉ bs :=
  fun hm => (h 13 hm).1 rfl

theorem Head.four_le_length (h : Head) : 4 ≤ h.bytes.length := by
  simp [Head.bytes, crlf]
  omega

/-! ### The terminator -/

/-- No terminator starts at a CRLF that a line follows. -/
theorem position_crlf_line {b : UInt8} (hb : b ≠ 13) (bs : Bytes) :
    position headerTerminator (crlf ++ b :: bs)
      = (position headerTerminator (b :: bs)).map (2 + ·) := by
  have h1 : ¬ headerTerminator <+: 13 :: 10 :: b :: bs := by
    simp only [headerTerminator, List.cons_prefix_cons, true_and]
    exact fun h => hb h.1.symm
  have h2 : ¬ headerTerminator <+: 10 :: b :: bs := by
    simp [headerTerminator, List.cons_prefix_cons]
  show position headerTerminator (13 :: 10 :: b :: bs) = _
  rw [position_cons_of_absent h1, position_cons_of_absent h2, Option.map_map]
  congr 1
  funext n
  simp only [Function.comp]
  omega

theorem position_lines (line : Bytes) (hline : OneLine line) (fields : List Field)
    (rest : Bytes) :
    position headerTerminator (line ++ crlf ++ fieldLines fields ++ crlf ++ rest)
      = some ((line ++ crlf ++ fieldLines fields ++ crlf).length - 4) := by
  induction fields generalizing line with
  | nil =>
    rw [fieldLines, List.flatMap_nil, List.append_nil]
    simp only [List.append_assoc]
    rw [headerTerminator, position_skip (not_mem_of_oneLine hline)]
    have hhere : position [13, 10, 13, 10] (crlf ++ (crlf ++ rest)) = some 0 := by
      simp [position, crlf, List.cons_prefix_cons]
    rw [hhere]
    simp [crlf]
  | cons f fs ih =>
    obtain ⟨b, bs, hcons, hb⟩ := f.line_eq_cons
    have ih' := ih f.line f.line_oneLine
    have hassoc : line ++ crlf ++ fieldLines (f :: fs) ++ crlf ++ rest
        = line ++ (crlf ++ (f.line ++ crlf ++ fieldLines fs ++ crlf ++ rest)) := by
      simp only [fieldLines_cons, List.append_assoc]
    have hskip : position headerTerminator (crlf ++ (f.line ++ crlf ++ fieldLines fs ++ crlf ++ rest))
        = (position headerTerminator (f.line ++ crlf ++ fieldLines fs ++ crlf ++ rest)).map
            (2 + ·) := by
      rw [hcons]
      exact position_crlf_line hb _
    rw [hassoc, headerTerminator, position_skip (not_mem_of_oneLine hline), ← headerTerminator,
      hskip, ih']
    simp only [Option.map_some, Option.some.injEq, fieldLines_cons, List.length_append, crlf,
      List.length_cons, List.length_nil]
    omega

/-- **The first terminator ends the head.** -/
theorem position_head (h : Head) (rest : Bytes) :
    position headerTerminator (h.bytes ++ rest) = some (h.bytes.length - 4) :=
  position_lines h.start h.start_line h.fields rest

/-! ### The headers -/

/-- Decoding one line of bytes gives one line of text. -/
theorem not_mem_lossy {bs : Bytes} (h : OneLine bs) :
    '\r' ∉ Utf8.fromUtf8Lossy bs ∧ '\n' ∉ Utf8.fromUtf8Lossy bs := by
  have hsource : ∀ c ∈ Utf8.fromUtf8Lossy bs, c.toNat < 0x80 → ∃ b ∈ bs, b.toNat = c.toNat := by
    intro c hc hascii
    obtain ⟨b, hb, rfl⟩ := Utf8.mem_fromUtf8Lossy_ascii hc hascii
    exact ⟨b, hb, (Utf8.toNat_ofNat_byte b).symm⟩
  constructor
  · intro hm
    obtain ⟨b, hb, hn⟩ := hsource _ hm (by decide)
    exact (h b hb).1 (UInt8.toNat_inj.mp hn)
  · intro hm
    obtain ⟨b, hb, hn⟩ := hsource _ hm (by decide)
    exact (h b hb).2 (UInt8.toNat_inj.mp hn)

/-- The first line of a text whose first line is one line of bytes. -/
theorem lines_lossy_cons {line : Bytes} (hline : OneLine line) (rest : Bytes) :
    lines (Utf8.fromUtf8Lossy (line ++ crlf ++ rest))
      = Utf8.fromUtf8Lossy line :: lines (Utf8.fromUtf8Lossy rest) := by
  have hdec : Utf8.fromUtf8Lossy (line ++ crlf ++ rest)
      = (Utf8.fromUtf8Lossy line ++ ['\r']) ++ '\n' :: Utf8.fromUtf8Lossy rest := by
    rw [crlf, List.append_assoc, List.cons_append, Utf8.fromUtf8Lossy_append_ascii _ (by decide),
      List.cons_append, Utf8.fromUtf8Lossy_cons_ascii (by decide), List.append_assoc]
    rfl
  have hnl : '\n' ∉ Utf8.fromUtf8Lossy line ++ ['\r'] := by
    simpa using (not_mem_lossy hline).2
  rw [hdec, lines_cons hnl, stripCr]
  simp

theorem lines_fieldLines (fields : List Field) :
    lines (Utf8.fromUtf8Lossy (fieldLines fields ++ crlf))
      = fields.map (fun f => Utf8.fromUtf8Lossy f.line) ++ [[]] := by
  induction fields with
  | nil => decide
  | cons f fs ih =>
    rw [fieldLines_cons, List.append_assoc, lines_lossy_cons f.line_oneLine, ih]
    rfl

/-- The decoded field line is the name, a colon and the decoded value. -/
theorem Field.lossy_line (f : Field) :
    Utf8.fromUtf8Lossy f.line = f.name ++ ':' :: Utf8.fromUtf8Lossy f.value := by
  rw [Field.line, Utf8.fromUtf8Lossy_encode_append, Utf8.fromUtf8Lossy_cons_ascii (by decide)]
  rfl

theorem trimEndMatches_eq_self {c : Char} {s : Str} (h : c ∉ s) : trimEndMatches c s = s :=
  List.rdropWhile_eq_self_iff.mpr fun hne => by
    have : s.getLast hne ≠ c := fun he => h (he ▸ List.getLast_mem hne)
    simpa using this

theorem parseHeaderLines_field (f : Field) (rest : List Str) :
    parseHeaderLines (Utf8.fromUtf8Lossy f.line :: rest) = f.header :: parseHeaderLines rest := by
  have hclean : trimEndMatches '\r' (Utf8.fromUtf8Lossy f.line) = Utf8.fromUtf8Lossy f.line :=
    trimEndMatches_eq_self (not_mem_lossy f.line_oneLine).1
  have hcolon : ':' ∉ f.name := fun hm => (token_chars f.name_valid hm).2.2 rfl
  have hne : Utf8.fromUtf8Lossy f.line ≠ [] := by simp [f.lossy_line]
  rw [parseHeaderLines, hclean, if_neg hne, f.lossy_line, splitOnce_append hcolon]
  simp only [trim_token f.name_valid, Field.header]

theorem parseHeaderLines_fields (fields : List Field) :
    parseHeaderLines (fields.map (fun f => Utf8.fromUtf8Lossy f.line) ++ [[]])
      = fields.map Field.header := by
  induction fields with
  | nil => rfl
  | cons f fs ih => rw [List.map_cons, List.cons_append, parseHeaderLines_field, ih, List.map_cons]

/-- **Reading a head gives back its fields.** -/
theorem parseHeaders_head (h : Head) (rest : Bytes) :
    parseHeaders (h.bytes ++ rest) = (h.headers, h.bytes.length) := by
  have hlen := h.four_le_length
  have hend : headerBoundary (h.bytes ++ rest) = h.bytes.length := by
    rw [headerBoundary, position_head]
    simp only
    omega
  have hlines : lines (Utf8.fromUtf8Lossy h.bytes) = Utf8.fromUtf8Lossy h.start ::
      (h.fields.map (fun f => Utf8.fromUtf8Lossy f.line) ++ [[]]) := by
    rw [Head.bytes, List.append_assoc, lines_lossy_cons h.start_line, lines_fieldLines]
  rw [parseHeaders, hend, List.take_left, hlines, List.tail_cons, parseHeaderLines_fields]
  rfl

/-- Reading the head of a message, cut where the terminator is found. -/
theorem parseHeaders_take_head (h : Head) (rest : Bytes) :
    parseHeaders ((h.bytes ++ rest).take h.bytes.length) = (h.headers, h.bytes.length) := by
  rw [List.take_left, ← List.append_nil h.bytes, parseHeaders_head, List.append_nil]

end Tapsmith.Http
