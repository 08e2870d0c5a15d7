import Tapsmith.Http.RequestSpec

namespace Tapsmith.Http

open Lib Lib.Search Lib.Text Lib.Stream

/-!
# The grammar of chunked bodies

`read_chunked_body` against the grammar it documents, that of RFC 7230, section 4.1.

* `Coding` — chunked bodies with any spelling of sizes and trailers; `Coding.unique`: bytes start
  with one of them at most;
* `ChunkSyntax`, `rfc7230` — a syntax of extensions and trailer sections; that of the RFC;
* `PaddedSize` — the sizes that the reader takes: blanks around them and a plus sign before them;
* `readChunkedBody_exact_iff` — the reader takes exactly the bodies of the grammar, unless what it
  reads starts with a body that only one of the two takes.
-/

/-! ### Lines -/

/-- No line break in it. -/
def IsLine (line : Bytes) : Prop := position crlf line = none

instance (line : Bytes) : Decidable (IsLine line) := inferInstanceAs (Decidable (_ = _))

theorem crlf_ne_nil : crlf ≠ [] := by decide

theorem IsLine.position {line : Bytes} (h : IsLine line) (rest : Bytes) :
    Search.position crlf (line ++ (crlf ++ rest)) = some line.length := by
  refine position_eq_some.mpr ⟨?_, by simp, fun j hj hbreak => ?_⟩
  · rw [List.drop_left]
    exact List.prefix_append crlf rest
  · have hno := (position_eq_none crlf_ne_nil).mp h j
    rw [List.drop_append_of_le_length hj.le] at hbreak
    have hpos : 0 < (line.drop j).length := by
      rw [List.length_drop]
      omega
    -- the break would lie in the line, or take its last byte for the first of the break
    cases hdrop : line.drop j with
    | nil => rw [hdrop] at hpos; exact absurd hpos (Nat.lt_irrefl 0)
    | cons a l =>
      rw [hdrop] at hno hbreak
      cases l with
      | nil =>
        simp only [crlf, List.cons_append, List.nil_append, List.cons_prefix_cons] at hbreak
        exact absurd hbreak.2.1 (by decide)
      | cons b l =>
        simp only [crlf, List.cons_append, List.cons_prefix_cons] at hbreak
        refine hno ?_
        simp only [crlf, List.cons_prefix_cons]
        exact ⟨hbreak.1, hbreak.2.1, List.nil_prefix⟩

/-- The first line of the bytes. -/
theorem exists_line {bs : Bytes} {p : ℕ} (hp : position crlf bs = some p) :
    IsLine (bs.take p) ∧ bs = bs.take p ++ (crlf ++ bs.drop (p + 2)) ∧ (bs.take p).length = p := by
  have hlt := position_lt crlf_ne_nil hp
  obtain ⟨⟨rest, hrest⟩, hle, -⟩ := position_eq_some.mp hp
  refine ⟨position_take_none crlf_ne_nil hp (by simp [crlf]), ?_, by simp [hle]⟩
  have hdrop : bs.drop (p + 2) = rest := by
    rw [← List.drop_drop, ← hrest]
    rfl
  rw [hdrop, hrest, List.take_append_drop]

/-- Bytes start with one line only. -/
theorem IsLine.unique {line line' rest rest' : Bytes} (h : IsLine line) (h' : IsLine line')
    (heq : line ++ (crlf ++ rest) = line' ++ (crlf ++ rest')) : line = line' ∧ rest = rest' := by
  have hlen : line.length = line'.length := by
    have hp := h.position rest
    rw [heq, h'.position rest', Option.some.injEq] at hp
    exact hp.symm
  obtain ⟨rfl, htail⟩ := List.append_inj heq hlen
  exact ⟨rfl, List.append_cancel_left htail⟩

/-! ### Trailer sections -/

/-- The lines of a trailer section: none of them is blank. -/
def TrailerLines (trailers : List Bytes) : Prop := ∀ t ∈ trailers, t ≠ [] ∧ IsLine t

/-- The lines with the blank one behind them. -/
def trailerBytes (trailers : List Bytes) : Bytes := trailers.flatMap (· ++ crlf) ++ crlf

theorem trailerBytes_cons (t : Bytes) (ts : List Bytes) :
    trailerBytes (t :: ts) = t ++ (crlf ++ trailerBytes ts) := by
  simp [trailerBytes, List.append_assoc]

theorem trailersEnd_trailerBytes {ts : List Bytes} (h : TrailerLines ts) (rest : Bytes) :
    trailersEnd (trailerBytes ts ++ rest) = some (trailerBytes ts).length := by
  induction ts with
  | nil =>
    have hblank : crlf <+: trailerBytes [] ++ rest := List.prefix_append crlf rest
    rw [trailersEnd, if_pos hblank]
    rfl
  | cons t ts ih =>
    obtain ⟨hne, hline⟩ := h t List.mem_cons_self
    obtain ⟨n, hn⟩ : ∃ n, t.length = n + 1 :=
      ⟨t.length - 1, by have := List.length_pos_of_ne_nil hne; omega⟩
    have hassoc : trailerBytes (t :: ts) ++ rest = t ++ (crlf ++ (trailerBytes ts ++ rest)) := by
      rw [trailerBytes_cons, List.append_assoc, List.append_assoc]
    have hp := hline.position (trailerBytes ts ++ rest)
    rw [← hassoc, hn] at hp
    have hdrop : (trailerBytes (t :: ts) ++ rest).drop (n + 3) = trailerBytes ts ++ rest := by
      have hlen : (t ++ crlf).length = n + 3 := by simp [crlf, hn]
      rw [hassoc, ← List.append_assoc, ← hlen, List.drop_left]
    rw [trailersEnd_line hp, hdrop, ih fun t' ht' => h t' (List.mem_cons_of_mem _ ht'),
      Option.map_some, trailerBytes_cons]
    simp only [List.length_append, hn, crlf, List.length_cons, List.length_nil, Option.some.injEq]
    omega

theorem exists_trailerLines {bs : Bytes} {k : ℕ} (h : trailersEnd bs = some k) :
    ∃ ts rest, TrailerLines ts ∧ bs = trailerBytes ts ++ rest ∧ (trailerBytes ts).length = k := by
  induction hlen : bs.length using Nat.strong_induction_on generalizing bs k with
  | _ len ih =>
    obtain ⟨p, hp, -⟩ := trailersEnd_position h
    obtain ⟨hline, hbs, hlength⟩ := exists_line hp
    cases p with
    | zero =>
      rw [List.take_zero, List.nil_append] at hbs
      have hpre : crlf <+: bs := by
        rw [hbs]
        exact List.prefix_append _ _
      rw [trailersEnd, if_pos hpre, Option.some.injEq] at h
      exact ⟨[], _, fun _ ht => absurd ht List.not_mem_nil, hbs, h⟩
    | succ p =>
      rw [trailersEnd_line hp] at h
      obtain ⟨k', hk', rfl⟩ := Option.map_eq_some_iff.mp h
      have hlt := position_lt crlf_ne_nil hp
      simp only [crlf, List.length_cons, List.length_nil] at hlt
      obtain ⟨ts, rest, hts, hrest, hk⟩ := ih _ (by simp only [List.length_drop]; omega) hk' rfl
      refine ⟨bs.take (p + 1) :: ts, rest, fun t ht => ?_, ?_, ?_⟩
      · rcases List.mem_cons.mp ht with rfl | ht
        · refine ⟨fun hnil => ?_, hline⟩
          rw [hnil] at hlength
          exact absurd hlength (by simp)
        · exact hts t ht
      · rw [trailerBytes_cons, List.append_assoc, List.append_assoc, ← hrest]
        exact hbs
      · rw [trailerBytes_cons]
        simp only [List.length_append, hlength, crlf, List.length_cons, List.length_nil, hk]
        omega

theorem TrailerLines.unique {ts ts' : List Bytes} {rest rest' : Bytes} (h : TrailerLines ts)
    (h' : TrailerLines ts') (heq : trailerBytes ts ++ rest = trailerBytes ts' ++ rest') :
    ts = ts' := by
  have hblank : ∀ {t : Bytes} {ts : List Bytes} {r r' : Bytes}, t ≠ [] ∧ IsLine t →
      trailerBytes [] ++ r ≠ trailerBytes (t :: ts) ++ r' := by
    intro t ts r r' ht hcon
    rw [trailerBytes_cons, List.append_assoc, List.append_assoc] at hcon
    have hnil : IsLine [] := by decide
    exact ht.1 (hnil.unique ht.2 hcon).1.symm
  induction ts generalizing ts' with
  | nil =>
    cases ts' with
    | nil => rfl
    | cons t' ts' => exact absurd heq (hblank (h' t' List.mem_cons_self))
  | cons t ts ih =>
    cases ts' with
    | nil => exact absurd heq.symm (hblank (h t List.mem_cons_self))
    | cons t' ts' =>
      rw [trailerBytes_cons, trailerBytes_cons, List.append_assoc, List.append_assoc,
        List.append_assoc, List.append_assoc] at heq
      obtain ⟨rfl, hrest⟩ := (h t List.mem_cons_self).2.unique (h' t' List.mem_cons_self).2 heq
      rw [ih (fun t ht => h t (List.mem_cons_of_mem _ ht))
        (fun t ht => h' t (List.mem_cons_of_mem _ ht)) hrest]

/-! ### Chunked bodies -/

/-- A chunked body with its size lines and the lines of its trailer section, where `size` says what
    a size line declares, and `trailers` which trailer sections there are. -/
inductive Coding (size : Bytes → ℕ → Prop) (trailers : List Bytes → Prop) :
    List Bytes → List Bytes → Bytes → Prop
  | last {line : Bytes} {ts : List Bytes} (hline : IsLine line) (hsize : size line 0)
      (hlines : TrailerLines ts) (htrailers : trailers ts) :
      Coding size trailers [line] ts (line ++ (crlf ++ trailerBytes ts))
  | chunk {line data body : Bytes} {lines ts : List Bytes} (hline : IsLine line)
      (hsize : size line data.length) (hdata : data ≠ [])
      (hbody : Coding size trailers lines ts body) :
      Coding size trailers (line :: lines) ts (line ++ (crlf ++ (data ++ (crlf ++ body))))

variable {size size' : Bytes → ℕ → Prop} {trailers trailers' : List Bytes → Prop}
  {lines lines' ts ts' : List Bytes} {body body' rest rest' : Bytes}

/-- **Bytes start with one chunked body at most**, whatever the spelling. -/
theorem Coding.unique (h : Coding size trailers lines ts body)
    (h' : Coding size' trailers' lines' ts' body') (heq : body ++ rest = body' ++ rest')
    (hsizes : ∀ line n m, size line n → size' line m → n = m) :
    lines = lines' ∧ ts = ts' ∧ body = body' := by
  induction h generalizing lines' body' with
  | last hline hsize hlines _ =>
    cases h' with
    | last hline' _ hlines' _ =>
      simp only [List.append_assoc] at heq
      obtain ⟨rfl, htail⟩ := hline.unique hline' heq
      obtain rfl := hlines.unique hlines' htail
      exact ⟨rfl, rfl, rfl⟩
    | chunk hline' hsize' hdata' _ =>
      simp only [List.append_assoc] at heq
      obtain ⟨rfl, -⟩ := hline.unique hline' heq
      exact absurd (hsizes _ _ _ hsize hsize').symm
        (Nat.pos_iff_ne_zero.mp (List.length_pos_of_ne_nil hdata'))
  | chunk hline hsize hdata _ ih =>
    cases h' with
    | last hline' hsize' _ _ =>
      simp only [List.append_assoc] at heq
      obtain ⟨rfl, -⟩ := hline.unique hline' heq
      exact absurd (hsizes _ _ _ hsize hsize')
        (Nat.pos_iff_ne_zero.mp (List.length_pos_of_ne_nil hdata))
    | chunk hline' hsize' _ hbody' =>
      simp only [List.append_assoc] at heq
      obtain ⟨rfl, htail⟩ := hline.unique hline' heq
      obtain ⟨hdata, hrest⟩ := List.append_inj htail (hsizes _ _ _ hsize hsize')
      obtain ⟨hlines, hts, hbody⟩ := ih hbody' (List.append_cancel_left hrest)
      rw [hdata, hlines, hts, hbody]
      exact ⟨rfl, rfl, rfl⟩

/-- The same body in another spelling. -/
theorem Coding.mono (h : Coding size trailers lines ts body)
    (hsizes : ∀ line ∈ lines, ∀ n, n ≤ body.length → size line n → size' line n)
    (htrailers : trailers ts → trailers' ts) : Coding size' trailers' lines ts body := by
  induction h with
  | last hline hsize hlines htrailer =>
    exact .last hline (hsizes _ List.mem_cons_self 0 (Nat.zero_le _) hsize) hlines
      (htrailers htrailer)
  | chunk hline hsize hdata _ ih =>
    refine .chunk hline (hsizes _ List.mem_cons_self _ ?_ hsize) hdata
      (ih (fun line hmem n hn => hsizes line (List.mem_cons_of_mem _ hmem) n ?_) htrailers)
    · simp only [List.length_append]
      omega
    · simp only [List.length_append]
      omega

/-- What the parser takes, as a coding. -/
abbrev ReadCoding : List Bytes → List Bytes → Bytes → Prop :=
  Coding (fun line n => chunkSize line = some n) fun _ => True

theorem ReadCoding.parseChunked (h : ReadCoding lines ts body) (rest : Bytes) :
    ∃ d, parseChunked (body ++ rest) = some (d, body.length) := by
  induction h with
  | @last line ts hline hsize hlines =>
    refine ⟨[], ?_⟩
    have hbs : line ++ (crlf ++ trailerBytes ts) ++ rest =
        line ++ (crlf ++ (trailerBytes ts ++ rest)) := by simp only [List.append_assoc]
    have hlen : (line ++ crlf).length = line.length + 2 := by simp [crlf]
    have hdrop : (line ++ (crlf ++ (trailerBytes ts ++ rest))).drop (line.length + 2) =
        trailerBytes ts ++ rest := by
      rw [← List.append_assoc, ← hlen, List.drop_left]
    rw [hbs, parseChunked_last (hline.position _) (by rw [List.take_left]; exact hsize)
      (by rw [hdrop]; exact trailersEnd_trailerBytes hlines rest)]
    simp only [List.length_append, crlf, List.length_cons, List.length_nil, Option.some.injEq,
      Prod.mk.injEq, true_and]
    omega
  | @chunk line data body lines ts hline hsize hdata _ ih =>
    obtain ⟨d, ih⟩ := ih
    obtain ⟨m, hm⟩ : ∃ m, data.length = m + 1 :=
      ⟨data.length - 1, by have := List.length_pos_of_ne_nil hdata; omega⟩
    have hbs : line ++ (crlf ++ (data ++ (crlf ++ body))) ++ rest =
        line ++ (crlf ++ (data ++ (crlf ++ (body ++ rest)))) := by simp only [List.append_assoc]
    have hlen : (line ++ crlf ++ data).length = line.length + m + 3 := by
      simp [crlf, hm]
      omega
    have hlen' : (line ++ crlf ++ data ++ crlf).length = line.length + m + 5 := by
      simp [crlf, hm]
      omega
    have hdrop : (line ++ (crlf ++ (data ++ (crlf ++ (body ++ rest))))).drop (line.length + m + 3) =
        crlf ++ (body ++ rest) := by
      rw [← List.append_assoc, ← List.append_assoc, ← hlen, List.drop_left]
    have hdrop' : (line ++ (crlf ++ (data ++ (crlf ++ (body ++ rest))))).drop
        (line.length + m + 5) = body ++ rest := by
      rw [← List.append_assoc, ← List.append_assoc, ← List.append_assoc, ← hlen', List.drop_left]
    rw [hbs, parseChunked_chunk (hline.position _) (by rw [List.take_left, hsize, hm])
      (by rw [hdrop]; exact List.take_left' rfl) (by rw [hdrop']; exact ih)]
    refine ⟨_, congrArg some (Prod.ext rfl ?_)⟩
    simp only [List.length_append, crlf, List.length_cons, List.length_nil, hm]
    omega

theorem exists_readCoding {bs d : Bytes} {n : ℕ} (h : parseChunked bs = some (d, n)) :
    ∃ lines ts body rest, ReadCoding lines ts body ∧ bs = body ++ rest ∧ body.length = n := by
  induction hlen : bs.length using Nat.strong_induction_on generalizing bs d n with
  | _ len ih =>
    obtain ⟨p, hp, hp0, hle, hcases⟩ := parseChunked_cases h
    obtain ⟨hline, hbs, hlength⟩ := exists_line hp
    rcases hcases with ⟨k, hs, hk, rfl, rfl⟩ | ⟨m, d', n', hs, hcr, hle', hrec, rfl, rfl⟩
    · obtain ⟨ts, rest, hts, hrest, hk⟩ := exists_trailerLines hk
      refine ⟨_, ts, _, rest, .last hline hs hts trivial, ?_, ?_⟩
      · rw [List.append_assoc, List.append_assoc, ← hrest]
        exact hbs
      · simp only [List.length_append, hlength, crlf, List.length_cons, List.length_nil, hk]
        omega
    · obtain ⟨lines, ts, body, rest, hbody, hrest, hn⟩ :=
        ih _ (by simp only [List.length_drop]; omega) hrec rfl
      have hdata : ((bs.drop (p + 2)).take (m + 1)).length = m + 1 := by
        simp only [List.length_take, List.length_drop]
        omega
      have hsplit : bs.drop (p + 2) =
          (bs.drop (p + 2)).take (m + 1) ++ (crlf ++ (body ++ rest)) := by
        have hcut : ∀ i j, bs.drop i = (bs.drop i).take j ++ bs.drop (i + j) := fun i j => by
          rw [← List.drop_drop, List.take_append_drop]
        have hbreak : bs.drop (p + m + 3) = crlf ++ (body ++ rest) := by
          rw [hcut (p + m + 3) 2, hcr, hrest]
        rw [← hbreak, show p + m + 3 = p + 2 + (m + 1) by omega]
        exact hcut (p + 2) (m + 1)
      have hne : (bs.drop (p + 2)).take (m + 1) ≠ [] := by
        intro hnil
        rw [hnil] at hdata
        exact absurd hdata (by simp)
      have hchunk : ReadCoding (bs.take p :: lines) ts
          (bs.take p ++ (crlf ++ ((bs.drop (p + 2)).take (m + 1) ++ (crlf ++ body)))) :=
        .chunk hline (by rw [hdata]; exact hs) hne hbody
      refine ⟨_, ts, _, rest, hchunk, ?_, ?_⟩
      · rw [List.append_assoc, List.append_assoc, List.append_assoc, List.append_assoc, ← hsplit]
        exact hbs
      · simp only [List.length_append, hlength, hdata, crlf, List.length_cons, List.length_nil, hn]
        omega

/-! ### Size lines -/

/-- A size line as the reader takes it: UTF-8, its size with blanks around it and a plus sign in
    front of it, cut off at the first `;`. -/
def PaddedSize (line : Bytes) (n : ℕ) : Prop :=
  ∃ pad plus digits pad' ext : Str, line = Utf8.encode (pad ++ (plus ++ digits) ++ pad' ++ ext) ∧
    (∀ c ∈ pad, isWhitespace c = true) ∧ (∀ c ∈ pad', isWhitespace c = true) ∧
    (plus = [] ∨ plus = ['+']) ∧ digits ≠ [] ∧ digitsValue 16 0 digits = some n ∧
    (ext = [] ∨ ext.head? = some ';')

/-- A digit is no blank, no sign and no semicolon. -/
theorem digit_plain {digits : Str} {n : ℕ} (h : digitsValue 16 0 digits = some n) {c : Char}
    (hc : c ∈ digits) : isWhitespace c = false ∧ c ≠ '+' ∧ c ≠ ';' := by
  obtain ⟨d, hd⟩ := toDigit_of_digitsValue h c hc
  have hrange := toDigit_range hd
  refine ⟨?_, ?_, ?_⟩
  · simp only [isWhitespace, Bool.or_eq_false_iff, Bool.and_eq_false_iff, decide_eq_false_iff_not,
      beq_eq_false_iff_ne]
    omega
  · rintro rfl
    revert hrange
    decide
  · rintro rfl
    revert hrange
    decide

/-- A text up to its first `;`, and from it on. -/
theorem splitOn_head_cases (text : Str) :
    ∃ ext, text = (text.splitOn ';').headD [] ++ ext ∧ ';' ∉ (text.splitOn ';').headD [] ∧
      (ext = [] ∨ ext.head? = some ';') := by
  by_cases hmem : ';' ∈ text
  · obtain ⟨front, back, rfl, hfront⟩ := List.eq_append_cons_of_mem hmem
    rw [List.splitOn_append_cons_self_of_not_mem hfront, List.headD_cons]
    exact ⟨_, rfl, hfront, .inr rfl⟩
  · rw [List.splitOn_eq_singleton hmem, List.headD_cons]
    exact ⟨[], (List.append_nil _).symm, hmem, .inl rfl⟩

theorem splitOn_head_append {front ext : Str} (hfront : ';' ∉ front)
    (hext : ext = [] ∨ ext.head? = some ';') : ((front ++ ext).splitOn ';').headD [] = front := by
  rcases hext with rfl | hext
  · rw [List.append_nil, List.splitOn_eq_singleton hfront]
    rfl
  · cases ext with
    | nil => cases hext
    | cons c ext =>
      obtain rfl : c = ';' := Option.some.inj hext
      rw [List.splitOn_append_cons_self_of_not_mem hfront]
      rfl

/-- The blanks that are trimmed off. -/
theorem exists_trim (s : Str) : ∃ pad pad', s = pad ++ trim s ++ pad' ∧
    (∀ c ∈ pad, isWhitespace c = true) ∧ ∀ c ∈ pad', isWhitespace c = true := by
  refine ⟨s.takeWhile isWhitespace, (s.dropWhile isWhitespace).rtakeWhile isWhitespace, ?_,
    fun c hc => List.mem_takeWhile_imp hc, fun c hc => List.mem_rtakeWhile_imp hc⟩
  rw [trim, List.append_assoc, List.rdropWhile_append_rtakeWhile, List.takeWhile_append_dropWhile]

theorem unsignedDigits_eq_some {s digits : Str} : unsignedDigits s = some digits ↔
    digits ≠ [] ∧ (s = '+' :: digits ∨ s = digits ∧ s.head? ≠ some '+') := by
  unfold unsignedDigits
  by_cases hplus : s.head? = some '+'
  · obtain ⟨rest, rfl⟩ : ∃ rest, s = '+' :: rest := by
      cases s with
      | nil => cases hplus
      | cons c s => exact ⟨s, by rw [Option.some.inj hplus]⟩
    simp only [hplus, if_true, List.tail_cons, ne_eq, not_true_eq_false, and_false, or_false,
      List.cons.injEq, true_and]
    split
    · rename_i hnil
      exact iff_of_false nofun fun h => h.1 (h.2.symm.trans hnil)
    · rename_i hne
      rw [Option.some.injEq]
      exact ⟨fun h => ⟨h ▸ hne, h⟩, And.right⟩
  · simp only [hplus, if_false, ne_eq, not_false_eq_true, and_true]
    have hcons : s ≠ '+' :: digits := fun h => hplus (by rw [h]; rfl)
    rw [or_iff_right hcons]
    split
    · rename_i hnil
      exact iff_of_false nofun fun h => h.1 (h.2.symm.trans hnil)
    · rename_i hne
      rw [Option.some.injEq]
      exact ⟨fun h => ⟨h ▸ hne, h⟩, And.right⟩

/-- The size of a line, however large. -/
def sizeText (line : Bytes) : Option ℕ :=
  (Utf8.fromUtf8 line).bind fun text =>
    (unsignedDigits (trim ((text.splitOn ';').headD []))).bind (digitsValue 16 0)

theorem sizeText_eq_some {line : Bytes} {n : ℕ} : sizeText line = some n ↔ PaddedSize line n := by
  constructor
  · intro h
    rw [sizeText, Option.bind_eq_some_iff] at h
    obtain ⟨text, htext, hn⟩ := h
    obtain ⟨digits, hdigits, hvalue⟩ := Option.bind_eq_some_iff.mp hn
    obtain ⟨ext, hsplit, -, hext⟩ := splitOn_head_cases text
    obtain ⟨pad, pad', htrim, hpad, hpad'⟩ := exists_trim ((text.splitOn ';').headD [])
    obtain ⟨hne, hsign⟩ := unsignedDigits_eq_some.mp hdigits
    have hplus : ∃ plus : Str, (plus = [] ∨ plus = ['+']) ∧
        trim ((text.splitOn ';').headD []) = plus ++ digits := by
      rcases hsign with hplus | ⟨hself, -⟩
      · exact ⟨['+'], .inr rfl, hplus⟩
      · exact ⟨[], .inl rfl, hself⟩
    obtain ⟨plus, hplus, hsigned⟩ := hplus
    refine ⟨pad, plus, digits, pad', ext, ?_, hpad, hpad', hplus, hne, hvalue, hext⟩
    rw [← Utf8.fromUtf8_eq_some.mp htext, ← hsigned, ← htrim, ← hsplit]
  · rintro ⟨pad, plus, digits, pad', ext, rfl, hpad, hpad', hplus, hne, hvalue, hext⟩
    have hplain : ∀ c ∈ digits, isWhitespace c = false ∧ c ≠ '+' ∧ c ≠ ';' :=
      fun c hc => digit_plain hvalue hc
    have hsigned : ∀ c ∈ plus ++ digits, isWhitespace c = false ∧ c ≠ ';' := by
      intro c hc
      rcases List.mem_append.mp hc with hc | hc
      · rcases hplus with rfl | rfl
        · cases hc
        · rw [List.mem_singleton.mp hc]
          decide
      · exact ⟨(hplain c hc).1, (hplain c hc).2.2⟩
    have hfront : ';' ∉ pad ++ (plus ++ digits) ++ pad' := by
      intro hmem
      rcases List.mem_append.mp hmem with hmem | hmem
      · rcases List.mem_append.mp hmem with hmem | hmem
        · exact absurd (hpad _ hmem) (by decide)
        · exact (hsigned _ hmem).2 rfl
      · exact absurd (hpad' _ hmem) (by decide)
    have hdigits : unsignedDigits (plus ++ digits) = some digits := by
      refine unsignedDigits_eq_some.mpr ⟨hne, ?_⟩
      rcases hplus with rfl | rfl
      · exact .inr ⟨rfl, fun h => (hplain '+' (List.mem_of_mem_head? h)).2.1 rfl⟩
      · exact .inl rfl
    rw [sizeText, Utf8.fromUtf8_eq_some.mpr rfl, Option.bind_some, splitOn_head_append hfront hext,
      trim_append_append hpad hpad' fun c hc => (hsigned c hc).1, hdigits, Option.bind_some, hvalue]

/-- **What the reader makes of a size line.** -/
theorem chunkSize_eq_some {line : Bytes} {n : ℕ} :
    chunkSize line = some n ↔ PaddedSize line n ∧ n < 2 ^ 64 := by
  have hfilter : chunkSize line = (sizeText line).filter (· < 2 ^ 64) := by
    unfold chunkSize sizeText
    cases Utf8.fromUtf8 line with
    | none => rfl
    | some text => rfl
  rw [hfilter, Option.filter_eq_some_iff, sizeText_eq_some, decide_eq_true_eq]

theorem PaddedSize.unique {line : Bytes} {n m : ℕ} (h : PaddedSize line n) (h' : PaddedSize line m) :
    n = m :=
  Option.some.inj ((sizeText_eq_some.mpr h).symm.trans (sizeText_eq_some.mpr h'))

/-! ### The grammar of the RFC -/

/-- A syntax of chunk extensions, each from its `;` on, and of the lines of trailer sections. -/
structure ChunkSyntax where
  ext : Bytes → Prop
  trailers : List Bytes → Prop
  ext_semicolon : ∀ e, ext e → e.head? = some 59

namespace ChunkSyntax

variable (G : ChunkSyntax)

/-- `chunk-size [ chunk-ext ]`, where a chunk size is `1*HEXDIG`. -/
def SizeLine (line : Bytes) (n : ℕ) : Prop :=
  ∃ (digits : Str) (ext : Bytes), line = Utf8.encode digits ++ ext ∧ digits ≠ [] ∧
    digitsValue 16 0 digits = some n ∧ (ext = [] ∨ G.ext ext)

/-- The chunked bodies of the grammar, with their size lines and the lines of their trailers. -/
abbrev Body : List Bytes → List Bytes → Bytes → Prop := Coding G.SizeLine G.trailers

/-- A size line of the grammar that is UTF-8 is read as what it declares. -/
theorem SizeLine.padded {G : ChunkSyntax} {line : Bytes} {n : ℕ} (h : G.SizeLine line n)
    {text : Str} (htext : Utf8.fromUtf8 line = some text) : PaddedSize line n := by
  obtain ⟨digits, ext, rfl, hne, hvalue, hext⟩ := h
  have hlossy : text = digits ++ Utf8.fromUtf8Lossy ext := by
    rw [← Utf8.fromUtf8Lossy_encode text, Utf8.fromUtf8_eq_some.mp htext,
      Utf8.fromUtf8Lossy_encode_append]
  refine ⟨[], [], digits, [], Utf8.fromUtf8Lossy ext, ?_, nofun, nofun, .inl rfl, hne, hvalue, ?_⟩
  · rw [List.nil_append, List.nil_append, List.append_nil, ← hlossy]
    exact (Utf8.fromUtf8_eq_some.mp htext).symm
  · rcases hext with rfl | hext
    · exact .inl rfl
    · have hhead := G.ext_semicolon ext hext
      cases ext with
      | nil => cases hhead
      | cons b ext =>
        obtain rfl : b = 59 := Option.some.inj hhead
        rw [Utf8.fromUtf8Lossy_cons_ascii (by decide)]
        exact .inr rfl

end ChunkSyntax

/-- `token`. -/
def IsToken (bs : Bytes) : Prop := ∃ name, isValidHeaderName name = true ∧ bs = Utf8.encode name

/-- `HTAB / SP / VCHAR / obs-text`. -/
def isFieldByte (b : UInt8) : Bool := b = 9 || 32 ≤ b && b ≠ 127

/-- What stands between the quotes of a `quoted-string`. -/
inductive QuotedText : Bytes → Prop
  | nil : QuotedText []
  | text {b : UInt8} {bs : Bytes} (hb : isFieldByte b = true ∧ b ≠ 34 ∧ b ≠ 92)
      (h : QuotedText bs) : QuotedText (b :: bs)
  | pair {b : UInt8} {bs : Bytes} (hb : isFieldByte b = true) (h : QuotedText bs) :
      QuotedText (92 :: b :: bs)

/-- `[ "=" chunk-ext-val ]`, where the value is a token or a quoted string. -/
def ExtValue (bs : Bytes) : Prop :=
  bs = [] ∨ ∃ value, bs = 61 :: value ∧
    (IsToken value ∨ ∃ text, QuotedText text ∧ value = 34 :: (text ++ [34]))

/-- `chunk-ext`, not empty. -/
inductive ChunkExt : Bytes → Prop
  | one {name value : Bytes} (hname : IsToken name) (hvalue : ExtValue value) :
      ChunkExt (59 :: (name ++ value))
  | more {name value ext : Bytes} (hname : IsToken name) (hvalue : ExtValue value)
      (hext : ChunkExt ext) : ChunkExt (59 :: (name ++ value ++ ext))

/-- The first line of a `header-field`. -/
def FieldLine (line : Bytes) : Prop :=
  ∃ name value, IsToken name ∧ line = name ++ 58 :: value ∧ ∀ b ∈ value, isFieldByte b = true

/-- A line that continues a field (`obs-fold`). -/
def FoldLine (line : Bytes) : Prop :=
  ∃ b rest, line = b :: rest ∧ (b = 32 ∨ b = 9) ∧ ∀ b ∈ rest, isFieldByte b = true

/-- `*( header-field CRLF )`, behind a field or at the front. -/
def TrailerFields : Bool → List Bytes → Prop
  | _, [] => True
  | behindField, line :: lines =>
    (FieldLine line ∨ behindField = true ∧ FoldLine line) ∧ TrailerFields true lines

/-- Section 4.1 of RFC 7230. -/
def rfc7230 : ChunkSyntax where
  ext := ChunkExt
  trailers := TrailerFields false
  ext_semicolon _ h := by cases h <;> rfl

/-! ### The reader and the grammar -/

/-- The bytes `S` have such a chunked body behind their head, and the buffer may hold it: the reader
    stops at the first byte behind the limit. -/
def Behind (K : List Bytes → List Bytes → Bytes → Prop) (S : Bytes) (headerEnd : ℕ)
    (lines ts : List Bytes) (body : Bytes) : Prop :=
  K lines ts body ∧ body <+: S.drop headerEnd ∧ headerEnd + body.length ≤ maxProxyBody + 1

/-- The reader takes exactly the bodies of the grammar, and what it leaves on the connection is all
    that stands behind the body and was not in the buffer before. -/
structure ReadsExactly (G : ChunkSyntax) (client : Client) (buf : Bytes) (headerEnd : ℕ) :
    Prop where
  accepts : (∃ raw client', readChunkedBody client buf headerEnd = (.ok raw, client')) ↔
    ∃ lines ts body, Behind G.Body (buf ++ avail client) headerEnd lines ts body
  exact : ∀ raw client', readChunkedBody client buf headerEnd = (.ok raw, client') →
    ∃ lines ts body, Behind G.Body (buf ++ avail client) headerEnd lines ts body ∧
      raw = (buf ++ avail client).take (headerEnd + body.length) ∧
      avail client' = (buf ++ avail client).drop (max buf.length (headerEnd + body.length))

/-- Behind the head there is no body of the grammar with an extension that is not UTF-8, and no body
    with padded or signed sizes, or with extensions or trailers against the syntax. -/
structure OneReading (G : ChunkSyntax) (S : Bytes) (headerEnd : ℕ) : Prop where
  utf8 : ∀ lines ts body, Behind G.Body S headerEnd lines ts body →
    ∀ line ∈ lines, ∃ text, Utf8.fromUtf8 line = some text
  spelled : ∀ lines ts body, Behind (Coding PaddedSize fun _ => True) S headerEnd lines ts body →
    (∀ line ∈ lines, ∃ n, G.SizeLine line n) ∧ G.trailers ts

section

variable {G : ChunkSyntax} {client : Client} {buf : Bytes} {headerEnd : ℕ}

/-- What the reader does, told with codings. -/
theorem readChunkedBody_coding (client : Client) (hhead : headerEnd ≤ buf.length)
    (hb : buf.length ≤ maxProxyBody + 1) :
    ((∃ raw client', readChunkedBody client buf headerEnd = (.ok raw, client')) ↔
      ∃ lines ts body, Behind (Coding PaddedSize fun _ => True) (buf ++ avail client) headerEnd
        lines ts body) ∧
    ∀ raw client', readChunkedBody client buf headerEnd = (.ok raw, client') →
      ∃ lines ts body, Behind (Coding PaddedSize fun _ => True) (buf ++ avail client) headerEnd
          lines ts body ∧
        raw = (buf ++ avail client).take (headerEnd + body.length) ∧
        avail client' = (buf ++ avail client).drop (max buf.length (headerEnd + body.length)) := by
  have hpadded : ∀ {lines ts body}, ReadCoding lines ts body →
      Coding PaddedSize (fun _ => True) lines ts body := fun h =>
    h.mono (fun line _ n _ hsize => (chunkSize_eq_some.mp hsize).1) id
  have hread : ∀ {lines ts body}, body.length < 2 ^ 64 →
      Coding PaddedSize (fun _ => True) lines ts body → ReadCoding lines ts body := fun hlen h =>
    h.mono (fun line _ n hn hsize => chunkSize_eq_some.mpr ⟨hsize, hn.trans_lt hlen⟩) id
  have hexact : ∀ raw client', readChunkedBody client buf headerEnd = (.ok raw, client') →
      ∃ lines ts body, Behind (Coding PaddedSize fun _ => True) (buf ++ avail client) headerEnd
          lines ts body ∧
        raw = (buf ++ avail client).take (headerEnd + body.length) ∧
        avail client' = (buf ++ avail client).drop (max buf.length (headerEnd + body.length)) := by
    intro raw client' hok
    obtain ⟨d, n, client₁, hres, hparse, hav, hlim⟩ | ⟨⟨e, client₁, herr⟩, -⟩ :=
      readChunkedBody_spec client buf headerEnd hhead hb
    · obtain ⟨hraw, rfl⟩ := Prod.mk.inj (hok.symm.trans hres)
      obtain rfl := Except.ok.inj hraw
      obtain ⟨lines, ts, body, rest, hbody, hrest, rfl⟩ := exists_readCoding hparse
      exact ⟨lines, ts, body, ⟨hpadded hbody, ⟨rest, hrest.symm⟩, hlim⟩, rfl, hav⟩
    · rw [herr] at hok
      cases hok
  refine ⟨⟨fun ⟨raw, client', hok⟩ => ?_, ?_⟩, hexact⟩
  · obtain ⟨lines, ts, body, hbehind, -⟩ := hexact raw client' hok
    exact ⟨lines, ts, body, hbehind⟩
  · rintro ⟨lines, ts, body, hbody, ⟨rest, hrest⟩, hlim⟩
    obtain ⟨d, n, client₁, hres, -⟩ | ⟨-, hlate⟩ :=
      readChunkedBody_spec client buf headerEnd hhead hb
    · exact ⟨_, client₁, hres⟩
    · have hlen : body.length < 2 ^ 64 := by
        have hmax : maxProxyBody + 1 < 2 ^ 64 := by decide
        omega
      obtain ⟨d, hparse⟩ := (hread hlen hbody).parseChunked rest
      rw [hrest] at hparse
      exact absurd (hlate d _ hparse) (Nat.not_lt.mpr hlim)

/-- Two bodies behind one head are one. -/
theorem Behind.unique {S : Bytes} (h : Behind (Coding size trailers) S headerEnd lines ts body)
    (h' : Behind (Coding size' trailers') S headerEnd lines' ts' body')
    (hsizes : ∀ line n m, size line n → size' line m → n = m) :
    lines = lines' ∧ ts = ts' ∧ body = body' := by
  obtain ⟨hbody, ⟨rest, hrest⟩, -⟩ := h
  obtain ⟨hbody', ⟨rest', hrest'⟩, -⟩ := h'
  exact hbody.unique hbody' (hrest.trans hrest'.symm) hsizes

theorem PaddedSize.utf8 {line : Bytes} {n : ℕ} (h : PaddedSize line n) :
    ∃ text, Utf8.fromUtf8 line = some text := by
  obtain ⟨pad, plus, digits, pad', ext, hline, -⟩ := h
  exact ⟨_, Utf8.fromUtf8_eq_some.mpr hline.symm⟩

/-- The two spellings declare the same size. -/
theorem size_agree (G : ChunkSyntax) (line : Bytes) (n m : ℕ) (h : G.SizeLine line n)
    (h' : PaddedSize line m) : n = m := by
  obtain ⟨text, htext⟩ := h'.utf8
  exact (h.padded htext).unique h'

/-- Every size line of a coding declares something. -/
theorem Coding.exists_size (h : Coding size trailers lines ts body) :
    ∀ line ∈ lines, ∃ n, size line n := by
  induction h with
  | last _ hsize _ _ =>
    intro line hmem
    rw [List.mem_singleton.mp hmem]
    exact ⟨0, hsize⟩
  | chunk _ hsize _ _ ih =>
    intro line hmem
    rcases List.mem_cons.mp hmem with rfl | hmem
    · exact ⟨_, hsize⟩
    · exact ih line hmem

theorem Coding.trailers_of (h : Coding size trailers lines ts body) : trailers ts := by
  induction h with
  | last _ _ _ htrailers => exact htrailers
  | chunk _ _ _ _ ih => exact ih

/-- A body that the reader takes is spelled as the grammar has it. -/
theorem ReadsExactly.spelled (hhead : headerEnd ≤ buf.length) (hb : buf.length ≤ maxProxyBody + 1)
    (h : ReadsExactly G client buf headerEnd)
    (hbehind : Behind (Coding PaddedSize fun _ => True) (buf ++ avail client) headerEnd lines ts
      body) : (∀ line ∈ lines, ∃ n, G.SizeLine line n) ∧ G.trailers ts := by
  obtain ⟨haccepts, -⟩ := readChunkedBody_coding client hhead hb
  obtain ⟨lines', ts', body', hgrammar⟩ := h.accepts.mp (haccepts.mpr ⟨lines, ts, body, hbehind⟩)
  obtain ⟨rfl, rfl, rfl⟩ := hgrammar.unique hbehind (size_agree G)
  exact ⟨hgrammar.1.exists_size, hgrammar.1.trailers_of⟩

/-- **The reader takes exactly the grammar** where what it reads has one reading, for every syntax
    of extensions and trailers. -/
theorem readChunkedBody_exact_iff (G : ChunkSyntax) (client : Client) (buf : Bytes)
    (headerEnd : ℕ) (hhead : headerEnd ≤ buf.length) (hb : buf.length ≤ maxProxyBody + 1) :
    ReadsExactly G client buf headerEnd ↔ OneReading G (buf ++ avail client) headerEnd := by
  obtain ⟨haccepts, hexact⟩ := readChunkedBody_coding client hhead hb
  constructor
  · intro h
    refine ⟨fun lines ts body hbehind => ?_, fun lines ts body hbehind => h.spelled hhead hb hbehind⟩
    obtain ⟨lines', ts', body', hpadded⟩ := haccepts.mp (h.accepts.mpr ⟨lines, ts, body, hbehind⟩)
    obtain ⟨rfl, rfl, rfl⟩ := hbehind.unique hpadded (size_agree G)
    intro line hmem
    obtain ⟨n, hn⟩ := hpadded.1.exists_size line hmem
    exact hn.utf8
  · intro h
    have hgrammar : ∀ {lines ts body}, Behind (Coding PaddedSize fun _ => True)
        (buf ++ avail client) headerEnd lines ts body →
          Behind G.Body (buf ++ avail client) headerEnd lines ts body := by
      intro lines ts body hbehind
      obtain ⟨hsizes, htrailers⟩ := h.spelled lines ts body hbehind
      refine ⟨hbehind.1.mono (fun line hmem n _ hsize => ?_) fun _ => htrailers, hbehind.2⟩
      obtain ⟨m, hm⟩ := hsizes line hmem
      rwa [← size_agree G line m n hm hsize]
    refine ⟨⟨fun hok => ?_, ?_⟩, fun raw client' hok => ?_⟩
    · obtain ⟨lines, ts, body, hbehind⟩ := haccepts.mp hok
      exact ⟨lines, ts, body, hgrammar hbehind⟩
    · rintro ⟨lines, ts, body, hbehind⟩
      refine haccepts.mpr ⟨lines, ts, body, hbehind.1.mono (fun line hmem n _ hsize => ?_)
        fun _ => trivial, hbehind.2⟩
      obtain ⟨text, htext⟩ := h.utf8 lines ts body hbehind line hmem
      exact hsize.padded htext
    · obtain ⟨lines, ts, body, hbehind, hrest⟩ := hexact raw client' hok
      exact ⟨lines, ts, body, hgrammar hbehind, hrest⟩

end

/-- The body "hello" in two segments, and the start of the next request. -/
def helloClient (size : String) : Client :=
  [.ready (bytes (size ++ "\r\nhel")), .ready (bytes "lo\r\n0\r\n\r\nGET")]

theorem readChunkedBody_exact_hello :
    readChunkedBody (helloClient "5;a=b") [] 0 =
        (.ok (bytes "5;a=b\r\nhello\r\n0\r\n\r\n"), [.ready (bytes "GET")]) ∧
      (ReadsExactly rfc7230 (helloClient "5;a=b") [] 0 ↔
        OneReading rfc7230 ([] ++ avail (helloClient "5;a=b")) 0) :=
  ⟨by decide +kernel,
    readChunkedBody_exact_iff rfc7230 (helloClient "5;a=b") [] 0 (by decide) (by decide)⟩

/-- A sign is no hexadecimal digit. -/
theorem not_sizeLine_signed (G : ChunkSyntax) (n : ℕ) : ¬ G.SizeLine (bytes "+5") n := by
  rintro ⟨digits, ext, hline, hne, hvalue, -⟩
  have htext : Utf8.fromUtf8Lossy (bytes "+5") = digits ++ Utf8.fromUtf8Lossy ext := by
    rw [hline, Utf8.fromUtf8Lossy_encode_append]
  rw [show Utf8.fromUtf8Lossy (bytes "+5") = ['+', '5'] by decide +kernel] at htext
  cases digits with
  | nil => exact hne rfl
  | cons c digits =>
    obtain rfl : '+' = c := (List.cons.inj htext).1
    exact (digit_plain hvalue List.mem_cons_self).2.1 rfl

/-- A size with a sign is taken. -/
theorem reads_signed_size : ¬ ReadsExactly rfc7230 (helloClient "+5") [] 0 := by
  intro h
  have hlast : Coding PaddedSize (fun _ => True) [bytes "0"] []
      (bytes "0" ++ (crlf ++ trailerBytes [])) :=
    .last (by decide +kernel) (sizeText_eq_some.mp (by decide +kernel)) nofun trivial
  have hbody : Coding PaddedSize (fun _ => True) [bytes "+5", bytes "0"] [] (bytes "+5" ++
      (crlf ++ (bytes "hello" ++ (crlf ++ (bytes "0" ++ (crlf ++ trailerBytes [])))))) :=
    .chunk (by decide +kernel) (sizeText_eq_some.mp (by decide +kernel)) (by decide) hlast
  obtain ⟨hsizes, -⟩ := h.spelled (Nat.le_refl 0) (Nat.zero_le _)
    ⟨hbody, ⟨bytes "GET", by decide +kernel⟩, by decide +kernel⟩
  obtain ⟨n, hn⟩ := hsizes (bytes "+5") List.mem_cons_self
  exact not_sizeLine_signed rfc7230 n hn

end Tapsmith.Http
