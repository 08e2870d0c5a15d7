import Tapsmith.Http.Message
import Tapsmith.Http.ResponseSpec

namespace Tapsmith.Http

open Lib Lib.Search Lib.Stream

/-!
# Where a response ends

A response has to be complete with the read that delivers its last byte: a reader that waits
for more blocks a keep-alive connection, one that stops before cuts the message short.  With
a `Content-Length` or without a body this does not depend on the reads.  A chunked body is
recognised by a scan for its last chunk that remembers neither what it saw nor where it is.

* `MarkShown` — what the scan sees of a read;
* `stopsAtEnd_message` — when the reader stops at the end of a well-formed response;
* `readResponse_exact_iff` — when the response is read exactly.
-/

/-- A read from `p` to `n` shows a last-chunk mark: the body starts with one, or there is one
    in the body within the read and the four bytes before it. -/
def MarkShown (stream : Bytes) (headerEnd p n : ℕ) : Prop :=
  lastChunkMark <+: (stream.take n).drop headerEnd ∨
    ∃ i, max (p - 4) headerEnd ≤ i ∧ i + 5 ≤ n ∧ zeroChunk <+: stream.drop i

/-- The last read shows a last-chunk mark, and no earlier read that ends in a blank line of the
    body does. -/
def LastChunkShown (m : ResponseMessage) (cut : Cut readSize m.bytes) : Prop :=
  (∀ before r, cut.reads = before ++ [r] →
    MarkShown m.bytes m.head.bytes.length before.flatten.length m.bytes.length) ∧
  ∀ before r after, cut.reads = before ++ r :: after → after ≠ [] →
    m.head.bytes.length ≤ before.flatten.length + r.length →
    headerTerminator <:+ m.bytes.take (before.flatten.length + r.length) →
    ¬ MarkShown m.bytes m.head.bytes.length before.flatten.length (before.flatten.length + r.length)

/-! ### The scan -/

/-- What the completion test of a chunked body tests. -/
theorem chunkedDone_iff {stream : Bytes} {headerEnd p n : ℕ} (hn : n ≤ stream.length) :
    chunkedDone (stream.take n) headerEnd p = true ↔
      MarkShown stream headerEnd p n ∧ headerTerminator <:+ stream.take n := by
  have hscan : (position zeroChunk ((stream.take n).drop (max (p - 4) headerEnd))).isSome = true ↔
      ∃ i, max (p - 4) headerEnd ≤ i ∧ i + 5 ≤ n ∧ zeroChunk <+: stream.drop i := by
    constructor
    · intro hsome
      obtain ⟨i, hi⟩ := Option.isSome_iff_exists.mp hsome
      have hocc := (position_eq_some.mp hi).1
      rw [List.drop_drop] at hocc
      obtain ⟨hocc, hle⟩ := (prefix_drop_take (by decide) hn).mp hocc
      exact ⟨_, Nat.le_add_right _ _, by simpa [zeroChunk] using hle, hocc⟩
    · rintro ⟨i, hlo, hhi, hocc⟩
      by_contra hnone
      rw [Option.not_isSome_iff_eq_none, position_eq_none (by decide)] at hnone
      refine hnone (i - max (p - 4) headerEnd) ?_
      rw [List.drop_drop, show max (p - 4) headerEnd + (i - max (p - 4) headerEnd) = i by omega]
      exact (prefix_drop_take (by decide) hn).mpr ⟨hocc, by simpa [zeroChunk] using hhi⟩
  rw [chunkedDone, Bool.and_eq_true, Bool.or_eq_true, hscan, List.isPrefixOf_iff_prefix,
    List.isSuffixOf_iff_suffix, MarkShown]

/-- A chunked body ends in a blank line. -/
theorem terminator_suffix (b : ChunkedBody) (front : Bytes) :
    headerTerminator <:+ front ++ b.bytes := by
  have htail : ∃ u, b.last.bytes ++ crlf ++ fieldLines b.trailers ++ crlf
      = u ++ headerTerminator := by
    rcases List.eq_nil_or_concat b.trailers with hnil | ⟨fs, f, hconcat⟩
    · exact ⟨b.last.bytes, by simp [hnil, fieldLines, crlf, headerTerminator]⟩
    · refine ⟨b.last.bytes ++ crlf ++ fieldLines fs ++ f.line, ?_⟩
      simp [hconcat, fieldLines, crlf, headerTerminator]
  obtain ⟨u, hu⟩ := htail
  rw [ChunkedBody.bytes, hu]
  exact ⟨front ++ (b.chunks.flatMap Chunk.bytes ++ u), by simp⟩

/-! ### The framing of a well-formed response -/

theorem statusAt_message (m : ResponseMessage) :
    StatusAt m.head (m.head.bytes ++ m.body.bytes) m.status := by
  have hrange := m.status_range
  exact statusAt_statusLine rfl (by omega) (by omega)

theorem bodylessStatus_iff (m : ResponseMessage) :
    bodylessStatus m.status = true ↔ IsBodyless m.status := by
  have := m.status_range
  simp only [bodylessStatus, Bool.or_eq_true, Bool.and_eq_true, decide_eq_true_eq, beq_iff_eq,
    IsBodyless]
  omega

/-- The framing the reader selects for a well-formed response. -/
theorem selectFraming_message (m : ResponseMessage) (hsize : m.bytes.length ≤ maxProxyBody) :
    selectFraming m.status m.head.headers m.head.bytes.length = some (match m.body with
      | .empty => .noBody
      | .sized _ => .fixedLength m.bytes.length
      | .chunked _ => .chunked m.head.bytes.length m.head.bytes.length) := by
  have hlen : m.bytes.length = m.head.bytes.length + m.body.bytes.length := List.length_append
  have hheaders : m.head.headers = m.fields.map Field.header := rfl
  rw [selectFraming, hheaders]
  by_cases hbodyless : IsBodyless m.status
  · obtain ⟨hbody, hone⟩ := m.bodyless hbodyless
    have hnot : (isChunkedTransferEncoding (m.fields.map Field.header) &&
        (declaredLength (m.fields.map Field.header)).isSome) = false := by
      rcases hone with hcl | hte
      · rw [declaredLength_eq_none (hasContentLength_eq_false hcl), Option.isSome_none,
          Bool.and_false]
      · rw [isChunked_eq_false hte, Bool.false_and]
    simp only [hnot, Bool.false_eq_true, if_false, (bodylessStatus_iff m).mpr hbodyless, if_true,
      hbody]
  · obtain ⟨hne, hframed⟩ := m.framed hbodyless
    have hbodied : bodylessStatus m.status = false := by
      rw [Bool.eq_false_iff]
      exact fun hcon => hbodyless ((bodylessStatus_iff m).mp hcon)
    cases hb : m.body with
    | empty => exact absurd hb hne
    | sized data =>
      rw [hb] at hframed hlen
      rw [Body.bytes] at hlen
      obtain ⟨hte, hcl⟩ := hframed.sized (by simp only [maxProxyBody] at hsize; omega)
      simp only [hte, hcl, hbodied, Bool.false_and, Bool.false_eq_true, if_false]
      rw [if_neg (by omega), hlen]
    | chunked body =>
      rw [hb] at hframed
      obtain ⟨hte, hcl⟩ := hframed.chunked
      simp only [hte, declaredLength_eq_none hcl, hbodied, Option.isSome_none, Bool.and_false,
        Bool.false_eq_true, if_false, if_true]

/-- What one round comes to on a well-formed response within the size limit. -/
theorem verdict_message (m : ResponseMessage) (hsize : m.bytes.length ≤ maxProxyBody) {p n : ℕ}
    (hn : n ≤ m.bytes.length) :
    verdict (selectFraming m.status m.head.headers m.head.bytes.length) m.bytes
        m.head.bytes.length p n
      = if m.body.isChunked then
          if m.head.bytes.length ≤ n ∧ chunkedDone (m.bytes.take n) m.head.bytes.length p = true
          then .done else .more
        else if n = m.bytes.length then .done else .more := by
  have hlen : m.bytes.length = m.head.bytes.length + m.body.bytes.length := List.length_append
  rw [selectFraming_message m hsize, verdict]
  by_cases hhead : n < m.head.bytes.length
  · rw [if_pos hhead, if_neg (by omega), if_neg (by omega : ¬ n = m.bytes.length)]
    simp [show ¬ m.head.bytes.length ≤ n by omega]
  rw [if_neg hhead]
  cases hb : m.body with
  | empty =>
    have hend : n = m.bytes.length := by
      rw [hb] at hlen
      simp only [Body.bytes, List.length_nil] at hlen
      omega
    simp [BodyFraming.completes, Body.isChunked, hend]
  | sized data =>
    simp only [BodyFraming.completes, Body.isChunked, Bool.false_eq_true, if_false,
      decide_eq_true_eq]
    by_cases hend : n = m.bytes.length
    · rw [if_pos (by omega), if_pos hend]
    · rw [if_neg (by omega), if_neg (by omega), if_neg hend]
  | chunked body =>
    show (if chunkedDone (m.bytes.take n) m.head.bytes.length p = true then Verdict.done
      else if maxProxyBody < n then .failed else .more) = if true = true then _ else _
    rw [if_pos rfl]
    by_cases hdone : chunkedDone (m.bytes.take n) m.head.bytes.length p = true
    · rw [if_pos hdone, if_pos ⟨by omega, hdone⟩]
    · rw [if_neg hdone, if_neg (by omega), if_neg fun hcon => hdone hcon.2]

theorem done_or_more_eq_iff (P Q : Prop) [Decidable P] [Decidable Q] :
    (if P then Verdict.done else .more) = (if Q then .done else .more) ↔ (P ↔ Q) := by
  split_ifs <;> simp_all

/-- **When the reader stops at the end of a well-formed response.** -/
theorem stopsAtEnd_message (m : ResponseMessage) (hsize : m.bytes.length ≤ maxProxyBody)
    (cut : Cut readSize m.bytes) :
    StopsAtEnd m.head m.status m.bytes cut ↔ (m.body.isChunked = true → LastChunkShown m cut) := by
  have hsplit : ∀ before r after, cut.reads = before ++ r :: after →
      before.flatten.length < before.flatten.length + r.length ∧
        before.flatten.length + r.length + after.flatten.length = m.bytes.length ∧
        (after = [] ↔ before.flatten.length + r.length = m.bytes.length) := by
    intro before r after heq
    have hr : r ≠ [] := cut.reads_ne r (by simp [heq])
    have hrpos := List.length_pos_of_ne_nil hr
    have hflat := congrArg List.length cut.flatten_eq
    simp only [heq, List.flatten_append, List.flatten_cons, List.length_append] at hflat
    refine ⟨by omega, by omega, ⟨?_, fun hlen => ?_⟩⟩
    · rintro rfl
      simp only [List.flatten_nil, List.length_nil] at hflat
      omega
    · cases after with
      | nil => rfl
      | cons x after =>
        have hx := List.length_pos_of_ne_nil (cut.reads_ne x (by simp [heq]))
        simp only [List.flatten_cons, List.length_append] at hflat
        omega
  unfold StopsAtEnd
  cases hchunked : m.body.isChunked with
  | false =>
    simp only [Bool.false_eq_true, false_implies, iff_true]
    intro before r after heq
    obtain ⟨hlt, hsum, hafter⟩ := hsplit before r after heq
    rw [verdict_message m hsize (by omega), hchunked]
    simp only [Bool.false_eq_true, if_false, hafter]
  | true =>
    simp only [true_implies, LastChunkShown]
    obtain ⟨body, hb⟩ : ∃ body, m.body = .chunked body := by
      cases hb : m.body with
      | chunked body => exact ⟨body, rfl⟩
      | empty => rw [hb] at hchunked; cases hchunked
      | sized data => rw [hb] at hchunked; cases hchunked
    have hblank : headerTerminator <:+ m.bytes.take m.bytes.length := by
      rw [List.take_length, ResponseMessage.bytes, hb]
      exact terminator_suffix body _
    have hround : ∀ before r after, cut.reads = before ++ r :: after →
        (verdict (selectFraming m.status m.head.headers m.head.bytes.length) m.bytes
            m.head.bytes.length before.flatten.length (before.flatten.length + r.length)
          = (if after = [] then .done else .more) ↔
        ((m.head.bytes.length ≤ before.flatten.length + r.length ∧
          MarkShown m.bytes m.head.bytes.length before.flatten.length
            (before.flatten.length + r.length) ∧
          headerTerminator <:+ m.bytes.take (before.flatten.length + r.length)) ↔ after = [])) := by
      intro before r after heq
      obtain ⟨hlt, hsum, -⟩ := hsplit before r after heq
      rw [verdict_message m hsize (by omega), hchunked, if_pos rfl, ← chunkedDone_iff (by omega)]
      exact done_or_more_eq_iff _ _
    constructor
    · intro hall
      refine ⟨fun before r heq => ?_, fun before r after heq hafter hhead hend hmark => ?_⟩
      · have hlast := ((hround before r [] heq).mp (hall before r [] heq)).mpr rfl
        rw [((hsplit before r [] heq).2.2).mp rfl] at hlast
        exact hlast.2.1
      · exact hafter (((hround before r after heq).mp (hall before r after heq)).mp
          ⟨hhead, hmark, hend⟩)
    · rintro ⟨hlast, hearly⟩ before r after heq
      rw [hround before r after heq]
      constructor
      · rintro ⟨hhead, hmark, hend⟩
        by_contra hafter
        exact hearly before r after heq hafter hhead hend hmark
      · rintro rfl
        have hend := ((hsplit before r [] heq).2.2).mp rfl
        rw [hend]
        exact ⟨by rw [ResponseMessage.bytes, List.length_append]; omega, hlast before r heq, hblank⟩

/-- **When a response is read exactly.**  The reader returns the response with the read that
    delivers its last byte, and nothing else, unless the body is chunked and the scan misses
    its last chunk in that read or takes an earlier read for the end. -/
theorem readResponse_exact_iff (m : ResponseMessage) (hsize : m.bytes.length ≤ maxProxyBody)
    (cut : Cut readSize m.bytes) :
    (∀ more, ∃ r, readResponse (cut.transport more) = (.ok r, more) ∧ r.rawBytes = m.bytes) ↔
      (m.body.isChunked = true → LastChunkShown m cut) := by
  rw [← stopsAtEnd_message m hsize cut]
  constructor
  · intro hall
    refine stopsAtEnd_of_readResponse rfl (statusAt_message m) fun more => ?_
    obtain ⟨r, hr, -⟩ := hall more
    exact ⟨r, hr⟩
  · intro hstop more
    exact ⟨_, readResponse_of_stopsAtEnd rfl (statusAt_message m) hstop more, List.take_length⟩

/-! ### A response that is missed -/

/-- `Transfer-Encoding: chunked`. -/
def chunkedField : Field where
  name := "Transfer-Encoding".toList
  value := Http.bytes " chunked"
  name_valid := by decide
  value_line := by decide

/-- The chunked body `hello`, in one chunk. -/
def helloBody : ChunkedBody where
  chunks := [{
    size := { digits := ['5'], ext := [], value := 5, digits_ne := by decide,
              digits_value := by decide, ext_valid := ⟨by decide, Or.inl rfl⟩ }
    data := Http.bytes "hello"
    data_ne := by decide
    size_eq := by decide }]
  last := { digits := ['0'], ext := [], value := 0, digits_ne := by decide,
            digits_value := by decide, ext_valid := ⟨by decide, Or.inl rfl⟩ }
  trailers := []
  last_eq := rfl

/-- A response with that body. -/
def hello : ResponseMessage where
  status := 200
  reason := Http.bytes "OK"
  fields := [chunkedField]
  body := .chunked helloBody
  status_range := by decide
  reason_line := by decide
  bodyless := fun h => absurd h (by decide)
  framed := fun _ => ⟨by simp, by decide, chunkedField, by simp, by decide, [], "chunked".toList,
    by decide, by decide⟩

/-- The response in one read. -/
def helloWhole : Cut readSize hello.bytes where
  reads := [hello.bytes]
  flatten_eq := List.append_nil _
  reads_ne := by decide
  reads_le := by decide

/-- The response cut in front of its last CRLF. -/
def helloCut : Cut readSize hello.bytes where
  reads := [hello.bytes.take 60, hello.bytes.drop 60]
  flatten_eq := by decide
  reads_ne := by decide
  reads_le := by decide

/-- In one read the response is read exactly. -/
theorem readResponse_exact_iff_hello : hello.bytes.length ≤ maxProxyBody ∧
    ∀ more, ∃ r, readResponse (helloWhole.transport more) = (.ok r, more) ∧
      r.rawBytes = hello.bytes := by
  have hsize : hello.bytes.length ≤ maxProxyBody := by decide
  refine ⟨hsize, (readResponse_exact_iff hello hsize helloWhole).mpr fun _ => ⟨?_, ?_⟩⟩
  · intro before r heq
    obtain ⟨rfl, -⟩ : before = [] ∧ r = hello.bytes := by
      cases before with
      | nil => exact ⟨rfl, (List.cons.inj heq).1.symm⟩
      | cons b before => simp [helloWhole] at heq
    exact Or.inr ⟨55, by decide, by decide, by decide⟩
  · intro before r after heq hafter
    cases before with
    | nil => exact absurd (List.cons.inj heq).2.symm hafter
    | cons b before => simp [helloWhole] at heq

/-- Cut in front of its last CRLF, the response is not complete for the reader: it waits for
    more, although no chunk contains a last-chunk mark. -/
theorem readResponse_misses_end : ∃ (m : ResponseMessage) (cut : Cut readSize m.bytes),
    m.bytes.length ≤ maxProxyBody ∧
      (∀ body, m.body = .chunked body → ∀ c ∈ body.chunks, position zeroChunk c.data = none) ∧
      ¬ ∀ more, ∃ r, readResponse (cut.transport more) = (.ok r, more) ∧ r.rawBytes = m.bytes := by
  refine ⟨hello, helloCut, by decide, ?_, fun hall => ?_⟩
  · rintro body hbody c hc
    cases hbody
    rw [List.mem_singleton.mp hc]
    decide
  · obtain ⟨r, hr, -⟩ := hall [.timeout]
    have hleft : (readResponse (helloCut.transport [.timeout])).2 = [] := by decide +kernel
    rw [hr] at hleft
    cases hleft

end Tapsmith.Http
