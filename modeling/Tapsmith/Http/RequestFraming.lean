import Tapsmith.Http.Message
import Tapsmith.Http.RequestSpec

namespace Tapsmith.Http

open Lib Lib.Search Lib.Stream

/-!
# Where a request ends

A keep-alive connection carries one request after the other, so the reader has to stop at
the last byte of the first.  The header phase reads up to 8 KiB at a time and may run past
it: the chunked path cuts the buffer behind the body, the `Content-Length` path and the path
without a body forward it as it is.

* `bodyOutcome_message` — how much of a stream the reader takes for a well-formed request;
* `readRequest_exact_iff` — when that is the request and nothing else.
-/

/-- How much the body phase takes for a well-formed request. -/
theorem bodyOutcome_message (m : RequestMessage) (tail : Bytes) {low : ℕ} {o : ℕ × ℕ}
    (h : bodyOutcome (m.bytes ++ tail) m.head.bytes.length low m.head.headers = some o) :
    o.1 = if m.body.isChunked then m.bytes.length else max low m.bytes.length := by
  have hbytes : m.bytes.length = m.head.bytes.length + m.body.bytes.length := List.length_append
  have hframed := m.framed
  unfold bodyOutcome at h
  cases hb : m.body with
  | empty =>
    rw [hb] at hframed hbytes
    obtain ⟨hte, hcl⟩ := hframed.empty
    rw [show m.head.headers = m.fields.map Field.header from rfl, hte, hcl] at h
    simp only [Bool.false_eq_true, if_false, Option.getD_none, Nat.add_zero] at h
    split at h
    · cases h
      simp [Body.isChunked, hbytes, Body.bytes]
    · cases h
  | sized data =>
    have hsize := m.size_le data hb
    rw [hb] at hframed hbytes
    obtain ⟨hte, hcl⟩ := hframed.sized (by simp only [maxProxyBody] at hsize; omega)
    rw [show m.head.headers = m.fields.map Field.header from rfl, hte, hcl] at h
    simp only [Bool.false_eq_true, if_false, Option.getD_some] at h
    split at h
    · cases h
      simp [Body.isChunked, hbytes, Body.bytes]
    · cases h
  | chunked body =>
    rw [hb] at hframed hbytes
    obtain ⟨hte, hcl⟩ := hframed.chunked
    rw [show m.head.headers = m.fields.map Field.header from rfl, hte, hcl] at h
    simp only [if_true, Bool.false_eq_true, if_false] at h
    obtain ⟨r, hparse, hr⟩ := Option.bind_eq_some_iff.mp h
    rw [RequestMessage.bytes, List.append_assoc, List.drop_left, hb, Body.bytes] at hparse
    obtain rfl := body.parseChunked_bytes tail hparse
    split at hr
    · cases hr
      simp [Body.isChunked, hbytes, Body.bytes]
    · cases hr

/-- **Where the reader cuts.**  A request that is read is read exactly, unless the read that
    completes its head has brought bytes of what follows and the body is not chunked. -/
theorem readRequest_exact_iff (m : RequestMessage) (tail : Bytes)
    (cut : Cut readSize (m.bytes ++ tail)) (more : Client) {r : ParsedRequest} {rest : Client}
    (h : readRequest (cut.transport more) = (.ok r, rest)) :
    r.rawBytes = m.bytes ∧ r.body = m.body.bytes ↔
      m.body.isChunked = true ∨ cut.delivered m.head.bytes.length ≤ m.bytes.length := by
  have hassoc : m.bytes ++ tail = m.head.bytes ++ (m.body.bytes ++ tail) :=
    List.append_assoc _ _ _
  obtain ⟨-, method, path, w, ws, o, client', -, ho, hok, -⟩ | ⟨-, client', herr⟩ :=
    readRequest_cut (cut.cast hassoc) more
  swap
  · rw [show (cut.cast hassoc).transport more = cut.transport more from rfl, h] at herr
    cases herr
  rw [show (cut.cast hassoc).transport more = cut.transport more from rfl, h,
    show (cut.cast hassoc).delivered m.head.bytes.length = cut.delivered m.head.bytes.length from rfl]
    at *
  rw [← hassoc, List.append_assoc] at ho
  have hend := bodyOutcome_message m (tail ++ avail more) ho
  rw [← hassoc, List.append_assoc] at hok
  cases hok
  generalize hD : cut.delivered m.head.bytes.length = D at *
  have hD' : D ≤ (m.bytes ++ (tail ++ avail more)).length := by
    have := cut.delivered_le m.head.bytes.length
    simp only [List.length_append] at this ⊢
    omega
  dsimp only
  -- the bytes taken are those of the request just when there are as many of them
  have hraw : (m.bytes ++ (tail ++ avail more)).take o.1 = m.bytes ↔ o.1 = m.bytes.length := by
    constructor
    · intro heq
      have := congrArg List.length heq
      rw [List.length_take] at this
      split at hend <;> rw [List.length_append] at * <;> omega
    · intro heq
      rw [heq, List.take_left]
  rw [hraw]
  have hlen : o.1 = m.bytes.length ↔ m.body.isChunked = true ∨ D ≤ m.bytes.length := by
    rw [hend]
    split
    · simp_all
    · simp_all
  rw [hlen, and_iff_left_iff_imp]
  intro hcond
  rw [hlen.mpr hcond, List.take_left, RequestMessage.bytes, List.drop_left]

/-- `GET / HTTP/1.1` without a field. -/
def getRoot : RequestMessage where
  method := "GET".toList
  target := [47]
  fields := []
  body := .empty
  method_valid := by decide
  target_ne := by decide
  target_visible := by decide
  framed := fun _ hf => absurd hf (by simp)
  size_le := fun _ h => by cases h

/-- The request alone in one read. -/
def getRootAlone : Cut readSize (getRoot.bytes ++ []) where
  reads := [getRoot.bytes]
  flatten_eq := rfl
  reads_ne := by decide
  reads_le := by decide

/-- The request and the next one, pipelined into the same read. -/
def getRootTwice : Cut readSize (getRoot.bytes ++ getRoot.bytes) where
  reads := [getRoot.bytes ++ getRoot.bytes]
  flatten_eq := List.append_nil _
  reads_ne := by decide
  reads_le := by decide

/-- What is read of the request, with `extra` bytes of what follows. -/
def getRootRead (extra : Bytes) : ParsedRequest where
  method := "GET".toList
  path := ['/']
  headers := []
  body := extra
  rawBytes := getRoot.bytes ++ extra
  overrideHost := none

/-- A request that comes alone is read exactly. -/
theorem readRequest_exact_iff_alone :
    (getRootRead []).rawBytes = getRoot.bytes ∧ (getRootRead []).body = getRoot.body.bytes :=
  (readRequest_exact_iff getRoot [] getRootAlone []
    (show readRequest _ = (.ok (getRootRead []), []) by decide +kernel)).mpr (Or.inr (by decide))

/-- A pipelined request is forwarded with the one before it. -/
theorem readRequest_overread : ∃ (m : RequestMessage) (tail : Bytes)
    (cut : Cut readSize (m.bytes ++ tail)) (more : Client) (r : ParsedRequest) (rest : Client),
    readRequest (cut.transport more) = (.ok r, rest) ∧
      ¬ (r.rawBytes = m.bytes ∧ r.body = m.body.bytes) :=
  ⟨getRoot, getRoot.bytes, getRootTwice, [], getRootRead getRoot.bytes, [],
    by decide +kernel, by decide⟩

end Tapsmith.Http
