import Tapsmith.Http.Head
import Tapsmith.Lib.Stream

namespace Tapsmith.Http

open Lib Lib.Search Lib.Stream

/-!
# Reading a response

`readResponse` is the response reader of the proxy.  It reads up to 8 KiB at a time, settles
the framing once, when the head is complete (`selectFraming`), and then decides after every
read whether the response is complete (`checkComplete`).

* `ResponseReader` — the local variables of `read_response`;
* `ResponseReader.onRead` — one round of its loop;
* `readResponse` — the loop, with more fuel than the connection can use up.
-/

/-- The connection to the upstream server. -/
abbrev Upstream := Transport UInt8

/-- `BodyFraming`: how the end of the body is recognised. -/
inductive BodyFraming where
  | fixedLength (totalNeeded : ℕ)
  | chunked (headerEnd chunkedScanCursor : ℕ)
  | noBody
  | untilClose
  deriving DecidableEq

/-- The local variables of `read_response`. -/
structure ResponseReader where
  buf : Bytes
  scanCursor : ℕ
  framing : Option BodyFraming
  cachedHeaderEnd : ℕ
  cachedHeaders : List Header
  cachedStatus : ℤ
  deriving DecidableEq

/-- The variables before the first read. -/
def ResponseReader.init : ResponseReader where
  buf := []
  scanCursor := 0
  framing := none
  cachedHeaderEnd := 0
  cachedHeaders := []
  cachedStatus := 0

/-- The statuses that have no body: `100..=199 | 204 | 304`. -/
def bodylessStatus (status : ℤ) : Bool :=
  (100 ≤ status && status ≤ 199) || status == 204 || status == 304

/-- The framing a head selects; `none` where the response is rejected. -/
def selectFraming (status : ℤ) (headers : List Header) (headerEnd : ℕ) : Option BodyFraming :=
  let isChunked := isChunkedTransferEncoding headers
  let contentLength := declaredLength headers
  if isChunked && contentLength.isSome then none
  else if bodylessStatus status then some .noBody
  else if isChunked then some (.chunked headerEnd headerEnd)
  else match contentLength with
    | some cl => if maxProxyBody < cl then none else some (.fixedLength (headerEnd + cl))
    | none => some .untilClose

/-- Phase A of the loop: look for the end of the head, and settle the framing once. -/
def ResponseReader.lookForHead (st : ResponseReader) : Option ResponseReader :=
  match st.framing with
  | some _ => some st
  | none =>
    match findHeaderTerminator st.buf st.scanCursor with
    | some headerEnd =>
      let headers := (parseHeaders (st.buf.take headerEnd)).1
      let status := parseStatusCode st.buf
      (selectFraming status headers headerEnd).map fun framing =>
        { st with framing := some framing, cachedHeaderEnd := headerEnd,
                  cachedHeaders := headers, cachedStatus := status }
    | none => some { st with scanCursor := st.buf.length }

/-- `0\r\n`, the last chunk of an empty body. -/
def lastChunkMark : Bytes := [48, 13, 10]
/-- `\r\n0\r\n`, the last chunk behind a data chunk. -/
def zeroChunk : Bytes := [13, 10, 48, 13, 10]

/-- The completion test of a chunked body: a last-chunk mark, searched from four bytes before
    the scan cursor on, and a buffer that ends in a blank line. -/
def chunkedDone (buf : Bytes) (headerEnd chunkedScanCursor : ℕ) : Bool :=
  let start := max (chunkedScanCursor - 4) headerEnd
  let hasZeroChunk := lastChunkMark.isPrefixOf (buf.drop headerEnd) ||
    (position zeroChunk (buf.drop start)).isSome
  hasZeroChunk && headerTerminator.isSuffixOf buf

/-- Phase B of the loop: whether the response is complete. -/
def ResponseReader.checkComplete (st : ResponseReader) : Bool × ResponseReader :=
  match st.framing with
  | none => (false, st)
  | some .noBody => (true, st)
  | some (.fixedLength totalNeeded) => (decide (totalNeeded ≤ st.buf.length), st)
  | some (.chunked headerEnd chunkedScanCursor) =>
    (chunkedDone st.buf headerEnd chunkedScanCursor,
      { st with framing := some (.chunked headerEnd st.buf.length) })
  | some .untilClose => (false, st)

/-- What one round of the loop comes to. -/
inductive RoundOutcome where
  | complete (st : ResponseReader)
  | more (st : ResponseReader)
  | error
  deriving DecidableEq

/-- One round of the loop, with what the read brought. -/
def ResponseReader.onRead (st : ResponseReader) (chunk : Bytes) : RoundOutcome :=
  match ({ st with buf := st.buf ++ chunk } : ResponseReader).lookForHead with
  | none => .error
  | some st =>
    let (complete, st) := st.checkComplete
    if complete then .complete st
    else if maxProxyBody < st.buf.length then .error
    else .more st

/-- The response made of the buffer when the loop is left. -/
def ResponseReader.finish (st : ResponseReader) : ReadOutcome ParsedResponse :=
  if st.buf = [] then .connectionClosed
  else
    let (headers, headerEnd, statusCode) :=
      if st.framing.isSome then (st.cachedHeaders, st.cachedHeaderEnd, st.cachedStatus)
      else ((parseHeaders st.buf).1, (parseHeaders st.buf).2, parseStatusCode st.buf)
    .ok { statusCode, headers, body := st.buf.drop headerEnd, rawBytes := st.buf }

/-- The read loop of `read_response`. -/
def readResponseLoop : ℕ → Upstream → ResponseReader → ReadOutcome ParsedResponse × Upstream
  | 0, upstream, _ => (.error, upstream)
  | fuel + 1, upstream, st =>
    match read readSize upstream with
    | (.ready [], upstream) => (st.finish, upstream)
    | (.ready (b :: bs), upstream) =>
      match st.onRead (b :: bs) with
      | .complete st => (st.finish, upstream)
      | .more st => readResponseLoop fuel upstream st
      | .error => (.error, upstream)
    | (.error, upstream) => (st.finish, upstream)
    | (.timeout, upstream) => (st.finish, upstream)

/-- `read_response`. -/
def readResponse (upstream : Upstream) : ReadOutcome ParsedResponse × Upstream :=
  readResponseLoop (size upstream + 1) upstream .init

end Tapsmith.Http
