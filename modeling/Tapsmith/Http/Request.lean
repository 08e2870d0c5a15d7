import Tapsmith.Http.Chunked
import Tapsmith.Lib.Stream

namespace Tapsmith.Http

open Lib Lib.Search Lib.Text Lib.Stream

/-!
# Reading a request

`readRequest` is the request reader of the proxy: a header phase that reads up to 8 KiB at
a time (`readHead`), then a body phase that depends on the framing headers (`readBody`):
`readChunkedBody` with its line, data and trailer loops, or `readFixedBody`.

Every loop carries fuel; `readRequest` hands each of them more than the connection can use
up, which is what the theorems of `RequestSpec` rest on.
-/

/-- The connection to the client. -/
abbrev Client := Transport UInt8

/-! ### The chunked body -/

/-- `read_u8` of the control-line reader, with its error texts. -/
def readU8 (client : Client) : Except String UInt8 × Client :=
  match read 1 client with
  | (.ready (b :: _), client) => (.ok b, client)
  | (.ready [], client) => (.error "client closed mid-chunked-control-line", client)
  | (.error, client) => (.error "read error mid-chunked-control-line", client)
  | (.timeout, client) => (.error "chunked control line read timed out", client)

/-- `read_line`: the index behind the first CRLF at or after `cursor`, reading one byte at a
    time. -/
def readLine : ℕ → Client → Bytes → ℕ → Except String (ℕ × Bytes) × Client
  | 0, client, _, _ => (.error "out of fuel", client)
  | fuel + 1, client, buf, cursor =>
    match position crlf (buf.drop cursor) with
    | some p => (.ok (cursor + p + 2, buf), client)
    | none =>
      if maxProxyBody < buf.length then (.error "chunked control line too long", client)
      else match readU8 client with
        | (.ok b, client) => readLine fuel client (buf ++ [b]) cursor
        | (.error e, client) => (.error e, client)

/-- The read loop of `ensure_at_least`. -/
def fill : ℕ → Client → Bytes → ℕ → Except String Bytes × Client
  | 0, client, _, _ => (.error "out of fuel", client)
  | fuel + 1, client, buf, targetLen =>
    if buf.length < targetLen then
      match read (min (targetLen - buf.length) readSize) client with
      | (.ready [], client) => (.error "client closed mid-chunked-body", client)
      | (.ready (b :: bs), client) => fill fuel client (buf ++ b :: bs) targetLen
      | (.error, client) => (.error "read error mid-chunked-body", client)
      | (.timeout, client) => (.error "chunked body read timed out", client)
    else (.ok buf, client)

/-- `ensure_at_least`. -/
def ensureAtLeast (client : Client) (buf : Bytes) (targetLen : ℕ) :
    Except String Bytes × Client :=
  if maxProxyBody < targetLen then (.error "body too large", client)
  else fill (size client + 1) client buf targetLen

/-- The size a chunk-size line declares, with the error texts of the reader. -/
def readChunkSize (sizeLine : Bytes) : Except String ℕ :=
  match Utf8.fromUtf8 sizeLine with
  | none => .error "non-utf8 chunk size"
  | some text =>
    match fromStrRadix 16 (trim ((text.splitOn ';').headD [])) with
    | none => .error "invalid chunk size"
    | some n => .ok n

/-- The trailer loop behind the last chunk. -/
def readTrailers : ℕ → Client → Bytes → ℕ → Except String (ℕ × Bytes) × Client
  | 0, client, _, _ => (.error "out of fuel", client)
  | fuel + 1, client, buf, cursor =>
    match readLine (size client + 1) client buf cursor with
    | (.error e, client) => (.error e, client)
    | (.ok (trailerEnd, buf), client) =>
      if trailerEnd = cursor + 2 then (.ok (trailerEnd, buf), client)
      else readTrailers fuel client buf trailerEnd

/-- The chunk loop of `read_chunked_body`. -/
def readChunks : ℕ → Client → Bytes → ℕ → Except String Bytes × Client
  | 0, client, _, _ => (.error "out of fuel", client)
  | fuel + 1, client, buf, cursor =>
    match readLine (size client + 1) client buf cursor with
    | (.error e, client) => (.error e, client)
    | (.ok (lineEnd, buf), client) =>
      match readChunkSize ((buf.take (lineEnd - 2)).drop cursor) with
      | .error e => (.error e, client)
      | .ok 0 =>
        match readTrailers (buf.length + size client + 1) client buf lineEnd with
        | (.error e, client) => (.error e, client)
        | (.ok (cursor, buf), client) => (.ok (buf.take cursor), client)
      | .ok (n + 1) =>
        let needUntil := lineEnd + (n + 1) + 2
        if 2 ^ 64 ≤ needUntil then (.error "chunk size overflow", client)
        else match ensureAtLeast client buf needUntil with
          | (.error e, client) => (.error e, client)
          | (.ok buf, client) =>
            if (buf.take needUntil).drop (needUntil - 2) = crlf then
              readChunks fuel client buf needUntil
            else (.error "chunk data not terminated by CRLF", client)

/-- `read_chunked_body`: the buffer cut behind the chunked body. -/
def readChunkedBody (client : Client) (buf : Bytes) (headerEnd : ℕ) :
    Except String Bytes × Client :=
  readChunks (buf.length + size client + 1) client buf headerEnd

/-! ### The request -/

/-- The header phase of `read_request`: the buffer and the end of the head in it. -/
def readHead : ℕ → Client → Bytes → ℕ → ReadOutcome (Bytes × ℕ) × Client
  | 0, client, _, _ => (.error, client)
  | fuel + 1, client, buf, scanCursor =>
    match read readSize client with
    | (.ready [], client) => (.connectionClosed, client)
    | (.ready (b :: bs), client) =>
      let buf := buf ++ b :: bs
      match findHeaderTerminator buf scanCursor with
      | some headerEnd => (.ok (buf, headerEnd), client)
      | none =>
        if 65536 < buf.length then (.error, client)
        else readHead fuel client buf buf.length
    | (.error, client) => (.error, client)
    | (.timeout, client) => (.error, client)

/-- The words of the request line. -/
def requestLineParts (buf : Bytes) : List Str :=
  let firstLineEnd := (position [10] buf).getD 0
  splitWhitespace (trim (Utf8.fromUtf8Lossy (buf.take firstLineEnd)))

/-- The `Content-Length` phase of `read_request`: the buffer with the declared body. -/
def readFixedBody (client : Client) (buf : Bytes) (headerEnd : ℕ) (headers : List Header) :
    Option Bytes × Client :=
  match (getHeader headers contentLengthName).bind fun v => parseUsize (trim v) with
  | none => (some buf, client)
  | some cl =>
    if maxProxyBody < cl then (none, client)
    else
      let bodySoFar := buf.length - headerEnd
      if bodySoFar < cl then
        match readExact (cl - bodySoFar) client with
        | (.ok bodyBuf, client) => (some (buf ++ bodyBuf), client)
        | (.error _, client) => (none, client)
      else (some buf, client)

/-- The body phase of `read_request`. -/
def readBody (client : Client) (buf : Bytes) (headerEnd : ℕ) (headers : List Header) :
    Option Bytes × Client :=
  if isChunkedTransferEncoding headers && hasContentLength headers then (none, client)
  else if isChunkedTransferEncoding headers then
    match readChunkedBody client buf headerEnd with
    | (.ok buf, client) => (some buf, client)
    | (.error _, client) => (none, client)
  else readFixedBody client buf headerEnd headers

/-- `read_request`. -/
def readRequest (client : Client) : ReadOutcome ParsedRequest × Client :=
  match readHead (size client + 1) client [] 0 with
  | (.connectionClosed, client) => (.connectionClosed, client)
  | (.error, client) => (.error, client)
  | (.ok (buf, headerEnd), client) =>
    match requestLineParts buf with
    | method :: path :: _ :: _ =>
      let headers := (parseHeaders (buf.take headerEnd)).1
      match readBody client buf headerEnd headers with
      | (none, client) => (.error, client)
      | (some raw, client) =>
        (.ok { method, path, headers, body := raw.drop headerEnd, rawBytes := raw,
               overrideHost := none }, client)
    | _ => (.error, client)

end Tapsmith.Http
