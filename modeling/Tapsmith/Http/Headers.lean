import Tapsmith.Lib.Search
import Tapsmith.Lib.Text
import Tapsmith.Lib.Utf8

namespace Tapsmith.Http

open Lib Lib.Search Lib.Text

/-!
# Parsed messages and their header blocks

The shared vocabulary of the proxy: the two parsed-message records, the size limits, and
the functions that read a header block.  A `String` is the list of its characters, a
`Vec<u8>` the list of its bytes.

* `findHeaderTerminator` — the incremental search for the end of the head;
* `parseHeaders`, `parseStatusCode` — what is read from a head;
* `isChunkedTransferEncoding`, `hasContentLength`, `getHeader` — the framing headers.
-/

abbrev Str := List Char
abbrev Bytes := List UInt8
/-- A header as the proxy keeps it: name and trimmed value. -/
abbrev Header := Str × Str

/-- The bytes of a text literal of the source. -/
def bytes (s : String) : Bytes := Utf8.encode s.toList

def crlf : Bytes := [13, 10]
/-- `\r\n\r\n`, the end of the head. -/
def headerTerminator : Bytes := [13, 10, 13, 10]

/-- `MAX_BODY_SIZE`: how much of a body is stored in a captured row. -/
def maxBodySize : ℕ := 1048576
/-- `MAX_PROXY_BODY`: how much is read through the proxy pipeline. -/
def maxProxyBody : ℕ := 10 * 1024 * 1024

/-- The size of the buffer one socket read fills. -/
def readSize : ℕ := 8192

/-- `http` or `https`. -/
def schemeOf (isHttps : Bool) : Str := if isHttps then "https".toList else "http".toList

/-- `OverrideOrigin`: the target of a cross-origin `route.continue({ url })`. -/
structure OverrideOrigin where
  host : Str
  port : ℕ
  isHttps : Bool
  deriving DecidableEq

/-- `ParsedRequest`. -/
structure ParsedRequest where
  method : Str
  path : Str
  headers : List Header
  body : Bytes
  rawBytes : Bytes
  overrideHost : Option OverrideOrigin
  deriving DecidableEq

/-- `ParsedResponse`. -/
structure ParsedResponse where
  statusCode : ℤ
  headers : List Header
  body : Bytes
  rawBytes : Bytes
  deriving DecidableEq

/-- `ReadOutcome`. -/
inductive ReadOutcome (α : Type) where
  | ok (value : α)
  | connectionClosed
  | error
  deriving DecidableEq

/-! ### Reading a head -/

/-- `find_header_terminator`: the offset behind the first `\r\n\r\n`, searched from three
    bytes before `scanCursor`. -/
def findHeaderTerminator (buf : Bytes) (scanCursor : ℕ) : Option ℕ :=
  let start := scanCursor - 3
  (position headerTerminator (buf.drop start)).map fun pos => start + pos + 4

/-- The header lines of `parse_headers`, up to the first empty one. -/
def parseHeaderLines : List Str → List Header
  | [] => []
  | line :: rest =>
    let clean := trimEndMatches '\r' line
    if clean = [] then []
    else match splitOnce ':' clean with
      | some (key, value) => (trim key, trim value) :: parseHeaderLines rest
      | none => parseHeaderLines rest

/-- The header/body boundary `parse_headers` finds. -/
def headerBoundary (raw : Bytes) : ℕ :=
  match position headerTerminator raw with
  | some pos => pos + 4
  | none =>
    match position [10, 10] raw with
    | some pos => pos + 2
    | none => raw.length

/-- `parse_headers`: the headers and the offset of the body. -/
def parseHeaders (raw : Bytes) : List Header × ℕ :=
  let headerEnd := headerBoundary raw
  (parseHeaderLines (lines (Utf8.fromUtf8Lossy (raw.take headerEnd))).tail, headerEnd)

/-- `parse_status_code`. -/
def parseStatusCode (raw : Bytes) : ℤ :=
  let snippet := Utf8.fromUtf8Lossy (raw.take 256)
  match splitWhitespace ((lines snippet).headD []) with
  | _ :: code :: _ => (parseI32 code).getD 0
  | _ => 0

/-! ### Framing headers -/

def contentLengthName : Str := "content-length".toList
def transferEncodingName : Str := "transfer-encoding".toList
def chunkedName : Str := "chunked".toList

/-- Whether a `Transfer-Encoding` value lists the coding `chunked`. -/
def listsChunked (value : Str) : Bool :=
  (value.splitOn ',').any fun token => eqIgnoreAsciiCase (trim token) chunkedName

/-- `is_chunked_transfer_encoding`. -/
def isChunkedTransferEncoding (headers : List Header) : Bool :=
  headers.any fun h => eqIgnoreAsciiCase h.1 transferEncodingName && listsChunked h.2

/-- `has_content_length`. -/
def hasContentLength (headers : List Header) : Bool :=
  headers.any fun h => eqIgnoreAsciiCase h.1 contentLengthName

/-- `get_header`: the value of the first header of that name. -/
def getHeader (headers : List Header) (name : Str) : Option Str :=
  (headers.find? fun h => toLowercase h.1 = toLowercase name).map Prod.snd

/-- The declared length, as both message readers take it from the first
    `Content-Length` header. -/
def declaredLength (headers : List Header) : Option ℕ :=
  (headers.find? fun h => eqIgnoreAsciiCase h.1 contentLengthName).bind fun h =>
    parseUsize (trim h.2)

/-- Both ways of comparing a name with `content-length` agree. -/
theorem toLowercase_eq_contentLengthName (k : Str) :
    toLowercase k = toLowercase contentLengthName ↔
      eqIgnoreAsciiCase k contentLengthName = true := by
  have hlow : toLowercase contentLengthName = contentLengthName := by decide
  have hmap : contentLengthName.map Char.toLower = contentLengthName := by decide
  rw [hlow, toLowercase_eq_iff (by decide), eqIgnoreAsciiCase, hmap, decide_eq_true_eq]

/-- The two lookups of the declared length in the source agree. -/
theorem getHeader_contentLength (headers : List Header) :
    ((getHeader headers contentLengthName).bind fun v => parseUsize (trim v))
      = declaredLength headers := by
  have hpred : (fun h : Header => decide (toLowercase h.1 = toLowercase contentLengthName))
      = fun h => eqIgnoreAsciiCase h.1 contentLengthName := by
    funext h
    rw [Bool.eq_iff_iff, decide_eq_true_eq]
    exact toLowercase_eq_contentLengthName h.1
  rw [getHeader, declaredLength, hpred]
  cases headers.find? fun h => eqIgnoreAsciiCase h.1 contentLengthName <;> rfl

theorem declaredLength_eq_none {headers : List Header} (h : hasContentLength headers = false) :
    declaredLength headers = none := by
  rw [hasContentLength, List.any_eq_false] at h
  rw [declaredLength, List.find?_eq_none.mpr h]
  rfl

/-! ### The search for the end of the head -/

/-- Resuming the search behind what is known to hold no terminator finds what a search
    from the start finds. -/
theorem findHeaderTerminator_eq {buf : Bytes} {scanCursor : ℕ} (hle : scanCursor ≤ buf.length)
    (hnone : position headerTerminator (buf.take scanCursor) = none) :
    findHeaderTerminator buf scanCursor = (position headerTerminator buf).map (· + 4) := by
  rw [position_resume (by decide) hle hnone, Option.map_map]
  rfl

/-- What is read from a head depends on the head alone. -/
theorem parseHeaders_take {raw : Bytes} {pos : ℕ} (h : position headerTerminator raw = some pos) :
    parseHeaders (raw.take (pos + 4)) = parseHeaders raw := by
  have htake : position headerTerminator (raw.take (pos + 4)) = some pos :=
    position_take (by decide) h (by simp [headerTerminator])
  have hb : headerBoundary raw = pos + 4 := by rw [headerBoundary, h]
  have hb' : headerBoundary (raw.take (pos + 4)) = pos + 4 := by rw [headerBoundary, htake]
  rw [parseHeaders, parseHeaders, hb, hb', List.take_take, Nat.min_self]

end Tapsmith.Http
