import Tapsmith.Http.Head
import Tapsmith.Http.StatusLine
import Tapsmith.Http.RequestSpec

namespace Tapsmith.Http

open Lib Lib.Text

/-!
# Writing messages

`reencodeRequest` and `reencodeResponse` write a parsed message back to the wire.  Whatever
text the message carries, CR and LF are replaced and headers with an invalid name dropped.

* `sanitise_encode` — replacing bytes is replacing characters;
* `reencodeRequest_eq`, `reencodeResponse_eq` — what is written is a well-formed head and the
  body, so that the theorems about the readers apply to it;
* `sentHeaders` — the headers that a reader finds in it.
-/

/-- `write_header_sanitised`'s replacement of one byte. -/
def sanitiseByte (b : UInt8) : UInt8 := if b = 13 ∨ b = 10 then 32 else b

/-- `write_header_sanitised`. -/
def writeHeaderSanitised (out : Bytes) (name value : Str) : Bytes :=
  if isValidHeaderName name then
    out ++ Utf8.encode name ++ bytes ": " ++ (Utf8.encode value).map sanitiseByte ++ crlf
  else out

/-- `sanitise_request_line_component`. -/
def sanitiseRequestLineComponent (s : Str) : Bytes := (Utf8.encode s).map sanitiseByte

/-- `reencode_request`. -/
def reencodeRequest (req : ParsedRequest) : Bytes :=
  let out := sanitiseRequestLineComponent req.method ++ [32]
    ++ sanitiseRequestLineComponent req.path ++ bytes " HTTP/1.1\r\n"
  let out := req.headers.foldl (fun out h => writeHeaderSanitised out h.1 h.2) out
  out ++ crlf ++ req.body

/-- The reason phrase of `reencode_response`. -/
def reasonPhrase (status : ℤ) : String :=
  match status with
  | 100 => "Continue"
  | 101 => "Switching Protocols"
  | 200 => "OK"
  | 201 => "Created"
  | 202 => "Accepted"
  | 204 => "No Content"
  | 301 => "Moved Permanently"
  | 302 => "Found"
  | 304 => "Not Modified"
  | 400 => "Bad Request"
  | 401 => "Unauthorized"
  | 403 => "Forbidden"
  | 404 => "Not Found"
  | 500 => "Internal Server Error"
  | 502 => "Bad Gateway"
  | 503 => "Service Unavailable"
  | _ => "OK"

/-- `reencode_response`. -/
def reencodeResponse (resp : ParsedResponse) : Bytes :=
  let out := bytes "HTTP/1.1 " ++ Utf8.encode (i32ToString resp.statusCode) ++ [32]
    ++ bytes (reasonPhrase resp.statusCode) ++ crlf
  let out := resp.headers.foldl (fun out h => writeHeaderSanitised out h.1 h.2) out
  out ++ crlf ++ resp.body

/-! ### Sanitised text -/

/-- A text with its line breaks replaced. -/
def sanitise (s : Str) : Str := s.map fun c => if c = '\r' ∨ c = '\n' then ' ' else c

theorem sanitise_oneLine {s : Str} {c : Char} (hc : c ∈ sanitise s) : c ≠ '\r' ∧ c ≠ '\n' := by
  obtain ⟨d, -, rfl⟩ := List.mem_map.mp hc
  split
  · decide
  · rename_i hd
    exact not_or.mp hd

/-- Replacing the line-break bytes replaces the line-break characters. -/
theorem sanitise_encode (s : Str) : (Utf8.encode s).map sanitiseByte = Utf8.encode (sanitise s) := by
  induction s with
  | nil => rfl
  | cons c s ih =>
    rw [Utf8.encode_cons, List.map_append, ih]
    show _ = Utf8.encode ((if c = '\r' ∨ c = '\n' then ' ' else c) :: sanitise s)
    rw [Utf8.encode_cons]
    congr 1
    by_cases hc : c = '\r' ∨ c = '\n'
    · rw [if_pos hc]
      rcases hc with rfl | rfl <;> decide
    · -- no byte of another character is a line break
      rw [if_neg hc]
      have hmem : ∀ b ∈ String.utf8EncodeChar c, ¬ (b = 13 ∨ b = 10) := by
        intro b hb hbreak
        have hone : b ∈ Utf8.encode [c] := by simpa using hb
        rcases hbreak with rfl | rfl
        · have := Utf8.mem_of_mem_encode hone (by decide)
          exact hc (Or.inl (List.mem_singleton.mp this).symm)
        · have := Utf8.mem_of_mem_encode hone (by decide)
          exact hc (Or.inr (List.mem_singleton.mp this).symm)
      calc (String.utf8EncodeChar c).map sanitiseByte
          = (String.utf8EncodeChar c).map id :=
            List.map_congr_left fun b hb => if_neg (hmem b hb)
        _ = String.utf8EncodeChar c := List.map_id _

/-- Replacing line breaks keeps the words of a text. -/
theorem splitWhitespace_sanitise (s : Str) : splitWhitespace (sanitise s) = splitWhitespace s := by
  unfold splitWhitespace
  have hpieces : ∀ s : Str, (sanitise s).splitOnP isWhitespace = s.splitOnP isWhitespace := by
    intro s
    induction s with
    | nil => rfl
    | cons c s ih =>
      have hcons : sanitise (c :: s) = (if c = '\r' ∨ c = '\n' then ' ' else c) :: sanitise s := rfl
      rw [hcons, List.splitOnP_cons_eq_if_modifyHead, List.splitOnP_cons_eq_if_modifyHead, ih]
      by_cases hc : c = '\r' ∨ c = '\n'
      · rw [if_pos hc]
        rcases hc with rfl | rfl <;> rfl
      · rw [if_neg hc]
  rw [hpieces]

/-! ### Written heads -/

/-- The field that is written for a header with a valid name. -/
def sentField (name value : Str) (h : isValidHeaderName name = true) : Field where
  name := name
  value := 32 :: Utf8.encode (sanitise value)
  name_valid := h
  value_line := by
    have hvalue : OneLine (Utf8.encode (sanitise value)) :=
      oneLine_encode fun c hc => sanitise_oneLine hc
    intro b hb
    rcases List.mem_cons.mp hb with rfl | hb
    · decide
    · exact hvalue b hb

/-- The fields that are written for a list of headers. -/
def sentFields (headers : List Header) : List Field :=
  headers.filterMap fun x =>
    if h : isValidHeaderName x.1 = true then some (sentField x.1 x.2 h) else none

/-- The headers a reader finds in what was written: those with a valid name, their values
    sanitised and trimmed. -/
def sentHeaders (headers : List Header) : List Header :=
  (headers.filter fun x => isValidHeaderName x.1).map fun x => (x.1, trim (sanitise x.2))

theorem sentField_header (name value : Str) (h : isValidHeaderName name = true) :
    (sentField name value h).header = (name, trim (sanitise value)) := by
  rw [Field.header, sentField, Utf8.fromUtf8Lossy_cons_ascii (by decide), Utf8.fromUtf8Lossy_encode]
  show (name, trim (' ' :: sanitise value)) = _
  rw [trim, List.dropWhile_cons_of_pos (by decide), ← trim]

theorem sentFields_cons_of_valid {x : Header} (hx : isValidHeaderName x.1 = true)
    (xs : List Header) : sentFields (x :: xs) = sentField x.1 x.2 hx :: sentFields xs := by
  rw [sentFields, List.filterMap_cons, dif_pos hx]
  rfl

theorem sentFields_cons_of_invalid {x : Header} (hx : ¬ isValidHeaderName x.1 = true)
    (xs : List Header) : sentFields (x :: xs) = sentFields xs := by
  rw [sentFields, List.filterMap_cons, dif_neg hx]
  rfl

theorem sentFields_headers (headers : List Header) :
    (sentFields headers).map Field.header = sentHeaders headers := by
  induction headers with
  | nil => rfl
  | cons x xs ih =>
    by_cases hx : isValidHeaderName x.1 = true
    · rw [sentFields_cons_of_valid hx, List.map_cons, sentField_header, ih]
      simp [sentHeaders, hx]
    · rw [sentFields_cons_of_invalid hx, ih]
      simp [sentHeaders, hx]

theorem writeHeaders_eq (headers : List Header) (out : Bytes) :
    headers.foldl (fun out h => writeHeaderSanitised out h.1 h.2) out
      = out ++ fieldLines (sentFields headers) := by
  induction headers generalizing out with
  | nil => simp [sentFields, fieldLines]
  | cons x xs ih =>
    rw [List.foldl_cons, ih, writeHeaderSanitised]
    by_cases hx : isValidHeaderName x.1 = true
    · have hcolon : bytes ": " = [58, 32] := by decide
      rw [if_pos hx, sentFields_cons_of_valid hx, fieldLines_cons, Field.line, sentField,
        sanitise_encode, hcolon]
      simp
    · rw [if_neg hx, sentFields_cons_of_invalid hx]

/-- The head that `reencodeRequest` writes. -/
def ParsedRequest.sentHead (req : ParsedRequest) : Head where
  start := Utf8.encode (sanitise req.method ++ ' ' :: (sanitise req.path ++ " HTTP/1.1".toList))
  fields := sentFields req.headers
  start_line := by
    refine oneLine_encode fun c hc => ?_
    have hversion : ∀ c ∈ " HTTP/1.1".toList, c ≠ '\r' ∧ c ≠ '\n' := by decide
    simp only [List.mem_append, List.mem_cons] at hc
    rcases hc with hm | rfl | hp | hv
    · exact sanitise_oneLine hm
    · decide
    · exact sanitise_oneLine hp
    · exact hversion c hv

/-- **A written request** is a well-formed head and the body. -/
theorem reencodeRequest_eq (req : ParsedRequest) :
    reencodeRequest req = req.sentHead.bytes ++ req.body := by
  have hversion : bytes " HTTP/1.1\r\n" = Utf8.encode " HTTP/1.1".toList ++ crlf := by decide
  have hspace : String.utf8EncodeChar ' ' = [32] := by decide
  rw [reencodeRequest, writeHeaders_eq, Head.bytes, ParsedRequest.sentHead]
  simp only [sanitiseRequestLineComponent, sanitise_encode, hversion, Utf8.encode_append,
    Utf8.encode_cons, hspace, List.append_assoc]

theorem sentHead_headers (req : ParsedRequest) :
    req.sentHead.headers = sentHeaders req.headers := sentFields_headers req.headers

/-- The words of the written request line: those of method and path, and the version. -/
theorem sentHead_words (req : ParsedRequest) :
    req.sentHead.words.length
      = (splitWhitespace req.method).length + (splitWhitespace req.path).length + 1 := by
  have hversion : " HTTP/1.1".toList = ' ' :: "HTTP/1.1".toList := by decide
  have hword : splitWhitespace "HTTP/1.1".toList = ["HTTP/1.1".toList] := by decide
  rw [Head.words, ParsedRequest.sentHead, Utf8.fromUtf8Lossy_encode,
    splitWhitespace_append_cons (by decide), hversion, splitWhitespace_append_cons (by decide),
    splitWhitespace_sanitise, splitWhitespace_sanitise, hword]
  simp
  omega

/-- The head that `reencodeResponse` writes. -/
def ParsedResponse.sentHead (resp : ParsedResponse) : Head where
  start := statusLine resp.statusCode (bytes (reasonPhrase resp.statusCode))
  fields := sentFields resp.headers
  start_line := by
    apply statusLine_oneLine
    unfold reasonPhrase
    split <;> decide

/-- **A written response** is a well-formed head and the body. -/
theorem reencodeResponse_eq (resp : ParsedResponse) :
    reencodeResponse resp = resp.sentHead.bytes ++ resp.body := by
  rw [reencodeResponse, writeHeaders_eq, Head.bytes]
  simp [ParsedResponse.sentHead, statusLine]

theorem response_sentHead_headers (resp : ParsedResponse) :
    resp.sentHead.headers = sentHeaders resp.headers := sentFields_headers resp.headers

/-- **Nothing is injected.**  What a reader finds in a written message, whatever text the message
    carries: its headers with a valid name, in order, their values on one line and trimmed, and
    behind the head exactly its body. -/
theorem parseHeaders_reencode :
    (∀ req : ParsedRequest, ∃ head, reencodeRequest req = head ++ req.body ∧
      parseHeaders (reencodeRequest req) = (sentHeaders req.headers, head.length)) ∧
    ∀ resp : ParsedResponse, ∃ head, reencodeResponse resp = head ++ resp.body ∧
      parseHeaders (reencodeResponse resp) = (sentHeaders resp.headers, head.length) := by
  constructor
  · intro req
    refine ⟨req.sentHead.bytes, reencodeRequest_eq req, ?_⟩
    rw [reencodeRequest_eq, parseHeaders_head, sentHead_headers]
  · intro resp
    refine ⟨resp.sentHead.bytes, reencodeResponse_eq resp, ?_⟩
    rw [reencodeResponse_eq, parseHeaders_head, response_sentHead_headers]

end Tapsmith.Http
