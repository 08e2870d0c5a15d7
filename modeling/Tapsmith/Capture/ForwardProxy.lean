import Tapsmith.Capture.Entry
import Tapsmith.Route.Handler

namespace Tapsmith.Capture

open Lib Lib.Text Lib.Stream Tapsmith.Http Tapsmith.Route

/-!
# The forward proxy

`handle_http` serves one request with an absolute URL, and builds the row of the exchange
itself in two places: where the upstream server cannot be reached, and at its end.

* `HttpCall` — a call, with what its network operations come to;
* `handleHttp` — the row it records, if it records one;
* `unreachableBody` — the body of a request whose server is not reached;
* `capped_handleHttp_iff` — the stored bodies keep to the limit just when that one does.
-/

/-- `parse_http_url`: the host and the path. -/
def parseHttpUrl (url : Str) : Option (Str × Str) :=
  let split := fun stripped : Str =>
    match stripped.dropWhile (· ≠ '/') with
    | [] => (stripped, ['/'])
    | path => (stripped.takeWhile (· ≠ '/'), path)
  if "http://".toList <+: url then some (split (url.drop 7))
  else if "https://".toList <+: url then some (split (url.drop 8))
  else none

/-- A call of `handle_http`.  The handler's `on_request` (for `is_https = false`) and the network
    are given by their results: whether the upstream server is reached, and what it answers to
    a request, `none` where the request could not be written. -/
structure HttpCall where
  method : Str
  targetUrl : Str
  initialData : Bytes
  client : Client
  handler : Option (ParsedRequest → Str → RequestOutcome × ParsedRequest)
  fetchUpstream : FetchTarget → Option ParsedResponse
  connects : Str → Bool
  answer : Bytes → Option Bytes
  startMs : ℕ
  nowMs : ℕ

/-- The request body: what came with the head, and the rest of the declared length. -/
def readHttpBody (headers : List Header) (bodySoFar : Bytes) (client : Client) : Option Bytes :=
  let contentLength :=
    min (((getHeader headers contentLengthName).bind parseUsize).getD 0) maxProxyBody
  if bodySoFar.length < contentLength then
    match (readExact (contentLength - bodySoFar.length) client).1 with
    | .ok bodyBuf => some (bodySoFar ++ bodyBuf)
    | .error _ => none
  else some bodySoFar

/-- The request before the handler sees it, and its host. -/
def HttpCall.request (c : HttpCall) : Option (Str × ParsedRequest) :=
  (parseHttpUrl c.targetUrl).bind fun (host, path) =>
    let (headers, headerEnd) := parseHeaders c.initialData
    (readHttpBody headers (c.initialData.drop headerEnd) c.client).map fun body =>
      (host, { method := c.method, path, headers, body, rawBytes := [], overrideHost := none })

/-- `host.split(':').next()`. -/
def hostnameOf (host : Str) : Str := host.takeWhile (· ≠ ':')

/-- The head that is written upstream: no `Proxy-Connection`, and `Connection: close`. -/
def upstreamHead (req : ParsedRequest) : Bytes :=
  let isNamed := fun (h : Header) (name : Str) => decide (toLowercase h.1 = name)
  let close := "Connection: close\r\n".toList
  let lines := (req.headers.filter fun h => !isNamed h "proxy-connection".toList).flatMap fun h =>
    if isNamed h "connection".toList then close else h.1 ++ ": ".toList ++ h.2 ++ "\r\n".toList
  let hasConnection := req.headers.any fun h => isNamed h "connection".toList
  Utf8.encode (req.method ++ ' ' :: req.path ++ " HTTP/1.1\r\n".toList ++ lines
    ++ (if hasConnection then [] else close) ++ "\r\n".toList)

/-- The address that is connected to. -/
def connectTarget (host : Str) : Str := if ':' ∈ host then host else host ++ ":80".toList

/-- The row of a request whose upstream server is not reached. -/
def HttpCall.connectFailure (c : HttpCall) (req : ParsedRequest) : CapturedEntry where
  method := req.method
  url := c.targetUrl
  statusCode := 502
  contentType := []
  requestSize := c.initialData.length
  responseSize := 0
  startTimeMs := c.startMs
  durationMs := c.nowMs - c.startMs
  requestHeaders := req.headers
  responseHeaders := []
  requestBody := req.body
  responseBody := []
  isHttps := false
  routeAction := []
  inFlight := false
  captureId := 0
  osService := false

/-- The row of an exchange with the upstream server. -/
def HttpCall.exchanged (c : HttpCall) (req : ParsedRequest) (wasContinued : Bool)
    (responseData : Bytes) : CapturedEntry :=
  let (responseHeaders, headerEnd) := parseHeaders responseData
  let responseBody := responseData.drop headerEnd
  { method := req.method
    url := c.targetUrl
    statusCode := parseStatusCode responseData
    contentType := (getHeader responseHeaders "content-type".toList).getD []
    requestSize := req.body.length
    responseSize := responseBody.length
    startTimeMs := c.startMs
    durationMs := c.nowMs - c.startMs
    requestHeaders := req.headers
    responseHeaders
    requestBody := truncate req.body
    responseBody := truncate responseBody
    isHttps := false
    routeAction := if wasContinued then "continued".toList else []
    inFlight := false
    captureId := 0
    osService := false }

/-- What `handle_http` does after the handler: forward the request to its own host. -/
def HttpCall.forward (c : HttpCall) (host : Str) (req : ParsedRequest) (wasContinued : Bool) :
    Option CapturedEntry :=
  if c.connects (connectTarget host) then
    (c.answer (upstreamHead req ++ req.body)).map (c.exchanged req wasContinued)
  else some (c.connectFailure req)

/-- The request that is forwarded to its own host, and whether a route continued it; `none`
    where the handler answers it or sends it elsewhere. -/
def HttpCall.forwarded (c : HttpCall) : Option (Str × ParsedRequest × Bool) :=
  c.request.bind fun (host, req) =>
    match c.handler with
    | none => some (host, req, false)
    | some onRequest =>
      match onRequest req (hostnameOf host) with
      | (.synthesized _, _) => none
      | (.continued, sent) => if sent.overrideHost = none then some (host, sent, true) else none
      | (.notMatched, _) => some (host, req, false)

/-- `handle_http`: the row it records. -/
def handleHttp (c : HttpCall) : Option CapturedEntry :=
  c.request.bind fun (host, req) =>
    match c.handler with
    | none => c.forward host req false
    | some onRequest =>
      match onRequest req (hostnameOf host) with
      | (.synthesized synth, sent) =>
        let action := if synth.statusCode = 0 then "aborted" else "mocked"
        some (recordEntry sent synth (hostnameOf host) false c.startMs action.toList c.nowMs)
      | (.continued, sent) =>
        match sent.overrideHost with
        | some origin =>
          let target : FetchTarget := { url := originUrl origin sent.path, method := sent.method,
                                        headers := sent.headers, body := sent.body }
          (c.fetchUpstream target).map fun resp =>
            recordEntry sent resp origin.host origin.isHttps c.startMs "continued".toList c.nowMs
        | none => c.forward host sent true
      | (.notMatched, _) => c.forward host req false

/-- The body of a request whose upstream server is not reached. -/
def HttpCall.unreachableBody (c : HttpCall) : Option Bytes :=
  c.forwarded.bind fun (host, req, _) =>
    if c.connects (connectTarget host) then none else some req.body

/-! ### The stored bodies -/

theorem capped_exchanged (c : HttpCall) (req : ParsedRequest) (wasContinued : Bool)
    (responseData : Bytes) : Capped (c.exchanged req wasContinued responseData) :=
  ⟨length_truncate_le _, length_truncate_le _⟩

/-- A row of `handle_http` is one of a failed connection, or its bodies are truncated. -/
theorem handleHttp_cases {c : HttpCall} {row : CapturedEntry} (h : handleHttp c = some row) :
    (∃ host req wasContinued, c.forwarded = some (host, req, wasContinued) ∧
        c.connects (connectTarget host) = false ∧ row = c.connectFailure req) ∨
      c.unreachableBody = none ∧ Capped row ∧ row.inFlight = false := by
  have hforward : ∀ {host : Str} {req : ParsedRequest} {wasContinued : Bool},
      c.forwarded = some (host, req, wasContinued) → c.forward host req wasContinued = some row →
      (∃ host req wasContinued, c.forwarded = some (host, req, wasContinued) ∧
          c.connects (connectTarget host) = false ∧ row = c.connectFailure req) ∨
        c.unreachableBody = none ∧ Capped row ∧ row.inFlight = false := by
    intro host req wasContinued hfwd hrow
    rw [HttpCall.forward] at hrow
    split at hrow
    · rename_i hconn
      obtain ⟨data, -, rfl⟩ := Option.map_eq_some_iff.mp hrow
      refine Or.inr ⟨?_, capped_exchanged _ _ _ _, rfl⟩
      rw [HttpCall.unreachableBody, hfwd, Option.bind_some]
      exact if_pos hconn
    · rename_i hconn
      exact Or.inl ⟨host, req, wasContinued, hfwd, by simpa using hconn,
        (Option.some.inj hrow).symm⟩
  rw [handleHttp, Option.bind_eq_some_iff] at h
  obtain ⟨⟨host, req⟩, hreq, h⟩ := h
  dsimp only at h
  split at h
  · rename_i hnone
    refine hforward ?_ h
    rw [HttpCall.forwarded, hreq, Option.bind_some]
    simp only [hnone]
  · rename_i onRequest hsome
    split at h
    · rename_i hout
      cases h
      refine Or.inr ⟨?_, capped_recordEntrySized _ _ _ _ _ _ _ _ _, rfl⟩
      rw [HttpCall.unreachableBody, HttpCall.forwarded, hreq, Option.bind_some]
      simp only [hsome, hout, Option.bind_none]
    · rename_i sent hout
      split at h
      · rename_i origin horigin
        obtain ⟨resp, -, rfl⟩ := Option.map_eq_some_iff.mp h
        refine Or.inr ⟨?_, capped_recordEntrySized _ _ _ _ _ _ _ _ _, rfl⟩
        rw [HttpCall.unreachableBody, HttpCall.forwarded, hreq, Option.bind_some]
        simp [hsome, hout, horigin]
      · rename_i horigin
        refine hforward ?_ h
        rw [HttpCall.forwarded, hreq, Option.bind_some]
        simp only [hsome, hout, horigin, if_true]
    · rename_i hout
      refine hforward ?_ h
      rw [HttpCall.forwarded, hreq, Option.bind_some]
      simp only [hsome, hout]

/-- **When a row of the forward proxy keeps to the limit**: unless the server was not reached
    and the request had a longer body. -/
theorem capped_handleHttp_iff {c : HttpCall} {row : CapturedEntry} (h : handleHttp c = some row) :
    Capped row ↔ ∀ body, c.unreachableBody = some body → body.length ≤ maxBodySize := by
  rcases handleHttp_cases h with ⟨host, req, wasContinued, hfwd, hconn, rfl⟩ | ⟨hnone, hcap, -⟩
  · have hbody : c.unreachableBody = some req.body := by
      rw [HttpCall.unreachableBody, hfwd, Option.bind_some]
      exact if_neg (by rw [hconn]; exact Bool.false_ne_true)
    rw [hbody]
    constructor
    · rintro hcap body ⟨⟩
      exact hcap.1
    · intro hle
      exact ⟨hle _ rfl, Nat.zero_le _⟩
  · rw [hnone]
    constructor
    · intro _ body hcon
      cases hcon
    · intro _
      exact hcap

theorem handleHttp_inFlight {c : HttpCall} {row : CapturedEntry} (h : handleHttp c = some row) :
    row.inFlight = false := by
  rcases handleHttp_cases h with ⟨host, req, wasContinued, -, -, rfl⟩ | ⟨-, -, hrow⟩
  · rfl
  · exact hrow

end Tapsmith.Capture
