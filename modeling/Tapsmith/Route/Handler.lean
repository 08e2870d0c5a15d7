import Tapsmith.Http.Reencode

namespace Tapsmith.Route

open Lib Lib.Text Tapsmith.Http

/-!
# The route handler

What `RouteInterceptHandler::on_request` makes of the decision the SDK sent for an
intercepted request, and the independent upstream call of `fetch_upstream`.

* `RouteDecision`, `decisionToResolved` — the message, and what is kept of it;
* `onRequest` — the request with the overrides applied, or the response to send instead;
* `fulfillToResponse` — the response of a fulfilled route;
* `fetchTarget`, `redirectTarget`, `fetchUpstreamRequest` — the two independent upstream calls
  and the bytes they write.

The parser of the `url` crate, the network behind `fetch_upstream` and the SDK's second answer
are parameters (`Environment`).
-/

/-! ### Decisions -/

/-- The fields of `proto::RouteContinue` and of `proto::RouteFetch`; empty keeps the original. -/
structure Overrides where
  url : Str
  method : Str
  headers : List Header
  postData : Bytes
  deriving DecidableEq

abbrev RouteContinue := Overrides
abbrev RouteFetch := Overrides

/-- `proto::RouteFulfill`; `status` is an `int32`. -/
structure RouteFulfill where
  status : ℤ
  headers : List Header
  body : Bytes
  contentType : Str
  status_range : -(2 ^ 31) ≤ status ∧ status < 2 ^ 31

/-- The action of a `proto::RouteDecision`. -/
inductive Action where
  | abort
  | continueRequest (c : RouteContinue)
  | fulfill (f : RouteFulfill)
  | fetch (f : RouteFetch)
  | fulfillAfterFetch (f : RouteFulfill)

/-- `proto::RouteDecision`. -/
structure RouteDecision where
  interceptId : Str
  action : Option Action

/-- `ResolvedDecision`. -/
inductive ResolvedDecision where
  | abort
  | continue (url method : Option Str) (headers : Option (List Header)) (postData : Option Bytes)
  | fulfill (response : ParsedResponse)
  | fetch (url method : Option Str) (headers : Option (List Header)) (postData : Option Bytes)

/-- `fulfill_to_response`. -/
def fulfillToResponse (f : RouteFulfill) : ParsedResponse :=
  let status := if f.status = 0 then 200 else f.status
  let headers := f.headers
  let headers :=
    if f.contentType ≠ [] ∧
        !(headers.any fun h => eqIgnoreAsciiCase h.1 "content-type".toList) then
      headers ++ [("content-type".toList, f.contentType)]
    else headers
  let headers :=
    if !(headers.any fun h => eqIgnoreAsciiCase h.1 contentLengthName) then
      headers ++ [(contentLengthName, Nat.toDigits 10 f.body.length)]
    else headers
  { statusCode := status, headers, body := f.body, rawBytes := [] }

/-- An empty field of a decision keeps the original. -/
def nonEmpty {α : Type} [DecidableEq α] (xs : List α) : Option (List α) :=
  if xs = [] then none else some xs

/-- `decision_to_resolved`. -/
def decisionToResolved (d : RouteDecision) : ResolvedDecision :=
  match d.action with
  | some .abort => .abort
  | some (.continueRequest c) =>
    .continue (nonEmpty c.url) (nonEmpty c.method) (nonEmpty c.headers) (nonEmpty c.postData)
  | some (.fulfill f) => .fulfill (fulfillToResponse f)
  | some (.fetch f) =>
    .fetch (nonEmpty f.url) (nonEmpty f.method) (nonEmpty f.headers) (nonEmpty f.postData)
  | some (.fulfillAfterFetch f) => .fulfill (fulfillToResponse f)
  | none => .continue none none none none

/-! ### URLs -/

/-- What is read of a parsed `url::Url`. -/
structure Url where
  scheme : Str
  hostStr : Option Str
  portOrKnownDefault : Option ℕ
  path : Str
  query : Option Str

/-- The path of a URL with its query. -/
def Url.pathAndQuery (u : Url) : Str :=
  match u.query with
  | some q => u.path ++ '?' :: q
  | none => u.path

/-- `OverrideOrigin::from_parsed_url`. -/
def overrideOriginFromParsedUrl (parsed : Url) : Option OverrideOrigin :=
  let host := parsed.hostStr.getD []
  if host = [] then none
  else
    let isHttps : Bool := parsed.scheme = "https".toList
    let port := parsed.portOrKnownDefault.getD (if isHttps then 443 else 80)
    some { host, port, isHttps }

/-- `OverrideOrigin::url`. -/
def originUrl (origin : OverrideOrigin) (path : Str) : Str :=
  schemeOf origin.isHttps ++ "://".toList ++ origin.host ++ ':' :: Nat.toDigits 10 origin.port ++ path

/-- `OverrideOrigin::host_header_value`. -/
def hostHeaderValue (origin : OverrideOrigin) : Str :=
  if (origin.isHttps && origin.port == 443) || (!origin.isHttps && origin.port == 80) then
    origin.host
  else origin.host ++ ':' :: Nat.toDigits 10 origin.port

/-! ### The independent upstream call -/

/-- The arguments of `fetch_upstream`. -/
structure FetchTarget where
  url : Str
  method : Str
  headers : List Header
  body : Bytes

/-- The headers that `fetch_upstream` writes itself or recomputes. -/
def replacedHeaders : List Str :=
  ["host".toList, "connection".toList, "proxy-connection".toList, "accept-encoding".toList,
    contentLengthName, transferEncodingName]

/-- The header list that `fetch_upstream` writes. -/
def fetchHeaders (host : Str) (target : FetchTarget) : List Header :=
  [("Host".toList, host), ("Connection".toList, "close".toList),
    ("Accept-Encoding".toList, "identity".toList)]
  ++ target.headers.filter (fun h => !(replacedHeaders.any fun name => eqIgnoreAsciiCase h.1 name))
  ++ if target.body = [] then []
    else [("Content-Length".toList, Nat.toDigits 10 target.body.length)]

/-- The bytes that `fetch_upstream` writes to the upstream server: the head it builds, then
    the body; nothing where the URL has no host or port. -/
def fetchUpstreamRequest (parseUrl : Str → Option Url) (target : FetchTarget) : Option Bytes :=
  (parseUrl target.url).bind fun parsed =>
    parsed.hostStr.bind fun host =>
      parsed.portOrKnownDefault.map fun _ =>
        let reqBuf := sanitiseRequestLineComponent target.method ++ [32]
          ++ sanitiseRequestLineComponent parsed.pathAndQuery ++ bytes " HTTP/1.1\r\n"
        let reqBuf := (fetchHeaders host target).foldl
          (fun out h => writeHeaderSanitised out h.1 h.2) reqBuf
        reqBuf ++ crlf ++ target.body

/-- The header rewriting at the end of `read_http_response`: the decoded body gets a fresh
    `content-length`. -/
def normaliseFetchedHeaders (headers : List Header) (body : Bytes) : List Header :=
  headers.filter (fun h => !eqIgnoreAsciiCase h.1 transferEncodingName &&
    !eqIgnoreAsciiCase h.1 contentLengthName)
  ++ [(contentLengthName, Nat.toDigits 10 body.length)]

/-! ### Handling a request -/

/-- What lies outside the handler: the parser of the `url` crate, what `fetch_upstream` brings
    back, and the action of the SDK's answer to a fetched response. -/
structure Environment where
  parseUrl : Str → Option Url
  fetchUpstream : FetchTarget → Option ParsedResponse
  answerToFetch : ParsedResponse → Option Action

/-- `RequestOutcome`. -/
inductive RequestOutcome where
  | synthesized (response : ParsedResponse)
  | continued
  | notMatched
  deriving DecidableEq

/-- The synthetic response of an aborted request. -/
def abortedResponse : ParsedResponse where
  statusCode := 0
  headers := [("connection".toList, "close".toList)]
  body := []
  rawBytes := []

/-- Replace the value of the first `Host` header. -/
def setHostHeader (value : Str) : List Header → List Header
  | [] => []
  | h :: rest =>
    if eqIgnoreAsciiCase h.1 "host".toList then (h.1, value) :: rest
    else h :: setHostHeader value rest

/-- The URL override of a continued request. -/
def overrideUrl (parseUrl : Str → Option Url) (hostname : Str) (req : ParsedRequest) (u : Str) :
    ParsedRequest :=
  match parseUrl u with
  | some parsed =>
    let req := { req with path := parsed.pathAndQuery }
    match overrideOriginFromParsedUrl parsed with
    | some origin =>
      if origin.host ≠ hostname then
        { req with headers := setHostHeader (hostHeaderValue origin) req.headers
                   overrideHost := some origin }
      else req
    | none => req
  | none => { req with path := u }

/-- The overrides of a continued request, in the order the handler applies them. -/
def applyOverrides (parseUrl : Str → Option Url) (hostname : Str) (req : ParsedRequest)
    (url method : Option Str) (headers : Option (List Header)) (postData : Option Bytes) :
    ParsedRequest :=
  let req := match method with
    | some m => if m ≠ [] then { req with method := m } else req
    | none => req
  let req := match url with
    | some u => if u ≠ [] then overrideUrl parseUrl hostname req u else req
    | none => req
  let req := match headers with
    | some h => if h ≠ [] then { req with headers := h } else req
    | none => req
  match postData with
  | some b => if b ≠ [] then { req with body := b } else req
  | none => req

/-- The upstream call of a fetched route: the overrides, or the request itself. -/
def fetchTarget (req : ParsedRequest) (hostname : Str) (isHttps : Bool)
    (url method : Option Str) (headers : Option (List Header)) (postData : Option Bytes) :
    FetchTarget :=
  let baseUrl := schemeOf isHttps ++ "://".toList ++ hostname ++ req.path
  { url := (url.filter (· ≠ [])).getD baseUrl
    method := (method.filter (· ≠ [])).getD req.method
    headers := headers.getD req.headers
    body := postData.getD req.body }

/-- `complete_fetch`: the answer to a fetched response, if it is the one expected. -/
def completeFetch (env : Environment) (response : ParsedResponse) : Option RouteFulfill :=
  match env.answerToFetch response with
  | some (.fulfillAfterFetch f) => some f
  | _ => none

/-- `RouteInterceptHandler::on_request`, with what `intercept` returned: the outcome, and the
    request as it leaves the handler. -/
def onRequest (env : Environment) (intercepted : Option RouteDecision) (req : ParsedRequest)
    (hostname : Str) (isHttps : Bool) : RequestOutcome × ParsedRequest :=
  match intercepted with
  | none => (.notMatched, req)
  | some d =>
    match decisionToResolved d with
    | .abort => (.synthesized abortedResponse, req)
    | .continue url method headers postData =>
      (.continued, applyOverrides env.parseUrl hostname req url method headers postData)
    | .fulfill response => (.synthesized response, req)
    | .fetch url method headers postData =>
      match env.fetchUpstream (fetchTarget req hostname isHttps url method headers postData) with
      | some upstream =>
        match completeFetch env upstream with
        | some fulfill => (.synthesized (fulfillToResponse fulfill), req)
        | none => (.synthesized upstream, req)
      | none => (.synthesized abortedResponse, req)

/-- The upstream call of a continued request that was redirected to another origin, as
    `handle_mitm_http` makes it. -/
def redirectTarget (req : ParsedRequest) : Option FetchTarget :=
  req.overrideHost.map fun origin =>
    { url := originUrl origin req.path, method := req.method, headers := req.headers,
      body := req.body }

/-! ### What the overrides leave alone -/

theorem overrideUrl_body (parseUrl : Str → Option Url) (hostname : Str) (req : ParsedRequest)
    (u : Str) : (overrideUrl parseUrl hostname req u).body = req.body := by
  unfold overrideUrl
  split
  · dsimp only
    split
    · split <;> rfl
    · rfl
  · rfl

/-- The body a continued request leaves the handler with. -/
theorem applyOverrides_body (parseUrl : Str → Option Url) (hostname : Str) (req : ParsedRequest)
    (c : RouteContinue) :
    (applyOverrides parseUrl hostname req (nonEmpty c.url) (nonEmpty c.method)
      (nonEmpty c.headers) (nonEmpty c.postData)).body
      = if c.postData = [] then req.body else c.postData := by
  have hmethod : ∀ m : Option Str, (match m with
      | some m => if m ≠ [] then { req with method := m } else req
      | none => req : ParsedRequest).body = req.body := by
    intro m
    split
    · split <;> rfl
    · rfl
  have hurl : ∀ (r : ParsedRequest) (u : Option Str), (match u with
      | some u => if u ≠ [] then overrideUrl parseUrl hostname r u else r
      | none => r).body = r.body := by
    intro r u
    split
    · split
      · exact overrideUrl_body parseUrl hostname r _
      · rfl
    · rfl
  have hheaders : ∀ (r : ParsedRequest) (h : Option (List Header)), (match h with
      | some h => if h ≠ [] then { r with headers := h } else r
      | none => r : ParsedRequest).body = r.body := by
    intro r h
    split
    · split <;> rfl
    · rfl
  unfold applyOverrides
  by_cases hb : c.postData = []
  · rw [show nonEmpty c.postData = none by rw [nonEmpty, if_pos hb], if_pos hb]
    dsimp only
    rw [hheaders, hurl, hmethod]
  · rw [show nonEmpty c.postData = some c.postData by rw [nonEmpty, if_neg hb], if_neg hb]
    dsimp only
    rw [if_pos hb]

/-- **A continued request** leaves the handler with the overrides applied. -/
theorem onRequest_continue (env : Environment) (id : Str) (c : RouteContinue)
    (req : ParsedRequest) (hostname : Str) (isHttps : Bool) :
    onRequest env (some ⟨id, some (.continueRequest c)⟩) req hostname isHttps
      = (.continued, applyOverrides env.parseUrl hostname req (nonEmpty c.url) (nonEmpty c.method)
          (nonEmpty c.headers) (nonEmpty c.postData)) := rfl

end Tapsmith.Route
