import Tapsmith.Route.Continue
import Tapsmith.Route.Fulfill

namespace Tapsmith.Route

open Lib Lib.Text Lib.Stream Tapsmith.Http

/-!
# The independent upstream call

`fetch_upstream` drops the framing headers of the request and writes a `Content-Length` for the
body it was given.  What it is given is the body on the wire.

* `IndependentCall` — the two places that call it;
* `fetchUpstreamRequest_eq` — what it writes is a well-formed head and that body;
* `Carries` — a written request carries a payload, with the one framing header it needs;
* `fetched_payload_iff` — when the payload of the client arrives.
-/

/-- A call of `fetch_upstream` for a request whose body is not overridden: for a fetched route,
    or for a continued one that goes to another origin. -/
inductive IndependentCall (env : Environment) (req : ParsedRequest) (hostname : Str)
    (isHttps : Bool) : FetchTarget → Prop where
  | fetch (id : Str) (f : RouteFetch) (url method : Option Str) (headers : Option (List Header))
      (postData : Option Bytes) (hbody : f.postData = [])
      (hresolved : decisionToResolved ⟨id, some (.fetch f)⟩ = .fetch url method headers postData) :
      IndependentCall env req hostname isHttps
        (fetchTarget req hostname isHttps url method headers postData)
  | redirect (id : Str) (c : RouteContinue) (sent : ParsedRequest) (target : FetchTarget)
      (hbody : c.postData = [])
      (hcontinued : onRequest env (some ⟨id, some (.continueRequest c)⟩) req hostname isHttps
        = (.continued, sent))
      (hredirect : redirectTarget sent = some target) :
      IndependentCall env req hostname isHttps target

/-- Whether a header is about the framing of the body. -/
def isFramingHeader (h : Header) : Bool :=
  eqIgnoreAsciiCase h.1 contentLengthName || eqIgnoreAsciiCase h.1 transferEncodingName

/-- The framing headers of a written request. -/
def framingHeaders (out : Bytes) : List Header := (parseHeaders out).1.filter isFramingHeader

/-- The body of a written request: what stands behind its head. -/
def carriedBody (out : Bytes) : Bytes := out.drop (parseHeaders out).2

/-- The header that describes a body. -/
def describes (body : Bytes) : Header :=
  ("Content-Length".toList, Nat.toDigits 10 body.length)

/-- A written request carries `data`: it is the body, and the only framing header, which an
    empty body does without, is its length. -/
def Carries (out data : Bytes) : Prop :=
  carriedBody out = data ∧ framingHeaders out = if data = [] then [] else [describes data]

/-! ### What is written -/

/-- The written call, as a request. -/
def callRequest (host : Str) (parsed : Url) (target : FetchTarget) : ParsedRequest where
  method := target.method
  path := parsed.pathAndQuery
  headers := fetchHeaders host target
  body := target.body
  rawBytes := []
  overrideHost := none

/-- **What `fetch_upstream` writes** is a well-formed head and the body it was given. -/
theorem fetchUpstreamRequest_eq {parseUrl : Str → Option Url} {target : FetchTarget} {out : Bytes}
    (hout : fetchUpstreamRequest parseUrl target = some out) :
    ∃ host parsed, out = (callRequest host parsed target).sentHead.bytes ++ target.body := by
  rw [fetchUpstreamRequest, Option.bind_eq_some_iff] at hout
  obtain ⟨parsed, -, hout⟩ := hout
  rw [Option.bind_eq_some_iff] at hout
  obtain ⟨host, -, hout⟩ := hout
  rw [Option.map_eq_some_iff] at hout
  obtain ⟨port, -, hout⟩ := hout
  exact ⟨host, parsed, hout.symm.trans (reencodeRequest_eq (callRequest host parsed target))⟩

/-- The framing headers that are written: the length of the body, if there is one. -/
theorem sentHeaders_fetchHeaders (host : Str) (target : FetchTarget) :
    (sentHeaders (fetchHeaders host target)).filter isFramingHeader
      = if target.body = [] then [] else [describes target.body] := by
  have hown : (sentHeaders [("Host".toList, host), ("Connection".toList, "close".toList),
      ("Accept-Encoding".toList, "identity".toList)]).filter isFramingHeader = [] := by
    rw [List.filter_eq_nil_iff]
    intro x hx
    obtain ⟨y, hy, rfl⟩ := List.mem_map.mp hx
    have hy := List.mem_of_mem_filter hy
    simp only [List.mem_cons, List.not_mem_nil, or_false] at hy
    rcases hy with rfl | rfl | rfl <;> simp only [isFramingHeader] <;> decide
  have hkept : (sentHeaders (target.headers.filter fun h =>
      !(replacedHeaders.any fun name => eqIgnoreAsciiCase h.1 name))).filter isFramingHeader
      = [] := by
    rw [List.filter_eq_nil_iff]
    intro x hx
    obtain ⟨y, hy, rfl⟩ := List.mem_map.mp hx
    have hy := (List.mem_filter.mp (List.mem_of_mem_filter hy)).2
    rw [Bool.not_eq_true', List.any_eq_false] at hy
    simp only [isFramingHeader, Bool.or_eq_true, not_or]
    exact ⟨hy _ (by simp [replacedHeaders]), hy _ (by simp [replacedHeaders])⟩
  have hlength : (sentHeaders [describes target.body]).filter isFramingHeader
      = [describes target.body] := by
    have hvalid : isValidHeaderName "Content-Length".toList = true := by decide
    have hsent : sentHeaders [describes target.body] = [describes target.body] :=
      sentHeaders_number hvalid target.body.length
    have hname : eqIgnoreAsciiCase "Content-Length".toList contentLengthName = true := by decide
    have hframing : isFramingHeader (describes target.body) = true :=
      Bool.or_eq_true_iff.mpr (Or.inl hname)
    rw [hsent, List.filter_cons_of_pos hframing, List.filter_nil]
  rw [fetchHeaders, sentHeaders_append, sentHeaders_append, List.filter_append,
    List.filter_append, hown, hkept, List.nil_append, List.nil_append]
  by_cases hbody : target.body = []
  · rw [if_pos hbody, if_pos hbody]
    rfl
  · rw [if_neg hbody, if_neg hbody]
    exact hlength

/-- The written call carries the body that `fetch_upstream` was given, whatever it is. -/
theorem carries_fetchUpstreamRequest {parseUrl : Str → Option Url} {target : FetchTarget}
    {out : Bytes} (hout : fetchUpstreamRequest parseUrl target = some out) :
    Carries out target.body := by
  obtain ⟨host, parsed, rfl⟩ := fetchUpstreamRequest_eq hout
  rw [Carries, carriedBody, framingHeaders, parseHeaders_head, List.drop_left, sentHead_headers]
  exact ⟨rfl, sentHeaders_fetchHeaders host target⟩

/-! ### When the payload arrives -/

/-- Both calls are given the body of the request as it was read. -/
theorem IndependentCall.body {env : Environment} {req : ParsedRequest} {hostname : Str}
    {isHttps : Bool} {target : FetchTarget} (h : IndependentCall env req hostname isHttps target) :
    target.body = req.body := by
  cases h with
  | fetch id f url method headers postData hbody hresolved =>
    have hnone : nonEmpty f.postData = none := by rw [nonEmpty, if_pos hbody]
    simp only [decisionToResolved, hnone] at hresolved
    cases hresolved
    rfl
  | redirect id c sent target hbody hcontinued hredirect =>
    rw [onRequest_continue, Prod.mk.injEq] at hcontinued
    obtain ⟨origin, -, rfl⟩ := Option.map_eq_some_iff.mp hredirect
    show sent.body = req.body
    rw [← hcontinued.2, applyOverrides_body, if_pos hbody]

/-- The body of an accepted request is its payload just when it is not chunked and nothing
    stands behind what it declares. -/
theorem body_eq_payload_iff {client client' : Client} {req : ParsedRequest}
    (haccepted : readRequest client = (.ok req, client')) :
    req.body = payload req ↔ isChunkedTransferEncoding req.headers = false ∧
      req.body.length = (declaredLength req.headers).getD 0 := by
  obtain ⟨hchunked, hsized⟩ := readRequest_accepted haccepted
  rw [payload]
  cases hte : isChunkedTransferEncoding req.headers with
  | true =>
    obtain ⟨d, hd⟩ := hchunked hte
    rw [if_pos rfl, hd, Option.map_some, Option.getD_some]
    constructor
    · rintro rfl
      exact absurd hd parseChunked_ne_self
    · rintro ⟨hcon, -⟩
      cases hcon
  | false =>
    have hle := hsized hte
    rw [if_neg Bool.false_ne_true, eq_comm, List.take_eq_self_iff]
    constructor
    · intro hge
      exact ⟨rfl, by omega⟩
    · rintro ⟨-, hlen⟩
      omega

/-- **When the independent upstream call preserves the payload.**  The written request carries
    the payload of the client just when the client did not send it in chunks and nothing was
    read behind it; and it has exactly one framing header just when that payload is not empty
    besides. -/
theorem fetched_payload_iff (env : Environment) {client client' : Client} {req : ParsedRequest}
    (haccepted : readRequest client = (.ok req, client')) (hostname : Str) (isHttps : Bool)
    {target : FetchTarget} (hcall : IndependentCall env req hostname isHttps target)
    {out : Bytes} (hout : fetchUpstreamRequest env.parseUrl target = some out) :
    (Carries out (payload req) ↔ isChunkedTransferEncoding req.headers = false ∧
        req.body.length = (declaredLength req.headers).getD 0) ∧
      (carriedBody out = payload req ∧ framingHeaders out = [describes (payload req)] ↔
        isChunkedTransferEncoding req.headers = false ∧
          req.body.length = (declaredLength req.headers).getD 0 ∧ payload req ≠ []) := by
  obtain ⟨hcarried, hframing⟩ := carries_fetchUpstreamRequest hout
  rw [hcall.body] at hcarried hframing
  have hiff := body_eq_payload_iff haccepted
  rw [Carries, hcarried, hframing]
  constructor
  · rw [← hiff, and_iff_left_iff_imp]
    intro heq
    rw [heq]
  · rw [← and_assoc, ← hiff]
    constructor
    · rintro ⟨heq, hone⟩
      refine ⟨heq, fun hnil => ?_⟩
      rw [heq, if_pos hnil] at hone
      cases hone
    · rintro ⟨heq, hne⟩
      refine ⟨heq, ?_⟩
      rw [heq, if_neg hne]

/-- An environment that knows the URL `https://example.com/`. -/
def exampleEnvironment : Environment where
  parseUrl := fun u =>
    if u = "https://example.com/".toList then
      some { scheme := "https".toList, hostStr := some "example.com".toList,
             portOrKnownDefault := some 443, path := ['/'], query := none }
    else none
  fetchUpstream := fun _ => none
  answerToFetch := fun _ => none

/-- The independent call for a request to `https://example.com/`, without overrides. -/
def exampleTarget (req : ParsedRequest) : FetchTarget :=
  fetchTarget req "example.com".toList true none none none none

theorem exampleTarget_call (req : ParsedRequest) :
    IndependentCall exampleEnvironment req "example.com".toList true (exampleTarget req) :=
  .fetch [] noOverrides none none none none rfl rfl

/-- A request with a declared length arrives with its payload. -/
theorem fetched_payload_iff_postAbc : ∃ out,
    fetchUpstreamRequest exampleEnvironment.parseUrl (exampleTarget postAbc) = some out ∧
      Carries out (payload postAbc) ∧ framingHeaders out = [describes (payload postAbc)] := by
  have hread : readRequest [.ready postAbc.rawBytes] = (.ok postAbc, []) := by decide +kernel
  refine ⟨_, rfl, ?_⟩
  obtain ⟨hcarries, hone⟩ := fetched_payload_iff exampleEnvironment hread "example.com".toList true
    (exampleTarget_call postAbc) rfl
  exact ⟨hcarries.mpr (by decide +kernel), (hone.mpr (by decide +kernel)).2⟩

/-- `POST / HTTP/1.1` with the body `abc` in one chunk. -/
def postAbcChunked : ParsedRequest where
  method := "POST".toList
  path := ['/']
  headers := [("Transfer-Encoding".toList, "chunked".toList)]
  body := bytes "3\r\nabc\r\n0\r\n\r\n"
  rawBytes := bytes
    "POST / HTTP/1.1\r\nTransfer-Encoding: chunked\r\n\r\n3\r\nabc\r\n0\r\n\r\n"
  overrideHost := none

/-- A request sent in chunks arrives with the chunk sizes in its body. -/
theorem fetched_chunk_sizes : ∃ (env : Environment) (client client' : Client)
    (req : ParsedRequest) (hostname : Str) (isHttps : Bool) (target : FetchTarget) (out : Bytes),
    readRequest client = (.ok req, client') ∧ IndependentCall env req hostname isHttps target ∧
      fetchUpstreamRequest env.parseUrl target = some out ∧
      ¬ (carriedBody out = payload req ∧ framingHeaders out = [describes (payload req)]) := by
  refine ⟨exampleEnvironment, [.ready postAbcChunked.rawBytes], [], postAbcChunked,
    "example.com".toList, true, exampleTarget postAbcChunked, _, by decide +kernel,
    exampleTarget_call postAbcChunked, rfl, ?_⟩
  rintro ⟨hbody, -⟩
  revert hbody
  decide +kernel

end Tapsmith.Route
