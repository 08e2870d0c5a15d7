import Tapsmith.Route.Handler

namespace Tapsmith.Route

open Lib Lib.Text Lib.Stream Tapsmith.Http

/-!
# Continued requests on the wire

A continued request is written again from its fields, and the framing headers are two of
them: nothing relates them to the body that is sent behind them.

* `payload` — what a request carries, by its own framing;
* `Delimits` — when the headers that are sent delimit the body that is sent;
* `readRequest_reencode_iff` — a written request is read back as one request with the payload
  it should have just when they do;
* `continued_selfFraming_iff` — the same of a continued request.
-/

/-- What a request carries: the decoded chunks, or as much as it declares. -/
def payload (req : ParsedRequest) : Bytes :=
  if isChunkedTransferEncoding req.headers then ((parseChunked req.body).map Prod.fst).getD []
  else req.body.take ((declaredLength req.headers).getD 0)

/-- The sent headers delimit the sent body as `expected`, on a connection whose first
    `brought` bytes come with the head of the request of `total` bytes.  In chunks: the body is
    itself a chunked coding of it.  By length: the declared length is that of the body, or
    the reads hide that it is shorter. -/
def Delimits (headers : List Header) (body expected : Bytes) (total brought : ℕ) : Prop :=
  if isChunkedTransferEncoding headers then
    hasContentLength headers = false ∧ parseChunked body = some (expected, body.length) ∧
      total ≤ maxProxyBody + 1
  else
    let cl := (declaredLength headers).getD 0
    cl ≤ maxProxyBody ∧ (cl = body.length ∨ cl < body.length ∧ brought = total) ∧
      body.take cl = expected

/-- How much of a stream the body phase takes from a written request. -/
theorem bodyOutcome_reencode_iff (req : ParsedRequest) (rest expected : Bytes) {low : ℕ}
    (hlow : low ≤ (req.sentHead.bytes ++ req.body ++ rest).length) :
    (∃ o, bodyOutcome (req.sentHead.bytes ++ req.body ++ rest) req.sentHead.bytes.length low
          (sentHeaders req.headers) = some o ∧
        o.1 = (reencodeRequest req).length ∧ o.2 = (reencodeRequest req).length ∧
        (if isChunkedTransferEncoding (sentHeaders req.headers)
          then ((parseChunked req.body).map Prod.fst).getD []
          else req.body.take ((declaredLength (sentHeaders req.headers)).getD 0)) = expected) ↔
      low ≤ (reencodeRequest req).length ∧
        Delimits (sentHeaders req.headers) req.body expected (reencodeRequest req).length low := by
  have hlen : (reencodeRequest req).length = req.sentHead.bytes.length + req.body.length := by
    rw [reencodeRequest_eq, List.length_append]
  have hdrop : (req.sentHead.bytes ++ req.body ++ rest).drop req.sentHead.bytes.length
      = req.body ++ rest := by
    rw [List.append_assoc, List.drop_left]
  rw [hlen]
  unfold bodyOutcome Delimits
  cases hchunked : isChunkedTransferEncoding (sentHeaders req.headers) with
  | true =>
    simp only [if_true, hdrop]
    cases hcl : hasContentLength (sentHeaders req.headers) with
    | true => simp
    | false =>
      simp only [Bool.false_eq_true, if_false, true_and]
      constructor
      · rintro ⟨o, ho, h1, h2, hpay⟩
        obtain ⟨⟨d, n⟩, hparse, hlim⟩ := Option.bind_eq_some_iff.mp ho
        split at hlim
        · rename_i hle
          cases hlim
          dsimp only at h1 h2 hle hpay
          obtain rfl : n = req.body.length := by omega
          have hown := parseChunked_take_append hparse []
          rw [List.take_left, List.append_nil] at hown
          rw [hown] at hpay ⊢
          obtain rfl : d = expected := hpay
          exact ⟨by omega, rfl, by omega⟩
        · cases hlim
      · rintro ⟨hle, hparse, hlim⟩
        have hstream := parseChunked_take_append hparse rest
        rw [List.take_length] at hstream
        refine ⟨(req.sentHead.bytes.length + req.body.length,
          max low (req.sentHead.bytes.length + req.body.length)), ?_, rfl, by dsimp only; omega, ?_⟩
        · rw [hstream, Option.bind_some, if_pos (by omega)]
        · rw [hparse]
          rfl
  | false =>
    simp only [Bool.false_eq_true, if_false]
    generalize (declaredLength (sentHeaders req.headers)).getD 0 = cl
    simp only [List.length_append] at hlow ⊢
    constructor
    · rintro ⟨o, ho, h1, -, hpay⟩
      split at ho
      · rename_i hcl
        cases ho
        dsimp only at h1
        exact ⟨by omega, hcl.1, by omega, hpay⟩
      · cases ho
    · rintro ⟨hle, hmax, hcl, hpay⟩
      refine ⟨(max low (req.sentHead.bytes.length + cl), max low (req.sentHead.bytes.length + cl)),
        ?_, ?_, ?_, hpay⟩
      · rw [if_pos ⟨hmax, by omega⟩]
      · dsimp only
        omega
      · dsimp only
        omega

/-- **Reading a written request back.**  It is read as one request with the payload it should
    have, and exactly its bytes are used up, just when the reader gets through its head, no
    read brings more with the head than the request, and its headers delimit its body. -/
theorem readRequest_reencode_iff (req : ParsedRequest) (expected tail : Bytes)
    (cut : Cut readSize (reencodeRequest req ++ tail)) (more : Client) :
    (∃ r rest, readRequest (cut.transport more) = (.ok r, rest) ∧
        r.rawBytes = reencodeRequest req ∧ avail rest = tail ++ avail more ∧
        payload r = expected) ↔
      HeadFits cut.reads req.sentHead.bytes.length ∧
        2 ≤ (splitWhitespace req.method).length + (splitWhitespace req.path).length ∧
        cut.delivered req.sentHead.bytes.length ≤ (reencodeRequest req).length ∧
        Delimits (sentHeaders req.headers) req.body expected (reencodeRequest req).length
          (cut.delivered req.sentHead.bytes.length) := by
  have hassoc : reencodeRequest req ++ tail = req.sentHead.bytes ++ (req.body ++ tail) := by
    rw [reencodeRequest_eq, List.append_assoc]
  have hstream : req.sentHead.bytes ++ (req.body ++ tail) ++ avail more
      = req.sentHead.bytes ++ req.body ++ (tail ++ avail more) := by
    simp only [List.append_assoc]
  have htake : (req.sentHead.bytes ++ req.body ++ (tail ++ avail more)).take
      (reencodeRequest req).length = reencodeRequest req := by
    rw [reencodeRequest_eq, List.take_left]
  have hdrop : (req.sentHead.bytes ++ req.body ++ (tail ++ avail more)).drop
      (reencodeRequest req).length = tail ++ avail more := by
    rw [reencodeRequest_eq, List.drop_left]
  have hbody : (reencodeRequest req).drop req.sentHead.bytes.length = req.body := by
    rw [reencodeRequest_eq, List.drop_left]
  have hlow : cut.delivered req.sentHead.bytes.length
      ≤ (req.sentHead.bytes ++ req.body ++ (tail ++ avail more)).length := by
    have hle := cut.delivered_le req.sentHead.bytes.length
    have hlen := congrArg List.length hassoc
    simp only [List.length_append] at hle hlen ⊢
    omega
  have houtcome := bodyOutcome_reencode_iff req (tail ++ avail more) expected hlow
  have hread := readRequest_cut (cut.cast hassoc) more
  rw [show (cut.cast hassoc).transport more = cut.transport more from rfl,
    show (cut.cast hassoc).delivered req.sentHead.bytes.length
      = cut.delivered req.sentHead.bytes.length from rfl,
    show (cut.cast hassoc).reads = cut.reads from rfl, hstream, sentHead_headers,
    sentHead_words] at hread
  generalize hD : cut.delivered req.sentHead.bytes.length = D at houtcome hread hlow ⊢
  generalize hS : req.sentHead.bytes ++ req.body ++ (tail ++ avail more) = S at *
  have htotal : S.length = (reencodeRequest req).length + (tail ++ avail more).length := by
    rw [← hS, ← reencodeRequest_eq, List.length_append]
  have hhead : req.sentHead.bytes.length ≤ S.length := by
    rw [← hS]
    simp only [List.length_append]
    omega
  rcases hread with ⟨hfit, method, path, w, ws, o, client', hwords, ho, hok, hav⟩ | ⟨hno, client', herr⟩
  · have hcount : 2 ≤ (splitWhitespace req.method).length + (splitWhitespace req.path).length := by
      have := congrArg List.length hwords
      rw [sentHead_words] at this
      simp only [List.length_cons] at this
      omega
    obtain ⟨hle1, hle2⟩ := bodyOutcome_le ho hhead hlow
    -- what was taken is the request just when it has its length
    have hraw : S.take o.1 = reencodeRequest req ↔ o.1 = (reencodeRequest req).length := by
      constructor
      · intro heq
        rw [← heq, List.length_take, Nat.min_eq_left hle1]
      · rintro heq
        rw [heq, htake]
    have hleft : S.drop o.2 = tail ++ avail more ↔ o.2 = (reencodeRequest req).length := by
      constructor
      · intro heq
        have := congrArg List.length heq
        rw [List.length_drop] at this
        omega
      · intro heq
        rw [heq, hdrop]
    rw [ho] at houtcome
    simp only [Option.some.injEq, exists_eq_left'] at houtcome
    constructor
    · rintro ⟨r, rest, hr, hrraw, hrest, hpay⟩
      rw [hok] at hr
      cases hr
      dsimp only at hrraw
      rw [hrraw, payload] at hpay
      dsimp only at hpay
      rw [hbody] at hpay
      rw [hav] at hrest
      exact ⟨hfit, hcount, houtcome.mp ⟨hraw.mp hrraw, hleft.mp hrest, hpay⟩⟩
    · rintro ⟨-, -, hcond⟩
      obtain ⟨h1, h2, hpay⟩ := houtcome.mpr hcond
      refine ⟨_, client', hok, hraw.mpr h1, by rw [hav]; exact hleft.mpr h2, ?_⟩
      rw [payload]
      dsimp only
      rw [hraw.mpr h1, hbody]
      exact hpay
  · constructor
    · rintro ⟨r, rest, hr, -⟩
      rw [herr] at hr
      cases hr
    · rintro ⟨hfit, hcount, hcond⟩
      obtain ⟨o, ho, -⟩ := houtcome.mpr hcond
      exact absurd ⟨hfit, by omega, by rw [ho]; simp⟩ hno

/-! ### Continued requests -/

/-- The payload a continued request should have: the `postData` override, or the client's. -/
def continuedPayload (req : ParsedRequest) (c : RouteContinue) : Bytes :=
  if c.postData = [] then payload req else c.postData

/-- The headers that leave the handler delimit the body that leaves it.  In chunks: there is no
    `postData` override and the client's body is itself in chunks.  By length: as `Delimits`. -/
def SelfFraming (req sent : ParsedRequest) (c : RouteContinue) (brought : ℕ) : Prop :=
  let headers := sentHeaders sent.headers
  if isChunkedTransferEncoding headers then
    hasContentLength headers = false ∧ c.postData = [] ∧
      (isChunkedTransferEncoding req.headers = true ∨
        parseChunked req.body = some (payload req, req.body.length)) ∧
      (reencodeRequest sent).length ≤ maxProxyBody + 1
  else
    let cl := (declaredLength headers).getD 0
    cl ≤ maxProxyBody ∧
      (cl = sent.body.length ∨ cl < sent.body.length ∧ brought = (reencodeRequest sent).length) ∧
      sent.body.take cl = continuedPayload req c

instance (req sent : ParsedRequest) (c : RouteContinue) (brought : ℕ) :
    Decidable (SelfFraming req sent c brought) := by
  unfold SelfFraming
  infer_instance

/-- The body of an accepted chunked request is the coding of its payload. -/
theorem parseChunked_of_accepted {client client' : Client} {req : ParsedRequest}
    (haccepted : readRequest client = (.ok req, client'))
    (hchunked : isChunkedTransferEncoding req.headers = true) :
    parseChunked req.body = some (payload req, req.body.length) := by
  obtain ⟨d, hd⟩ := (readRequest_accepted haccepted).1 hchunked
  rw [payload, if_pos hchunked, hd]
  rfl

theorem delimits_continued_iff {client client' : Client} {req sent : ParsedRequest}
    (haccepted : readRequest client = (.ok req, client')) (c : RouteContinue)
    (hbody : sent.body = if c.postData = [] then req.body else c.postData) (brought : ℕ) :
    Delimits (sentHeaders sent.headers) sent.body (continuedPayload req c)
        (reencodeRequest sent).length brought ↔ SelfFraming req sent c brought := by
  unfold Delimits SelfFraming
  dsimp only
  split
  · refine and_congr_right fun _ => ?_
    by_cases hpost : c.postData = []
    · rw [if_pos hpost] at hbody
      rw [hbody, continuedPayload, if_pos hpost]
      constructor
      · rintro ⟨hparse, hlim⟩
        exact ⟨hpost, Or.inr hparse, hlim⟩
      · rintro ⟨-, hparse, hlim⟩
        exact ⟨hparse.elim (parseChunked_of_accepted haccepted) id, hlim⟩
    · rw [if_neg hpost] at hbody
      rw [hbody, continuedPayload, if_neg hpost]
      constructor
      · rintro ⟨hparse, -⟩
        exact absurd hparse parseChunked_ne_self
      · rintro ⟨hcon, -⟩
        exact absurd hcon hpost
  · rfl

/-- **When a continued request is self-framing.**  Read back with anything behind it, it is one
    request with the payload it should have, and exactly its bytes are used up, just when the
    reader gets through its head, no read brings more with the head than the request, and the
    headers that leave the handler delimit the body that leaves it. -/
theorem continued_selfFraming_iff (env : Environment) {client client' : Client}
    {req sent : ParsedRequest} (haccepted : readRequest client = (.ok req, client'))
    (id : Str) (c : RouteContinue) (hostname : Str) (isHttps : Bool)
    (hcontinued : onRequest env (some ⟨id, some (.continueRequest c)⟩) req hostname isHttps
      = (.continued, sent))
    (tail : Bytes) (cut : Cut readSize (reencodeRequest sent ++ tail)) (more : Client) :
    (∃ r rest, readRequest (cut.transport more) = (.ok r, rest) ∧
        r.rawBytes = reencodeRequest sent ∧ avail rest = tail ++ avail more ∧
        payload r = continuedPayload req c) ↔
      HeadFits cut.reads sent.sentHead.bytes.length ∧
        2 ≤ (splitWhitespace sent.method).length + (splitWhitespace sent.path).length ∧
        cut.delivered sent.sentHead.bytes.length ≤ (reencodeRequest sent).length ∧
        SelfFraming req sent c (cut.delivered sent.sentHead.bytes.length) := by
  have hbody : sent.body = if c.postData = [] then req.body else c.postData := by
    rw [onRequest_continue, Prod.mk.injEq] at hcontinued
    rw [← hcontinued.2, applyOverrides_body]
  rw [readRequest_reencode_iff, delimits_continued_iff haccepted c hbody]

/-- An environment in which no URL parses, no server answers and the SDK does not either. -/
def silentEnvironment : Environment where
  parseUrl := fun _ => none
  fetchUpstream := fun _ => none
  answerToFetch := fun _ => none

/-- `POST / HTTP/1.1` with the body `abc`. -/
def postAbc : ParsedRequest where
  method := "POST".toList
  path := ['/']
  headers := [("Content-Length".toList, ['3'])]
  body := bytes "abc"
  rawBytes := bytes "POST / HTTP/1.1\r\nContent-Length: 3\r\n\r\nabc"
  overrideHost := none

/-- The request with `hello` for a body. -/
def postHello : ParsedRequest := { postAbc with body := bytes "hello" }

/-- A written request in one read. -/
def whole (req : ParsedRequest) (hne : reencodeRequest req ≠ [])
    (hle : (reencodeRequest req).length ≤ readSize) : Cut readSize (reencodeRequest req ++ []) where
  reads := [reencodeRequest req]
  flatten_eq := rfl
  reads_ne := by simpa using hne
  reads_le := by simpa using hle

def noOverrides : Overrides := { url := [], method := [], headers := [], postData := [] }

/-- A request continued as it is is self-framing. -/
theorem continued_selfFraming_iff_postAbc : ∃ r rest,
    readRequest ((whole postAbc (by decide) (by decide)).transport []) = (.ok r, rest) ∧
      r.rawBytes = reencodeRequest postAbc ∧ avail rest = [] ∧ payload r = bytes "abc" := by
  have hread : readRequest [.ready postAbc.rawBytes] = (.ok postAbc, []) := by decide +kernel
  refine (continued_selfFraming_iff silentEnvironment hread [] noOverrides [] false rfl []
    (whole postAbc (by decide) (by decide)) []).mpr ⟨?_, by decide, by decide, by decide +kernel⟩
  intro k hk
  have hlen : (((whole postAbc (by decide) (by decide)).reads.take k).flatten).length ≤ 60 := by
    rcases k with - | k
    · simp
    · simp [whole]
      decide
  omega

/-- Continued with `postData` alone, as the documentation shows it, a request keeps the length
    of the body it no longer has. -/
theorem continued_stale_length : ∃ (env : Environment) (client client' : Client)
    (req sent : ParsedRequest) (id : Str) (c : RouteContinue) (hostname : Str) (isHttps : Bool)
    (tail : Bytes) (cut : Cut readSize (reencodeRequest sent ++ tail)) (more : Client),
    readRequest client = (.ok req, client') ∧
      onRequest env (some ⟨id, some (.continueRequest c)⟩) req hostname isHttps
        = (.continued, sent) ∧
      ¬ ∃ r rest, readRequest (cut.transport more) = (.ok r, rest) ∧
        r.rawBytes = reencodeRequest sent ∧ avail rest = tail ++ avail more ∧
        payload r = continuedPayload req c := by
  refine ⟨silentEnvironment, [.ready postAbc.rawBytes], [], postAbc, postHello, [],
    { noOverrides with postData := bytes "hello" }, [], false, [],
    whole postHello (by decide) (by decide), [], by decide +kernel, rfl, ?_⟩
  rintro ⟨r, rest, hr, -, -, hpay⟩
  have hread : readRequest ((whole postHello (by decide) (by decide)).transport [])
      = (.ok { postHello with rawBytes := reencodeRequest postHello }, []) := by decide +kernel
  rw [hread] at hr
  cases hr
  revert hpay
  decide +kernel

end Tapsmith.Route
