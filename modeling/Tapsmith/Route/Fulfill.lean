import Tapsmith.Http.ResponseSpec
import Tapsmith.Route.Handler

namespace Tapsmith.Route

open Lib Lib.Text Lib.Stream Tapsmith.Http

/-!
# Fulfilled responses on the wire

A fulfilled response is written from the header list of the handler.  A `content-length` is
added where the list has none; one that it has is sent as it is, whatever the body.

* `sentHeaders_fulfill` — the framing headers of a fulfilled response;
* `fulfilled_selfFraming_iff` — when they delimit its body;
* `framesBody_refetched` — what becomes of the header list of a fetched response.
-/

/-- What a response carries, by its own framing; `none` where its body is no chunked coding. -/
def responsePayload (resp : ParsedResponse) : Option Bytes :=
  if isChunkedTransferEncoding resp.headers then (parseChunked resp.body).map Prod.fst
  else some (resp.body.take ((declaredLength resp.headers).getD resp.body.length))

/-! ### Sent header lists -/

theorem sentHeaders_append (xs ys : List Header) :
    sentHeaders (xs ++ ys) = sentHeaders xs ++ sentHeaders ys := by
  simp [sentHeaders]

/-- A text of printable characters is sent as it is. -/
theorem trim_sanitise_eq_self {s : Str} (h : ∀ c ∈ s, isWhitespace c = false) :
    trim (sanitise s) = s := by
  have hsame : sanitise s = s := by
    have hmap : s.map (fun c => if c = '\r' ∨ c = '\n' then ' ' else c) = s.map id := by
      refine List.map_congr_left fun c hc => if_neg ?_
      rintro (rfl | rfl) <;> exact absurd (h _ hc) (by decide)
    rw [sanitise, hmap, List.map_id]
  rw [hsame, trim_eq_self h]

theorem toDigits_not_whitespace (n : ℕ) : ∀ c ∈ Nat.toDigits 10 n, isWhitespace c = false := by
  intro c hc
  have := isDigit_of_mem_toDigits hc
  simp only [isWhitespace, Bool.or_eq_false_iff, Bool.and_eq_false_iff, decide_eq_false_iff_not,
    beq_eq_false_iff_ne]
  omega

/-- A header with a valid name and a number for a value is sent as it is. -/
theorem sentHeaders_number {name : Str} (hname : isValidHeaderName name = true) (n : ℕ) :
    sentHeaders [(name, Nat.toDigits 10 n)] = [(name, Nat.toDigits 10 n)] := by
  rw [sentHeaders, List.filter_cons_of_pos (by exact hname), List.filter_nil, List.map_cons,
    List.map_nil, trim_sanitise_eq_self (toDigits_not_whitespace n)]

theorem hasContentLength_sentHeaders {headers : List Header} (h : hasContentLength headers = false) :
    hasContentLength (sentHeaders headers) = false := by
  rw [hasContentLength, List.any_eq_false] at h ⊢
  intro x hx
  obtain ⟨y, hy, rfl⟩ := List.mem_map.mp hx
  exact h y (List.mem_of_mem_filter hy)

theorem isChunked_append (xs ys : List Header) :
    isChunkedTransferEncoding (xs ++ ys)
      = (isChunkedTransferEncoding xs || isChunkedTransferEncoding ys) := by
  rw [isChunkedTransferEncoding, List.any_append]
  rfl

/-- A header of another name adds no chunked coding. -/
theorem isChunked_sentHeaders_singleton {name value : Str}
    (h : eqIgnoreAsciiCase name transferEncodingName = false) :
    isChunkedTransferEncoding (sentHeaders [(name, value)]) = false := by
  by_cases hv : isValidHeaderName name = true
  · simp [sentHeaders, hv, isChunkedTransferEncoding, h]
  · simp [sentHeaders, hv, isChunkedTransferEncoding]

/-- Of two header lists the first with a `Content-Length` declares the length. -/
theorem declaredLength_append (xs ys : List Header) :
    declaredLength (xs ++ ys)
      = if hasContentLength xs then declaredLength xs else declaredLength ys := by
  rw [declaredLength, List.find?_append, hasContentLength]
  cases hfind : xs.find? fun h => eqIgnoreAsciiCase h.1 contentLengthName with
  | none =>
    have hany : (xs.any fun h => eqIgnoreAsciiCase h.1 contentLengthName) = false := by
      rw [List.any_eq_false]
      exact List.find?_eq_none.mp hfind
    rw [hany]
    rfl
  | some x =>
    have hany : (xs.any fun h => eqIgnoreAsciiCase h.1 contentLengthName) = true :=
      List.any_eq_true.mpr ⟨x, List.mem_of_find?_eq_some hfind,
        List.find?_some (p := fun h : Header => eqIgnoreAsciiCase h.1 contentLengthName) hfind⟩
    rw [hany, if_pos rfl, declaredLength, hfind]
    rfl

/-- A `content-length` header with a number declares that number. -/
theorem declaredLength_number {n : ℕ} (hn : n < 2 ^ 64) :
    declaredLength (sentHeaders [(contentLengthName, Nat.toDigits 10 n)]) = some n := by
  have hname : eqIgnoreAsciiCase contentLengthName contentLengthName = true := by decide
  rw [sentHeaders_number (by decide), declaredLength, List.find?_cons]
  simp only [hname, Option.bind_some]
  rw [trim_eq_self (toDigits_not_whitespace n), parseUsize_toDigits hn]

/-! ### The framing of a fulfilled response -/

/-- The header list of a fulfilled response: the handler's, perhaps a content type, and a
    `content-length` unless there is one. -/
theorem fulfillToResponse_headers (f : RouteFulfill) : ∃ contentType : List Header,
    (contentType = [] ∨ contentType = [("content-type".toList, f.contentType)]) ∧
      (fulfillToResponse f).headers = f.headers ++ contentType ++
        if hasContentLength f.headers then []
        else [(contentLengthName, Nat.toDigits 10 f.body.length)] := by
  have hct : eqIgnoreAsciiCase "content-type".toList contentLengthName = false := by decide
  unfold fulfillToResponse
  dsimp only
  split
  · refine ⟨[("content-type".toList, f.contentType)], Or.inr rfl, ?_⟩
    have hany : ((f.headers ++ [("content-type".toList, f.contentType)]).any fun h =>
        eqIgnoreAsciiCase h.1 contentLengthName) = hasContentLength f.headers := by
      rw [List.any_append, ← hasContentLength, List.any_cons, hct]
      exact Bool.or_false _
    rw [hany]
    cases hasContentLength f.headers <;> simp
  · refine ⟨[], Or.inl rfl, ?_⟩
    rw [show (f.headers.any fun h => eqIgnoreAsciiCase h.1 contentLengthName)
      = hasContentLength f.headers from rfl]
    cases hasContentLength f.headers <;> simp

/-- **The framing headers of a fulfilled response.** -/
theorem sentHeaders_fulfill (f : RouteFulfill) (hsize : f.body.length < 2 ^ 64) :
    isChunkedTransferEncoding (sentHeaders (fulfillToResponse f).headers)
        = isChunkedTransferEncoding (sentHeaders f.headers) ∧
      declaredLength (sentHeaders (fulfillToResponse f).headers)
        = if hasContentLength f.headers then declaredLength (sentHeaders f.headers)
          else some f.body.length := by
  obtain ⟨contentType, hct, hheaders⟩ := fulfillToResponse_headers f
  have hctChunked : isChunkedTransferEncoding (sentHeaders contentType) = false := by
    rcases hct with rfl | rfl
    · rfl
    · exact isChunked_sentHeaders_singleton (by decide)
  have hctLength : hasContentLength (sentHeaders contentType) = false := by
    apply hasContentLength_sentHeaders
    rcases hct with rfl | rfl
    · rfl
    · show (eqIgnoreAsciiCase "content-type".toList contentLengthName || false) = false
      decide
  rw [hheaders, sentHeaders_append, sentHeaders_append]
  cases hcl : hasContentLength f.headers with
  | true =>
    simp only [if_true]
    constructor
    · rw [isChunked_append, isChunked_append, hctChunked, Bool.or_false]
      exact Bool.or_false _
    · rw [declaredLength_append, declaredLength_append,
        declaredLength_eq_none hctLength]
      have hnil : declaredLength (sentHeaders []) = none := rfl
      rw [hnil]
      cases hsent : hasContentLength (sentHeaders f.headers) with
      | true =>
        have happ : hasContentLength (sentHeaders f.headers ++ sentHeaders contentType) = true := by
          rw [hasContentLength, List.any_append, ← hasContentLength, hsent, Bool.true_or]
        rw [happ, if_pos rfl, if_pos rfl]
      | false =>
        rw [declaredLength_eq_none hsent]
        simp
  | false =>
    simp only [Bool.false_eq_true, if_false]
    have hsent := hasContentLength_sentHeaders hcl
    constructor
    · rw [isChunked_append, isChunked_append, hctChunked, Bool.or_false,
        isChunked_sentHeaders_singleton (by decide), Bool.or_false]
    · have happ : hasContentLength (sentHeaders f.headers ++ sentHeaders contentType) = false := by
        rw [hasContentLength, List.any_append, ← hasContentLength, hsent, Bool.false_or]
        exact hctLength
      rw [declaredLength_append, happ, if_neg Bool.false_ne_true, declaredLength_number hsize]

/-! ### When a fulfilled response is self-framing -/

/-- No read but the last ends behind the size limit of the reader. -/
def WithinLimit {stream : Bytes} (cut : Cut readSize stream) : Prop :=
  ∀ before r after, cut.reads = before ++ r :: after → after ≠ [] →
    before.flatten.length + r.length ≤ maxProxyBody

/-- The handler's headers leave the framing to the body: none names a chunked coding, and a
    `content-length` is either missing or the length of the body. -/
def FramesBody (f : RouteFulfill) : Prop :=
  isChunkedTransferEncoding (sentHeaders f.headers) = false ∧
    (hasContentLength f.headers = false ∨
      declaredLength (sentHeaders f.headers) = some f.body.length) ∧
    f.body.length ≤ maxProxyBody

instance (f : RouteFulfill) : Decidable (FramesBody f) := by
  unfold FramesBody
  infer_instance

/-- Where the headers frame the body, the reader waits for just its length. -/
theorem selectFraming_fulfill (f : RouteFulfill)
    (hbodied : bodylessStatus (fulfillToResponse f).statusCode = false) (hframes : FramesBody f)
    (headerEnd : ℕ) :
    selectFraming (fulfillToResponse f).statusCode (sentHeaders (fulfillToResponse f).headers)
      headerEnd = some (.fixedLength (headerEnd + f.body.length)) := by
  obtain ⟨hte, hcl, hsize⟩ := hframes
  obtain ⟨hchunked, hlength⟩ := sentHeaders_fulfill f (by simp only [maxProxyBody] at hsize; omega)
  have hdeclared : declaredLength (sentHeaders (fulfillToResponse f).headers)
      = some f.body.length := by
    rw [hlength]
    rcases hcl with hcl | hcl
    · rw [hcl]
      rfl
    · rw [hcl, ite_self]
  simp only [selectFraming, hchunked, hte, hbodied, hdeclared, Bool.false_and,
    Bool.false_eq_true, if_false]
  rw [if_neg (by omega)]

/-- The status of a fulfilled response is read back. -/
theorem statusAt_fulfill (f : RouteFulfill) :
    StatusAt (fulfillToResponse f).sentHead (reencodeResponse (fulfillToResponse f))
      (fulfillToResponse f).statusCode := by
  have hrange : -(2 ^ 31) ≤ (fulfillToResponse f).statusCode ∧
      (fulfillToResponse f).statusCode < 2 ^ 31 := by
    have := f.status_range
    simp only [fulfillToResponse]
    split <;> omega
  rw [reencodeResponse_eq]
  exact statusAt_statusLine rfl hrange.1 hrange.2

/-- A reader that stops at the end of a fulfilled response has its body, as sent. -/
theorem responsePayload_fulfill (f : RouteFulfill) :
    responsePayload (responseAt (fulfillToResponse f).sentHead (fulfillToResponse f).statusCode
        (reencodeResponse (fulfillToResponse f)) (reencodeResponse (fulfillToResponse f)).length)
      = if isChunkedTransferEncoding (sentHeaders (fulfillToResponse f).headers) then
          (parseChunked f.body).map Prod.fst
        else some (f.body.take
          ((declaredLength (sentHeaders (fulfillToResponse f).headers)).getD f.body.length)) := by
  have hbody : (fulfillToResponse f).body = f.body := rfl
  rw [responsePayload, responseAt, List.take_length, reencodeResponse_eq, List.drop_left,
    response_sentHead_headers, hbody]

/-- A reader that needs nothing behind a fulfilled response sees no read that ends behind its
    size limit before the last one. -/
theorem withinLimit_of_stopsAtEnd {h : Head} {status : ℤ} {stream : Bytes}
    {cut : Cut readSize stream} (hstop : StopsAtEnd h status stream cut) : WithinLimit cut := by
  intro before r after hreads hafter
  have hmore := hstop before r after hreads
  rw [if_neg hafter] at hmore
  exact le_of_verdict_more hmore

/-- Where the last round is done and the payload is the body, the headers frame the body. -/
theorem framesBody_of_done (f : RouteFulfill)
    (hbodied : bodylessStatus (fulfillToResponse f).statusCode = false) {stream : Bytes}
    {headerEnd p : ℕ}
    (hdone : verdict (selectFraming (fulfillToResponse f).statusCode
        (sentHeaders (fulfillToResponse f).headers) headerEnd) stream headerEnd p
      (headerEnd + f.body.length) = .done)
    (hpay : (if isChunkedTransferEncoding (sentHeaders (fulfillToResponse f).headers) then
          (parseChunked f.body).map Prod.fst
        else some (f.body.take
          ((declaredLength (sentHeaders (fulfillToResponse f).headers)).getD f.body.length)))
      = some f.body) : FramesBody f := by
  cases hchunked : isChunkedTransferEncoding (sentHeaders (fulfillToResponse f).headers) with
  | true =>
    -- what is sent as chunks would have to be its own coding
    rw [hchunked, if_pos rfl] at hpay
    obtain ⟨⟨d, n⟩, hparse, hd⟩ := Option.map_eq_some_iff.mp hpay
    obtain rfl : d = f.body := hd
    exact absurd hparse parseChunked_ne_self
  | false =>
    obtain ⟨cl, hdeclared, hbig, hfits⟩ :=
      declaredLength_of_verdict_done hchunked hbodied (Nat.le_add_right _ _) hdone
    rw [hchunked, if_neg Bool.false_ne_true, hdeclared, Option.getD_some] at hpay
    have hlen := congrArg List.length (Option.some.inj hpay)
    rw [List.length_take] at hlen
    obtain rfl : cl = f.body.length := by omega
    obtain ⟨hte, hcl⟩ := sentHeaders_fulfill f (by simp only [maxProxyBody] at hbig; omega)
    rw [hte] at hchunked
    rw [hcl] at hdeclared
    refine ⟨hchunked, ?_, hbig⟩
    cases hhas : hasContentLength f.headers with
    | false => exact Or.inl rfl
    | true =>
      rw [hhas, if_pos rfl] at hdeclared
      exact Or.inr hdeclared

/-- Where the headers frame the body, the reader stops at the end of the response. -/
theorem stopsAtEnd_fulfill (f : RouteFulfill)
    (hbodied : bodylessStatus (fulfillToResponse f).statusCode = false) (hframes : FramesBody f)
    {cut : Cut readSize (reencodeResponse (fulfillToResponse f))} (hwithin : WithinLimit cut) :
    StopsAtEnd (fulfillToResponse f).sentHead (fulfillToResponse f).statusCode
      (reencodeResponse (fulfillToResponse f)) cut := by
  intro before r after hreads
  have hlen : (reencodeResponse (fulfillToResponse f)).length
      = (fulfillToResponse f).sentHead.bytes.length + f.body.length := by
    rw [reencodeResponse_eq, List.length_append]
    rfl
  have hflat := congrArg List.length cut.flatten_eq
  simp only [hreads, List.flatten_append, List.flatten_cons, List.length_append] at hflat
  rw [response_sentHead_headers, selectFraming_fulfill f hbodied hframes,
    verdict_fixedLength (by omega)]
  by_cases hafter : after = []
  · rw [if_pos hafter, if_pos]
    rw [hafter, List.flatten_nil, List.length_nil] at hflat
    omega
  · obtain ⟨x, rest, rfl⟩ := List.exists_cons_of_ne_nil hafter
    have hx := List.length_pos_of_ne_nil (cut.reads_ne x (by simp [hreads]))
    have hle := hwithin before r _ hreads hafter
    rw [List.flatten_cons, List.length_append] at hflat
    rw [if_neg hafter, if_neg (by omega), if_neg (by omega)]

/-- **Fulfilled with the headers of a fetched response.**  The length that `fetch_upstream` put
    into them is sent, so they frame a new body just when it is as long as the fetched one. -/
theorem framesBody_refetched (f : RouteFulfill) {headers : List Header} {fetched : Bytes}
    (hheaders : f.headers = normaliseFetchedHeaders headers fetched)
    (hsize : fetched.length ≤ maxProxyBody) :
    FramesBody f ↔ f.body.length = fetched.length := by
  have hname : eqIgnoreAsciiCase contentLengthName transferEncodingName = false := by decide
  have hkept : ∀ h ∈ headers.filter (fun h => !eqIgnoreAsciiCase h.1 transferEncodingName &&
      !eqIgnoreAsciiCase h.1 contentLengthName),
      eqIgnoreAsciiCase h.1 transferEncodingName = false ∧
        eqIgnoreAsciiCase h.1 contentLengthName = false := by
    intro h hh
    have := (List.mem_filter.mp hh).2
    rwa [Bool.and_eq_true, Bool.not_eq_true', Bool.not_eq_true'] at this
  have hchunked : isChunkedTransferEncoding (sentHeaders f.headers) = false := by
    rw [hheaders, normaliseFetchedHeaders, sentHeaders_append, isChunked_append,
      isChunked_sentHeaders_singleton hname, Bool.or_false, isChunkedTransferEncoding,
      List.any_eq_false]
    intro x hx
    obtain ⟨y, hy, rfl⟩ := List.mem_map.mp hx
    simp [(hkept y (List.mem_of_mem_filter hy)).1]
  have hlength : declaredLength (sentHeaders f.headers) = some fetched.length := by
    rw [hheaders, normaliseFetchedHeaders, sentHeaders_append, declaredLength_append,
      hasContentLength_sentHeaders, if_neg Bool.false_ne_true, declaredLength_number]
    · simp only [maxProxyBody] at hsize
      omega
    · rw [hasContentLength, List.any_eq_false]
      intro x hx
      simp [(hkept x hx).2]
  have hhas : hasContentLength f.headers = true := by
    rw [hheaders, normaliseFetchedHeaders, hasContentLength, List.any_append, Bool.or_eq_true]
    have hself : eqIgnoreAsciiCase contentLengthName contentLengthName = true := by decide
    exact Or.inr (List.any_eq_true.mpr ⟨_, List.mem_singleton_self _, hself⟩)
  rw [FramesBody, hchunked, hlength, hhas]
  constructor
  · rintro ⟨-, hcl | hcl, -⟩
    · cases hcl
    · exact (Option.some.inj hcl).symm
  · intro hlen
    exact ⟨rfl, Or.inr (by rw [hlen]), by omega⟩

/-- **When a fulfilled response is self-framing.**  A client reads exactly its body, and the
    connection is left at the next message, just when the handler's headers frame the body and
    no read ends behind the size limit before the response does. -/
theorem fulfilled_selfFraming_iff (f : RouteFulfill)
    (hbodied : bodylessStatus (fulfillToResponse f).statusCode = false)
    (cut : Cut readSize (reencodeResponse (fulfillToResponse f))) :
    (∀ more, ∃ r, readResponse (cut.transport more) = (.ok r, more) ∧
        r.rawBytes = reencodeResponse (fulfillToResponse f) ∧
        responsePayload r = some f.body) ↔
      FramesBody f ∧ WithinLimit cut := by
  have hstream := reencodeResponse_eq (fulfillToResponse f)
  have hstatus := statusAt_fulfill f
  constructor
  · intro hall
    have hstop := stopsAtEnd_of_readResponse hstream hstatus
      fun more => let ⟨r, hr, _⟩ := hall more; ⟨r, hr⟩
    obtain ⟨r, hr, -, hpay⟩ := hall []
    rw [readResponse_of_stopsAtEnd hstream hstatus hstop] at hr
    cases hr
    rw [responsePayload_fulfill] at hpay
    obtain ⟨before, last, hlast, hend⟩ := exists_last_read hstream cut
    have hdone := hstop before last [] hlast
    have hbody : (fulfillToResponse f).body = f.body := rfl
    rw [hend, if_pos rfl, response_sentHead_headers, congrArg List.length hstream,
      List.length_append, hbody] at hdone
    exact ⟨framesBody_of_done f hbodied hdone hpay, withinLimit_of_stopsAtEnd hstop⟩
  · rintro ⟨hframes, hwithin⟩ more
    have hstop := stopsAtEnd_fulfill f hbodied hframes hwithin
    refine ⟨_, readResponse_of_stopsAtEnd hstream hstatus hstop more, List.take_length, ?_⟩
    have hsize : f.body.length < 2 ^ 64 := by
      have := hframes.2.2
      simp only [maxProxyBody] at this
      omega
    obtain ⟨hte, hlength⟩ := sentHeaders_fulfill f hsize
    rw [responsePayload_fulfill, hte, hframes.1, if_neg Bool.false_ne_true, hlength]
    rcases hframes.2.1 with hcl | hcl
    · rw [hcl, if_neg Bool.false_ne_true, Option.getD_some, List.take_length]
    · rw [hcl, ite_self, Option.getD_some, List.take_length]

/-- A mocked `200` with the body `hello`. -/
def fulfillHello : RouteFulfill where
  status := 200
  headers := []
  body := bytes "hello"
  contentType := "text/plain".toList
  status_range := by omega

/-- A JSON response fetched with the body `[]` and fulfilled with the body `[1]`. -/
def fulfillRefetched : RouteFulfill where
  status := 200
  headers := normaliseFetchedHeaders [("Content-Type".toList, "application/json".toList)]
    (bytes "[]")
  body := bytes "[1]"
  contentType := []
  status_range := by omega

/-- A written response in one read. -/
def wholeResponse (resp : ParsedResponse) (hne : reencodeResponse resp ≠ [])
    (hle : (reencodeResponse resp).length ≤ readSize) :
    Cut readSize (reencodeResponse resp) where
  reads := [reencodeResponse resp]
  flatten_eq := by simp
  reads_ne := by simpa using hne
  reads_le := by simpa using hle

/-- A fulfilled response without framing headers is self-framing. -/
theorem fulfilled_selfFraming_iff_hello : ∃ r,
    readResponse ((wholeResponse (fulfillToResponse fulfillHello) (by decide)
        (by decide)).transport []) = (.ok r, []) ∧
      r.rawBytes = reencodeResponse (fulfillToResponse fulfillHello) ∧
      responsePayload r = some (bytes "hello") := by
  have hwithin : WithinLimit (wholeResponse (fulfillToResponse fulfillHello) (by decide)
      (by decide)) := by
    intro before r after hreads hafter
    obtain ⟨x, rest, rfl⟩ := List.exists_cons_of_ne_nil hafter
    have := congrArg List.length hreads
    simp [wholeResponse] at this
    omega
  exact (fulfilled_selfFraming_iff fulfillHello (by decide) _).mpr
    ⟨by decide +kernel, hwithin⟩ []

/-- With the headers of the fetched response, as the documentation shows it, a fulfilled
    response keeps the length of the body it no longer has. -/
theorem fulfilled_stale_length : ∃ (f : RouteFulfill)
    (cut : Cut readSize (reencodeResponse (fulfillToResponse f))),
    bodylessStatus (fulfillToResponse f).statusCode = false ∧
      ¬ ∀ more, ∃ r, readResponse (cut.transport more) = (.ok r, more) ∧
        r.rawBytes = reencodeResponse (fulfillToResponse f) ∧
        responsePayload r = some f.body := by
  refine ⟨fulfillRefetched, wholeResponse (fulfillToResponse fulfillRefetched) (by decide)
    (by decide), by decide, fun hall => ?_⟩
  obtain ⟨r, hr, -, hpay⟩ := hall []
  have hread : (readResponse ((wholeResponse (fulfillToResponse fulfillRefetched) (by decide)
      (by decide)).transport [])).1 = .ok
        { fulfillToResponse fulfillRefetched with
          rawBytes := reencodeResponse (fulfillToResponse fulfillRefetched) } := by
    decide +kernel
  rw [hr] at hread
  obtain rfl := ReadOutcome.ok.inj hread
  revert hpay
  decide +kernel

end Tapsmith.Route
