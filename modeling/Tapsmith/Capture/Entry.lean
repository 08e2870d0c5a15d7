import Tapsmith.Http.Headers

namespace Tapsmith.Capture

open Lib.Text Tapsmith.Http

/-!
# Captured rows

`CapturedEntry` is a row of the network trace.  A row of HTTP/1 is built at once, when the
exchange is over; one of HTTP/2 grows while the stream is open (`InFlight`), its bodies being
appended by one `BodyTee` for each direction.

* `recordEntrySized`, `recordPassthroughEntry` — the rows that are built at once;
* `InFlight.snapshot` — the row of a stream at some point of time;
* `BodyTee.append` — up to `maxBodySize` bytes of a body are stored, all are counted;
* `Capped` — a row whose bodies keep to that limit.

Times are what `now_ms` returned, and are arguments.
-/

/-- `CapturedEntry`. -/
structure CapturedEntry where
  method : Str
  url : Str
  statusCode : ℤ
  contentType : Str
  requestSize : ℕ
  responseSize : ℕ
  startTimeMs : ℕ
  durationMs : ℕ
  requestHeaders : List Header
  responseHeaders : List Header
  requestBody : Bytes
  responseBody : Bytes
  isHttps : Bool
  routeAction : Str
  inFlight : Bool
  captureId : ℕ
  osService : Bool
  deriving DecidableEq

/-- Both stored bodies keep to the limit. -/
def Capped (e : CapturedEntry) : Prop :=
  e.requestBody.length ≤ maxBodySize ∧ e.responseBody.length ≤ maxBodySize

/-! ### Rows that are built at once -/

/-- The closure `truncate` of `record_entry_sized`. -/
def truncate (b : Bytes) : Bytes := if maxBodySize < b.length then b.take maxBodySize else b

/-- The row of `record_entry_sized`. -/
def recordEntrySized (req : ParsedRequest) (resp : ParsedResponse) (hostname : Str)
    (isHttps : Bool) (startMs : ℕ) (routeAction : Str) (requestSize responseSize nowMs : ℕ) :
    CapturedEntry where
  method := req.method
  url := schemeOf isHttps ++ "://".toList ++ hostname ++ req.path
  statusCode := resp.statusCode
  contentType := (getHeader resp.headers "content-type".toList).getD []
  requestSize := requestSize
  responseSize := responseSize
  startTimeMs := startMs
  durationMs := nowMs - startMs
  requestHeaders := req.headers
  responseHeaders := resp.headers
  requestBody := truncate req.body
  responseBody := truncate resp.body
  isHttps := isHttps
  routeAction := routeAction
  inFlight := false
  captureId := 0
  osService := false

/-- The row of `record_entry`, which has both bodies whole. -/
def recordEntry (req : ParsedRequest) (resp : ParsedResponse) (hostname : Str) (isHttps : Bool)
    (startMs : ℕ) (routeAction : Str) (nowMs : ℕ) : CapturedEntry :=
  recordEntrySized req resp hostname isHttps startMs routeAction req.body.length resp.body.length
    nowMs

/-- `TrafficOrigin`. -/
inductive TrafficOrigin where
  | unattributed
  | osService
  deriving DecidableEq

/-- The row of `record_passthrough_entry`. -/
def recordPassthroughEntry (host : Str) (port : ℕ) (origin : TrafficOrigin) (nowMs : ℕ) :
    CapturedEntry where
  method := "CONNECT".toList
  url := if port = 443 then "https://".toList ++ host ++ "/".toList
    else "https://".toList ++ host ++ ':' :: Nat.toDigits 10 port ++ "/".toList
  statusCode := 0
  contentType := []
  requestSize := 0
  responseSize := 0
  startTimeMs := nowMs
  durationMs := 0
  requestHeaders := []
  responseHeaders := []
  requestBody := []
  responseBody := []
  isHttps := true
  routeAction := "passthrough".toList
  inFlight := false
  captureId := 0
  osService := origin = .osService

theorem length_truncate_le (b : Bytes) : (truncate b).length ≤ maxBodySize := by
  rw [truncate]
  split
  · rw [List.length_take]
    omega
  · omega

theorem capped_recordEntrySized (req : ParsedRequest) (resp : ParsedResponse) (hostname : Str)
    (isHttps : Bool) (startMs : ℕ) (routeAction : Str) (requestSize responseSize nowMs : ℕ) :
    Capped (recordEntrySized req resp hostname isHttps startMs routeAction requestSize
      responseSize nowMs) :=
  ⟨length_truncate_le _, length_truncate_le _⟩

/-! ### Open streams -/

/-- `InFlight`: the capture of one stream. -/
structure InFlight where
  entry : CapturedEntry
  requestSize : ℕ
  responseSize : ℕ
  deriving DecidableEq

/-- `InFlight::new`. -/
def InFlight.new (entry : CapturedEntry) : InFlight where
  entry := entry
  requestSize := 0
  responseSize := 0

/-- `InFlight::snapshot`. -/
def InFlight.snapshot (c : InFlight) (inFlight : Bool) (nowMs : ℕ) : CapturedEntry :=
  { c.entry with
    requestSize := c.requestSize
    responseSize := c.responseSize
    durationMs := nowMs - c.entry.startTimeMs
    inFlight := inFlight }

/-- The row that `serve_h2_stream` opens a stream with. -/
def openEntry (method url : Str) (startMs : ℕ) (requestHeaders : List Header) (isHttps : Bool)
    (routeAction : Str) : CapturedEntry where
  method := method
  url := url
  statusCode := 0
  contentType := []
  requestSize := 0
  responseSize := 0
  startTimeMs := startMs
  durationMs := 0
  requestHeaders := requestHeaders
  responseHeaders := []
  requestBody := []
  responseBody := []
  isHttps := isHttps
  routeAction := routeAction
  inFlight := true
  captureId := 0
  osService := false

/-- What `forward_h2_response` publishes when the response head has arrived. -/
def InFlight.publishHead (c : InFlight) (status : ℤ) (headers : List Header) : InFlight :=
  { c with entry := { c.entry with
      statusCode := status
      responseHeaders := headers
      contentType := (getHeader headers "content-type".toList).getD [] } }

/-- A stored body, by direction. -/
def CapturedEntry.body (e : CapturedEntry) (response : Bool) : Bytes :=
  if response then e.responseBody else e.requestBody

/-- `body.extend_from_slice`, by direction. -/
def CapturedEntry.extend (e : CapturedEntry) (response : Bool) (bytes : Bytes) : CapturedEntry :=
  if response then { e with responseBody := e.responseBody ++ bytes }
  else { e with requestBody := e.requestBody ++ bytes }

/-- `size.store`, by direction. -/
def InFlight.storeSize (c : InFlight) (response : Bool) (total : ℕ) : InFlight :=
  if response then { c with responseSize := total } else { c with requestSize := total }

/-- The counters of a `BodyTee`. -/
structure BodyTee where
  response : Bool
  stored : ℕ
  total : ℕ
  deriving DecidableEq

/-- `BodyTee::new`. -/
def BodyTee.new (response : Bool) : BodyTee where
  response := response
  stored := 0
  total := 0

/-- `BodyTee::append`, with the capture it writes to. -/
def BodyTee.append (tee : BodyTee) (capture : InFlight) (bytes : Bytes) : BodyTee × InFlight :=
  let total := tee.total + bytes.length
  if tee.stored < maxBodySize ∧ bytes ≠ [] then
    let take := min (maxBodySize - tee.stored) bytes.length
    let capture := { capture with entry := capture.entry.extend tee.response (bytes.take take) }
    ({ tee with stored := tee.stored + take, total }, capture.storeSize tee.response total)
  else ({ tee with total }, capture.storeSize tee.response total)

@[simp] theorem InFlight.snapshot_captureId (c : InFlight) (b : Bool) (now : ℕ) :
    (c.snapshot b now).captureId = c.entry.captureId := rfl

@[simp] theorem InFlight.snapshot_inFlight (c : InFlight) (b : Bool) (now : ℕ) :
    (c.snapshot b now).inFlight = b := rfl

@[simp] theorem InFlight.snapshot_body (c : InFlight) (b : Bool) (now : ℕ) (response : Bool) :
    (c.snapshot b now).body response = c.entry.body response := rfl

@[simp] theorem InFlight.storeSize_entry (c : InFlight) (response : Bool) (total : ℕ) :
    (c.storeSize response total).entry = c.entry := by
  cases response <;> rfl

@[simp] theorem CapturedEntry.extend_captureId (e : CapturedEntry) (response : Bool)
    (bytes : Bytes) : (e.extend response bytes).captureId = e.captureId := by
  cases response <;> rfl

theorem CapturedEntry.extend_body (e : CapturedEntry) (response other : Bool) (bytes : Bytes) :
    (e.extend response bytes).body other
      = if other = response then e.body other ++ bytes else e.body other := by
  cases response <;> cases other <;> rfl

theorem capped_iff {e : CapturedEntry} :
    Capped e ↔ ∀ response, (e.body response).length ≤ maxBodySize := by
  constructor
  · rintro ⟨hreq, hresp⟩ response
    cases response
    · exact hreq
    · exact hresp
  · intro h
    exact ⟨h false, h true⟩

/-- **What a tee stores.**  The body of its direction grows by a prefix of the bytes, the other
    one stays, and the counter of stored bytes keeps step within the limit. -/
theorem BodyTee.append_spec (tee : BodyTee) (capture : InFlight) (bytes : Bytes) :
    ∃ stored, stored <+: bytes ∧
      (tee.append capture bytes).2.entry = capture.entry.extend tee.response stored ∧
      (tee.append capture bytes).1.response = tee.response ∧
      (tee.append capture bytes).1.stored = tee.stored + stored.length ∧
      (tee.stored ≤ maxBodySize → (tee.append capture bytes).1.stored ≤ maxBodySize) := by
  have hnil : capture.entry = capture.entry.extend tee.response [] := by
    cases hdir : tee.response <;> simp [CapturedEntry.extend]
  unfold BodyTee.append
  dsimp only
  split
  · rename_i hroom
    refine ⟨bytes.take (min (maxBodySize - tee.stored) bytes.length), List.take_prefix _ _,
      by simp, rfl, ?_, fun _ => ?_⟩
    · rw [List.length_take]
      dsimp only
      omega
    · dsimp only
      omega
  · exact ⟨[], List.nil_prefix, by rw [InFlight.storeSize_entry, ← hnil], rfl, rfl, id⟩

end Tapsmith.Capture
