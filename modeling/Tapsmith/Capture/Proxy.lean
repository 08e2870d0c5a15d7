import Mathlib.Data.List.Sort
import Mathlib.Logic.Function.Basic
import Tapsmith.Capture.ForwardProxy
import Tapsmith.Lib.Machine

namespace Tapsmith.Capture

open Lib.Machine Tapsmith.Http

/-!
# The state of the proxy

Finished rows are in `entries`, those of open streams in a registry of weak references to the
captures that the stream tasks own.  Both draw their ids from one counter.

* `ProxyState`, `StreamTask`, `World` — the shared state, and the tasks that write to it;
* `Source` — the code paths that record a finished row;
* `Op`, `World.step` — the operations, in any order, and the event each of them shows;
* `World.Inv` — every id belongs to one row or one stream.

The `HashMap` of the registry has no order of its own: an operation that runs through it is
given the order.
-/

/-- What of `ProxyState` the capture reads and writes. -/
structure ProxyState where
  entries : List CapturedEntry
  inFlight : List ℕ
  nextStreamKey : ℕ

/-- The task of one HTTP/2 stream: the capture it owns, the tees of its two pumps, and the final
    row once the pumps are through. -/
structure StreamTask where
  capture : InFlight
  requestTee : BodyTee
  responseTee : BodyTee
  final : Option CapturedEntry

/-- The proxy with its stream tasks, by stream key.  A weak reference of the registry can be
    upgraded as long as the task is there. -/
structure World where
  state : ProxyState
  tasks : ℕ → Option StreamTask

/-- A proxy that has just been started. -/
def World.init : World where
  state := { entries := [], inFlight := [], nextStreamKey := 0 }
  tasks := fun _ => none

/-- The code paths that record a row when an exchange is over. -/
inductive Source where
  /-- `record_entry_sized`: the intercepted connections, and mocked, aborted, fetched or failed
      requests on any of them. -/
  | record (req : ParsedRequest) (resp : ParsedResponse) (hostname : Str) (isHttps : Bool)
      (startMs : ℕ) (routeAction : Str) (requestSize responseSize nowMs : ℕ)
  | forwardProxy (call : HttpCall)
  | passthrough (host : Str) (port : ℕ) (origin : TrafficOrigin) (nowMs : ℕ)

/-- The row that is recorded, if there is one. -/
def Source.row : Source → Option CapturedEntry
  | .record req resp hostname isHttps startMs routeAction requestSize responseSize nowMs =>
    some (recordEntrySized req resp hostname isHttps startMs routeAction requestSize responseSize
      nowMs)
  | .forwardProxy call => handleHttp call
  | .passthrough host port origin nowMs => some (recordPassthroughEntry host port origin nowMs)

theorem Source.row_inFlight {src : Source} {row : CapturedEntry} (h : src.row = some row) :
    row.inFlight = false := by
  cases src with
  | record => cases h; rfl
  | forwardProxy call => exact handleHttp_inFlight h
  | passthrough => cases h; rfl

/-! ### Operations on the shared state -/

/-- `ProxyState::push_entry`. -/
def ProxyState.pushEntry (s : ProxyState) (entry : CapturedEntry) : ProxyState :=
  { s with
    entries := s.entries ++ [{ entry with captureId := s.nextStreamKey }]
    nextStreamKey := s.nextStreamKey + 1 }

/-- The registry without the streams whose task is gone. -/
def World.alive (w : World) (order : List ℕ) : List ℕ := order.filter fun k => (w.tasks k).isSome

/-- The open rows of `append_open_entries`, in the order the registry is run through. -/
def World.openEntries (w : World) (order : List ℕ) (nowMs : ℕ → ℕ) : List CapturedEntry :=
  order.filterMap fun k => (w.tasks k).map fun t => t.capture.snapshot true (nowMs k)

/-- `sort_by_key(|entry| entry.capture_id)`. -/
def sortByCaptureId (entries : List CapturedEntry) : List CapturedEntry :=
  entries.insertionSort fun a b => a.captureId ≤ b.captureId

/-- The rows of `snapshot_entries` and of `drain_entries`. -/
def World.rows (w : World) (order : List ℕ) (nowMs : ℕ → ℕ) : List CapturedEntry :=
  sortByCaptureId (w.state.entries ++ w.openEntries order nowMs)

/-- What `append_open_entries` leaves of the registry. -/
def World.retain (w : World) (order : List ℕ) : World :=
  { w with state := { w.state with inFlight := w.alive order } }

/-- The task of a stream that has just got its key. -/
def StreamTask.new (key : ℕ) (entry : CapturedEntry) : StreamTask where
  capture := InFlight.new { entry with captureId := key }
  requestTee := BodyTee.new false
  responseTee := BodyTee.new true
  final := none

/-- The registration of a stream in `serve_h2_stream`. -/
def World.openStream (w : World) (entry : CapturedEntry) : World where
  state :=
    { w.state with
      inFlight := w.state.nextStreamKey :: w.alive w.state.inFlight
      nextStreamKey := w.state.nextStreamKey + 1 }
  tasks := Function.update w.tasks w.state.nextStreamKey
    (some (StreamTask.new w.state.nextStreamKey entry))

/-- A stream task whose pump of one direction got `bytes`. -/
def StreamTask.data (t : StreamTask) (response : Bool) (bytes : Bytes) : StreamTask :=
  if response then
    let r := t.responseTee.append t.capture bytes
    { t with responseTee := r.1, capture := r.2 }
  else
    let r := t.requestTee.append t.capture bytes
    { t with requestTee := r.1, capture := r.2 }

/-- A task in place of the one of that key. -/
def World.setTask (w : World) (key : ℕ) (t : Option StreamTask) : World :=
  { w with tasks := Function.update w.tasks key t }

/-- The end of `serve_h2_stream`: the stream leaves the registry and its row is pushed, under one
    lock. -/
def World.commit (w : World) (key : ℕ) (row : CapturedEntry) : World where
  state :=
    { w.state with
      inFlight := w.state.inFlight.filter (· ≠ key)
      entries := w.state.entries ++ [row] }
  tasks := Function.update w.tasks key none

theorem World.openStream_tasks (w : World) (entry : CapturedEntry) (k : ℕ) :
    (w.openStream entry).tasks k
      = if k = w.state.nextStreamKey then some (StreamTask.new k entry) else w.tasks k := by
  rw [show (w.openStream entry).tasks = Function.update w.tasks w.state.nextStreamKey
    (some (StreamTask.new w.state.nextStreamKey entry)) from rfl, Function.update_apply]
  split
  · rename_i hk
    rw [hk]
  · rfl

theorem World.setTask_tasks (w : World) (key : ℕ) (t : Option StreamTask) (k : ℕ) :
    (w.setTask key t).tasks k = if k = key then t else w.tasks k :=
  Function.update_apply w.tasks key t k

theorem World.commit_tasks (w : World) (key : ℕ) (row : CapturedEntry) (k : ℕ) :
    (w.commit key row).tasks k = if k = key then none else w.tasks k :=
  Function.update_apply w.tasks key none k

/-! ### Steps -/

/-- The operations on the capture. -/
inductive Op where
  | push (src : Source)
  | openStream (method url : Str) (startMs : ℕ) (requestHeaders : List Header) (isHttps : Bool)
      (routeAction : Str)
  | publishHead (key : ℕ) (status : ℤ) (headers : List Header)
  | data (key : ℕ) (response : Bool) (bytes : Bytes)
  /-- Both pumps are through, and the final row is taken from the capture. -/
  | finish (key nowMs : ℕ)
  | commit (key : ℕ)
  /-- The task is dropped, at any point. -/
  | cancel (key : ℕ)
  | snapshotEntries (order : List ℕ) (nowMs : ℕ → ℕ)
  | drainEntries (order : List ℕ) (nowMs : ℕ → ℕ)
  | resetCaptureState

/-- What an operation shows: the row of an exchange that is complete now, or the rows it
    returns. -/
inductive Event where
  | completed (row : CapturedEntry)
  | snapshot (rows : List CapturedEntry)
  | drain (rows : List CapturedEntry)
  | reset
  | inside
  deriving DecidableEq

/-- One operation; `none` where it cannot take place. -/
def World.step (w : World) : Op → Option (World × Event)
  | .push src => src.row.map fun row =>
    ({ w with state := w.state.pushEntry row },
      .completed { row with captureId := w.state.nextStreamKey })
  | .openStream method url startMs requestHeaders isHttps routeAction =>
    some (w.openStream (openEntry method url startMs requestHeaders isHttps routeAction), .inside)
  | .publishHead key status headers => (w.tasks key).bind fun t =>
    if t.final = none then
      some (w.setTask key (some { t with capture := t.capture.publishHead status headers }), .inside)
    else none
  | .data key response bytes => (w.tasks key).bind fun t =>
    if t.final = none then some (w.setTask key (some (t.data response bytes)), .inside) else none
  | .finish key nowMs => (w.tasks key).bind fun t =>
    if t.final = none then
      some (w.setTask key (some { t with final := some (t.capture.snapshot false nowMs) }), .inside)
    else none
  | .commit key => (w.tasks key).bind fun t =>
    t.final.map fun row => (w.commit key row, .completed row)
  | .cancel key => (w.tasks key).map fun _ => (w.setTask key none, .inside)
  | .snapshotEntries order nowMs =>
    if order.Perm w.state.inFlight then
      some (w.retain order, .snapshot (w.rows order nowMs))
    else none
  | .drainEntries order nowMs =>
    if order.Perm w.state.inFlight then
      some ({ w.retain order with state := { (w.retain order).state with entries := [] } },
        .drain (w.rows order nowMs))
    else none
  | .resetCaptureState =>
    some ({ w with state := { w.state with entries := [] } }, .reset)

end Tapsmith.Capture
