import Mathlib.Data.List.Basic

namespace Tapsmith.Trace

/-!
# The trace collector

The part of `trace-collector.ts` that numbers the rows of a trace.  `A` is the type of the actions
that record; a row keeps the action it is about, which the source does through the fields of the
event.

* `reserveActionIndex`, `indexForEmit`, `dropFencedReservation` — the two counters;
* `recordBefore`, `emitActionStarted`, `addActionEvent` — captures and rows;
* `startGroup`, `endGroup`, `addConsoleEvent` — events that only point at the next row;
* `ScopeSetupRecording`, `openCollector` — a collector that replays the setup of a scope.
-/

inductive CaptureKind
  | screenshot
  | hierarchy
deriving DecidableEq

inductive Position
  | before
  | after
deriving DecidableEq

/-- A screenshot or hierarchy on record.  Those replayed from another collector have no owner
    here. -/
structure Capture (A : Type) where
  kind : CaptureKind
  position : Position := .before
  actionIndex : ℕ
  owner : Option A := none
deriving DecidableEq

/-- A recorded event: the row of an action or assertion, or an event between rows. -/
structure TraceEvent (A : Type) where
  isRow : Bool
  actionIndex : ℕ
  actor : Option A := none
deriving DecidableEq

inductive Lifecycle
  | started
  | completed
deriving DecidableEq

/-- A row as it is streamed to UI mode, with the captures buffered under its index. -/
structure StreamedRow (A : Type) where
  lifecycle : Lifecycle
  actor : A
  actionIndex : ℕ
  captures : List (Capture A)
deriving DecidableEq

/-- A group start that waits for the first event of the group. -/
structure PendingGroup where
  name : String
  actionIndex : ℕ
deriving DecidableEq

/-- A group start keeps the index it was opened at. -/
def PendingGroup.event {A : Type} (g : PendingGroup) : TraceEvent A :=
  { isRow := false, actionIndex := g.actionIndex }

structure TraceConfig where
  screenshots : Bool
  snapshots : Bool
deriving DecidableEq

structure TraceCollector (A : Type) where
  config : TraceConfig
  /-- Whether somebody listens (`_onEvent`). -/
  onEvent : Bool
  actionIndex : ℕ := 0
  nextReservable : ℕ := 0
  events : List (TraceEvent A) := []
  captures : List (Capture A) := []
  pendingCaptures : List (Capture A) := []
  /-- The action whose handler is registered. -/
  pendingOperation : Option A := none
  groupStack : List String := []
  pendingGroupStarts : List PendingGroup := []
  /-- What went to the listener. -/
  stream : List (StreamedRow A) := []
deriving DecidableEq

namespace TraceCollector

variable {A : Type} (c : TraceCollector A)

/-! ### The counters -/

/-- The index the next reservation or emit would take. -/
def peekActionIndex : ℕ := max c.actionIndex c.nextReservable

def reserveActionIndex : ℕ × TraceCollector A :=
  (c.peekActionIndex, { c with nextReservable := c.peekActionIndex + 1 })

/-- The index reserved for an emit, or a fresh one; either way it is spent. -/
def indexForEmit (reserved : Option ℕ) : ℕ × TraceCollector A :=
  let r := reserved.elim c.reserveActionIndex fun index => (index, c)
  (r.1, { r.2 with actionIndex := max r.2.actionIndex (r.1 + 1) })

def dropFencedReservation (reserved : Option ℕ) : TraceCollector A :=
  reserved.elim c fun index => { c with actionIndex := max c.actionIndex (index + 1) }

/-! ### Groups and console -/

def flushPendingGroups : TraceCollector A :=
  { c with events := c.events ++ c.pendingGroupStarts.map PendingGroup.event
           pendingGroupStarts := [] }

def startGroup (name : String) : TraceCollector A :=
  { c with groupStack := c.groupStack ++ [name]
           pendingGroupStarts := c.pendingGroupStarts ++ [{ name, actionIndex := c.actionIndex }] }

/-- A group without children is dropped, with its start. -/
def endGroup : TraceCollector A :=
  let name := c.groupStack.getLast?.getD "unknown"
  let c := { c with groupStack := c.groupStack.dropLast }
  if c.pendingGroupStarts.getLast?.any (fun pending => pending.name = name) then
    { c with pendingGroupStarts := c.pendingGroupStarts.dropLast }
  else { c with events := c.events ++ [{ isRow := false, actionIndex := c.actionIndex }] }

def addConsoleEvent : TraceCollector A :=
  let c := c.flushPendingGroups
  { c with events := c.events ++ [{ isRow := false, actionIndex := c.actionIndex }] }

/-! ### Captures and rows -/

/-- The kinds of capture that the configuration asks for. -/
def captureKinds : List CaptureKind :=
  (if c.config.screenshots then [.screenshot] else []) ++
    if c.config.snapshots then [.hierarchy] else []

/-- A capture of `captureBeforeAction` has arrived. -/
def recordBefore (a : A) (kind : CaptureKind) (actionIndex : ℕ) : TraceCollector A :=
  let capture : Capture A := { kind, actionIndex, owner := some a }
  { c with captures := c.captures ++ [capture]
           pendingCaptures := c.pendingCaptures ++ if c.onEvent then [capture] else [] }

/-- What is buffered for live streaming under an index. -/
def pendingAt (actionIndex : ℕ) : List (Capture A) :=
  c.pendingCaptures.filter fun capture => capture.actionIndex = actionIndex

/-- `closed` tells whether the attempt that the caller belongs to has ended. -/
def emitActionStarted (closed : Bool) (a : A) (reserved : Option ℕ) : TraceCollector A :=
  if c.onEvent = false ∨ closed = true then c
  else
    let c := c.flushPendingGroups
    let actionIndex := reserved.getD c.peekActionIndex
    { c with stream := c.stream ++ [⟨.started, a, actionIndex, c.pendingAt actionIndex⟩] }

def addActionEvent (closed : Bool) (a : A) (reserved : Option ℕ) : TraceCollector A :=
  if closed = true then c.dropFencedReservation reserved
  else
    let r := c.flushPendingGroups.indexForEmit reserved
    let c := r.2
    { c with
      events := c.events ++ [{ isRow := true, actionIndex := r.1, actor := some a }]
      pendingCaptures := c.pendingCaptures.filter fun capture => capture.actionIndex ≠ r.1
      stream := c.stream ++ if c.onEvent then [⟨.completed, a, r.1, c.pendingAt r.1⟩] else [] }

/-- The terminal screenshot of a test goes out without a row. -/
def emitPendingCaptures (actionIndex : ℕ) : TraceCollector A :=
  if c.onEvent then
    { c with pendingCaptures :=
        c.pendingCaptures.filter fun capture => capture.actionIndex ≠ actionIndex }
  else c

/-! ### The operation in flight -/

def setPendingOperation (closed : Bool) (a : A) : TraceCollector A :=
  if closed = true then c else { c with pendingOperation := some a }

def clearPendingOperation (closed : Bool) : TraceCollector A :=
  if closed = true then c else { c with pendingOperation := none }

end TraceCollector

/-! ### Replayed setup -/

/-- The recorded setup of a scope, below the number of actions it counted. -/
structure ScopeSetupRecording (A : Type) where
  events : List (TraceEvent A)
  captures : List (Capture A)
  actionCount : ℕ
  events_lt : ∀ e ∈ events, e.isRow = true → e.actionIndex < actionCount
  captures_lt : ∀ capture ∈ captures, capture.actionIndex < actionCount

variable {A : Type}

/-- A scope without setup. -/
def ScopeSetupRecording.empty : ScopeSetupRecording A where
  events := []
  captures := []
  actionCount := 0
  events_lt := nofun
  captures_lt := nofun

/-- `ingestReplayedEvent`: a replayed event or capture belongs to no action of this collector. -/
def ScopeSetupRecording.replayed (rec : ScopeSetupRecording A) :
    List (TraceEvent A) × List (Capture A) :=
  (rec.events.map fun e => { e with actor := none },
    rec.captures.map fun capture => { capture with owner := none })

/-- The collector of a test: numbered past the setup it replays. -/
def openCollector (config : TraceConfig) (onEvent : Bool) (rec : ScopeSetupRecording A) :
    TraceCollector A :=
  { config, onEvent
    actionIndex := rec.actionCount
    nextReservable := rec.actionCount
    events := rec.replayed.1
    captures := rec.replayed.2 }

end Tapsmith.Trace
