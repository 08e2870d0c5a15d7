import Mathlib.Logic.Function.Basic
import Tapsmith.Trace.Collector

namespace Tapsmith.Trace

/-!
# Traced actions

The actions of a device group that run against one collector.  Every step is a stretch of code
between two awaits; the steps of different actions come in any order.

* `State` — the collector, where each action stands, and the attempts that have ended;
* `Label` — what happens in a step, with the outcome of what was awaited;
* `step` — `tracedAction` (`traced-action.ts`), the auto-wait before it and the queries
  (`element-handle.ts`), the terminal screenshots and the timeout of the runner (`runner.ts`).
-/

/-- What follows a before-capture: the action itself, its row, or nothing (the terminal screenshot
    of a test). -/
inductive Purpose
  | action
  | row
  | frame
deriving DecidableEq

inductive Phase
  | idle
  /-- `_tracedResolve` waits for the element. -/
  | resolving
  | resolved
  /-- `captureTraceState` is awaited. -/
  | batch
  | capturing (purpose : Purpose) (todo : List CaptureKind)
  /-- A query that has streamed its row waits for the device. -/
  | querying
  | inFlight
  | settled
deriving DecidableEq

structure State (A T : Type) where
  collector : TraceCollector A
  phase : A → Phase := fun _ => .idle
  /-- The index that the events of an action carry, once reserved. -/
  actionIndex : A → Option ℕ := fun _ => none
  failedByTimeout : A → Bool := fun _ => false
  /-- The attempts that have ended. -/
  closed : T → Bool := fun _ => false

inductive Label (A T : Type)
  /-- The row is streamed before the auto-wait. -/
  | resolve (a : A)
  | resolveDone (a : A) (found : Bool)
  /-- `batch`: the device has `captureTraceState`; `inBudget`: the fallback has time left. -/
  | call (a : A) (skipBeforeCapture batch inBudget : Bool)
  | batchDone (a : A) (success inBudget : Bool)
  | captured (a : A) (kind : CaptureKind)
  | captureDone (a : A)
  | settle (a : A)
  | query (a : A)
  | queryDone (a : A)
  /-- A row that was never streamed as started: a system dialog, a route, a summary. -/
  | note (a : A)
  | terminal (a : A)
  | failPending
  | closeAttempt (t : T)
  | startGroup (name : String)
  | endGroup
  | console
deriving DecidableEq

namespace State

variable {A T : Type} [DecidableEq A] (attempt : A → T) (s : State A T) (a : A)

/-- `isCurrentAttemptClosed`, called from an action. -/
def isClosed : Bool := s.closed (attempt a)

def setPhase (phase : Phase) : State A T :=
  { s with phase := Function.update s.phase a phase }

def setFailed : State A T :=
  { s with failedByTimeout := Function.update s.failedByTimeout a true }

/-! ### Pieces of a step -/

/-- An action that has an index keeps it. -/
def reserve : State A T :=
  if s.actionIndex a = none then
    { s with
      actionIndex := Function.update s.actionIndex a (some s.collector.reserveActionIndex.1)
      collector := s.collector.reserveActionIndex.2 }
  else s

def emitStarted : State A T :=
  { s with collector :=
      s.collector.emitActionStarted (s.isClosed attempt a) a (s.actionIndex a) }

def addEvent (closed : Bool) : State A T :=
  { s with collector := s.collector.addActionEvent closed a (s.actionIndex a) }

def setPending : State A T :=
  { s with collector := s.collector.setPendingOperation (s.isClosed attempt a) a }

def clearPending (closed : Bool) : State A T :=
  { s with collector := s.collector.clearPendingOperation closed }

/-- The synchronous start of `captureBeforeAction`: a fenced attempt records nothing. -/
def beginCapture (purpose : Purpose) (closed : Bool) : State A T :=
  (s.reserve a).setPhase a
    (.capturing purpose (if closed = true then [] else s.collector.captureKinds))

/-- The started row goes out, the timeout handler is registered and the action itself begins. -/
def launch : State A T :=
  ((s.setPhase a .inFlight).emitStarted attempt a).setPending attempt a

/-- The individual captures, unless the batch has used up the time for them. -/
def fallback (inBudget : Bool) : State A T :=
  if inBudget = true then s.beginCapture a .action (s.isClosed attempt a)
  else s.launch attempt a

/-! ### The steps -/

/-- `tracedAction`, up to its first await. -/
def call (skipBeforeCapture batch inBudget : Bool) : State A T :=
  if skipBeforeCapture = true then (s.reserve a).launch attempt a
  else if batch = true then s.setPhase a .batch
  else s.fallback attempt a inBudget

def batchDone (success inBudget : Bool) : State A T :=
  if success = true then s.beginCapture a .action (s.isClosed attempt a)
  else s.fallback attempt a inBudget

/-- A capture in time is written under the index of its action. -/
def captured (purpose : Purpose) (todo : List CaptureKind) (kind : CaptureKind) (index : ℕ) :
    State A T :=
  { s.setPhase a (.capturing purpose (todo.erase kind)) with
    collector := s.collector.recordBefore a kind index }

def captureDone : Purpose → State A T
  | .action => s.launch attempt a
  | .row => (s.setPhase a .settled).addEvent a (s.isClosed attempt a)
  | .frame =>
    { s.setPhase a .settled with
      collector := s.collector.emitPendingCaptures ((s.actionIndex a).getD 0) }

/-- The action itself is over.  Its row is left out where the timeout has recorded it. -/
def settle : State A T :=
  let s' := (s.setPhase a .settled).clearPending (s.isClosed attempt a)
  if s.failedByTimeout a = true then s' else s'.addEvent a (s.isClosed attempt a)

/-- `failPendingOperation`: the runner calls the handler, outside every attempt. -/
def failPending : State A T :=
  s.collector.pendingOperation.elim s fun a => ((s.clearPending false).setFailed a).addEvent a false

end State

section Step

variable {A T : Type} [DecidableEq A] [DecidableEq T] (attempt : A → T)

/-- A capture that an action waits for arrives. -/
def State.stepCaptured (s : State A T) (a : A) (kind : CaptureKind) : Option (State A T) :=
  match s.phase a, s.actionIndex a with
  | .capturing purpose todo, some index =>
    if kind ∈ todo then some (s.captured a purpose todo kind index) else none
  | _, _ => none

/-- All captures are in, or late. -/
def State.stepCaptureDone (s : State A T) (a : A) : Option (State A T) :=
  match s.phase a with
  | .capturing purpose _ => some (s.captureDone attempt a purpose)
  | _ => none

def step (s : State A T) : Label A T → Option (State A T)
  | .resolve a =>
    if s.phase a = .idle then
      some (((s.reserve a).setPhase a .resolving).emitStarted attempt a)
    else none
  | .resolveDone a found =>
    if s.phase a = .resolving then
      some (if found = true then s.setPhase a .resolved
        else s.beginCapture a .row (s.isClosed attempt a))
    else none
  | .call a skipBeforeCapture batch inBudget =>
    if s.phase a = .idle ∨ s.phase a = .resolved then
      some (s.call attempt a skipBeforeCapture batch inBudget)
    else none
  | .batchDone a success inBudget =>
    if s.phase a = .batch then some (s.batchDone attempt a success inBudget) else none
  | .captured a kind => s.stepCaptured a kind
  | .captureDone a => s.stepCaptureDone attempt a
  | .settle a => if s.phase a = .inFlight then some (s.settle attempt a) else none
  | .query a =>
    if s.phase a = .idle then some ((s.setPhase a .querying).emitStarted attempt a)
    else none
  | .queryDone a =>
    if s.phase a = .querying then some (s.beginCapture a .row (s.isClosed attempt a))
    else none
  | .note a =>
    if s.phase a = .idle then
      some ((s.setPhase a .settled).addEvent a (s.isClosed attempt a))
    else none
  | .terminal a =>
    if s.phase a = .idle ∧ s.collector.config.screenshots = true then
      some (s.beginCapture a .frame false)
    else none
  | .failPending => some s.failPending
  | .closeAttempt t => some { s with closed := Function.update s.closed t true }
  | .startGroup name => some { s with collector := s.collector.startGroup name }
  | .endGroup => some { s with collector := s.collector.endGroup }
  | .console => some { s with collector := s.collector.addConsoleEvent }

end Step

end Tapsmith.Trace
