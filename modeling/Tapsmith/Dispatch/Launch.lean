import Mathlib.Logic.Function.Basic
import Tapsmith.Dispatch.Result
import Tapsmith.Project.Config

namespace Tapsmith.Dispatch

open Tapsmith.Project

/-!
# The launch barrier of concurrent buckets

`coordinateBuckets` of `dispatcher.ts` runs the buckets of a multi-device run side by side.  No
bucket dispatches a file until each of them has called `beforeDispatch` or has failed to start;
the last one to arrive renders the start of the run, in its own call.

* `Launch.arrive` — the closure of the source, with callbacks that may throw;
* `Launch.Step` — what the run functions of the buckets may do, in any order;
* `Launch.conclude` — what the promise settles with when all of them have settled.
-/

/-! ### The data -/

/-- An error, as far as it is looked at: its message and whether it is a bug of the program. -/
structure Failure where
  message : String
  programmingError : Bool := false
deriving DecidableEq

inductive SuiteResult
  | mk (name : String) (tests : List TestResult) (suites : List SuiteResult) (durationMs : ℕ)

inductive RunStatus
  | passed
  | failed
deriving DecidableEq

structure FullResult where
  status : RunStatus
  duration : ℕ
  setupDuration : Option ℕ
  tests : List TestResult
  suites : List SuiteResult

/-- A `BucketRunner` without its run function. -/
structure Bucket where
  label : String := ""
  projects : List ResolvedProject := []
deriving Inhabited

inductive LaunchPhase
  | daemon
  | appInstall
  | agent
  | appLaunch
deriving DecidableEq

inductive LaunchStepId
  | workerDevices
  | uiWorkers
  | phase (id : LaunchPhase)
deriving DecidableEq

inductive RowState
  | warning
  | failed
deriving DecidableEq

/-- What the rendering calls: the launch progress and the reporter. -/
inductive Callback
  | complete (id : LaunchStepId) (detail : String)
  | fail (id : LaunchStepId) (detail : String)
  | update (id : LaunchStepId) (state : RowState) (detail : String) (progress : Option (ℕ × ℕ))
  | finish
  | runStart
  | testFileStart (result : TestResult)
  | testEnd (result : TestResult)
  | testFileEnd (result : TestResult)
deriving DecidableEq

/-- What the counters say when the last bucket arrives, and where its rendering throws, if it
    does: after how many callbacks, and what. -/
structure Turn where
  ready : ℕ
  phaseCount : LaunchPhase → ℕ
  throws : Option (ℕ × Failure)

/-- What is fixed for a run.  `labelledMessage` of `error-detail.ts` puts a label in front of a
    message and bounds it; nothing here reads its result. -/
structure Coordination where
  buckets : List Bucket
  totalWorkers : ℕ
  launchProgress : Bool
  labelledMessage : String → String → String

/-- How far the run function of a bucket is.  `thrown` is the state of a function whose call of
    `beforeDispatch` threw: it awaits the call, so it can only reject. -/
inductive BucketPhase
  | starting
  | waiting
  | thrown
  | running
  | fulfilled (value : Option FullResult)
  | rejected (reason : Failure)

/-- The variables of `coordinateBuckets`, what the run functions have come to, the callbacks
    made so far, and what the promise has settled with. -/
structure Launch where
  arrived : ℕ → Bool := fun _ => false
  arrivedCount : ℕ := 0
  startFailures : List (ℕ × Failure) := []
  released : Bool := false
  startFailureResults : List TestResult := []
  phases : ℕ → BucketPhase := fun _ => .starting
  calls : List Callback := []
  outcome : Option (Except Failure FullResult) := none

section Coordinate

variable (c : Coordination)

/-! ### The results of a bucket that could not start -/

def targetUnavailableMessage (label : String) (err : Failure) : String :=
  c.labelledMessage s!"Device target \"{label}\" could not start: " err.message

def targetStartFailureResults (label : String) (projects : List ResolvedProject) (err : Failure) :
    List TestResult :=
  projects.flatMap fun project => project.testFiles.map fun file =>
    { name := basename file, fullName := basename file, filePath := some file, status := .failed,
      durationMs := 0, project := some project.name,
      error := some (targetUnavailableMessage c label err) }

def startFailureSuite (result : TestResult) : SuiteResult :=
  .mk result.name [result] [] 0

/-- The results of the bucket at an index. -/
def bucketFailureResults (failure : ℕ × Failure) : List TestResult :=
  let bucket := c.buckets.getD failure.1 default
  targetStartFailureResults c bucket.label bucket.projects failure.2

/-- The failures sorted by the index of the bucket. -/
def failuresInOrder (startFailures : List (ℕ × Failure)) : List (ℕ × Failure) :=
  startFailures.mergeSort fun a b => a.1 ≤ b.1

/-! ### Rendering -/

def failureSummary (err : Failure) : String :=
  (err.message.splitOn "\n").headD ""

def failedTargetsDetail (startFailures : List (ℕ × Failure)) : String :=
  "; ".intercalate ((failuresInOrder startFailures).map fun (i, err) =>
    s!"{(c.buckets.getD i default).label} could not start: {failureSummary err}")

/-- `launchPhaseIds`, those that are not complete. -/
def openPhases (turn : Turn) : List LaunchPhase :=
  [.daemon, .appInstall, .agent, .appLaunch].filter fun phase =>
    turn.phaseCount phase < c.totalWorkers

def renderAllFailed (startFailures : List (ℕ × Failure)) (turn : Turn) : List Callback :=
  let detail := failedTargetsDetail c startFailures
  if c.launchProgress then
    .fail .workerDevices s!"0/{c.totalWorkers} worker device(s) ready; {detail}" ::
      (openPhases c turn).map (fun phase =>
        .update (.phase phase) .failed detail (some (turn.phaseCount phase, c.totalWorkers))) ++
      [.fail .uiWorkers detail, .finish]
  else []

/-- The rows of the launch progress when some bucket has started. -/
def renderProgress (startFailures : List (ℕ × Failure)) (turn : Turn) : List Callback :=
  let total := c.totalWorkers
  if c.launchProgress then
    (if 0 < startFailures.length then
      [.update .workerDevices .warning
        s!"{turn.ready}/{total} worker device(s) ready; {failedTargetsDetail c startFailures}" none]
    else
      [.complete .workerDevices
        s!"{turn.ready}/{total} worker device(s) ready across {c.buckets.length} bucket(s)"]) ++
    (if turn.ready < total then
      .update .uiWorkers .warning s!"{turn.ready}/{total} worker(s) ready; {total - turn.ready} failed"
          (some (turn.ready, total)) ::
        (openPhases c turn).map fun phase =>
          let count := turn.phaseCount phase
          .update (.phase phase) .warning
            s!"{count}/{total} completed; {total - count} worker(s) did not finish"
            (some (count, total))
    else [.complete .uiWorkers s!"{total} worker(s) ready"]) ++
    [.finish]
  else []

/-- The calls that report one result. -/
def reportResult (result : TestResult) : List Callback :=
  [.testFileStart result, .testEnd result, .testFileEnd result]

def renderStarted (startFailures : List (ℕ × Failure)) (turn : Turn) : List Callback :=
  renderProgress c startFailures turn ++ .runStart ::
    ((failuresInOrder startFailures).flatMap (bucketFailureResults c)).flatMap reportResult

/-- The result that is pushed right before a callback. -/
def Callback.pushes : Callback → Option TestResult
  | .testFileStart result => some result
  | _ => none

namespace Launch

/-- Make callbacks until one of them throws. -/
def perform (callbacks : List Callback) (throws : Option (ℕ × Failure)) (s : Launch) :
    Launch × Option Failure :=
  let made := match throws with
    | none => callbacks
    | some (k, _) => callbacks.take (k + 1)
  let thrown := throws.bind fun (k, err) => if k < callbacks.length then some err else none
  ({ s with
    calls := s.calls ++ made
    startFailureResults := s.startFailureResults ++ made.filterMap Callback.pushes }, thrown)

/-- `arrive`, and what it throws.  The barrier is released whatever the rendering does. -/
def arrive (i : ℕ) (turn : Turn) (s : Launch) : Launch × Option Failure :=
  if s.arrived i then (s, none)
  else
    let s := { s with
      arrived := Function.update s.arrived i true
      arrivedCount := s.arrivedCount + 1 }
    if s.arrivedCount < c.buckets.length then (s, none)
    else
      let callbacks :=
        if s.startFailures.length = c.buckets.length then renderAllFailed c s.startFailures turn
        else renderStarted c s.startFailures turn
      let rendered := s.perform callbacks turn.throws
      ({ rendered.1 with released := true }, rendered.2)

def setPhase (i : ℕ) (phase : BucketPhase) (s : Launch) : Launch :=
  { s with phases := Function.update s.phases i phase }

end Launch

/-! ### Settling -/

def BucketPhase.reason : BucketPhase → Option Failure
  | .rejected reason => some reason
  | _ => none

def BucketPhase.value : BucketPhase → Option FullResult
  | .fulfilled value => value
  | _ => none

def BucketPhase.Settled : BucketPhase → Prop
  | .fulfilled _ => True
  | .rejected _ => True
  | _ => False

def mergeBucketResults (results : List FullResult) : FullResult :=
  { status := if results.any fun r => r.status = .failed then .failed else .passed
    duration := (results.map FullResult.duration).foldl max 0
    setupDuration := some ((results.map fun r => r.setupDuration.getD 0).foldl max 0)
    tests := results.flatMap FullResult.tests
    suites := results.flatMap FullResult.suites }

def noTargetCouldStart (failures : List (String × Failure)) : Failure :=
  { message := "No device target could start\n" ++ "\n".intercalate (failures.map fun (label, err) =>
      c.labelledMessage s!"{label}: " err.message) }

/-- The error of a run none of whose buckets could start. -/
def allFailedError (startFailures : List (ℕ × Failure)) : Failure :=
  match (failuresInOrder startFailures).map Prod.snd with
  | [err] => err
  | errors =>
    match errors.find? Failure.programmingError with
    | some bug => bug
    | none => noTargetCouldStart c ((failuresInOrder startFailures).map fun (i, err) =>
        ((c.buckets.getD i default).label, err))

/-- What follows `Promise.allSettled`. -/
def Launch.conclude (s : Launch) : Except Failure FullResult :=
  match (List.range c.buckets.length).findSome? fun i => (s.phases i).reason with
  | some reason => .error reason
  | none =>
    if 0 < c.buckets.length ∧ s.startFailures.length = c.buckets.length then
      .error (allFailedError c s.startFailures)
    else
      let merged := mergeBucketResults
        ((List.range c.buckets.length).filterMap fun i => (s.phases i).value)
      .ok { merged with
        status := if 0 < s.startFailures.length then .failed else merged.status
        tests := s.startFailureResults ++ merged.tests
        suites := s.startFailureResults.map startFailureSuite ++ merged.suites }

/-! ### What the run functions do -/

/-- The run function of a bucket calls `beforeDispatch`; the awaited call returns; the function
    resolves or rejects; `coordinateBuckets` settles. -/
inductive LaunchEvent
  | beforeDispatch (i : ℕ) (turn : Turn)
  | proceed (i : ℕ)
  | resolve (i : ℕ) (result : FullResult)
  | reject (i : ℕ) (err : Failure) (turn : Turn)
  | settle

/-- One step.  A run function calls `beforeDispatch` at most once and waits for it before it
    resolves; it may reject at any time. -/
inductive Launch.Step (s : Launch) : LaunchEvent → Launch → Prop
  | beforeDispatch {i : ℕ} {turn : Turn} (hi : i < c.buckets.length)
      (hphase : s.phases i = .starting) :
      Step s (.beforeDispatch i turn) ((s.arrive c i turn).1.setPhase i
        (if (s.arrive c i turn).2.isSome then .thrown else .waiting))
  | proceed {i : ℕ} (hi : i < c.buckets.length) (hphase : s.phases i = .waiting)
      (hreleased : s.released = true) : Step s (.proceed i) (s.setPhase i .running)
  | resolve {i : ℕ} {result : FullResult} (hi : i < c.buckets.length)
      (hphase : s.phases i = .running) :
      Step s (.resolve i result) (s.setPhase i (.fulfilled (some result)))
  | failStart {i : ℕ} {err : Failure} {turn : Turn} (hi : i < c.buckets.length)
      (hphase : s.phases i = .starting) :
      Step s (.reject i err turn)
        (({ s with startFailures := s.startFailures ++ [(i, err)] }.arrive c i turn).1.setPhase i
          (match ({ s with startFailures := s.startFailures ++ [(i, err)] }.arrive c i turn).2 with
            | none => .fulfilled none
            | some thrown => .rejected thrown))
  | failRun {i : ℕ} {err : Failure} {turn : Turn} (hi : i < c.buckets.length)
      (hphase : s.phases i = .waiting ∨ s.phases i = .thrown ∨ s.phases i = .running) :
      Step s (.reject i err turn) (s.setPhase i (.rejected err))
  | settle (hopen : s.outcome.isNone) (hall : ∀ i < c.buckets.length, (s.phases i).Settled) :
      Step s .settle { s with outcome := some (s.conclude c) }

end Coordinate

end Tapsmith.Dispatch
