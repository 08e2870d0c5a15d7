import Tapsmith.Lib.Machine
import Tapsmith.RunAll.Plan

namespace Tapsmith.RunAll.Parallel

open Lib.Machine

/-!
# Files and the workers of UI mode

`dispatchFilesParallel` of `ui-server.ts` hands the files of a run to the workers of UI mode, one at
a time each, until all are done, the user stops the run or no worker is left.  A worker may be bound
to a device target (its bucket), and is then only handed the files of projects on that target.

* `Dispatch.failUnservableFile`, `Dispatch.maybeResolve` — the closures of the source;
* `Dispatch.dispatchStep`, `Dispatch.retireWith` — `dispatchNext` and `retireWorker`, which call
  each other until a worker takes a file or none is left;
* `dispatchFilesParallel` — the synchronous start;
* `Dispatch.step` — a message of a worker, the end of its process, or the user.

Names of projects and buckets are not empty.  A worker is meant by its place in `activeWorkers`.
-/

/-! ### The data -/

/-- A copy of a file that the dispatch makes for its queue; `id` is the identity of the object. -/
structure Entry where
  id : ℕ
  file : PlannedFile
  reported : Option (List String) := none
deriving DecidableEq

/-- The process of a worker: whether its channel is open, and the `run-file` messages it was sent
    and has not answered. -/
structure WorkerProcess where
  connected : Bool := true
  inbox : List Entry := []
deriving DecidableEq

structure UIWorkerHandle where
  bucketSignature : Option String := none
  retired : Bool := false
  busy : Bool := false
  -- `reportedInFile` is the set of this very entry
  currentFile : Option Entry := none
  currentTest : Option String := none
  process : WorkerProcess := {}
deriving DecidableEq

/-- A result of a `file-done`, as far as it is counted; a test that fails may have been stopped by
    the user. -/
inductive TestResult
  | passed
  | failed (stoppedByUser : Bool)
  | skipped
deriving DecidableEq

def TestResult.isFailed : TestResult → Bool
  | .failed _ => true
  | _ => false

/-- How the promise is settled. -/
inductive Settled
  | resolved
  | rejected
deriving DecidableEq

/-- What becomes of an entry: it is sent to a worker, answered by one, failed for want of one, or
    was with a worker that died while the run was being stopped. -/
inductive Event
  | sent (worker : ℕ) (entry : Entry)
  | done (worker : ℕ) (entry : Entry) (results : List TestResult)
  | unservable (entry : Entry) (failures : ℕ)
  | interrupted (worker : ℕ) (entry : Entry)
deriving DecidableEq

/-- What the server knows of the files: the buckets of projects where there are several targets,
    the tests of a file in the tree, and the files that the config selects nothing in. -/
structure UIServerContext where
  bucketByProject : Option (String → Option String)
  treeTestsOf : PlannedFile → List String
  grepExcludesRun : PlannedFile → Bool

/-- The variables of the dispatch, and what has happened so far. -/
structure Dispatch where
  activeWorkers : List UIWorkerHandle
  fileQueue : List Entry
  parallelRunAborted : Bool := false
  settled : Option Settled := none
  initialDispatchDone : Bool := false
  passed : ℕ := 0
  failed : ℕ := 0
  skipped : ℕ := 0
  duration : ℕ := 0
  anyFailed : Bool := false
  failedProjects : List String := []
  interruptedCount : ℕ := 0
  log : List Event := []
deriving DecidableEq

namespace Dispatch

variable (ctx : UIServerContext)

def setWorker (d : Dispatch) (i : ℕ) (worker : UIWorkerHandle) : Dispatch :=
  { d with activeWorkers := d.activeWorkers.set i worker }

/-! ### Files that no worker can run -/

/-- The failures that `failUnservableFile` records. -/
def failures (entry : Entry) : ℕ :=
  let selected := ctx.treeTestsOf entry.file
  -- only for a file that no worker has started
  if entry.reported = none ∧ selected = [] ∧ ctx.grepExcludesRun entry.file = true then 0
  else max 1 (selected.filter (· ∉ entry.reported.getD [])).length

/-- `failUnservableFile`, and what the dispatch counts of it. -/
def failUnservableFile (d : Dispatch) (entry : Entry) : Dispatch :=
  let n := failures ctx entry
  { d with
    failed := d.failed + n
    anyFailed := d.anyFailed || 0 < n
    failedProjects := d.failedProjects ++ if 0 < n then entry.file.projectName.toList else []
    log := d.log ++ [.unservable entry n] }

def failUnservableFiles (d : Dispatch) (entries : List Entry) : Dispatch :=
  entries.foldl (failUnservableFile ctx) d

/-! ### Settling -/

/-- No worker has a file. -/
def allDone (d : Dispatch) : Bool := d.activeWorkers.all fun w => w.retired || !w.busy

def settleResolve (d : Dispatch) : Dispatch :=
  if d.settled.isSome then d else { d with settled := some .resolved }

def maybeResolve (d : Dispatch) : Dispatch :=
  if d.settled.isSome then d
  else if d.parallelRunAborted then
    if d.allDone then d.settleResolve else d
  else if d.fileQueue ≠ [] then
    -- not all workers have been offered work yet
    if d.initialDispatchDone = false then d
    else if d.allDone then
      settleResolve { failUnservableFiles ctx d d.fileQueue with fileQueue := [] }
    else d
  else if d.allDone then d.settleResolve
  else d

/-! ### Handing out -/

/-- A worker may run a file: it is of the worker's bucket, or of none. -/
def serves (worker : UIWorkerHandle) (entry : Entry) : Bool :=
  match ctx.bucketByProject, worker.bucketSignature with
  | some bucket, some signature =>
    ((entry.file.projectName.bind bucket).all (· = signature) : Bool)
  | _, _ => true

/-- A worker with its next entry. -/
def taking (worker : UIWorkerHandle) (next : Entry) : UIWorkerHandle :=
  { worker with
    busy := true
    currentFile := some { next with reported := some (next.reported.getD []) }
    currentTest := none }

/-- The next entry of a worker is taken out of the queue. -/
def assign (d : Dispatch) (i : ℕ) (worker : UIWorkerHandle) (next : Entry) : Dispatch :=
  setWorker { d with fileQueue := d.fileQueue.eraseP (serves ctx worker) } i (taking worker next)

/-- `run-file` is sent to a worker that is assigned the entry. -/
def send (d : Dispatch) (i : ℕ) (worker : UIWorkerHandle) (entry : Entry) : Dispatch :=
  setWorker { d with log := d.log ++ [.sent i entry] } i
    { worker with process := { worker.process with inbox := worker.process.inbox ++ [entry] } }

def setIdle (d : Dispatch) (i : ℕ) (worker : UIWorkerHandle) : Dispatch :=
  d.setWorker i { worker with busy := false, currentFile := none, currentTest := none }

/-- `dispatchNext`, with the `retireWorker` that it calls. -/
def dispatchStep (retire : Dispatch → ℕ → Dispatch) (d : Dispatch) (i : ℕ) : Dispatch :=
  match d.activeWorkers[i]? with
  | none => d
  | some worker =>
    if worker.retired ∨ d.parallelRunAborted then d
    else
      match d.fileQueue.find? (serves ctx worker) with
      | none => (d.setIdle i worker).maybeResolve ctx
      | some next =>
        let assigned := d.assign ctx i worker next
        if worker.process.connected then assigned.send i (taking worker next) next
        -- retiring requeues the entry, which is now that of the worker
        else retire assigned i

/-! ### Retiring -/

/-- The worker is retired, and its file goes back to the front of the queue. -/
def withdraw (d : Dispatch) (i : ℕ) (worker : UIWorkerHandle) : Dispatch :=
  let d := d.setWorker i
    { worker with retired := true, busy := false, currentFile := none, currentTest := none }
  match worker.currentFile with
  | none => d
  | some entry =>
    if d.parallelRunAborted then
      { d with
        interruptedCount := d.interruptedCount + if worker.currentTest.isSome then 1 else 0
        log := d.log ++ [.interrupted i entry] }
    else { d with fileQueue := entry :: d.fileQueue }

def remaining (d : Dispatch) : List UIWorkerHandle := d.activeWorkers.filter (!·.retired)

/-- An entry of the queue that `drainUnservableFiles` takes out. -/
def isOrphan (d : Dispatch) (entry : Entry) : Bool :=
  if d.remaining = [] then true
  else
    match ctx.bucketByProject with
    | none => false
    | some bucket =>
      match entry.file.projectName.bind bucket with
      | none => false
      | some signature => d.remaining.all (·.bucketSignature ≠ some signature)

/-- `drainUnservableFiles`, and the failures of what is drained. -/
def drain (d : Dispatch) : Dispatch :=
  failUnservableFiles ctx { d with fileQueue := d.fileQueue.filter (!d.isOrphan ctx ·) }
    (d.fileQueue.filter (d.isOrphan ctx))

/-- The first live worker that has no file. -/
def idleWorker? (d : Dispatch) : Option ℕ :=
  d.activeWorkers.findIdx? fun w => !w.retired && !w.busy

/-- Where a worker has been retired: the promise is settled if it was the last one, and an idle one
    is offered what there is. -/
def resume (dispatch : Dispatch → ℕ → Dispatch) (d : Dispatch) : Dispatch :=
  if d.remaining = [] then
    if d.parallelRunAborted then d.settleResolve
    else { d with settled := some .rejected }
  else
    match d.idleWorker? with
    | some j => (dispatch d j).maybeResolve ctx
    | none => d.maybeResolve ctx

/-- `retireWorker`, with the `dispatchNext` that it calls. -/
def retireWith (dispatch : Dispatch → ℕ → Dispatch) (d : Dispatch) (i : ℕ) : Dispatch :=
  match d.activeWorkers[i]? with
  | none => d
  | some worker =>
    if worker.retired then d else resume ctx dispatch ((d.withdraw i worker).drain ctx)

/-- `dispatchNext` and `retireWorker`, where no more than so many workers are live: each round
    retires one of them. -/
def dispatchWith : ℕ → Dispatch → ℕ → Dispatch
  | 0 => dispatchStep ctx fun d _ => d
  | live + 1 => dispatchStep ctx (retireWith ctx (dispatchWith live))

def dispatchNext (d : Dispatch) (i : ℕ) : Dispatch := dispatchWith ctx d.remaining.length d i

def retireWorker (d : Dispatch) (i : ℕ) : Dispatch :=
  retireWith ctx (dispatchWith ctx d.remaining.length) d i

/-! ### Messages -/

/-- What is counted of a `file-done`. -/
def countDone (d : Dispatch) (i : ℕ) (worker : UIWorkerHandle) (entry : Entry)
    (results : List TestResult) (durationMs : ℕ) : Dispatch :=
  let interruptedHere := results.count (.failed true)
  let anyHere := results.any TestResult.isFailed
  { d with
    interruptedCount := d.interruptedCount + interruptedHere
    passed := d.passed + results.count .passed
    failed := d.failed + (results.countP TestResult.isFailed - interruptedHere)
    skipped := d.skipped + results.count .skipped
    duration := d.duration + durationMs
    anyFailed := d.anyFailed || anyHere
    failedProjects := d.failedProjects ++
      if anyHere then (worker.currentFile.bind fun e => e.file.projectName).toList else []
    log := d.log ++ [.done i entry results] }

/-- `file-done`. -/
def onFileDone (d : Dispatch) (i : ℕ) (worker : UIWorkerHandle) (entry : Entry)
    (results : List TestResult) (durationMs : ℕ) : Dispatch :=
  let d := d.countDone i worker entry results durationMs
  let free := { worker with currentFile := none, currentTest := none }
  if d.parallelRunAborted then
    (d.setWorker i { free with busy := false }).maybeResolve ctx
  else (d.setWorker i free).dispatchNext ctx i

/-- The user stops the run. -/
def stopParallelRun (d : Dispatch) : Dispatch := { d with parallelRunAborted := true }

/-- A worker that `escalateStop` kills. -/
def isWedged (worker : UIWorkerHandle) : Bool := !worker.retired && worker.busy

/-- The workers that have not stopped are killed and retired. -/
def killWedged (d : Dispatch) : Dispatch :=
  { d with
    activeWorkers := d.activeWorkers.map fun w =>
      if isWedged w then
        { w with retired := true, busy := false, currentFile := none, currentTest := none }
      else w
    interruptedCount := d.interruptedCount + d.activeWorkers.countP fun w =>
      isWedged w && w.currentFile.isSome && w.currentTest.isSome
    log := d.log ++ d.activeWorkers.zipIdx.flatMap fun (w, i) =>
      if isWedged w then w.currentFile.toList.map (.interrupted i) else [] }

/-- `escalateStop`: the dispatch is settled with that. -/
def escalateStop (d : Dispatch) : Dispatch :=
  if d.parallelRunAborted = false then d
  else if d.activeWorkers.any isWedged then d.killWedged.settleResolve
  else d

/-- What happens next. -/
inductive Op
  | testStart (i : ℕ) (fullName : String)
  | testEnd (i : ℕ) (fullName : String)
  | fileDone (i : ℕ) (results : List TestResult) (durationMs : ℕ)
  | error (i : ℕ)
  | exit (i : ℕ)
  | disconnect (i : ℕ)
  | stop
  | escalate
deriving DecidableEq

/-- A message of a process is handled; those of a retired worker are not listened to. -/
def onMessage (d : Dispatch) (i : ℕ) (worker : UIWorkerHandle) : Op → Option Dispatch
  | .testStart _ fullName =>
    if worker.retired then some d
    else some (d.setWorker i { worker with currentTest := some fullName })
  | .testEnd _ fullName =>
    if worker.retired then some d
    else some (d.setWorker i
      { worker with
        currentFile := worker.currentFile.map fun e =>
          { e with reported := some (e.reported.getD [] ++ [fullName]) } })
  | .fileDone _ results durationMs =>
    match worker.process.inbox with
    | [] => none
    | entry :: rest =>
      let worker := { worker with process := { worker.process with inbox := rest } }
      if worker.retired then some (d.setWorker i worker)
      else some (d.onFileDone ctx i worker entry results durationMs)
  | .error _ => if worker.retired then some d else some (d.retireWorker ctx i)
  | .exit _ =>
    let gone := d.setWorker i { worker with process := { connected := false, inbox := [] } }
    if worker.retired then some (gone.maybeResolve ctx) else some (gone.retireWorker ctx i)
  | .disconnect _ =>
    some (d.setWorker i { worker with process := { worker.process with connected := false } })
  | _ => none

def Op.worker : Op → Option ℕ
  | .testStart i _ => some i
  | .testEnd i _ => some i
  | .fileDone i _ _ => some i
  | .error i => some i
  | .exit i => some i
  | .disconnect i => some i
  | _ => none

/-- A step of a dispatch that is not settled. -/
def step (d : Dispatch) (op : Op) : Option Dispatch :=
  if d.settled.isSome then none
  else
    match op with
    | .stop => some d.stopParallelRun
    | .escalate => some d.escalateStop
    | _ => op.worker.bind fun i => d.activeWorkers[i]?.bind fun w => d.onMessage ctx i w op

end Dispatch

/-! ### The start -/

/-- The queue of a dispatch. -/
def entries (files : List PlannedFile) : List Entry :=
  files.zipIdx.map fun (file, id) => { id, file }

/-- `dispatchFilesParallel` up to where it waits; the device targets of the files with an id in
    `unavailable` could not be started. -/
def dispatchFilesParallel (ctx : UIServerContext) (workers : List UIWorkerHandle)
    (files : List PlannedFile) (unavailable : List ℕ) : Dispatch :=
  let d := Dispatch.failUnservableFiles ctx { activeWorkers := workers, fileQueue := [] }
    ((entries files).filter (·.id ∈ unavailable))
  let queue := (entries files).filter (·.id ∉ unavailable)
  if queue = [] then { d with settled := some .resolved }
  else if workers = [] then
    { d.failUnservableFiles ctx queue with settled := some .resolved, anyFailed := true }
  else
    let d := (List.range workers.length).foldl (Dispatch.dispatchNext ctx)
      { d with fileQueue := queue }
    Dispatch.maybeResolve ctx { d with initialDispatchDone := true }

end Tapsmith.RunAll.Parallel
