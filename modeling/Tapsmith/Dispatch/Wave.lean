import Mathlib.Logic.Function.Basic
import Tapsmith.Dispatch.Result

namespace Tapsmith.Dispatch

/-!
# One wave of files

`dispatchWaveInner` of `dispatcher.ts` hands the files of a wave to worker processes, one at a
time each, and settles its promise when all are done or no worker is left.  Between its turns
anything may happen to a worker: it sends a message, its process exits, its IPC channel reports
an error, or a message that could not be sent is reported as such.

* `Wave.dispatchNext`, `Wave.retireWorker`, `Wave.onMessage` — the closures of the source;
* `Wave.start` — the synchronous start of the wave;
* `WorkerProcess.send` — the protocol that a worker process keeps to;
* `Wave.step` — one turn of the event loop.
-/

/-! ### The parties -/

/-- The bookkeeping of a `WorkerHandle`. -/
structure WorkerHandle where
  busy : Bool := false
  currentFile : Option TaggedFile := none
  retired : Bool := false
deriving DecidableEq

/-- A worker process, as far as the dispatcher can tell: the `run-file` messages it has got and
    not answered, the first of which it is running; whether it has reported the start of that
    file; and the number of sends to it that have failed and are still to be reported. -/
structure WorkerProcess where
  inbox : List TaggedFile := []
  started : Bool := false
  failing : ℕ := 0
deriving DecidableEq

/-- A `WorkerToMainMessage`.  The ones about a file come with the `run-file` they are about, of
    which the real ones have the path. -/
inductive Message
  | testStart (file : TaggedFile) (fullName : String)
  | testEnd (file : TaggedFile) (result : TestResult)
  | fileStart (file : TaggedFile)
  | fileRetry (file : TaggedFile)
  | fileDone (file : TaggedFile) (results : List TestResult)
  | progress (message : String)
  | error (message : String)
deriving DecidableEq

/-- What a process that keeps to the protocol may send, and what it is like afterwards. -/
def WorkerProcess.send (p : WorkerProcess) : Message → Option WorkerProcess
  | .fileStart file =>
    if p.inbox.head? = some file ∧ p.started = false then some { p with started := true } else none
  | .testStart file _ => if p.inbox.head? = some file ∧ p.started = true then some p else none
  | .testEnd file _ => if p.inbox.head? = some file ∧ p.started = true then some p else none
  | .fileRetry file => if p.inbox.head? = some file ∧ p.started = true then some p else none
  | .fileDone file _ =>
    if p.inbox.head? = some file ∧ p.started = true then
      some { p with inbox := p.inbox.tail, started := false }
    else none
  | .progress _ => some p
  | .error _ => some p

/-- What becomes of a message given to `sendToWorkerProcess`: whether it reaches the process,
    and whether its failure is going to be reported.  A closed channel is the case of a message
    that does not arrive and fails. -/
structure Sending where
  delivered : Bool
  fails : Bool
deriving DecidableEq

/-- What the dispatcher does that others can see: its `run-file` messages and its calls of the
    reporter, with the worker they are made for. -/
inductive Call
  | runFile (worker : ℕ) (file : TaggedFile)
  | testFileStart (file : TaggedFile)
  | testStart (worker : ℕ) (file : TaggedFile) (fullName : String)
  | testEnd (worker : ℕ) (file : TaggedFile) (result : TestResult)
  | testFileRetry (worker : ℕ) (file : TaggedFile) (discarded : ℕ)
  | testFileEnd (worker : ℕ) (file : TaggedFile) (results : List TestResult)
deriving DecidableEq

/-- The variables of `dispatchWaveInner`, the worker processes, and the calls made so far, the
    last one first.  Workers go by their ids. -/
structure Wave where
  fileQueue : List TaggedFile
  hasError : Bool := false
  settled : Bool := false
  workers : ℕ → WorkerHandle
  workerTestCounts : ℕ → Option ℕ := fun _ => none
  allResults : List TestResult
  processes : ℕ → WorkerProcess := fun _ => {}
  calls : List Call := []

namespace Wave

/-! ### The closures of `dispatchWaveInner` -/

section Closures

variable (workerIds : List ℕ)

def setWorker (s : Wave) (id : ℕ) (worker : WorkerHandle) : Wave :=
  { s with workers := Function.update s.workers id worker }

def maybeResolve (s : Wave) : Wave :=
  if s.settled || s.hasError then s
  else if s.fileQueue ≠ [] then s
  else if workerIds.all fun id => (s.workers id).retired || !(s.workers id).busy then
    { s with settled := true }
  else s

def failRun (s : Wave) : Wave :=
  if s.settled || s.hasError then s else { s with hasError := true, settled := true }

/-- `sendToWorkerProcess`, for a `run-file` message. -/
def sendToWorkerProcess (sending : Sending) (id : ℕ) (file : TaggedFile) (s : Wave) : Wave :=
  let process := s.processes id
  { s with
    calls := .runFile id file :: s.calls
    processes := Function.update s.processes id
      { process with
        inbox := if sending.delivered then process.inbox ++ [file] else process.inbox
        failing := if sending.fails then process.failing + 1 else process.failing } }

def dispatchNext (sending : Sending) (id : ℕ) (s : Wave) : Wave :=
  let worker := s.workers id
  if worker.retired then s
  else
    match s.fileQueue with
    | [] => maybeResolve workerIds (s.setWorker id { worker with busy := false, currentFile := none })
    | next :: rest =>
      sendToWorkerProcess sending id next
        { s with
          fileQueue := rest
          workers := Function.update s.workers id
            { worker with busy := true, currentFile := some next }
          calls := .testFileStart next :: s.calls }

/-- The first part of `retireWorker`: the worker goes, its file returns to the front of the
    queue and the reporter takes back what it was told of it. -/
def withdraw (id : ℕ) (s : Wave) : Wave :=
  let gone := s.setWorker id { retired := true, currentFile := none, busy := false }
  match (s.workers id).currentFile with
  | none => gone
  | some file =>
    let discarded := (s.workerTestCounts id).getD 0
    { gone with
      workerTestCounts := Function.update s.workerTestCounts id none
      calls := if 0 < discarded then .testFileRetry id file discarded :: s.calls else s.calls
      fileQueue := file :: s.fileQueue }

def retireWorker (sending : Sending) (id : ℕ) (s : Wave) : Wave :=
  let worker := s.workers id
  if worker.retired then s
  -- the wave is over, so no work is lost with the worker
  else if s.settled then s.setWorker id { worker with retired := true }
  else
    let s := s.withdraw id
    let activeWorkers := workerIds.filter fun id => !(s.workers id).retired
    if activeWorkers = [] then s.failRun
    else
      match activeWorkers.find? fun id => !(s.workers id).busy with
      | some idleWorker => maybeResolve workerIds (dispatchNext workerIds sending idleWorker s)
      | none => maybeResolve workerIds s

/-! ### Message handlers -/

def handleParallelTestEndMessage (id : ℕ) (file : TaggedFile) (result : TestResult) (s : Wave) :
    Wave :=
  { s with
    workerTestCounts :=
      if result.willRetry then s.workerTestCounts
      else Function.update s.workerTestCounts id (some ((s.workerTestCounts id).getD 0 + 1))
    calls := .testEnd id file result :: s.calls }

def handleParallelFileRetryMessage (id : ℕ) (file : TaggedFile) (s : Wave) : Wave :=
  { s with
    workerTestCounts := Function.update s.workerTestCounts id (some 0)
    calls := .testFileRetry id file ((s.workerTestCounts id).getD 0) :: s.calls }

/-- `handleParallelFileDoneMessage` and what its caller does with the results. -/
def handleParallelFileDoneMessage (id : ℕ) (file : TaggedFile) (results : List TestResult)
    (s : Wave) : Wave :=
  { s with
    workers := Function.update s.workers id { s.workers id with currentFile := none }
    workerTestCounts := Function.update s.workerTestCounts id none
    allResults := s.allResults ++ results
    calls := .testFileEnd id file results :: s.calls }

/-- The listener for messages of a worker. -/
def onMessage (sending : Sending) (id : ℕ) (msg : Message) (s : Wave) : Wave :=
  if s.hasError || (s.workers id).retired then s
  else
    match msg with
    | .testStart file fullName => { s with calls := .testStart id file fullName :: s.calls }
    | .testEnd file result => s.handleParallelTestEndMessage id file result
    | .fileStart _ => { s with workerTestCounts := Function.update s.workerTestCounts id (some 0) }
    | .fileRetry file => s.handleParallelFileRetryMessage id file
    | .fileDone file results =>
      dispatchNext workerIds sending id (s.handleParallelFileDoneMessage id file results)
    | .progress _ => s
    | .error _ => retireWorker workerIds sending id s

/-- The listener for the exit of a worker process. -/
def onExit (sending : Sending) (id : ℕ) (s : Wave) : Wave :=
  if !s.hasError && !(s.workers id).retired then retireWorker workerIds sending id s else s

/-! ### The start and the turns of the event loop -/

/-- The wave before anything is dispatched.  Workers retired by an earlier wave stay retired. -/
def initial (retired : ℕ → Bool) (files : List TaggedFile) (results : List TestResult) : Wave :=
  { fileQueue := files, workers := fun id => { retired := retired id }, allResults := results }

/-- The body of the promise. -/
def start (retired : ℕ → Bool) (files : List TaggedFile) (results : List TestResult)
    (sendings : ℕ → Sending) : Wave :=
  let s := initial retired files results
  if workerIds.all fun id => (s.workers id).retired then s.failRun
  else workerIds.foldl (fun s id => dispatchNext workerIds (sendings id) id s) s

end Closures

end Wave

/-- What happens to a worker. -/
inductive Happening
  | message (msg : Message)
  | exit
  | ipcError
  | sendFailed
deriving DecidableEq

/-- A turn of the event loop: what happens to which worker, and what becomes of the message
    that the turn sends, if it sends one. -/
structure Event where
  worker : ℕ
  happening : Happening
  sending : Sending := { delivered := true, fails := false }
deriving DecidableEq

/-- One turn.  A worker that has exited or was retired may still be heard of. -/
def Wave.step (workerIds : List ℕ) (s : Wave) (e : Event) : Option Wave :=
  if e.worker ∉ workerIds then none
  else
    let process := s.processes e.worker
    match e.happening with
    | .message msg =>
      (process.send msg).map fun process =>
        { s with processes := Function.update s.processes e.worker process }.onMessage workerIds
          e.sending e.worker msg
    | .exit => some (s.onExit workerIds e.sending e.worker)
    | .ipcError => some (s.retireWorker workerIds e.sending e.worker)
    | .sendFailed =>
      if process.failing = 0 then none
      else
        some ({ s with
          processes := Function.update s.processes e.worker
            { process with failing := process.failing - 1 } }.retireWorker workerIds e.sending
              e.worker)

def Wave.Step (workerIds : List ℕ) (s : Wave) (e : Event) (s' : Wave) : Prop :=
  s.step workerIds e = some s'

end Tapsmith.Dispatch
