import Tapsmith.Dispatch.Ledger
import Tapsmith.Lib.Machine

namespace Tapsmith.Dispatch

open Lib.Tally Lib.Machine

/-!
# What holds throughout a wave

* `Wave.Core` — every file is in the queue, with one worker or done, and the records of every
  worker agree with its process and with the calls made for it;
* `Wave.Inv` — besides, an unsettled wave has a busy worker, and no idle one while files wait;
* `Wave.Inv.step`, `Wave.inv_start` — each turn of the event loop keeps this, and the start of
  the wave brings it about.
-/

/-! ### The records of one worker -/

/-- A live worker has been sent its current file and nothing else, has got at most that, and is
    counted what it reported in the current attempt; it reports nothing before the start of the
    file.  A retired worker has no file. -/
structure WorkerInv (worker : WorkerHandle) (process : WorkerProcess) (count : Option ℕ)
    (sent reported : List TaggedFile) : Prop where
  sent_le : sent.length ≤ 1
  retired : worker.retired = true → worker.currentFile = none ∧ reported = []
  sent_eq : worker.retired = false → sent = worker.currentFile.toList
  inbox : worker.retired = false →
    process.inbox = [] ∨ process.inbox = worker.currentFile.toList
  count_eq : worker.retired = false → count.getD 0 = reported.length
  reported_eq : worker.retired = false → ∀ f ∈ reported, worker.currentFile = some f
  fresh : worker.retired = false → process.started = false → reported = []
  waiting : worker.retired = false → process.inbox = [] → process.started = false

section Worker

variable {worker : WorkerHandle} {process : WorkerProcess} {count : Option ℕ}
  {sent reported : List TaggedFile}

theorem WorkerInv.reported_nil (h : WorkerInv worker process count sent reported)
    (hnone : worker.currentFile = none) : reported = [] := by
  cases hretired : worker.retired with
  | true => exact (h.retired hretired).2
  | false =>
    rw [List.eq_nil_iff_forall_not_mem]
    intro f hf
    have := h.reported_eq hretired f hf
    rw [hnone] at this
    cases this

/-- What a live worker has reported is of its current file. -/
theorem WorkerInv.reported_replicate (h : WorkerInv worker process count sent reported)
    (hlive : worker.retired = false) {file : TaggedFile} (hfile : worker.currentFile = some file) :
    reported = List.replicate (count.getD 0) file := by
  rw [List.eq_replicate_iff]
  refine ⟨(h.count_eq hlive).symm, ?_⟩
  intro f hf
  have := h.reported_eq hlive f hf
  rw [hfile] at this
  exact (Option.some.inj this).symm

/-- The file that a live process may send messages about is its current file. -/
theorem WorkerInv.current (h : WorkerInv worker process count sent reported)
    (hlive : worker.retired = false) {file : TaggedFile} (hhead : process.inbox.head? = some file) :
    worker.currentFile = some file ∧ process.inbox = [file] := by
  rcases h.inbox hlive with hnil | hcur
  · rw [hnil] at hhead
    cases hhead
  · rw [hcur] at hhead ⊢
    cases hfile : worker.currentFile with
    | none =>
      rw [hfile] at hhead
      cases hhead
    | some f =>
      rw [hfile] at hhead
      cases hhead
      exact ⟨rfl, rfl⟩

end Worker

/-! ### The records of all -/

/-- The files that the workers have, with `p`. -/
def Wave.inWork (workerIds : List ℕ) (p : TaggedFile → Bool) (s : Wave) : ℕ :=
  tally workerIds fun id => (s.workers id).currentFile.toList.countP p

structure Wave.Core (workerIds : List ℕ) (files : List TaggedFile) (results : List TestResult)
    (s : Wave) : Prop where
  conserved : ∀ p, files.countP p =
    s.fileQueue.countP p + s.inWork workerIds p + ((dones s.calls).map Prod.fst).countP p
  results : s.allResults = results ++ (dones s.calls).flatMap Prod.snd
  faithful : Faithful workerIds s.calls
  worker : ∀ id ∈ workerIds, WorkerInv (s.workers id) (s.processes id) (s.workerTestCounts id)
    (assigned id s.calls) (attempt id s.calls)

section Core

variable {workerIds : List ℕ} {files : List TaggedFile} {results : List TestResult} {s s' : Wave}
  {id : ℕ}

/-- Two waves differ in the records of one worker at most. -/
structure Wave.SameBut (id : ℕ) (s s' : Wave) : Prop where
  workers : ∀ j, j ≠ id → s'.workers j = s.workers j
  processes : ∀ j, j ≠ id → s'.processes j = s.processes j
  counts : ∀ j, j ≠ id → s'.workerTestCounts j = s.workerTestCounts j
  assigned : ∀ j, j ≠ id → assigned j s'.calls = assigned j s.calls
  attempt : ∀ j, j ≠ id → attempt j s'.calls = attempt j s.calls

/-- **One worker changes.**  The records stay in order where those of the worker do and the files
    that leave one place come to another. -/
theorem Wave.Core.change (h : s.Core workerIds files results) (hnodup : workerIds.Nodup)
    (hid : id ∈ workerIds) (hsame : s.SameBut id s')
    (hmoved : ∀ p, s'.fileQueue.countP p + (s'.workers id).currentFile.toList.countP p +
        ((dones s'.calls).map Prod.fst).countP p =
      s.fileQueue.countP p + (s.workers id).currentFile.toList.countP p +
        ((dones s.calls).map Prod.fst).countP p)
    (hresults : s'.allResults = results ++ (dones s'.calls).flatMap Prod.snd)
    (hfaithful : Faithful workerIds s'.calls)
    (hworker : WorkerInv (s'.workers id) (s'.processes id) (s'.workerTestCounts id)
      (Dispatch.assigned id s'.calls) (Dispatch.attempt id s'.calls)) :
    s'.Core workerIds files results := by
  refine ⟨?_, hresults, hfaithful, ?_⟩
  · intro p
    have hbefore := h.conserved p
    have hmove := hmoved p
    have hchange := tally_change (f := fun j => (s'.workers j).currentFile.toList.countP p)
      (g := fun j => (s.workers j).currentFile.toList.countP p) hnodup hid
      (fun j _ hne => by rw [hsame.workers j hne])
    unfold Wave.inWork at hbefore ⊢
    omega
  · intro j hj
    by_cases hne : j = id
    · rw [hne]
      exact hworker
    · rw [hsame.workers j hne, hsame.processes j hne, hsame.counts j hne, hsame.assigned j hne,
        hsame.attempt j hne]
      exact h.worker j hj

/-- The flags of the promise are not among the records. -/
theorem Wave.Core.flags (h : s.Core workerIds files results) (hasError settled : Bool) :
    { s with hasError, settled }.Core workerIds files results :=
  ⟨h.conserved, h.results, h.faithful, h.worker⟩

theorem Wave.maybeResolve_of_settled (h : s.settled = true) : s.maybeResolve workerIds = s := by
  simp [maybeResolve, h]

variable (workerIds) in
/-- An open wave is resolved if nothing is queued and nobody is busy. -/
theorem Wave.maybeResolve_cases (hsettled : s.settled = false) (herror : s.hasError = false) :
    (s.fileQueue = [] ∧
        (∀ id ∈ workerIds, (s.workers id).retired = false → (s.workers id).busy = false) ∧
        s.maybeResolve workerIds = { s with settled := true }) ∨
      ((s.fileQueue = [] →
          ∃ id ∈ workerIds, (s.workers id).retired = false ∧ (s.workers id).busy = true) ∧
        s.maybeResolve workerIds = s) := by
  have hopen : ¬ (s.settled || s.hasError) = true := by simp [hsettled, herror]
  rw [maybeResolve, if_neg hopen]
  by_cases hqueue : s.fileQueue = []
  · rw [if_neg (not_not.mpr hqueue)]
    by_cases hall : (workerIds.all fun id => (s.workers id).retired || !(s.workers id).busy) = true
    · rw [if_pos hall]
      refine .inl ⟨hqueue, ?_, rfl⟩
      intro id hid hlive
      simpa [hlive] using List.all_eq_true.mp hall id hid
    · rw [if_neg hall]
      refine .inr ⟨fun _ => ?_, rfl⟩
      simpa using hall
  · rw [if_pos hqueue]
    exact .inr ⟨fun hnil => absurd hnil hqueue, rfl⟩

/-! ### Giving files out and taking them back -/

theorem Wave.dispatchNext_nil {sending : Sending} (hlive : (s.workers id).retired = false)
    (hqueue : s.fileQueue = []) :
    s.dispatchNext workerIds sending id = maybeResolve workerIds
      (s.setWorker id { s.workers id with busy := false, currentFile := none }) := by
  rw [dispatchNext, hqueue]
  simp [hlive]

theorem Wave.dispatchNext_cons {sending : Sending} {next : TaggedFile} {rest : List TaggedFile}
    (hlive : (s.workers id).retired = false) (hqueue : s.fileQueue = next :: rest) :
    s.dispatchNext workerIds sending id = sendToWorkerProcess sending id next
      { s with
        fileQueue := rest
        workers := Function.update s.workers id
          { s.workers id with busy := true, currentFile := some next }
        calls := .testFileStart next :: s.calls } := by
  rw [dispatchNext, hqueue]
  simp [hlive]

theorem Wave.Core.setIdle (h : s.Core workerIds files results) (hnodup : workerIds.Nodup)
    (hid : id ∈ workerIds) (hnone : (s.workers id).currentFile = none) :
    (s.setWorker id { s.workers id with busy := false, currentFile := none }).Core
      workerIds files results := by
  refine h.change hnodup hid ⟨?_, fun _ _ => rfl, fun _ _ => rfl, fun _ _ => rfl, fun _ _ => rfl⟩
    ?_ h.results h.faithful ?_
  · intro j hne
    exact Function.update_of_ne hne _ _
  · intro p
    simp [Wave.setWorker, hnone]
  · have hw := h.worker id hid
    obtain ⟨hsent, hretired, heq, hinbox, hcount, hreported, hfresh, hwaiting⟩ := hw
    rw [hnone] at hretired heq hinbox hreported
    simp only [Wave.setWorker, Function.update_self]
    exact ⟨hsent, hretired, heq, hinbox, hcount, hreported, hfresh, hwaiting⟩

theorem Wave.Core.give (h : s.Core workerIds files results) (hnodup : workerIds.Nodup)
    (hid : id ∈ workerIds) (hlive : (s.workers id).retired = false)
    (hnone : (s.workers id).currentFile = none) {next : TaggedFile} {rest : List TaggedFile}
    (hqueue : s.fileQueue = next :: rest) (sending : Sending) :
    (s.dispatchNext workerIds sending id).Core workerIds files results := by
  have hw := h.worker id hid
  have hsent : assigned id s.calls = [] := by
    rw [hw.sent_eq hlive, hnone]
    rfl
  have hreported := hw.reported_nil hnone
  have hinbox : (s.processes id).inbox = [] := by
    have := hw.inbox hlive
    rw [hnone] at this
    rcases this with hnil | hnil <;> exact hnil
  rw [Wave.dispatchNext_cons hlive hqueue]
  refine h.change hnodup hid ⟨?_, ?_, fun _ _ => rfl, ?_, ?_⟩ ?_ h.results ?_ ?_
  · intro j hne
    exact Function.update_of_ne hne _ _
  · intro j hne
    exact Function.update_of_ne hne _ _
  · intro j hne
    exact if_neg (Ne.symm hne)
  · intro j hne
    exact if_neg (Ne.symm hne)
  · intro p
    simp only [Wave.sendToWorkerProcess, Function.update_self, hnone, hqueue, dones]
    rw [List.countP_cons, Option.toList_some, Option.toList_none, List.countP_singleton,
      List.countP_nil]
    omega
  · exact ⟨⟨hid, hreported⟩, trivial, h.faithful⟩
  · have hcount := hw.count_eq hlive
    rw [hreported] at hcount
    simp only [Wave.sendToWorkerProcess, Function.update_self, assigned, attempt, if_true, hsent,
      hinbox]
    refine ⟨le_rfl, ?_, fun _ => rfl, ?_, fun _ => hcount,
      fun _ f hf => absurd hf List.not_mem_nil, fun _ _ => rfl, fun _ _ => hw.waiting hlive hinbox⟩
    · intro hretired
      rw [hlive] at hretired
      cases hretired
    · intro _
      cases sending.delivered with
      | true => exact .inr rfl
      | false => exact .inl rfl

/-- Taking the worker out moves its file to the front of the queue and discards its attempt. -/
theorem Wave.Core.withdraw (h : s.Core workerIds files results) (hnodup : workerIds.Nodup)
    (hid : id ∈ workerIds) (hlive : (s.workers id).retired = false) :
    (s.withdraw id).Core workerIds files results := by
  have hw := h.worker id hid
  rw [Wave.withdraw]
  cases hfile : (s.workers id).currentFile with
  | none =>
    refine h.change hnodup hid ⟨?_, fun _ _ => rfl, fun _ _ => rfl, fun _ _ => rfl, fun _ _ => rfl⟩
      ?_ h.results h.faithful ?_
    · intro j hne
      exact Function.update_of_ne hne _ _
    · intro p
      simp [Wave.setWorker, hfile]
    · simp only [Wave.setWorker, Function.update_self]
      exact ⟨hw.sent_le, fun _ => ⟨rfl, hw.reported_nil hfile⟩, nofun, nofun, nofun, nofun, nofun,
        nofun⟩
  | some file =>
    have hreported := hw.reported_replicate hlive hfile
    have hdiscard : ∀ j, dones (if 0 < (s.workerTestCounts id).getD 0 then
          .testFileRetry id file ((s.workerTestCounts id).getD 0) :: s.calls else s.calls) =
          dones s.calls ∧
        assigned j (if 0 < (s.workerTestCounts id).getD 0 then
          .testFileRetry id file ((s.workerTestCounts id).getD 0) :: s.calls else s.calls) =
          assigned j s.calls ∧
        attempt j (if 0 < (s.workerTestCounts id).getD 0 then
          .testFileRetry id file ((s.workerTestCounts id).getD 0) :: s.calls else s.calls) =
          if id = j then [] else attempt j s.calls := by
      intro j
      split
      · exact ⟨rfl, rfl, rfl⟩
      case isFalse hzero =>
        refine ⟨rfl, rfl, ?_⟩
        split
        case isTrue heq =>
          rw [← heq, hreported, Nat.eq_zero_of_not_pos hzero]
          rfl
        · rfl
    dsimp only
    refine h.change hnodup hid ⟨?_, fun _ _ => rfl, ?_, ?_, ?_⟩ ?_ ?_ ?_ ?_
    · intro j hne
      exact Function.update_of_ne hne _ _
    · intro j hne
      exact Function.update_of_ne hne _ _
    · intro j _
      exact (hdiscard j).2.1
    · intro j hne
      rw [(hdiscard j).2.2, if_neg (Ne.symm hne)]
    · intro p
      dsimp only
      rw [(hdiscard id).1]
      simp only [Wave.setWorker, Function.update_self, hfile, Option.toList_some, Option.toList_none,
        List.countP_cons, List.countP_nil]
      omega
    · dsimp only
      rw [(hdiscard id).1]
      exact h.results
    · dsimp only
      split
      · exact ⟨⟨hid, hreported⟩, h.faithful⟩
      · exact h.faithful
    · dsimp only
      rw [(hdiscard id).2.1, (hdiscard id).2.2, if_pos rfl]
      simp only [Wave.setWorker, Function.update_self]
      exact ⟨hw.sent_le, fun _ => ⟨rfl, rfl⟩, nofun, nofun, nofun, nofun, nofun, nofun⟩

/-- A worker without a file may go at any time. -/
theorem Wave.Core.drop (h : s.Core workerIds files results) (hnodup : workerIds.Nodup)
    (hid : id ∈ workerIds) (hnone : (s.workers id).currentFile = none) :
    (s.setWorker id { s.workers id with retired := true }).Core workerIds files results := by
  have hw := h.worker id hid
  refine h.change hnodup hid ⟨?_, fun _ _ => rfl, fun _ _ => rfl, fun _ _ => rfl, fun _ _ => rfl⟩
    ?_ h.results h.faithful ?_
  · intro j hne
    exact Function.update_of_ne hne _ _
  · intro p
    simp [Wave.setWorker, hnone]
  · simp only [Wave.setWorker, Function.update_self]
    exact ⟨hw.sent_le, fun _ => ⟨hnone, hw.reported_nil hnone⟩, nofun, nofun, nofun, nofun, nofun,
      nofun⟩

/-! ### Messages -/

/-- A message changes its process and the count of its worker, and adds a call. -/
theorem Wave.Core.told (h : s.Core workerIds files results) (hnodup : workerIds.Nodup)
    (hid : id ∈ workerIds) (hlive : (s.workers id).retired = false) {process : WorkerProcess}
    (call : Call) (count : Option ℕ) (hfits : call.Fits workerIds s.calls)
    (hdones : dones (call :: s.calls) = dones s.calls)
    (hassigned : ∀ j, assigned j (call :: s.calls) = assigned j s.calls)
    (hattempt : ∀ j, j ≠ id → attempt j (call :: s.calls) = attempt j s.calls)
    (hinbox : process.inbox = (s.processes id).inbox)
    (hcount : count.getD 0 = (attempt id (call :: s.calls)).length)
    (hreported : ∀ f ∈ attempt id (call :: s.calls), (s.workers id).currentFile = some f)
    (hfresh : process.started = false → attempt id (call :: s.calls) = [])
    (hwaiting : process.inbox = [] → process.started = false) (hworkers : s'.workers = s.workers)
    (hqueue : s'.fileQueue = s.fileQueue) (hresults : s'.allResults = s.allResults)
    (hprocesses : s'.processes = Function.update s.processes id process)
    (hcounts : s'.workerTestCounts = Function.update s.workerTestCounts id count)
    (hcalls : s'.calls = call :: s.calls) : s'.Core workerIds files results := by
  have hw := h.worker id hid
  refine h.change hnodup hid ⟨?_, ?_, ?_, ?_, ?_⟩ ?_ ?_ ?_ ?_
  · intro j _
    rw [hworkers]
  · intro j hne
    rw [hprocesses]
    exact Function.update_of_ne hne _ _
  · intro j hne
    rw [hcounts]
    exact Function.update_of_ne hne _ _
  · intro j _
    rw [hcalls]
    exact hassigned j
  · intro j hne
    rw [hcalls]
    exact hattempt j hne
  · intro p
    rw [hworkers, hqueue, hcalls, hdones]
  · rw [hresults, hcalls, hdones]
    exact h.results
  · rw [hcalls]
    exact ⟨hfits, h.faithful⟩
  · rw [hworkers, hprocesses, hcounts, hcalls]
    simp only [Function.update_self, hassigned]
    refine ⟨hw.sent_le, ?_, hw.sent_eq, ?_, fun _ => hcount, fun _ => hreported, fun _ => hfresh,
      fun _ => hwaiting⟩
    · intro hretired
      rw [hlive] at hretired
      cases hretired
    · rw [hinbox]
      exact hw.inbox

/-- What a process sends changes nothing on record but its own state, as long as its inbox stays
    and nothing it has reported precedes the start of a file. -/
theorem Wave.Core.process (h : s.Core workerIds files results) (hnodup : workerIds.Nodup)
    (hid : id ∈ workerIds) (process : WorkerProcess)
    (hinbox : process.inbox = (s.processes id).inbox ∨ (s.workers id).retired = true)
    (hstarted : process.started = (s.processes id).started ∨ (s.workers id).retired = true) :
    { s with processes := Function.update s.processes id process }.Core workerIds files results := by
  have hw := h.worker id hid
  refine h.change hnodup hid ⟨fun _ _ => rfl, ?_, fun _ _ => rfl, fun _ _ => rfl, fun _ _ => rfl⟩
    (fun _ => rfl) h.results h.faithful ?_
  · intro j hne
    exact Function.update_of_ne hne _ _
  · simp only [Function.update_self]
    cases hretired : (s.workers id).retired with
    | true =>
      refine ⟨hw.sent_le, fun _ => hw.retired hretired, ?_, ?_, ?_, ?_, ?_, ?_⟩
      all_goals
        intro hlive
        rw [hretired] at hlive
        cases hlive
    | false =>
      rw [hretired] at hinbox hstarted
      have hinbox : process.inbox = (s.processes id).inbox := hinbox.resolve_right nofun
      have hstarted : process.started = (s.processes id).started := hstarted.resolve_right nofun
      exact ⟨hw.sent_le, hw.retired, hw.sent_eq, hinbox ▸ hw.inbox, hw.count_eq, hw.reported_eq,
        hstarted ▸ hw.fresh, hinbox ▸ hstarted ▸ hw.waiting⟩

/-- At the start of a file nothing has been reported of it. -/
theorem Wave.Core.fileStart (h : s.Core workerIds files results) (hnodup : workerIds.Nodup)
    (hid : id ∈ workerIds) (hlive : (s.workers id).retired = false) {file : TaggedFile}
    (hhead : (s.processes id).inbox.head? = some file)
    (hstarted : (s.processes id).started = false) :
    { s with
      processes := Function.update s.processes id { s.processes id with started := true }
      workerTestCounts := Function.update s.workerTestCounts id (some 0) }.Core
        workerIds files results := by
  have hw := h.worker id hid
  refine h.change hnodup hid ⟨fun _ _ => rfl, ?_, ?_, fun _ _ => rfl, fun _ _ => rfl⟩
    (fun _ => rfl) h.results h.faithful ?_
  · intro j hne
    exact Function.update_of_ne hne _ _
  · intro j hne
    exact Function.update_of_ne hne _ _
  · simp only [Function.update_self]
    refine ⟨hw.sent_le, hw.retired, hw.sent_eq, hw.inbox, ?_, hw.reported_eq, nofun, ?_⟩
    · intro _
      rw [hw.fresh hlive hstarted]
      rfl
    · intro _ hnil
      rw [hnil] at hhead
      cases hhead

/-- A file that is done goes from its worker to the files that are done. -/
theorem Wave.Core.fileDone (h : s.Core workerIds files results) (hnodup : workerIds.Nodup)
    (hid : id ∈ workerIds) (hlive : (s.workers id).retired = false) {file : TaggedFile}
    (hhead : (s.processes id).inbox.head? = some file) (fileResults : List TestResult) :
    ({ s with
      processes := Function.update s.processes id
        { s.processes id with inbox := (s.processes id).inbox.tail, started := false } }
      |>.handleParallelFileDoneMessage id file fileResults).Core workerIds files results := by
  have hw := h.worker id hid
  obtain ⟨hfile, hinbox⟩ := hw.current hlive hhead
  have hsent : assigned id s.calls = [file] := by
    rw [hw.sent_eq hlive, hfile]
    rfl
  refine h.change hnodup hid ⟨?_, ?_, ?_, ?_, ?_⟩ ?_ ?_ ?_ ?_
  · intro j hne
    exact Function.update_of_ne hne _ _
  · intro j hne
    exact Function.update_of_ne hne _ _
  · intro j hne
    exact Function.update_of_ne hne _ _
  · intro j hne
    exact if_neg (Ne.symm hne)
  · intro j hne
    exact if_neg (Ne.symm hne)
  · intro p
    simp only [Wave.handleParallelFileDoneMessage, Function.update_self, hfile, dones,
      List.map_append, List.countP_append, List.map_cons, List.map_nil, Option.toList_some,
      Option.toList_none, List.countP_cons, List.countP_nil]
    omega
  · simp only [Wave.handleParallelFileDoneMessage, dones, List.flatMap_append]
    rw [h.results, List.append_assoc]
    simp
  · refine ⟨⟨hid, ?_⟩, h.faithful⟩
    intro f hf
    have := hw.reported_eq hlive f hf
    rw [hfile] at this
    exact (Option.some.inj this).symm
  · simp only [Wave.handleParallelFileDoneMessage, Function.update_self, assigned, attempt,
      if_true, hsent, hinbox, List.tail_cons, List.erase_cons_head]
    exact ⟨Nat.zero_le _, fun _ => ⟨rfl, rfl⟩, fun _ => rfl, fun _ => .inl rfl, fun _ => rfl,
      fun _ f hf => absurd hf List.not_mem_nil, fun _ _ => rfl, fun _ _ => rfl⟩

end Core

/-! ### The wave between two turns -/

/-- Just the workers with a file are busy. -/
def Wave.BusyWithFile (workerIds : List ℕ) (s : Wave) : Prop :=
  ∀ id ∈ workerIds, (s.workers id).retired = false →
    ((s.workers id).busy = true ↔ (s.workers id).currentFile ≠ none)

structure Wave.Inv (workerIds : List ℕ) (files : List TaggedFile) (results : List TestResult)
    (s : Wave) : Prop where
  core : s.Core workerIds files results
  busy : s.BusyWithFile workerIds
  rejected : s.hasError = true → s.settled = true ∧ ∀ id ∈ workerIds, (s.workers id).retired = true
  resolved : s.settled = true → s.hasError = false →
    s.fileQueue = [] ∧ ∀ id ∈ workerIds, (s.workers id).currentFile = none
  progress : s.settled = false →
    ∃ id ∈ workerIds, (s.workers id).retired = false ∧ (s.workers id).busy = true
  served : s.settled = false → s.fileQueue ≠ [] →
    ∀ id ∈ workerIds, (s.workers id).retired = false → (s.workers id).busy = true

section Inv

variable {workerIds : List ℕ} {files : List TaggedFile} {results : List TestResult} {s s' : Wave}
  {id : ℕ}

theorem Wave.Inv.hasError_of_open (h : s.Inv workerIds files results) (hopen : s.settled = false) :
    s.hasError = false := by
  cases herror : s.hasError with
  | false => rfl
  | true =>
    have := (h.rejected herror).1
    rw [hopen] at this
    cases this

/-- Nothing is left to resolve between two turns. -/
theorem Wave.Inv.maybeResolve (h : s.Inv workerIds files results) :
    s.maybeResolve workerIds = s := by
  cases hsettled : s.settled with
  | true => exact maybeResolve_of_settled hsettled
  | false =>
    rcases maybeResolve_cases workerIds hsettled (h.hasError_of_open hsettled) with ⟨-, hidle, -⟩ | ⟨-, heq⟩
    · obtain ⟨id, hid, hlive, hbusy⟩ := h.progress hsettled
      rw [hidle id hid hlive] at hbusy
      cases hbusy
    · exact heq

/-- **Dispatching.**  An open wave in which a live worker has just become free, and at most one
    file waits that others could take, is in order after `dispatchNext`. -/
theorem Wave.Core.dispatched (h : s.Core workerIds files results) (hnodup : workerIds.Nodup)
    (hid : id ∈ workerIds) (hlive : (s.workers id).retired = false)
    (hnone : (s.workers id).currentFile = none) (hsettled : s.settled = false)
    (herror : s.hasError = false)
    (hbusy : ∀ j ∈ workerIds, j ≠ id → (s.workers j).retired = false →
      ((s.workers j).busy = true ↔ (s.workers j).currentFile ≠ none))
    (hserved : s.fileQueue.tail ≠ [] → ∀ j ∈ workerIds, j ≠ id → (s.workers j).retired = false →
      (s.workers j).busy = true) (sending : Sending) :
    (s.dispatchNext workerIds sending id).Inv workerIds files results := by
  cases hqueue : s.fileQueue with
  | cons next rest =>
    have hcore := h.give hnodup hid hlive hnone hqueue sending
    rw [dispatchNext_cons hlive hqueue] at hcore ⊢
    refine ⟨hcore, ?_, ?_, ?_, ?_, ?_⟩
    · intro j hj hjlive
      by_cases hne : j = id
      · rw [hne]
        simp [sendToWorkerProcess]
      · simp only [sendToWorkerProcess, Function.update_of_ne hne] at hjlive ⊢
        exact hbusy j hj hne hjlive
    · intro htrue
      exact absurd (herror.symm.trans htrue) nofun
    · intro htrue
      exact absurd (hsettled.symm.trans htrue) nofun
    · intro _
      exact ⟨id, hid, by simp [sendToWorkerProcess, hlive], by simp [sendToWorkerProcess]⟩
    · intro _ hrest j hj hjlive
      by_cases hne : j = id
      · rw [hne]
        simp [sendToWorkerProcess]
      · simp only [sendToWorkerProcess, Function.update_of_ne hne] at hjlive ⊢
        rw [hqueue] at hserved
        exact hserved hrest j hj hne hjlive
  | nil =>
    have hcore := h.setIdle hnodup hid hnone
    rw [dispatchNext_nil hlive hqueue]
    generalize ht : s.setWorker id { s.workers id with busy := false, currentFile := none } = t
      at hcore ⊢
    have hworkers : ∀ j, j ≠ id → t.workers j = s.workers j := by
      intro j hne
      rw [← ht]
      exact Function.update_of_ne hne _ _
    have hself : t.workers id = { s.workers id with busy := false, currentFile := none } := by
      rw [← ht]
      exact Function.update_self _ _ _
    have htbusy : t.BusyWithFile workerIds := by
      intro j hj hjlive
      by_cases hne : j = id
      · rw [hne, hself]
        simp
      · rw [hworkers j hne] at hjlive ⊢
        exact hbusy j hj hne hjlive
    have htqueue : t.fileQueue = [] := by rw [← ht]; exact hqueue
    have htsettled : t.settled = false := by rw [← ht]; exact hsettled
    have hterror : t.hasError = false := by rw [← ht]; exact herror
    rcases maybeResolve_cases workerIds htsettled hterror with
      ⟨-, hidle, heq⟩ | ⟨hsome, heq⟩
    · rw [heq]
      refine ⟨hcore.flags _ true, htbusy, ?_, ?_, nofun, nofun⟩
      · intro htrue
        exact absurd (hterror.symm.trans htrue) nofun
      · intro _ _
        refine ⟨htqueue, ?_⟩
        intro j hj
        cases hretired : (t.workers j).retired with
        | true => exact ((hcore.worker j hj).retired hretired).1
        | false =>
          by_contra hfile
          have := (htbusy j hj hretired).mpr hfile
          rw [hidle j hj hretired] at this
          cases this
    · rw [heq]
      refine ⟨hcore, htbusy, ?_, ?_, fun _ => hsome htqueue, fun _ hne => absurd htqueue hne⟩
      · intro htrue
        exact absurd (hterror.symm.trans htrue) nofun
      · intro htrue
        exact absurd (htsettled.symm.trans htrue) nofun

/-! ### Retiring a worker -/

theorem Wave.withdraw_spec (id : ℕ) (s : Wave) :
    (s.withdraw id).workers id = { retired := true, currentFile := none, busy := false } ∧
      (∀ j, j ≠ id → (s.withdraw id).workers j = s.workers j) ∧
      (s.withdraw id).fileQueue = (s.workers id).currentFile.toList ++ s.fileQueue ∧
      (s.withdraw id).settled = s.settled ∧ (s.withdraw id).hasError = s.hasError := by
  unfold withdraw
  cases (s.workers id).currentFile with
  | none =>
    exact ⟨Function.update_self _ _ _, fun j hne => Function.update_of_ne hne _ _, rfl, rfl, rfl⟩
  | some file =>
    exact ⟨Function.update_self _ _ _, fun j hne => Function.update_of_ne hne _ _, rfl, rfl, rfl⟩

/-- **Retiring.**  The file of the worker is requeued and an idle worker, if there is one, takes
    it; without a live worker the wave fails. -/
theorem Wave.Inv.retireWorker (h : s.Inv workerIds files results) (hnodup : workerIds.Nodup)
    (hid : id ∈ workerIds) (sending : Sending) :
    (s.retireWorker workerIds sending id).Inv workerIds files results := by
  rw [Wave.retireWorker]
  cases hlive : (s.workers id).retired with
  | true => exact h
  | false =>
  cases hsettled : s.settled with
  | true =>
    -- the promise has been settled: the worker just goes
    have herror : s.hasError = false := by
      cases herror : s.hasError with
      | false => rfl
      | true =>
        have := (h.rejected herror).2 id hid
        rw [hlive] at this
        cases this
    obtain ⟨hqueue, hnone⟩ := h.resolved hsettled herror
    change (s.setWorker id { s.workers id with retired := true }).Inv workerIds files results
    refine ⟨h.core.drop hnodup hid (hnone id hid), ?_, ?_, ?_, ?_, ?_⟩
    · intro j hj hjlive
      by_cases hne : j = id
      · rw [hne] at hjlive
        simp [setWorker] at hjlive
      · simp only [setWorker, Function.update_of_ne hne] at hjlive ⊢
        exact h.busy j hj hjlive
    · intro htrue
      exact absurd (herror.symm.trans htrue) nofun
    · intro _ _
      refine ⟨hqueue, ?_⟩
      intro j hj
      by_cases hne : j = id
      · rw [hne]
        simpa [setWorker] using hnone id hid
      · simpa [setWorker, Function.update_of_ne hne] using hnone j hj
    · intro hopen
      exact absurd (hsettled.symm.trans hopen) nofun
    · intro hopen
      exact absurd (hsettled.symm.trans hopen) nofun
  | false =>
    have herror := h.hasError_of_open hsettled
    obtain ⟨hself, hothers, hqueue, htsettled, hterror⟩ := withdraw_spec id s
    have hcore := h.core.withdraw hnodup hid hlive
    rw [hsettled] at htsettled
    rw [herror] at hterror
    generalize s.withdraw id = t at hself hothers hqueue htsettled hterror hcore ⊢
    have hbusy : t.BusyWithFile workerIds := by
      intro j hj hjlive
      by_cases hne : j = id
      · rw [hne, hself] at hjlive
        cases hjlive
      · rw [hothers j hne] at hjlive ⊢
        exact h.busy j hj hjlive
    have hactive : ∀ j, j ∈ workerIds.filter (fun j => !(t.workers j).retired) ↔
        j ∈ workerIds ∧ (t.workers j).retired = false := by simp
    dsimp only
    rw [if_neg nofun, if_neg nofun]
    split
    case isTrue hempty =>
      -- nobody is left
      have hgone : ∀ j ∈ workerIds, (t.workers j).retired = true := by
        intro j hj
        by_contra hjlive
        have := (hactive j).mpr ⟨hj, Bool.eq_false_iff.mpr hjlive⟩
        rw [hempty] at this
        cases this
      have hfail : t.failRun = { t with hasError := true, settled := true } := by
        simp [failRun, htsettled, hterror]
      rw [hfail]
      exact ⟨hcore.flags true true, hbusy, fun _ => ⟨rfl, hgone⟩, fun _ => nofun, nofun, nofun⟩
    case isFalse hsome =>
      split
      case h_1 j hfind =>
        -- an idle worker: nothing was queued but the file it takes
        obtain ⟨hj, hjlive⟩ := (hactive j).mp (List.mem_of_find?_eq_some hfind)
        have hidle : (t.workers j).busy = false := by
          simpa using List.find?_some hfind
        have hne : j ≠ id := by
          rintro rfl
          rw [hself] at hjlive
          cases hjlive
        have hempty : s.fileQueue = [] := by
          by_contra hnonempty
          have := h.served hsettled hnonempty j hj (by rw [← hothers j hne]; exact hjlive)
          rw [← hothers j hne, hidle] at this
          cases this
        have hnone : (t.workers j).currentFile = none := by
          by_contra hfile
          have := (hbusy j hj hjlive).mpr hfile
          rw [hidle] at this
          cases this
        have hinv := hcore.dispatched hnodup hj hjlive hnone htsettled hterror
          (fun k hk _ hklive => hbusy k hk hklive) (by
            rw [hqueue, hempty]
            cases (s.workers id).currentFile with
            | none => exact fun hnil => absurd rfl hnil
            | some file => exact fun hnil => absurd rfl hnil) sending
        rw [hinv.maybeResolve]
        exact hinv
      case h_2 hfind =>
        have hall : ∀ j ∈ workerIds, (t.workers j).retired = false → (t.workers j).busy = true := by
          intro j hj hjlive
          simpa using List.find?_eq_none.mp hfind j ((hactive j).mpr ⟨hj, hjlive⟩)
        have hinv : t.Inv workerIds files results := by
          refine ⟨hcore, hbusy, ?_, ?_, ?_, fun _ _ => hall⟩
          · intro htrue
            exact absurd (hterror.symm.trans htrue) nofun
          · intro htrue
            exact absurd (htsettled.symm.trans htrue) nofun
          · intro _
            obtain ⟨j, hmem⟩ := List.exists_mem_of_ne_nil _ hsome
            obtain ⟨hj, hjlive⟩ := (hactive j).mp hmem
            exact ⟨j, hj, hjlive, hall j hj hjlive⟩
        rw [hinv.maybeResolve]
        exact hinv

/-- What the handlers leave alone stays in order. -/
theorem Wave.Inv.records (h : s.Inv workerIds files results)
    (hcore : s'.Core workerIds files results) (hworkers : s'.workers = s.workers)
    (hqueue : s'.fileQueue = s.fileQueue) (hsettled : s'.settled = s.settled)
    (herror : s'.hasError = s.hasError) : s'.Inv workerIds files results := by
  refine ⟨hcore, ?_, ?_, ?_, ?_, ?_⟩
  · unfold BusyWithFile
    rw [hworkers]
    exact h.busy
  · rw [herror, hsettled, hworkers]
    exact h.rejected
  · rw [herror, hsettled, hworkers, hqueue]
    exact h.resolved
  · rw [hsettled, hworkers]
    exact h.progress
  · rw [hsettled, hworkers, hqueue]
    exact h.served

/-! ### One turn -/

/-- What a process may send after it has started its file. -/
theorem Wave.Core.toldRunning (h : s.Core workerIds files results) (hid : id ∈ workerIds)
    (hlive : (s.workers id).retired = false) {file : TaggedFile}
    (hhead : (s.processes id).inbox.head? = some file) :
    (s.workers id).currentFile = some file ∧ (s.processes id).inbox ≠ [] ∧
      attempt id s.calls = List.replicate ((s.workerTestCounts id).getD 0) file := by
  have hw := h.worker id hid
  obtain ⟨hfile, hinbox⟩ := hw.current hlive hhead
  refine ⟨hfile, ?_, hw.reported_replicate hlive hfile⟩
  rw [hinbox]
  exact List.cons_ne_nil _ _

/-- **A message.**  Whatever a worker sends in keeping with the protocol is handled. -/
theorem Wave.Inv.onMessage (h : s.Inv workerIds files results) (hnodup : workerIds.Nodup)
    (hid : id ∈ workerIds) {msg : Message} {process : WorkerProcess}
    (hsend : (s.processes id).send msg = some process) (sending : Sending) :
    ({ s with processes := Function.update s.processes id process }.onMessage workerIds sending id
      msg).Inv workerIds files results := by
  have hw := h.core.worker id hid
  by_cases hgone : (s.hasError || (s.workers id).retired) = true
  · -- nobody listens any more
    have hretired : (s.workers id).retired = true := by
      rcases Bool.or_eq_true_iff.mp hgone with herror | hretired
      · exact (h.rejected herror).2 id hid
      · exact hretired
    unfold Wave.onMessage
    rw [if_pos hgone]
    exact h.records (h.core.process hnodup hid process (.inr hretired) (.inr hretired)) rfl rfl rfl rfl
  · have hlive : (s.workers id).retired = false := by
      rw [Bool.eq_false_iff]
      intro hretired
      exact hgone (by rw [hretired, Bool.or_true])
    unfold Wave.onMessage
    rw [if_neg hgone]
    cases msg with
    | testStart file fullName =>
      obtain ⟨⟨hhead, hstarted⟩, hsame⟩ := Option.ite_none_right_eq_some.mp hsend
      cases hsame
      refine h.records (h.core.told hnodup hid hlive (.testStart id file fullName)
        (s.workerTestCounts id) trivial rfl (fun _ => rfl) (fun _ _ => rfl) rfl (hw.count_eq hlive) (hw.reported_eq hlive) (hw.fresh hlive) (hw.waiting hlive) rfl rfl rfl rfl
        (Function.update_eq_self _ _).symm rfl) rfl rfl rfl rfl
    | testEnd file result =>
      obtain ⟨⟨hhead, hstarted⟩, hsame⟩ := Option.ite_none_right_eq_some.mp hsend
      cases hsame
      obtain ⟨hfile, hinbox, hreported⟩ := h.core.toldRunning hid hlive hhead
      have hbusy : (s.processes id).started = false → False := by
        rw [hstarted]
        exact nofun
      cases hretry : result.willRetry with
      | true =>
        have hattempt : ∀ j, attempt j (.testEnd id file result :: s.calls) = attempt j s.calls := by
          intro j
          apply if_neg
          rintro ⟨-, hcounted⟩
          rw [hretry] at hcounted
          cases hcounted
        refine h.records (h.core.told hnodup hid hlive (.testEnd id file result)
          (s.workerTestCounts id) hid rfl (fun _ => rfl) (fun j _ => hattempt j) rfl ?_ ?_ (fun hf => (hbusy hf).elim)
          (hw.waiting hlive) rfl rfl rfl rfl ?_ rfl) rfl rfl rfl rfl
        · rw [hattempt]
          exact hw.count_eq hlive
        · rw [hattempt]
          exact hw.reported_eq hlive
        · simp [handleParallelTestEndMessage, hretry]
      | false =>
        have hattempt : attempt id (.testEnd id file result :: s.calls) =
            file :: attempt id s.calls := if_pos ⟨rfl, hretry⟩
        refine h.records (h.core.told hnodup hid hlive (.testEnd id file result)
          (some ((s.workerTestCounts id).getD 0 + 1)) hid rfl (fun _ => rfl) ?_ rfl ?_ ?_ (fun hf => (hbusy hf).elim) (hw.waiting hlive) rfl rfl rfl rfl
          ?_ rfl) rfl rfl rfl rfl
        · intro j hne
          exact if_neg fun hc => hne hc.1.symm
        · rw [hattempt, Option.getD_some, List.length_cons, hw.count_eq hlive]
        · rw [hattempt, hreported]
          intro f hf
          rw [hfile]
          rcases List.mem_cons.mp hf with rfl | hf
          · rfl
          · rw [List.eq_of_mem_replicate hf]
        · simp [handleParallelTestEndMessage, hretry]
    | fileStart file =>
      obtain ⟨⟨hhead, hstarted⟩, hsame⟩ := Option.ite_none_right_eq_some.mp hsend
      cases hsame
      exact h.records (h.core.fileStart hnodup hid hlive hhead hstarted) rfl rfl rfl rfl
    | fileRetry file =>
      obtain ⟨⟨hhead, hstarted⟩, hsame⟩ := Option.ite_none_right_eq_some.mp hsend
      cases hsame
      obtain ⟨hfile, hinbox, hreported⟩ := h.core.toldRunning hid hlive hhead
      have hattempt : ∀ j, attempt j (.testFileRetry id file ((s.workerTestCounts id).getD 0) ::
          s.calls) = if id = j then [] else attempt j s.calls := fun _ => rfl
      refine h.records (h.core.told hnodup hid hlive
        (.testFileRetry id file ((s.workerTestCounts id).getD 0)) (some 0) ⟨hid, hreported⟩ rfl (fun _ => rfl)
        ?_ rfl ?_ ?_ ?_ (hw.waiting hlive) rfl rfl rfl rfl rfl rfl) rfl rfl rfl rfl
      · intro j hne
        exact if_neg (Ne.symm hne)
      · rw [hattempt, if_pos rfl]
        rfl
      · rw [hattempt, if_pos rfl]
        exact fun f hf => absurd hf List.not_mem_nil
      · rw [hattempt, if_pos rfl]
        exact fun _ => rfl
    | fileDone file fileResults =>
      obtain ⟨⟨hhead, hstarted⟩, hsame⟩ := Option.ite_none_right_eq_some.mp hsend
      cases hsame
      obtain ⟨hfile, -, -⟩ := h.core.toldRunning hid hlive hhead
      have herror : s.hasError = false := by
        rw [Bool.eq_false_iff]
        intro herror
        exact hgone (by rw [herror, Bool.true_or])
      have hopen : s.settled = false := by
        rw [Bool.eq_false_iff]
        intro hsettled
        have := (h.resolved hsettled herror).2 id hid
        rw [hfile] at this
        cases this
      have hself : (s.workers id).busy = true := by
        rw [h.busy id hid hlive, hfile]
        exact nofun
      have hcore := h.core.fileDone hnodup hid hlive hhead fileResults
      refine hcore.dispatched hnodup hid ?_ ?_ hopen herror ?_ ?_ sending
      · simpa [handleParallelFileDoneMessage] using hlive
      · simp [handleParallelFileDoneMessage]
      · intro j hj hne hjlive
        simp only [handleParallelFileDoneMessage, Function.update_of_ne hne] at hjlive ⊢
        exact h.busy j hj hjlive
      · intro htail j hj hne hjlive
        simp only [handleParallelFileDoneMessage, Function.update_of_ne hne] at hjlive ⊢
        refine h.served hopen ?_ j hj hjlive
        intro hnil
        apply htail
        change s.fileQueue.tail = []
        rw [hnil]
        rfl
    | progress message =>
      cases hsend
      exact h.records (h.core.process hnodup hid _ (.inl rfl) (.inl rfl)) rfl rfl rfl rfl
    | error message =>
      cases hsend
      exact (h.records (h.core.process hnodup hid _ (.inl rfl) (.inl rfl)) rfl rfl rfl
        rfl).retireWorker hnodup hid sending

/-- **One turn** of the event loop keeps the invariant. -/
theorem Wave.Inv.step {e : Event} (h : s.Inv workerIds files results) (hnodup : workerIds.Nodup)
    (hstep : s.Step workerIds e s') : s'.Inv workerIds files results := by
  unfold Wave.Step Wave.step at hstep
  split at hstep
  · cases hstep
  case isFalse hid =>
    rw [not_not] at hid
    cases hhappening : e.happening with
    | message msg =>
      rw [hhappening] at hstep
      obtain ⟨process, hsend, rfl⟩ := Option.map_eq_some_iff.mp hstep
      exact h.onMessage hnodup hid hsend e.sending
    | exit =>
      rw [hhappening] at hstep
      cases hstep
      unfold Wave.onExit
      split
      · exact h.retireWorker hnodup hid e.sending
      · exact h
    | ipcError =>
      rw [hhappening] at hstep
      cases hstep
      exact h.retireWorker hnodup hid e.sending
    | sendFailed =>
      rw [hhappening] at hstep
      dsimp only at hstep
      split at hstep
      · cases hstep
      · cases hstep
        have hcore := h.core.process hnodup hid
          { s.processes e.worker with failing := (s.processes e.worker).failing - 1 } (.inl rfl)
          (.inl rfl)
        exact (h.records hcore rfl rfl rfl rfl).retireWorker hnodup hid e.sending

end Inv

/-! ### The start of the wave -/

section Start

variable {workerIds : List ℕ} {files : List TaggedFile} {results : List TestResult} {s : Wave}

/-- The wave while the loop over the workers is at `rest`. -/
structure Wave.Starting (workerIds : List ℕ) (files : List TaggedFile) (results : List TestResult)
    (rest : List ℕ) (s : Wave) : Prop where
  core : s.Core workerIds files results
  busy : s.BusyWithFile workerIds
  hasError : s.hasError = false
  resolved : s.settled = true → s.fileQueue = [] ∧ ∀ id ∈ workerIds, (s.workers id).currentFile = none
  waiting : ∀ id ∈ rest, (s.workers id).currentFile = none
  progress : s.settled = false → (∃ id ∈ workerIds, id ∉ rest ∧ (s.workers id).retired = false) →
    ∃ id ∈ workerIds, (s.workers id).retired = false ∧ (s.workers id).busy = true
  served : s.settled = false → s.fileQueue ≠ [] →
    ∀ id ∈ workerIds, id ∉ rest → (s.workers id).retired = false → (s.workers id).busy = true

/-- One iteration. -/
theorem Wave.Starting.next {id : ℕ} {rest : List ℕ}
    (h : s.Starting workerIds files results (id :: rest)) (hnodup : workerIds.Nodup)
    (hid : id ∈ workerIds) (hrest : id ∉ rest) (sending : Sending) :
    (s.dispatchNext workerIds sending id).Starting workerIds files results rest := by
  have hbefore : ∀ j, j ≠ id → j ∉ rest → j ∉ id :: rest := by
    intro j hne hj hmem
    rcases List.mem_cons.mp hmem with rfl | hmem
    · exact hne rfl
    · exact hj hmem
  have hnone := h.waiting id List.mem_cons_self
  cases hlive : (s.workers id).retired with
  | true =>
    -- a worker retired by an earlier wave is passed over
    have hsame : s.dispatchNext workerIds sending id = s := by simp [dispatchNext, hlive]
    rw [hsame]
    have hother : ∀ j, (s.workers j).retired = false → j ≠ id := by
      rintro j hj rfl
      rw [hlive] at hj
      cases hj
    refine ⟨h.core, h.busy, h.hasError, h.resolved,
      fun j hj => h.waiting j (List.mem_cons_of_mem _ hj), ?_, ?_⟩
    · rintro hopen ⟨j, hj, hjrest, hjlive⟩
      exact h.progress hopen ⟨j, hj, hbefore j (hother j hjlive) hjrest, hjlive⟩
    · intro hopen hqueue j hj hjrest hjlive
      exact h.served hopen hqueue j hj (hbefore j (hother j hjlive) hjrest) hjlive
  | false =>
    cases hqueue : s.fileQueue with
    | nil =>
      have hcore := h.core.setIdle hnodup hid hnone
      rw [dispatchNext_nil hlive hqueue]
      generalize ht : s.setWorker id { s.workers id with busy := false, currentFile := none } = t
        at hcore ⊢
      have hworkers : ∀ j, (t.workers j).retired = (s.workers j).retired ∧
          (t.workers j).currentFile = (s.workers j).currentFile ∧
          (j ≠ id → (t.workers j).busy = (s.workers j).busy) ∧
          (j = id → (t.workers j).busy = false) := by
        intro j
        rw [← ht]
        by_cases hne : j = id
        · subst hne
          simp [setWorker, hnone]
        · simp [setWorker, hne]
      have hbusy : t.BusyWithFile workerIds := by
        intro j hj hjlive
        obtain ⟨hretired, hfile, hsame, hidle⟩ := hworkers j
        rw [hretired] at hjlive
        rw [hfile]
        by_cases hne : j = id
        · rw [hidle hne, hne, hnone]
          simp
        · rw [hsame hne]
          exact h.busy j hj hjlive
      have htqueue : t.fileQueue = [] := by rw [← ht]; exact hqueue
      have hterror : t.hasError = false := by rw [← ht]; exact h.hasError
      have hwaiting : ∀ j ∈ rest, (t.workers j).currentFile = none := by
        intro j hj
        rw [(hworkers j).2.1]
        exact h.waiting j (List.mem_cons_of_mem _ hj)
      cases htsettled : t.settled with
      | true =>
        rw [maybeResolve_of_settled htsettled]
        refine ⟨hcore, hbusy, hterror, ?_, hwaiting, ?_, fun _ hne => absurd htqueue hne⟩
        · intro _
          have hsettled : s.settled = true := by rw [← htsettled, ← ht]; rfl
          refine ⟨htqueue, ?_⟩
          intro j hj
          rw [(hworkers j).2.1]
          exact (h.resolved hsettled).2 j hj
        · intro hopen
          exact absurd (htsettled.symm.trans hopen) nofun
      | false =>
        rcases maybeResolve_cases workerIds htsettled hterror with ⟨-, hidle, heq⟩ | ⟨hsome, heq⟩
        · rw [heq]
          refine ⟨hcore.flags _ true, hbusy, hterror, ?_, hwaiting, nofun, nofun⟩
          intro _
          refine ⟨htqueue, ?_⟩
          intro j hj
          cases hretired : (t.workers j).retired with
          | true => exact ((hcore.worker j hj).retired hretired).1
          | false =>
            by_contra hfile
            have := (hbusy j hj hretired).mpr hfile
            rw [hidle j hj hretired] at this
            cases this
        · rw [heq]
          refine ⟨hcore, hbusy, hterror, ?_, hwaiting, fun _ _ => hsome htqueue,
            fun _ hne => absurd htqueue hne⟩
          intro htrue
          exact absurd (htsettled.symm.trans htrue) nofun
    | cons next files' =>
      have hopen : s.settled = false := by
        rw [Bool.eq_false_iff]
        intro hsettled
        have := (h.resolved hsettled).1
        rw [hqueue] at this
        cases this
      have hcore := h.core.give hnodup hid hlive hnone hqueue sending
      rw [dispatchNext_cons hlive hqueue] at hcore ⊢
      refine ⟨hcore, ?_, h.hasError, ?_, ?_, ?_, ?_⟩
      · intro j hj hjlive
        by_cases hne : j = id
        · rw [hne]
          simp [sendToWorkerProcess]
        · simp only [sendToWorkerProcess, Function.update_of_ne hne] at hjlive ⊢
          exact h.busy j hj hjlive
      · intro htrue
        exact absurd (hopen.symm.trans htrue) nofun
      · intro j hj
        have hne : j ≠ id := by
          rintro rfl
          exact hrest hj
        simp only [sendToWorkerProcess, Function.update_of_ne hne]
        exact h.waiting j (List.mem_cons_of_mem _ hj)
      · intro _ _
        exact ⟨id, hid, by simp [sendToWorkerProcess, hlive], by simp [sendToWorkerProcess]⟩
      · intro _ hmore j hj hjrest hjlive
        by_cases hne : j = id
        · rw [hne]
          simp [sendToWorkerProcess]
        · simp only [sendToWorkerProcess, Function.update_of_ne hne] at hjlive ⊢
          refine h.served hopen ?_ j hj (hbefore j hne hjrest) hjlive
          rw [hqueue]
          exact List.cons_ne_nil _ _

end Start

end Tapsmith.Dispatch
