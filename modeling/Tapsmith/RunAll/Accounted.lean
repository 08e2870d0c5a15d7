import Mathlib.Logic.Relation
import Tapsmith.RunAll.Parallel

namespace Tapsmith.RunAll.Parallel

open Lib.Machine Relation

/-!
# What a dispatch may do

* `Dispatch.places` — how often an entry is found: in the queue, with a worker, or settled;
* `Move` — all that the closures of a dispatch ever do, one at a time;
* `Move.places`, `Move.totals` — no entry is lost or doubled by it, and the counts are right;
* `Move.logs` — to whom a file is sent, and when one is failed;
* `Move.potential_le` — what is left to do never grows.
-/

variable {ctx : UIServerContext} {d d' : Dispatch} {i id : ℕ} {w : UIWorkerHandle}

/-! ### Counting in lists -/

section Lists

variable {α : Type} {l : List α} {a b : α} {p q : α → Bool}

theorem countP_set_add (h : l[i]? = some a) :
    (l.set i b).countP p + (if p a then 1 else 0) = l.countP p + if p b then 1 else 0 := by
  obtain ⟨hi, rfl⟩ := List.getElem?_eq_some_iff.mp h
  have hsplit : l.countP p = (l.take i).countP p + ((if p l[i] then 1 else 0) +
      (l.drop (i + 1)).countP p) := by
    conv_lhs => rw [← List.take_append_drop i l, List.drop_eq_getElem_cons hi]
    rw [List.countP_append, List.countP_cons]
    omega
  rw [List.set_eq_take_append_cons_drop, if_pos hi, List.countP_append, List.countP_cons, hsplit]
  omega

theorem countP_eraseP_add (h : l.find? q = some a) :
    (l.eraseP q).countP p + (if p a then 1 else 0) = l.countP p := by
  obtain ⟨hq, before, after, rfl, hbefore⟩ := List.find?_eq_some_iff_append.mp h
  have hnot : ∀ x ∈ before, ¬ q x = true := fun x hx => by simpa using hbefore x hx
  rw [List.eraseP_append_right _ hnot, List.eraseP_cons_of_pos hq, List.countP_append,
    List.countP_append, List.countP_cons]
  omega

end Lists

/-! ### Where an entry is -/

def UIWorkerHandle.holds (id : ℕ) (w : UIWorkerHandle) : Bool := w.currentFile.any (·.id = id)

/-- The entry is answered, failed, or not coming back. -/
def Event.settles (id : ℕ) : Event → Bool
  | .sent _ _ => false
  | .done _ entry _ => entry.id = id
  | .unservable entry _ => entry.id = id
  | .interrupted _ entry => entry.id = id

/-- How often an entry is found. -/
def Dispatch.places (d : Dispatch) (id : ℕ) : ℕ :=
  d.fileQueue.countP (·.id = id) + d.activeWorkers.countP (·.holds id) +
    d.log.countP (·.settles id)

/-! ### What is counted -/

def Event.passed : Event → ℕ
  | .done _ _ results => results.count .passed
  | _ => 0

def Event.skipped : Event → ℕ
  | .done _ _ results => results.count .skipped
  | _ => 0

/-- A test that the user has stopped does not count as failed. -/
def Event.failed : Event → ℕ
  | .done _ _ results => results.countP TestResult.isFailed - results.count (.failed true)
  | .unservable _ failures => failures
  | _ => 0

/-- The counts of the dispatch are those of the files that it has settled. -/
structure Dispatch.Totals (d : Dispatch) : Prop where
  passed : d.passed = (d.log.map Event.passed).sum
  failed : d.failed = (d.log.map Event.failed).sum
  skipped : d.skipped = (d.log.map Event.skipped).sum

namespace Dispatch

/-! ### Files that no worker can run -/

section Unservable

variable {entries : List Entry}

theorem failUnservableFiles_eq : d.failUnservableFiles ctx entries
    = { d with
        failed := (d.failUnservableFiles ctx entries).failed
        anyFailed := (d.failUnservableFiles ctx entries).anyFailed
        failedProjects := (d.failUnservableFiles ctx entries).failedProjects
        log := d.log ++ entries.map fun e => .unservable e (failures ctx e) } := by
  induction entries generalizing d with
  | nil => simp [failUnservableFiles]
  | cons e entries ih =>
    rw [failUnservableFiles, List.foldl_cons]
    refine (ih (d := d.failUnservableFile ctx e)).trans ?_
    simp [failUnservableFiles, failUnservableFile]

@[simp] theorem failUnservableFiles_activeWorkers :
    (d.failUnservableFiles ctx entries).activeWorkers = d.activeWorkers := by
  rw [failUnservableFiles_eq]

@[simp] theorem failUnservableFiles_fileQueue :
    (d.failUnservableFiles ctx entries).fileQueue = d.fileQueue := by
  rw [failUnservableFiles_eq]

@[simp] theorem failUnservableFiles_parallelRunAborted :
    (d.failUnservableFiles ctx entries).parallelRunAborted = d.parallelRunAborted := by
  rw [failUnservableFiles_eq]

@[simp] theorem failUnservableFiles_settled :
    (d.failUnservableFiles ctx entries).settled = d.settled := by
  rw [failUnservableFiles_eq]

@[simp] theorem failUnservableFiles_initialDispatchDone :
    (d.failUnservableFiles ctx entries).initialDispatchDone = d.initialDispatchDone := by
  rw [failUnservableFiles_eq]

@[simp] theorem failUnservableFiles_log : (d.failUnservableFiles ctx entries).log
    = d.log ++ entries.map fun e => .unservable e (failures ctx e) := by
  rw [failUnservableFiles_eq]

/-- What is failed is settled. -/
theorem failUnservableFiles_countP : (d.failUnservableFiles ctx entries).log.countP (·.settles id)
    = d.log.countP (·.settles id) + entries.countP (·.id = id) := by
  rw [failUnservableFiles_log, List.countP_append, List.countP_map]
  rfl

theorem Totals.failUnservableFiles (h : d.Totals) :
    (d.failUnservableFiles ctx entries).Totals := by
  induction entries generalizing d with
  | nil => exact h
  | cons e entries ih =>
    refine ih (d := d.failUnservableFile ctx e) ⟨?_, ?_, ?_⟩
    · simp [failUnservableFile, h.passed, Event.passed]
    · simp [failUnservableFile, h.failed, Event.failed]
    · simp [failUnservableFile, h.skipped, Event.skipped]

end Unservable

end Dispatch

/-! ### Moves -/

/-- What a dispatch may do at once. -/
inductive Move (ctx : UIServerContext) (d : Dispatch) : Dispatch → Prop
  /-- Something is noted of a worker, or of its process. -/
  | note (i : ℕ) (w w' : UIWorkerHandle) (hi : d.activeWorkers[i]? = some w)
      (hfile : w'.currentFile.map Entry.id = w.currentFile.map Entry.id)
      (hretired : w'.retired = w.retired) (hbucket : w'.bucketSignature = w.bucketSignature) :
      Move ctx d (d.setWorker i w')
  | done (i : ℕ) (w w₁ w' : UIWorkerHandle) (e entry : Entry) (results : List TestResult)
      (durationMs : ℕ) (hi : d.activeWorkers[i]? = some w) (hfile : w.currentFile = some e)
      (hid : e.id = entry.id) (hfree : w'.currentFile = none) (hretired : w'.retired = w.retired)
      (hbucket : w'.bucketSignature = w.bucketSignature) :
      Move ctx d ((d.countDone i w₁ entry results durationMs).setWorker i w')
  | idle (i : ℕ) (w : UIWorkerHandle) (hi : d.activeWorkers[i]? = some w)
      (hfree : w.currentFile = none) : Move ctx d (d.setIdle i w)
  | hand (i : ℕ) (w : UIWorkerHandle) (next : Entry) (hi : d.activeWorkers[i]? = some w)
      (hfree : w.currentFile = none)
      (hnext : d.fileQueue.find? (Dispatch.serves ctx w) = some next) :
      Move ctx d ((d.assign ctx i w next).send i (Dispatch.taking w next) next)
  /-- A worker takes an entry, but cannot be sent it. -/
  | lose (i : ℕ) (w : UIWorkerHandle) (next : Entry) (hi : d.activeWorkers[i]? = some w)
      (hlive : w.retired = false) (hfree : w.currentFile = none)
      (hnext : d.fileQueue.find? (Dispatch.serves ctx w) = some next) :
      Move ctx d ((d.assign ctx i w next).withdraw i (Dispatch.taking w next))
  | withdraw (i : ℕ) (w : UIWorkerHandle) (hi : d.activeWorkers[i]? = some w)
      (hlive : w.retired = false) : Move ctx d (d.withdraw i w)
  | drain : Move ctx d (d.drain ctx)
  /-- All are idle, and files are left. -/
  | fail (hdone : d.allDone = true)
      (hnone : ctx.bucketByProject = none → ∀ w ∈ d.activeWorkers, w.retired = true) :
      Move ctx d { d.failUnservableFiles ctx d.fileQueue with fileQueue := [] }
  | settle (s : Settled) (hdone : d.allDone = true)
      (hover : d.parallelRunAborted = true ∨ d.fileQueue = []) :
      Move ctx d { d with settled := some s }
  | mark (anyFailed started : Bool) :
      Move ctx d { d with anyFailed := anyFailed, initialDispatchDone := started }
  | abort : Move ctx d d.stopParallelRun
  | kill : Move ctx d d.killWedged

/-- What a dispatch may do until it is settled. -/
def Moves (ctx : UIServerContext) : Dispatch → Dispatch → Prop :=
  ReflTransGen fun d d' => d.settled = none ∧ Move ctx d d'

namespace Move

/-- A worker whose entry is known to the count. -/
theorem holds_of_map {w w' : UIWorkerHandle}
    (h : w'.currentFile.map Entry.id = w.currentFile.map Entry.id) :
    w'.holds id = w.holds id := by
  have hany : ∀ w : UIWorkerHandle, w.holds id = (w.currentFile.map Entry.id).any (· = id) := by
    intro w
    rw [UIWorkerHandle.holds, Option.any_map]
  rw [hany, hany, h]

theorem holds_of_none (h : w.currentFile = none) : w.holds id = false := by
  rw [UIWorkerHandle.holds, h]
  rfl

theorem holds_of_some {e : Entry} (h : w.currentFile = some e) :
    w.holds id = decide (e.id = id) := by
  rw [UIWorkerHandle.holds, h]
  rfl

/-- The places of the entries when a worker changes, and maybe the queue and the log. -/
theorem places_setWorker (id : ℕ) {u : UIWorkerHandle} (hi : d.activeWorkers[i]? = some w) :
    (d.setWorker i u).places id + (if w.holds id then 1 else 0)
      = d.places id + if u.holds id then 1 else 0 := by
  have h := countP_set_add (p := fun w : UIWorkerHandle => w.holds id) (b := u) hi
  show _ + (d.activeWorkers.set i u).countP _ + _ + _ = _ + _ + _ + _
  simp only [Dispatch.setWorker] at h ⊢
  omega

theorem getElem?_setWorker {u : UIWorkerHandle} (hi : d.activeWorkers[i]? = some w) :
    (d.setWorker i u).activeWorkers[i]? = some u := by
  obtain ⟨hlt, -⟩ := List.getElem?_eq_some_iff.mp hi
  exact List.getElem?_set_self hlt

theorem places_assign {next : Entry} (hi : d.activeWorkers[i]? = some w)
    (hfree : w.currentFile = none) (hnext : d.fileQueue.find? (Dispatch.serves ctx w) = some next) :
    (d.assign ctx i w next).places id = d.places id := by
  have hset := places_setWorker id (u := Dispatch.taking w next)
    (d := { d with fileQueue := d.fileQueue.eraseP (Dispatch.serves ctx w) }) hi
  have hqueue := countP_eraseP_add (p := fun e : Entry => decide (e.id = id)) hnext
  rw [holds_of_none hfree, holds_of_some (e := { next with reported := _ }) rfl] at hset
  simp only [Dispatch.places, Dispatch.assign] at hset ⊢
  simp only [Bool.false_eq_true, if_false] at hset
  omega

theorem places_send {entry : Entry} (hi : d.activeWorkers[i]? = some w) :
    (d.send i w entry).places id = d.places id := by
  have hset := places_setWorker id (d := { d with log := d.log ++ [.sent i entry] })
    (u := { w with process := { w.process with inbox := w.process.inbox ++ [entry] } }) hi
  rw [holds_of_map (w := w) rfl] at hset
  have hlog : Dispatch.places { d with log := d.log ++ [.sent i entry] } id = d.places id := by
    show _ + _ + (d.log ++ [Event.sent i entry]).countP _ = _
    rw [List.countP_append]
    rfl
  exact (Nat.add_right_cancel hset).trans hlog

theorem places_withdraw (hi : d.activeWorkers[i]? = some w) :
    (d.withdraw i w).places id = d.places id := by
  have hset := places_setWorker id (u := { w with
    retired := true, busy := false, currentFile := none, currentTest := none }) hi
  rw [holds_of_none (w := { w with retired := _, busy := _, currentFile := _, currentTest := _ })
    rfl] at hset
  unfold Dispatch.withdraw
  cases hfile : w.currentFile with
  | none =>
    rw [holds_of_none hfile] at hset
    simpa using hset
  | some entry =>
    rw [holds_of_some hfile] at hset
    simp only [Dispatch.places, Dispatch.setWorker, Bool.false_eq_true, if_false] at hset
    dsimp only
    split
    · simp only [Dispatch.places, Dispatch.setWorker, List.countP_append, List.countP_singleton,
        Event.settles]
      omega
    · simp only [Dispatch.places, Dispatch.setWorker, List.countP_cons]
      omega

theorem places_drain : (d.drain ctx).places id = d.places id := by
  have hsplit := List.countP_eq_countP_filter_add d.fileQueue (fun e : Entry => decide (e.id = id))
    (d.isOrphan ctx)
  simp only [Dispatch.places, Dispatch.drain, Dispatch.failUnservableFiles_fileQueue,
    Dispatch.failUnservableFiles_activeWorkers, Dispatch.failUnservableFiles_countP]
  omega

theorem places_killWedged : d.killWedged.places id = d.places id := by
  -- the position of a worker does not matter to the count
  have hkill : ∀ (ws : List UIWorkerHandle) (n : ℕ),
      (ws.map fun w => if Dispatch.isWedged w then
        { w with retired := true, busy := false, currentFile := none, currentTest := none }
        else w).countP (fun w : UIWorkerHandle => w.holds id) +
      ((ws.zipIdx n).flatMap fun p => if Dispatch.isWedged p.1 then
        p.1.currentFile.toList.map (Event.interrupted p.2) else []).countP (·.settles id)
      = ws.countP (fun w : UIWorkerHandle => w.holds id) := by
    intro ws
    induction ws with
    | nil => exact fun _ => rfl
    | cons w ws ih =>
      intro n
      have htail := ih (n + 1)
      rw [List.map_cons, List.zipIdx_cons, List.flatMap_cons, List.countP_cons, List.countP_cons,
        List.countP_append]
      dsimp only at htail ⊢
      by_cases hw : Dispatch.isWedged w = true
      · rw [if_pos hw, if_pos hw]
        have hhead : (w.currentFile.toList.map (Event.interrupted n)).countP (·.settles id)
            = if w.holds id then 1 else 0 := by
          cases hfile : w.currentFile with
          | none => rw [holds_of_none hfile]; rfl
          | some e => rw [holds_of_some hfile]; exact List.countP_singleton ..
        rw [hhead, holds_of_none (w := { w with
          retired := _, busy := _, currentFile := _, currentTest := _ }) rfl]
        simp only [Bool.false_eq_true, if_false]
        omega
      · rw [if_neg hw, if_neg hw, List.countP_nil]
        omega
  have h := hkill d.activeWorkers 0
  simp only [Dispatch.places, Dispatch.killWedged, List.countP_append]
  omega

/-- **Nothing is lost**, nor doubled. -/
theorem places (h : Move ctx d d') : d'.places id = d.places id := by
  cases h with
  | note i w w' hi hfile _ _ =>
    have hset := places_setWorker id (u := w') hi
    rw [holds_of_map hfile] at hset
    omega
  | done i w w₁ w' e entry results durationMs hi hfile hid hfree _ _ =>
    have hset := places_setWorker id (u := w')
      (d := d.countDone i w₁ entry results durationMs) hi
    rw [holds_of_some hfile, holds_of_none hfree, hid] at hset
    have hcount : (d.countDone i w₁ entry results durationMs).places id
        = d.places id + if decide (entry.id = id) then 1 else 0 := by
      simp only [Dispatch.places, Dispatch.countDone, List.countP_append, List.countP_singleton,
        Event.settles]
      omega
    simp only [Bool.false_eq_true, if_false] at hset
    omega
  | idle i w hi hfree =>
    have hset := places_setWorker id (u := { w with
      busy := false, currentFile := none, currentTest := none }) hi
    rw [holds_of_none hfree, holds_of_none (w := { w with
      busy := _, currentFile := _, currentTest := _ }) rfl] at hset
    exact Nat.add_right_cancel hset
  | hand i w next hi hfree hnext =>
    have hassigned := getElem?_setWorker (u := Dispatch.taking w next)
      (d := { d with fileQueue := d.fileQueue.eraseP (Dispatch.serves ctx w) }) hi
    exact (places_send hassigned).trans (places_assign hi hfree hnext)
  | lose i w next hi _ hfree hnext =>
    have hassigned := getElem?_setWorker (u := Dispatch.taking w next)
      (d := { d with fileQueue := d.fileQueue.eraseP (Dispatch.serves ctx w) }) hi
    exact (places_withdraw hassigned).trans (places_assign hi hfree hnext)
  | withdraw i w hi _ => exact places_withdraw hi
  | drain => exact places_drain
  | fail _ _ =>
    have hcount : (d.failUnservableFiles ctx d.fileQueue).log.countP (·.settles id)
        = d.log.countP (·.settles id) + d.fileQueue.countP (·.id = id) :=
      Dispatch.failUnservableFiles_countP
    simp only [Dispatch.places, Dispatch.failUnservableFiles_activeWorkers, List.countP_nil]
    omega
  | settle _ _ _ => rfl
  | mark _ _ => rfl
  | abort => rfl
  | kill => exact places_killWedged

end Move

/-! ### What stays -/

/-- The workers keep their buckets, and those that are retired stay retired. -/
structure Dispatch.Onward (d d' : Dispatch) : Prop where
  length : d'.activeWorkers.length = d.activeWorkers.length
  worker : ∀ (j : ℕ) (w : UIWorkerHandle), d.activeWorkers[j]? = some w →
    ∃ w', d'.activeWorkers[j]? = some w' ∧ w'.bucketSignature = w.bucketSignature ∧
      (w.retired = true → w'.retired = true)

namespace Dispatch.Onward

theorem of_eq (h : d'.activeWorkers = d.activeWorkers) : d.Onward d' :=
  ⟨by rw [h], fun _ w hj => ⟨w, h ▸ hj, rfl, id⟩⟩

theorem trans {a b c : Dispatch} (h : a.Onward b) (h' : b.Onward c) : a.Onward c := by
  refine ⟨h'.length.trans h.length, fun j w hj => ?_⟩
  obtain ⟨w', hj', hbucket, hretired⟩ := h.worker j w hj
  obtain ⟨w'', hj'', hbucket', hretired'⟩ := h'.worker j w' hj'
  exact ⟨w'', hj'', hbucket'.trans hbucket, hretired' ∘ hretired⟩

theorem setWorker {w' : UIWorkerHandle} (hi : d.activeWorkers[i]? = some w)
    (hbucket : w'.bucketSignature = w.bucketSignature)
    (hretired : w.retired = true → w'.retired = true) : d.Onward (d.setWorker i w') := by
  refine ⟨List.length_set, fun j u hj => ?_⟩
  show ∃ u', (d.activeWorkers.set i w')[j]? = some u' ∧ _
  by_cases hij : i = j
  · subst hij
    obtain rfl := Option.some_injective _ (hi.symm.trans hj)
    exact ⟨w', Move.getElem?_setWorker hi, hbucket, hretired⟩
  · rw [List.getElem?_set_ne hij]
    exact ⟨u, hj, rfl, id⟩

/-- Where all were retired, all are. -/
theorem allRetired (h : d.Onward d') (hall : ∀ w ∈ d.activeWorkers, w.retired = true) :
    ∀ w ∈ d'.activeWorkers, w.retired = true := by
  intro w hw
  obtain ⟨j, hj, rfl⟩ := List.getElem_of_mem hw
  have hlt : j < d.activeWorkers.length := h.length ▸ hj
  obtain ⟨w', hj', -, hretired⟩ := h.worker j _ (List.getElem?_eq_getElem hlt)
  rw [List.getElem?_eq_getElem hj] at hj'
  rw [Option.some_injective _ hj']
  exact hretired (hall _ (List.getElem_mem hlt))

end Dispatch.Onward

/-- A worker may run what another of its bucket may. -/
theorem serves_congr {w' : UIWorkerHandle} (h : w'.bucketSignature = w.bucketSignature)
    (entry : Entry) : Dispatch.serves ctx w' entry = Dispatch.serves ctx w entry := by
  rw [Dispatch.serves, Dispatch.serves, h]

/-- What is added to the log. -/
structure Dispatch.Logs (ctx : UIServerContext) (d d' : Dispatch) (events : List Event) : Prop where
  log : d'.log = d.log ++ events
  sent : ∀ (j : ℕ) (entry : Entry), .sent j entry ∈ events →
    ∃ w, d.activeWorkers[j]? = some w ∧ Dispatch.serves ctx w entry = true
  unservable : ∀ (entry : Entry) (n : ℕ), .unservable entry n ∈ events →
    ctx.bucketByProject = none → ∀ w ∈ d.activeWorkers, w.retired = true

namespace Move

theorem onward (h : Move ctx d d') : d.Onward d' := by
  have hassign : ∀ (i : ℕ) (w : UIWorkerHandle) (next : Entry), d.activeWorkers[i]? = some w →
      d.Onward (d.assign ctx i w next) := fun i w next hi =>
    .trans (b := { d with fileQueue := d.fileQueue.eraseP (Dispatch.serves ctx w) }) (.of_eq rfl)
      (.setWorker hi rfl id)
  have hassigned : ∀ (i : ℕ) (w : UIWorkerHandle) (next : Entry), d.activeWorkers[i]? = some w →
      (d.assign ctx i w next).activeWorkers[i]? = some (Dispatch.taking w next) :=
    fun i w next hi => getElem?_setWorker
      (d := { d with fileQueue := d.fileQueue.eraseP (Dispatch.serves ctx w) }) hi
  have hwithdraw : ∀ (d : Dispatch) (i : ℕ) (w : UIWorkerHandle), d.activeWorkers[i]? = some w →
      d.Onward (d.withdraw i w) := by
    intro d i w hi
    have hset : d.Onward (d.setWorker i { w with
        retired := true, busy := false, currentFile := none, currentTest := none }) :=
      .setWorker hi rfl fun _ => rfl
    unfold Dispatch.withdraw
    dsimp only
    split
    · exact hset
    · split
      · exact hset.trans (.of_eq rfl)
      · exact hset.trans (.of_eq rfl)
  cases h with
  | note i w w' hi _ hretired hbucket => exact .setWorker hi hbucket fun h => hretired.trans h
  | done i w w₁ w' e entry results durationMs hi _ _ _ hretired hbucket =>
    exact .trans (b := d.countDone i w₁ entry results durationMs) (.of_eq rfl)
      (.setWorker hi hbucket fun h => hretired.trans h)
  | idle i w hi _ => exact .setWorker hi rfl id
  | hand i w next hi _ _ =>
    refine (hassign i w next hi).trans (.trans (b := { d.assign ctx i w next with
      log := _ ++ [.sent i next] }) (.of_eq rfl) (.setWorker (hassigned i w next hi) rfl id))
  | lose i w next hi _ _ _ =>
    exact (hassign i w next hi).trans (hwithdraw _ i _ (hassigned i w next hi))
  | withdraw i w hi _ => exact hwithdraw d i w hi
  | drain => exact .of_eq Dispatch.failUnservableFiles_activeWorkers
  | fail _ _ => exact .of_eq Dispatch.failUnservableFiles_activeWorkers
  | settle _ _ _ => exact .of_eq rfl
  | mark _ _ => exact .of_eq rfl
  | abort => exact .of_eq rfl
  | kill =>
    refine ⟨List.length_map .., fun j w hj => ?_⟩
    refine ⟨_, by rw [Dispatch.killWedged, List.getElem?_map, hj]; rfl, ?_⟩
    dsimp only
    split
    · exact ⟨rfl, fun _ => rfl⟩
    · exact ⟨rfl, id⟩

theorem logs_nil (h : d'.log = d.log) : d.Logs ctx d' [] :=
  ⟨h.trans (List.append_nil _).symm, fun _ _ hmem => absurd hmem List.not_mem_nil,
    fun _ _ hmem => absurd hmem List.not_mem_nil⟩

/-- Nothing that is sent or failed. -/
theorem logs_other {events : List Event} (h : d'.log = d.log ++ events)
    (hother : ∀ e ∈ events, ∃ j entry, e = .interrupted j entry) : d.Logs ctx d' events := by
  refine ⟨h, fun j entry hmem => ?_, fun entry n hmem => ?_⟩
  · obtain ⟨_, _, heq⟩ := hother _ hmem
    cases heq
  · obtain ⟨_, _, heq⟩ := hother _ hmem
    cases heq

theorem log_withdraw : ∃ events, (d.withdraw i w).log = d.log ++ events ∧
    ∀ e ∈ events, ∃ j entry, e = .interrupted j entry := by
  unfold Dispatch.withdraw
  dsimp only
  split
  · exact ⟨[], (List.append_nil _).symm, fun _ he => absurd he List.not_mem_nil⟩
  · rename_i entry _
    split
    · exact ⟨[.interrupted i entry], rfl, fun e he => ⟨i, entry, List.mem_singleton.mp he⟩⟩
    · exact ⟨[], (List.append_nil _).symm, fun _ he => absurd he List.not_mem_nil⟩

theorem mem_killed {e : Event}
    (he : e ∈ d.activeWorkers.zipIdx.flatMap fun p =>
      if Dispatch.isWedged p.1 then p.1.currentFile.toList.map (Event.interrupted p.2) else []) :
    ∃ j entry, e = .interrupted j entry := by
  obtain ⟨⟨w, j⟩, -, he⟩ := List.mem_flatMap.mp he
  dsimp only at he
  split at he
  · obtain ⟨entry, -, rfl⟩ := List.mem_map.mp he
    exact ⟨j, entry, rfl⟩
  · exact absurd he List.not_mem_nil

/-- **What a move logs**: a worker is sent a file of its bucket; without buckets a file is failed
    only where all workers are retired. -/
theorem logs (h : Move ctx d d') : ∃ events, d.Logs ctx d' events := by
  cases h with
  | note => exact ⟨[], logs_nil rfl⟩
  | done i w w₁ w' e entry results durationMs =>
    refine ⟨[.done i entry results], rfl, fun j entry hmem => ?_, fun entry n hmem => ?_⟩
    · cases List.mem_singleton.mp hmem
    · cases List.mem_singleton.mp hmem
  | idle => exact ⟨[], logs_nil rfl⟩
  | hand i w next hi _ hnext =>
    refine ⟨[.sent i next], rfl, fun j entry hmem => ?_, fun entry n hmem => ?_⟩
    · cases List.mem_singleton.mp hmem
      exact ⟨w, hi, List.find?_some hnext⟩
    · cases List.mem_singleton.mp hmem
  | lose i w next _ _ _ _ =>
    obtain ⟨events, hlog, hother⟩ := log_withdraw (d := d.assign ctx i w next) (i := i)
      (w := Dispatch.taking w next)
    exact ⟨events, logs_other hlog hother⟩
  | withdraw i w _ _ =>
    obtain ⟨events, hlog, hother⟩ := log_withdraw (d := d) (i := i) (w := w)
    exact ⟨events, logs_other hlog hother⟩
  | drain =>
    refine ⟨_, Dispatch.failUnservableFiles_log, fun j entry hmem => ?_,
      fun entry n hmem hbucket u hu => ?_⟩
    · obtain ⟨_, _, heq⟩ := List.mem_map.mp hmem
      cases heq
    · obtain ⟨e, he, heq⟩ := List.mem_map.mp hmem
      have horphan := (List.mem_filter.mp he).2
      rw [Dispatch.isOrphan, hbucket] at horphan
      by_contra hlive
      have hmem : u ∈ d.remaining := List.mem_filter.mpr ⟨hu, by simpa using hlive⟩
      rw [if_neg (List.ne_nil_of_mem hmem)] at horphan
      cases horphan
  | fail _ hnone =>
    refine ⟨_, Dispatch.failUnservableFiles_log, fun j entry hmem => ?_,
      fun entry n _ hbucket => hnone hbucket⟩
    obtain ⟨_, _, heq⟩ := List.mem_map.mp hmem
    cases heq
  | settle => exact ⟨[], logs_nil rfl⟩
  | mark => exact ⟨[], logs_nil rfl⟩
  | abort => exact ⟨[], logs_nil rfl⟩
  | kill => exact ⟨_, logs_other rfl fun e he => mem_killed he⟩

/-! #### The counts -/

/-- Events that count nothing. -/
theorem totals_append {events : List Event} (h : d.Totals) (hlog : d'.log = d.log ++ events)
    (hother : ∀ e ∈ events, e.passed = 0 ∧ e.failed = 0 ∧ e.skipped = 0)
    (hpassed : d'.passed = d.passed) (hfailed : d'.failed = d.failed)
    (hskipped : d'.skipped = d.skipped) : d'.Totals := by
  have hsum : ∀ f : Event → ℕ, (∀ e ∈ events, f e = 0) →
      (d'.log.map f).sum = (d.log.map f).sum := by
    intro f hf
    have hzero : (events.map f).sum = 0 :=
      List.sum_eq_zero fun n hn => by
        obtain ⟨e, he, rfl⟩ := List.mem_map.mp hn
        exact hf e he
    rw [hlog, List.map_append, List.sum_append, hzero, Nat.add_zero]
  refine ⟨?_, ?_, ?_⟩
  · rw [hpassed, h.passed, hsum _ fun e he => (hother e he).1]
  · rw [hfailed, h.failed, hsum _ fun e he => (hother e he).2.1]
  · rw [hskipped, h.skipped, hsum _ fun e he => (hother e he).2.2]

theorem totals_of_eq (h : d.Totals) (hlog : d'.log = d.log) (hpassed : d'.passed = d.passed)
    (hfailed : d'.failed = d.failed) (hskipped : d'.skipped = d.skipped) : d'.Totals :=
  totals_append h (hlog.trans (List.append_nil _).symm) (fun _ he => absurd he List.not_mem_nil)
    hpassed hfailed hskipped

theorem counts_withdraw : (d.withdraw i w).passed = d.passed ∧
    (d.withdraw i w).failed = d.failed ∧ (d.withdraw i w).skipped = d.skipped := by
  unfold Dispatch.withdraw
  dsimp only
  split
  · exact ⟨rfl, rfl, rfl⟩
  · split <;> exact ⟨rfl, rfl, rfl⟩

theorem totals_withdraw (h : d.Totals) : (d.withdraw i w).Totals := by
  obtain ⟨events, hlog, hother⟩ := log_withdraw (d := d) (i := i) (w := w)
  obtain ⟨hpassed, hfailed, hskipped⟩ := counts_withdraw (d := d) (i := i) (w := w)
  refine totals_append h hlog (fun e he => ?_) hpassed hfailed hskipped
  obtain ⟨j, entry, rfl⟩ := hother e he
  exact ⟨rfl, rfl, rfl⟩

theorem totals (h : Move ctx d d') (ht : d.Totals) : d'.Totals := by
  cases h with
  | note => exact totals_of_eq ht rfl rfl rfl rfl
  | done i w w₁ w' e entry results durationMs =>
    refine ⟨?_, ?_, ?_⟩
    · simp [Dispatch.setWorker, Dispatch.countDone, ht.passed, Event.passed]
    · simp [Dispatch.setWorker, Dispatch.countDone, ht.failed, Event.failed]
    · simp [Dispatch.setWorker, Dispatch.countDone, ht.skipped, Event.skipped]
  | idle => exact totals_of_eq ht rfl rfl rfl rfl
  | hand i w next =>
    have hlog : ((d.assign ctx i w next).send i (Dispatch.taking w next) next).log
        = d.log ++ [.sent i next] := rfl
    refine totals_append ht hlog (fun e he => ?_) rfl rfl rfl
    rw [List.mem_singleton.mp he]
    exact ⟨rfl, rfl, rfl⟩
  | lose i w next => exact totals_withdraw (totals_of_eq ht rfl rfl rfl rfl)
  | withdraw => exact totals_withdraw ht
  | drain =>
    refine Dispatch.Totals.failUnservableFiles ?_
    exact totals_of_eq ht rfl rfl rfl rfl
  | fail => exact totals_of_eq ht.failUnservableFiles rfl rfl rfl rfl
  | settle => exact totals_of_eq ht rfl rfl rfl rfl
  | mark => exact totals_of_eq ht rfl rfl rfl rfl
  | abort => exact totals_of_eq ht rfl rfl rfl rfl
  | kill =>
    refine totals_append ht rfl (fun e he => ?_) rfl rfl rfl
    obtain ⟨j, entry, rfl⟩ := mem_killed he
    exact ⟨rfl, rfl, rfl⟩

end Move

/-! ### What is left to do -/

/-- The files that are not settled, and the workers that live. -/
def Dispatch.potential (d : Dispatch) : ℕ :=
  d.fileQueue.length + d.activeWorkers.countP (fun w => w.currentFile.isSome) +
    d.activeWorkers.countP (fun w => !w.retired)

namespace Move

theorem potential_setWorker {u : UIWorkerHandle} (hi : d.activeWorkers[i]? = some w) :
    (d.setWorker i u).potential + (if w.currentFile.isSome then 1 else 0) +
        (if !w.retired then 1 else 0)
      = d.potential + (if u.currentFile.isSome then 1 else 0) + if !u.retired then 1 else 0 := by
  have hfile := countP_set_add (p := fun w : UIWorkerHandle => w.currentFile.isSome) (b := u) hi
  have hlive := countP_set_add (p := fun w : UIWorkerHandle => !w.retired) (b := u) hi
  show _ + (d.activeWorkers.set i u).countP _ + (d.activeWorkers.set i u).countP _ + _ + _
    = _ + _ + _ + _ + _
  simp only [Dispatch.setWorker] at hfile hlive ⊢
  omega

theorem potential_assign {next : Entry} (hi : d.activeWorkers[i]? = some w)
    (hfree : w.currentFile = none) (hnext : d.fileQueue.find? (Dispatch.serves ctx w) = some next) :
    (d.assign ctx i w next).potential = d.potential := by
  have hset := potential_setWorker (u := Dispatch.taking w next)
    (d := { d with fileQueue := d.fileQueue.eraseP (Dispatch.serves ctx w) }) hi
  have hqueue := countP_eraseP_add (p := fun _ : Entry => true) hnext
  rw [List.countP_true, if_pos rfl] at hqueue
  have htaking : (Dispatch.taking w next).currentFile.isSome = true ∧
      (Dispatch.taking w next).retired = w.retired := ⟨rfl, rfl⟩
  rw [hfree, htaking.1, htaking.2] at hset
  simp only [Dispatch.potential, Dispatch.assign, Option.isSome_none, Bool.false_eq_true, if_false,
    if_true] at hset ⊢
  omega

/-- One worker less; its file is back in the queue, or not coming back. -/
theorem potential_withdraw (hi : d.activeWorkers[i]? = some w) (hlive : w.retired = false) :
    (d.withdraw i w).potential < d.potential := by
  have hset := potential_setWorker (u := { w with
    retired := true, busy := false, currentFile := none, currentTest := none }) hi
  simp only [hlive, Bool.not_false, Bool.not_true, if_true, Option.isSome_none,
    Bool.false_eq_true, if_false] at hset
  unfold Dispatch.withdraw
  cases hfile : w.currentFile with
  | none =>
    rw [hfile] at hset
    simp only [Option.isSome_none, Bool.false_eq_true, if_false] at hset
    dsimp only
    omega
  | some entry =>
    rw [hfile] at hset
    simp only [Option.isSome_some, if_true, Dispatch.potential, Dispatch.setWorker] at hset
    dsimp only
    split
    · simp only [Dispatch.potential, Dispatch.setWorker]
      omega
    · simp only [Dispatch.potential, Dispatch.setWorker, List.length_cons]
      omega

/-- A file that is answered is settled. -/
theorem potential_done {w₁ w' : UIWorkerHandle} {e entry : Entry} {results : List TestResult}
    {durationMs : ℕ} (hi : d.activeWorkers[i]? = some w) (hfile : w.currentFile = some e)
    (hfree : w'.currentFile = none) (hretired : w'.retired = w.retired) :
    ((d.countDone i w₁ entry results durationMs).setWorker i w').potential < d.potential := by
  have hset := potential_setWorker (u := w')
    (d := d.countDone i w₁ entry results durationMs) hi
  have hcount : (d.countDone i w₁ entry results durationMs).potential = d.potential := rfl
  rw [hfile, hfree, hretired, hcount] at hset
  simp only [Option.isSome_some, Option.isSome_none, if_true, Bool.false_eq_true, if_false] at hset
  omega

theorem potential_le (h : Move ctx d d') : d'.potential ≤ d.potential := by
  cases h with
  | note i w w' hi hfile hretired _ =>
    have hset := potential_setWorker (u := w') hi
    have hsome : w'.currentFile.isSome = w.currentFile.isSome := by
      rw [← Option.isSome_map (f := Entry.id), hfile, Option.isSome_map]
    rw [hsome, hretired] at hset
    omega
  | done i w w₁ w' e entry results durationMs hi hfile _ hfree hretired _ =>
    exact (potential_done hi hfile hfree hretired).le
  | idle i w hi hfree =>
    have hset := potential_setWorker (u := { w with
      busy := false, currentFile := none, currentTest := none }) hi
    rw [hfree] at hset
    exact (Nat.add_right_cancel (Nat.add_right_cancel hset)).le
  | hand i w next hi hfree hnext =>
    have hassigned := getElem?_setWorker (u := Dispatch.taking w next)
      (d := { d with fileQueue := d.fileQueue.eraseP (Dispatch.serves ctx w) }) hi
    have hset := potential_setWorker
      (d := { d.assign ctx i w next with log := d.log ++ [.sent i next] })
      (u := { Dispatch.taking w next with process := { (Dispatch.taking w next).process with
        inbox := (Dispatch.taking w next).process.inbox ++ [next] } }) hassigned
    exact ((Nat.add_right_cancel (Nat.add_right_cancel hset)).trans
      (potential_assign hi hfree hnext)).le
  | lose i w next hi hlive hfree hnext =>
    have hassigned := getElem?_setWorker (u := Dispatch.taking w next)
      (d := { d with fileQueue := d.fileQueue.eraseP (Dispatch.serves ctx w) }) hi
    exact ((potential_withdraw hassigned hlive).trans_eq (potential_assign hi hfree hnext)).le
  | withdraw i w hi hlive => exact (potential_withdraw hi hlive).le
  | drain =>
    have hle := List.length_filter_le (fun e => !d.isOrphan ctx e) d.fileQueue
    simp only [Dispatch.potential, Dispatch.drain, Dispatch.failUnservableFiles_fileQueue,
      Dispatch.failUnservableFiles_activeWorkers]
    omega
  | fail =>
    simp only [Dispatch.potential, Dispatch.failUnservableFiles_activeWorkers, List.length_nil]
    omega
  | settle => exact le_refl _
  | mark => exact le_refl _
  | abort => exact le_refl _
  | kill =>
    have hfile : d.killWedged.activeWorkers.countP (fun w => w.currentFile.isSome)
        ≤ d.activeWorkers.countP (fun w => w.currentFile.isSome) := by
      rw [Dispatch.killWedged, List.countP_map]
      refine List.countP_mono_left fun w _ hw => ?_
      dsimp only [Function.comp_apply] at hw
      split at hw
      · cases hw
      · exact hw
    have hlive : d.killWedged.activeWorkers.countP (fun w => !w.retired)
        ≤ d.activeWorkers.countP (fun w => !w.retired) := by
      rw [Dispatch.killWedged, List.countP_map]
      refine List.countP_mono_left fun w _ hw => ?_
      dsimp only [Function.comp_apply] at hw
      split at hw
      · cases hw
      · exact hw
    have hqueue : d.killWedged.fileQueue = d.fileQueue := rfl
    rw [Dispatch.potential, Dispatch.potential, hqueue]
    omega

end Move

end Tapsmith.RunAll.Parallel
