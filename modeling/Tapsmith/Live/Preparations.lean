import Tapsmith.Lib.Machine
import Tapsmith.Live.Readiness

namespace Tapsmith.Live

open Lib.Machine
open Runner (AppResetPolicy)

/-!
# What a readiness chip vouches for

A worker's readiness watched from outside: what the device was last touched by, which preparations
are under way and whether the timer is pending follow from the events and the commands alone.

* `Monitor.after` — an event is handled and its commands are carried out;
* `Vouches` — what must hold of every state, and of every step out of it;
* `Settled` — the invariant: the state of the machine agrees with what was watched;
* `vouches_of_run` — every run in which no run ends while the worker initializes, and no worker is
  made ready or respawned in the middle of a preparation, vouches only for what it has.
-/

/-- What the worker is doing. -/
inductive WorkerStatus
  | initializing
  | idle
  | running
  | retired
deriving DecidableEq

/-- What the worker is doing in a state. -/
def ReadinessState.worker : ReadinessState → WorkerStatus
  | .initializing => .initializing
  | .running _ => .running
  | .retired => .retired
  | _ => .idle

/-- The states in which the device is to be looked at again. -/
def ReadinessState.awaitsTimer : ReadinessState → Bool
  | .unprepared reason => reason = .grace
  | .error _ _ attempts => attempts < MAX_PREPARE_ATTEMPTS
  | .stale reason _ _ => reason ≠ .runStopped && reason ≠ .runFailed
  | _ => false

section States

variable {s : ReadinessState}

theorem ReadinessState.worker_eq_idle (hinitializing : s.kind ≠ .initializing)
    (hrunning : s.kind ≠ .running) (hretired : s.kind ≠ .retired) : s.worker = .idle := by
  cases s <;> simp_all [kind, worker]

theorem ReadinessState.kind_of_worker_running (h : s.worker = .running) : s.kind = .running := by
  cases s <;> simp_all [kind, worker]

theorem ReadinessState.kind_of_awaitsTimer (h : s.awaitsTimer = true) :
    s.kind = .unprepared ∨ s.kind = .stale ∨ s.kind = .error := by
  cases s <;> simp_all [kind, awaitsTimer]

end States

structure Monitor where
  readiness : DeviceReadiness
  worker : WorkerStatus := .initializing
  /-- The policy of the preparation or launch that touched the device last, if it was one. -/
  touched : Option AppResetPolicy := none
  /-- The preparations that were sent and have neither ended nor been cancelled. -/
  underway : List String := []
  timer : Bool := false
deriving DecidableEq

namespace Monitor

open DeviceReadiness ReadinessCommand ReadinessState

def start (workerId : ℕ) : Monitor := { readiness := { workerId } }

/-! ### What is watched -/

/-- The worker after an event. -/
def worker' (m : Monitor) : ReadinessEvent → WorkerStatus
  | .workerReady _ => .idle
  | .dispatch _ _ => .running
  | .runEnded _ _ => if m.worker = .running then .idle else m.worker
  | .workerRetired => .retired
  | .workerRespawning => .initializing
  | _ => m.worker

/-- The preparation in progress is the one that an answer names. -/
def accepts (m : Monitor) (prepareId : String) : Bool :=
  m.readiness.state.prepareId = some prepareId

/-- The last touch of the device after an event. -/
def touched' (m : Monitor) : ReadinessEvent → Option AppResetPolicy
  | .prepared prepareId policy _ _ _ => if m.accepts prepareId then some policy else m.touched
  | .workerReady (some policy) => some policy
  | .dispatch _ _ => none
  | .invalidate _ => none
  | .workerRetired => none
  | .workerRespawning => none
  | _ => m.touched

/-- An answer ends the preparation that it names. -/
def underway' (m : Monitor) : ReadinessEvent → List String
  | .prepared prepareId _ _ _ _ => m.underway.filter (· ≠ prepareId)
  | .prepareFailed prepareId _ _ => m.underway.filter (· ≠ prepareId)
  | _ => m.underway

/-- The timer of the worker that runs out is no longer pending. -/
def timer' (m : Monitor) : ReadinessEvent → Bool
  | .graceElapsed timerId => m.timer && timerId ≠ m.readiness.timerId
  | _ => m.timer

/-- What an event says by itself, before it is handled. -/
def observe (m : Monitor) (e : ReadinessEvent) : Monitor :=
  { m with worker := m.worker' e, touched := m.touched' e, underway := m.underway' e
           timer := m.timer' e }

def execute (m : Monitor) : ReadinessCommand → Monitor
  | .sendPrepare prepareId _ _ _ => { m with underway := prepareId :: m.underway }
  | .sendCancelPrepare prepareId => { m with underway := m.underway.filter (· ≠ prepareId) }
  | .startTimer timerId _ => if timerId = m.readiness.timerId then { m with timer := true } else m
  | .clearTimer timerId => if timerId = m.readiness.timerId then { m with timer := false } else m
  | .broadcast => m

/-- The commands are carried out one after the other. -/
def executes (m : Monitor) (r : DeviceReadiness × List ReadinessCommand) : Monitor :=
  r.2.foldl execute { m with readiness := r.1 }

/-- One event of the worker. -/
def after (m : Monitor) (event : ReadinessEvent × ReadinessEnv) : Monitor :=
  (m.observe event.1).executes (m.readiness.handle event.2 event.1)

/-! ### What is claimed -/

/-- Only a worker that is there is sent a file. -/
def Step (m : Monitor) (event : ReadinessEvent × ReadinessEnv) (m' : Monitor) : Prop :=
  (∀ file want, event.1 = .dispatch file want → m.worker = .idle ∨ m.worker = .running) ∧
    m' = m.after event

/-- What a state vouches for: a prepared device was touched last by a preparation that will do, no
    answer but that of a preparation under way changes anything, and where the device is to be
    looked at again the timer is pending. -/
structure Vouches (m : Monitor) : Prop where
  prepared : ∀ want p, m.readiness.preparedFor want = some p →
    m.touched = some p.policy ∧ satisfies p.policy want = true
  answered : ∀ env prepareId policy startedAt durationMs satisfiedBy, prepareId ∉ m.underway →
    m.readiness.handle env (.prepared prepareId policy startedAt durationMs satisfiedBy) =
      (m.readiness, [])
  failed : ∀ env prepareId message cancelled, prepareId ∉ m.underway →
    m.readiness.handle env (.prepareFailed prepareId message cancelled) = (m.readiness, [])
  timer : m.readiness.state.awaitsTimer = true → m.timer = true

/-- When a preparation is sent, no earlier one is under way, the worker has nothing else to do, and
    speculation is on unless the preparation was asked for. -/
def SendsAlone (m : Monitor) (event : ReadinessEvent × ReadinessEnv) : Prop :=
  ∀ earlier prepareId target forFile projectName later,
    (m.readiness.handle event.2 event.1).2 =
      earlier ++ sendPrepare prepareId target forFile projectName :: later →
    ((m.observe event.1).executes ((m.readiness.handle event.2 event.1).1, earlier)).underway = [] ∧
      (m.observe event.1).worker = .idle ∧
      (event.1 = .prepareNow ∨ event.2.speculationEnabled = true)

/-- No run ends while the worker initializes, and no worker is made ready or respawned in the
    middle of a preparation. -/
def Guarded (m : Monitor) : ReadinessEvent → Prop
  | .runEnded _ _ => m.readiness.state.kind ≠ .initializing
  | .workerReady _ => m.readiness.state.kind ≠ .preparing
  | .workerRespawning => m.readiness.state.kind ≠ .preparing
  | _ => True

/-! ### The invariant -/

/-- The state of the machine agrees with what was watched. -/
structure Settled (m : Monitor) : Prop where
  worker : m.worker = m.readiness.state.worker
  touched : ∀ s, m.readiness.state = .ready s → m.touched = some s.policy
  underway : m.underway = m.readiness.state.prepareId.toList
  timer : m.readiness.state.awaitsTimer = true → m.timer = true

theorem settled_start (workerId : ℕ) : Settled (start workerId) where
  worker := rfl
  touched _ h := by cases h
  underway := rfl
  timer h := by cases h

section Commands

variable {m : Monitor} {r : DeviceReadiness} {o : DeviceReadiness × List ReadinessCommand}
  {state : ReadinessState} {env : ReadinessEnv} {force : Bool}

@[simp] theorem executes_announce : m.executes (announce o) = m.executes o := rfl

@[simp] theorem executes_enter_nil :
    m.executes (r.enter state []) = { m with readiness := { r with state } } := rfl

@[simp] theorem executes_broadcast (cs : List ReadinessCommand) :
    m.executes (r.enter state (broadcast :: cs)) = m.executes (r.enter state cs) := rfl

@[simp] theorem executes_startTimer (ms : ℕ) (cs : List ReadinessCommand) :
    m.executes (r.enter state (startTimer r.timerId ms :: cs)) =
      { m with timer := true }.executes (r.enter state cs) := by
  simp [executes, execute, enter, timerId]

@[simp] theorem executes_clearTimer (cs : List ReadinessCommand) :
    m.executes (r.enter state (clearTimer r.timerId :: cs)) =
      { m with timer := false }.executes (r.enter state cs) := by
  simp [executes, execute, enter, timerId]

/-- The cancellation of the preparation in progress leaves none under way. -/
theorem executes_cancelCommands {s : ReadinessState} (h : m.underway = s.prepareId.toList)
    (cs : List ReadinessCommand) :
    m.executes (r.enter state (s.cancelCommands ++ cs)) =
      { m with underway := [] }.executes (r.enter state cs) := by
  unfold ReadinessState.cancelCommands
  cases hid : s.prepareId with
  | none =>
    rw [hid] at h
    simp only [Option.toList_none] at h
    rw [← h]
    rfl
  | some id =>
    rw [hid] at h
    simp [executes, execute, enter, h]

/-- A worker that was moved to a state which is not ready is settled as soon as the rest fits. -/
theorem settled_unready {m : Monitor} {state : ReadinessState} (hstate : m.readiness.state = state)
    (hkind : state.kind ≠ .ready) (hworker : m.worker = state.worker)
    (hunderway : m.underway = state.prepareId.toList)
    (htimer : state.awaitsTimer = true → m.timer = true) : Settled m := by
  subst hstate
  refine ⟨hworker, ?_, hunderway, htimer⟩
  intro s hs
  rw [hs] at hkind
  exact absurd rfl hkind

/-- An armed worker that has nothing under way is settled. -/
theorem settled_armed (h : Armed env force r o) (hworker : m.worker = .idle)
    (hunderway : m.underway = []) : Settled (m.executes o) := by
  cases h with
  | leaves reason hreason =>
    rw [executes_broadcast]
    exact settled_unready rfl (by simp [kind]) hworker hunderway (by simp [awaitsTimer, hreason])
  | waits ms =>
    rw [executes_broadcast, executes_startTimer]
    exact settled_unready rfl (by simp [kind]) hworker hunderway fun _ => rfl
  | sends p projectName hid hallowed =>
    have hsent : m.executes ({ r with seq := r.seq + 1 }.enter (.preparing p)
        [sendPrepare p.prepareId p.target p.forFile projectName, broadcast]) =
          { m with readiness := { r with seq := r.seq + 1, state := .preparing p }
                   underway := [p.prepareId] } := by
      rw [← hunderway]
      rfl
    rw [hsent]
    exact settled_unready rfl (by simp [kind]) hworker rfl (by simp [awaitsTimer])

/-- So is a ready worker whose candidate is looked at. -/
theorem settled_reconciled {s : Ready} (h : Reconciled s r o) (hstate : r.state = .ready s)
    (hworker : m.worker = .idle) (htouched : m.touched = some s.policy)
    (hunderway : m.underway = []) : Settled (m.executes o) := by
  cases h with
  | keeps =>
    refine ⟨?_, ?_, ?_, ?_⟩
    · show m.worker = r.state.worker
      rw [hstate, hworker]
      rfl
    · intro s' hs'
      obtain rfl : s = s' := by simpa using hstate.symm.trans hs'
      exact htouched
    · show m.underway = r.state.prepareId.toList
      rw [hstate, hunderway]
      rfl
    · show r.state.awaitsTimer = true → _
      simp [hstate, awaitsTimer]
  | turns now ms =>
    rw [executes_broadcast, executes_startTimer]
    exact settled_unready rfl (by simp [kind]) hworker hunderway fun _ => rfl

end Commands

/-! ### One event -/

section Event

variable {m : Monitor} {env : ReadinessEnv}

/-- Where an event changes neither the machine nor what is watched, nothing happens. -/
theorem settled_ignored (h : Settled m) {e : ReadinessEvent} (hobserve : m.observe e = m) :
    Settled ((m.observe e).executes (m.readiness, [])) := by
  rw [hobserve]
  exact h

theorem underway_eq_nil (h : Settled m) (hkind : m.readiness.state.kind ≠ .preparing) :
    m.underway = [] := by
  rw [h.underway, prepareId_eq_none hkind]
  rfl

theorem settled_workerReady (h : Settled m) (initialPolicy : Option AppResetPolicy)
    (hguard : m.readiness.state.kind ≠ .preparing) :
    Settled (m.after (.workerReady initialPolicy, env)) := by
  have hunderway := underway_eq_nil h hguard
  cases initialPolicy with
  | some policy =>
    show Settled ((m.observe (.workerReady (some policy))).executes (announce _))
    rw [executes_announce]
    exact settled_reconciled (reconciled env (env.now 1) rfl) rfl rfl rfl hunderway
  | none =>
    show Settled ((m.observe (.workerReady none)).executes (announce _))
    rw [executes_announce]
    exact settled_armed (armed env false _) rfl hunderway

theorem settled_dispatch (h : Settled m) (file : String) (want : AppResetPolicy) :
    Settled (m.after (.dispatch file want, env)) := by
  show Settled ((m.observe _).executes (enter _ _ (clearTimer _ :: (_ ++ _))))
  rw [executes_clearTimer, executes_cancelCommands (by exact h.underway)]
  exact settled_unready rfl (by simp [kind]) rfl rfl (by simp [awaitsTimer])

/-- A worker whose device is neither initializing, running nor retired has nothing to do. -/
theorem worker_idle (h : Settled m) (hinitializing : m.readiness.state.kind ≠ .initializing)
    (hrunning : m.readiness.state.kind ≠ .running) (hretired : m.readiness.state.kind ≠ .retired) :
    m.worker = .idle :=
  h.worker.trans (worker_eq_idle hinitializing hrunning hretired)

theorem settled_runEnded (h : Settled m) (stopped failed : Bool)
    (hguard : m.readiness.state.kind ≠ .initializing) :
    Settled (m.after (.runEnded stopped failed, env)) := by
  show Settled ((m.observe _).executes (if _ then _ else if _ then _ else _))
  split
  next hkind =>
    have hrunning : m.worker ≠ .running := by
      rw [h.worker]
      intro hworker
      have := kind_of_worker_running hworker
      simp [this] at hkind
    exact settled_ignored h (by simp [observe, worker', touched', underway', timer', hrunning])
  next hkind =>
    have hidle : (m.observe (.runEnded stopped failed)).worker = .idle := by
      show (if m.worker = .running then WorkerStatus.idle else m.worker) = .idle
      split
      · rfl
      next hworker =>
        refine worker_idle h hguard ?_ (by tauto)
        intro hrunning
        apply hworker
        rw [h.worker]
        cases hs : m.readiness.state <;> simp_all [kind, ReadinessState.worker]
    have hunderway : m.underway = [] := underway_eq_nil h (by tauto)
    split
    · rw [executes_clearTimer, executes_broadcast]
      refine settled_unready rfl (by simp [kind]) hidle hunderway ?_
      cases stopped <;> simp [awaitsTimer]
    · rw [executes_broadcast, executes_startTimer]
      exact settled_unready rfl (by simp [kind]) hidle hunderway fun _ => rfl

theorem settled_graceElapsed (h : Settled m) (timerId : String) :
    Settled (m.after (.graceElapsed timerId, env)) := by
  show Settled ((m.observe _).executes (if _ then _ else if _ then _ else _))
  split
  next hid =>
    exact settled_ignored h (by simp [observe, worker', touched', underway', timer', hid])
  next hid =>
    split
    next hkind =>
      refine ⟨h.worker, h.touched, h.underway, ?_⟩
      intro hawaits
      have := kind_of_awaitsTimer (s := m.readiness.state) hawaits
      rcases this with hs | hs | hs <;> simp [hs] at hkind
    next hkind =>
      have hidle := worker_idle h (by tauto) (by tauto) (by tauto)
      have hunderway := underway_eq_nil h (by tauto)
      exact settled_armed (armed env false _) hidle hunderway

/-- An answer leaves what other preparations are under way. -/
theorem underway_of_ne (h : Settled m) {prepareId : String}
    (hid : m.readiness.state.prepareId ≠ some prepareId) :
    m.underway.filter (· ≠ prepareId) = m.underway := by
  rw [h.underway]
  cases hs : m.readiness.state.prepareId with
  | none => rfl
  | some id => simp_all

theorem underway_of_eq (h : Settled m) {prepareId : String}
    (hid : m.readiness.state.prepareId = some prepareId) :
    m.underway.filter (· ≠ prepareId) = [] := by
  simp [h.underway, hid]

theorem settled_prepared (h : Settled m) (prepareId : String) (policy : AppResetPolicy)
    (startedAt durationMs : ℤ) (satisfiedBy : Option PreparedState) :
    Settled (m.after (.prepared prepareId policy startedAt durationMs satisfiedBy, env)) := by
  by_cases hid : m.readiness.state.prepareId = some prepareId
  · obtain ⟨p, hp, rfl⟩ := prepareId_eq_some hid
    rw [after, handle_prepared_of_eq hp, executes_broadcast, executes_enter_nil]
    refine ⟨?_, ?_, underway_of_eq h hid, ?_⟩
    · exact h.worker.trans (by rw [hp]; rfl)
    · intro s hs
      obtain rfl : _ = s := ReadinessState.ready.inj hs
      exact if_pos (decide_eq_true hid)
    · simp [prepared, awaitsTimer]
  · rw [after, handle_prepared_of_ne hid]
    refine settled_ignored h ?_
    have htouched : m.touched' (.prepared prepareId policy startedAt durationMs satisfiedBy) =
        m.touched := if_neg (by simpa [accepts] using hid)
    rw [observe, htouched, underway', underway_of_ne h hid]
    rfl

theorem settled_prepareFailed (h : Settled m) (prepareId message : String) (cancelled : Bool) :
    Settled (m.after (.prepareFailed prepareId message cancelled, env)) := by
  by_cases hid : m.readiness.state.prepareId = some prepareId
  · have hunderway := underway_of_eq h hid
    obtain ⟨p, hp, rfl⟩ := prepareId_eq_some hid
    have hidle : m.worker = .idle := h.worker.trans (by rw [hp]; rfl)
    simp only [after, handle, hid, ne_eq, not_true_eq_false, if_false]
    split
    · rw [executes_broadcast]
      exact settled_unready rfl (by simp [kind]) hidle hunderway (by simp [awaitsTimer])
    · rw [prepareFailed]
      split
      next hmax =>
        rw [executes_broadcast, executes_startTimer]
        exact settled_unready rfl (by simp [kind]) hidle hunderway fun _ => rfl
      next hmax =>
        rw [executes_broadcast]
        exact settled_unready rfl (by simp [kind]) hidle hunderway
          fun hawaits => absurd (of_decide_eq_true hawaits) hmax
  · rw [after, handle_prepareFailed_of_ne hid]
    refine settled_ignored h ?_
    rw [observe, underway', underway_of_ne h hid]
    rfl

theorem settled_progress (h : Settled m) (detail : Option String) :
    Settled (m.after (.progress detail, env)) := by
  cases hs : m.readiness.state with
  | preparing p =>
    simp only [after, handle, hs, executes_broadcast, executes_enter_nil]
    refine settled_unready rfl (by simp [kind]) ?_ ?_ (by simp [awaitsTimer])
    · exact h.worker.trans (by rw [hs]; rfl)
    · exact h.underway.trans (by rw [hs]; rfl)
  | _ =>
    simp only [after, handle, hs]
    exact settled_ignored h rfl

theorem settled_invalidate (h : Settled m) (reason : StaleReason) :
    Settled (m.after (.invalidate reason, env)) := by
  show Settled ((m.observe _).executes (if _ then _ else _))
  split
  next hkind =>
    refine ⟨h.worker, ?_, h.underway, h.timer⟩
    intro s hs
    change m.readiness.state = _ at hs
    simp [hs, kind] at hkind
  next hkind =>
    have hidle := worker_idle h (by tauto) (by tauto) (by tauto)
    rw [executes_cancelCommands (by exact h.underway), executes_broadcast, executes_startTimer]
    exact settled_unready rfl (by simp [kind]) hidle rfl fun _ => rfl

theorem settled_candidateChanged (h : Settled m) : Settled (m.after (.candidateChanged, env)) := by
  cases hs : m.readiness.state with
  | ready s =>
    simp only [after, handle, hs]
    refine settled_reconciled (reconciled env (env.now 0) hs) hs ?_ (h.touched s hs) ?_
    · exact h.worker.trans (by rw [hs]; rfl)
    · exact h.underway.trans (by rw [hs]; rfl)
  | unprepared reason =>
    have hidle : m.worker = .idle := h.worker.trans (by rw [hs]; rfl)
    have hunderway : m.underway = [] := h.underway.trans (by rw [hs]; rfl)
    simp only [after, handle, hs]
    split
    · exact settled_ignored h rfl
    · exact settled_armed (armed env false _) hidle hunderway
  | stale reason since previous =>
    have hidle : m.worker = .idle := h.worker.trans (by rw [hs]; rfl)
    have hunderway : m.underway = [] := h.underway.trans (by rw [hs]; rfl)
    simp only [after, handle, hs]
    split
    · exact settled_armed (armed env false _) hidle hunderway
    · exact settled_ignored h rfl
  | _ =>
    simp only [after, handle, hs]
    exact settled_ignored h rfl

theorem settled_preferencesChanged (h : Settled m) :
    Settled (m.after (.preferencesChanged, env)) := by
  show Settled ((m.observe _).executes
    (if _ then if _ then _ else _ else if _ then _ else if _ then _ else _))
  split
  · split
    next hkind =>
      have hidle := worker_idle h (by grind) (by grind) (by grind)
      have hunderway := underway_eq_nil h (by grind)
      exact settled_armed (armed env false _) hidle hunderway
    · exact settled_ignored h rfl
  · split
    next hkind =>
      have hidle := worker_idle h (by grind) (by grind) (by grind)
      rw [executes_cancelCommands (by exact h.underway), executes_broadcast]
      exact settled_unready rfl (by simp [kind]) hidle rfl (by simp [awaitsTimer])
    · split
      next hkind =>
        have hunderway := underway_eq_nil h (by grind)
        have hidle := worker_idle h (by grind) (by grind) (by grind)
        rw [executes_clearTimer, executes_broadcast]
        exact settled_unready rfl (by simp [kind]) hidle hunderway (by simp [awaitsTimer])
      · exact settled_ignored h rfl

theorem settled_prepareNow (h : Settled m) : Settled (m.after (.prepareNow, env)) := by
  show Settled ((m.observe _).executes (if _ then _ else _))
  split
  · exact settled_ignored h rfl
  next hkind =>
    have hidle := worker_idle h (by tauto) (by tauto) (by tauto)
    exact settled_armed (armed env true _) hidle (underway_eq_nil h (by tauto))

theorem settled_workerRetired (h : Settled m) : Settled (m.after (.workerRetired, env)) := by
  show Settled ((m.observe _).executes (enter _ _ (clearTimer _ :: (_ ++ _))))
  rw [executes_clearTimer, executes_cancelCommands (by exact h.underway)]
  exact settled_unready rfl (by simp [kind]) rfl rfl (by simp [awaitsTimer])

theorem settled_workerRespawning (h : Settled m)
    (hguard : m.readiness.state.kind ≠ .preparing) :
    Settled (m.after (.workerRespawning, env)) := by
  have hunderway := underway_eq_nil h hguard
  show Settled ((m.observe _).executes (enter _ _ [broadcast]))
  rw [executes_broadcast]
  exact settled_unready rfl (by simp [kind]) rfl hunderway (by simp [awaitsTimer])

/-- **One event.**  Every guarded step keeps the machine in agreement with what is watched. -/
theorem settled_step (h : Settled m) {event : ReadinessEvent × ReadinessEnv} {m' : Monitor}
    (hguard : Guarded m event.1) (hstep : Step m event m') : Settled m' := by
  obtain ⟨e, env⟩ := event
  obtain ⟨-, rfl⟩ := hstep
  cases e with
  | workerReady initialPolicy => exact settled_workerReady h initialPolicy hguard
  | dispatch file want => exact settled_dispatch h file want
  | fileDone => exact settled_ignored h rfl
  | runEnded stopped failed => exact settled_runEnded h stopped failed hguard
  | graceElapsed timerId => exact settled_graceElapsed h timerId
  | prepared prepareId policy startedAt durationMs satisfiedBy =>
    exact settled_prepared h prepareId policy startedAt durationMs satisfiedBy
  | prepareFailed prepareId message cancelled =>
    exact settled_prepareFailed h prepareId message cancelled
  | progress detail => exact settled_progress h detail
  | invalidate reason => exact settled_invalidate h reason
  | candidateChanged => exact settled_candidateChanged h
  | preferencesChanged => exact settled_preferencesChanged h
  | prepareNow => exact settled_prepareNow h
  | workerRetired => exact settled_workerRetired h
  | workerRespawning => exact settled_workerRespawning h hguard
  | workerRecycled => exact settled_ignored h rfl

end Event

/-! ### What a settled worker vouches for -/

theorem Settled.vouches {m : Monitor} (h : Settled m) : Vouches m where
  prepared want p hp := by
    unfold preparedFor at hp
    split at hp
    next s hs =>
      split at hp
      next hsatisfies =>
        obtain rfl := Option.some.inj hp
        exact ⟨h.touched s hs, hsatisfies⟩
      next => cases hp
    next => cases hp
  answered env prepareId policy startedAt durationMs satisfiedBy hid := by
    refine handle_prepared_of_ne ?_ policy startedAt durationMs satisfiedBy
    intro hcurrent
    rw [h.underway, hcurrent] at hid
    exact hid (by simp)
  failed env prepareId message cancelled hid := by
    refine handle_prepareFailed_of_ne ?_ message cancelled
    intro hcurrent
    rw [h.underway, hcurrent] at hid
    exact hid (by simp)
  timer := h.timer

/-- A guarded event of a settled worker sends a preparation only where nothing stands against it. -/
theorem Settled.sendsAlone {m : Monitor} (h : Settled m) {event : ReadinessEvent × ReadinessEnv}
    (hguard : Guarded m event.1) : SendsAlone m event := by
  obtain ⟨e, env⟩ := event
  intro earlier prepareId target forFile projectName later hcommands
  rcases handle_cases env m.readiness e with hquiet | rfl | ⟨force, harm, hforce, hkind, hevent⟩
  · exact absurd (by rw [hcommands]; simp) (hquiet prepareId target forFile projectName)
  · have hunderway := underway_eq_nil h hguard
    change broadcast :: _ = _ at hcommands
    cases earlier with
    | nil => cases hcommands
    | cons c earlier =>
      obtain ⟨rfl, hsent⟩ := List.cons.inj hcommands
      obtain ⟨rfl, hallowed⟩ := (armed env false _).send hsent
      exact ⟨hunderway, rfl, .inr (by simpa using hallowed)⟩
  · have hidle := worker_idle h (by grind) (by grind) (by grind)
    have hunderway := underway_eq_nil h (by grind)
    change (m.readiness.handle env e).2 = _ at hcommands
    rw [harm] at hcommands
    obtain ⟨rfl, hallowed⟩ := (armed env force _).send hcommands
    have hobserved : (m.observe e).underway = [] ∧ (m.observe e).worker = .idle := by
      rcases hevent with ⟨timerId, rfl⟩ | hevent
      · exact ⟨hunderway, hidle⟩
      · simp only [List.mem_cons, List.not_mem_nil, or_false] at hevent
        rcases hevent with rfl | rfl | rfl <;> exact ⟨hunderway, hidle⟩
    exact ⟨hobserved.1, hobserved.2, hallowed.imp_left hforce⟩

/-- **Background preparation never vouches for a device it lost.**  Where no run ends while the
    worker initializes, and no worker is made ready or respawned in the middle of a preparation,
    every state vouches only for what it has, and every event sends a preparation only where
    nothing stands against it. -/
theorem vouches_of_run {workerId : ℕ} {es : List (ReadinessEvent × ReadinessEnv)} {m : Monitor}
    (h : Run (fun m event m' => Guarded m event.1 ∧ Step m event m') (start workerId) es m) :
    Vouches m ∧ ∀ event m', Guarded m event.1 → Step m event m' → SendsAlone m event := by
  have hsettled : Settled m :=
    h.invariant (fun _ _ _ hs hstep => settled_step hs hstep.1 hstep.2) (settled_start workerId)
  exact ⟨hsettled.vouches, fun _ _ hguard _ => hsettled.sendsAlone hguard⟩

/-- Speculation is on, and a file that wants cleared data is likely to run next. -/
def speculating : ReadinessEnv where
  now _ := 0
  speculationEnabled := true
  nextCandidate := some { file := "login.test.ts", policy := { mode := .clear, scope := .file } }
  graceMs := 5000
  recentlyInteracted := false

theorem step_after (m : Monitor) {e : ReadinessEvent} (env : ReadinessEnv)
    (h : ∀ file want, e ≠ .dispatch file want) : Step m (e, env) (m.after (e, env)) :=
  ⟨fun file want he => absurd he (h file want), rfl⟩

/-- A worker that prepares its device and is done. -/
theorem vouches_of_run_prepared : ∃ m : Monitor,
    (m.readiness.preparedFor { mode := .clear, scope := .file }).isSome ∧ Vouches m ∧
      ∀ event m', Guarded m event.1 → Step m event m' → SendsAlone m event := by
  let events : List (ReadinessEvent × ReadinessEnv) :=
    [(.workerReady none, speculating),
     (.prepared "0-1" { mode := .clear, scope := .file } 0 3 none, speculating)]
  have hrun : Run (fun m event m' => Guarded m event.1 ∧ Step m event m') (start 0) events
      (events.foldl after (start 0)) :=
    .cons ⟨fun h => (by cases h), step_after _ speculating (by simp)⟩
      (.cons ⟨trivial, step_after _ speculating (by simp)⟩ .nil)
  exact ⟨_, by decide +kernel, vouches_of_run hrun⟩

/-- A worker is respawned in the middle of a preparation, and a run on the other workers ends while
    it initializes: behind the grace period a second preparation is sent to it. -/
theorem prepares_while_initializing :
    ¬ ∀ (workerId : ℕ) (es : List (ReadinessEvent × ReadinessEnv)) (m : Monitor),
      (∃ initialPolicy env rest, es = (.workerReady initialPolicy, env) :: rest) →
      Run Step (start workerId) es m →
      Vouches m ∧ ∀ event m', Step m event m' → SendsAlone m event := by
  intro hall
  let events : List (ReadinessEvent × ReadinessEnv) :=
    [(.workerReady none, speculating), (.workerRespawning, speculating),
     (.runEnded false false, speculating)]
  have hrun : Run Step (start 0) events (events.foldl after (start 0)) :=
    .cons (step_after _ speculating (by simp))
      (.cons (step_after _ speculating (by simp))
        (.cons (step_after _ speculating (by simp)) .nil))
  obtain ⟨-, hidle, -⟩ := (hall 0 events _ ⟨none, speculating, _, rfl⟩ hrun).2
    (.graceElapsed "readiness-0", speculating) _ (step_after _ speculating (by simp))
    [] "0-2" { mode := .clear, scope := .file } (some "login.test.ts") none [broadcast]
    (by decide +kernel)
  exact absurd hidle (by decide +kernel)

end Monitor

end Tapsmith.Live
