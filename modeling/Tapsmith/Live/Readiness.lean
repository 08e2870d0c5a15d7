import Mathlib.Data.Int.Notation
import Mathlib.Data.List.Basic
import Tapsmith.Runner.Suite

namespace Tapsmith.Live

open Runner (AppResetPolicy)

/-!
# Device readiness

The state machine behind the background preparation of a device, as `device-readiness.ts` has it:
it takes events and returns the commands that the server executes.

* `satisfies` — whether a device that was brought into one state will do for another;
* `DeviceReadiness.handle` — one event of one worker;
* `DeviceReadiness.preparedFor` — what a dispatched file is told of the device;
* `DeviceReadiness.armed`, `DeviceReadiness.reconciled` — what the two decisions of it come to.
-/

/-! ### Policies -/

inductive AppResetAction
  | restore (archive : String)
  | clear
  | restart
  | warm
  | none
deriving DecidableEq

def appResetAction (policy : AppResetPolicy) : AppResetAction :=
  match policy.appState, policy.mode with
  | some appState, _ => if appState = "" then .clear else .restore appState
  | .none, .warm => .warm
  | .none, .restart => .restart
  | .none, .clear => .clear
  | .none, .none => .none

/-- A restored archive serves nobody but those who want that archive, or nothing at all; cleared
    data serve whoever wants no archive. -/
def satisfies (have' want : AppResetPolicy) : Bool :=
  match appResetAction have', appResetAction want with
  | .restore h, .restore w => h = w
  | _, .restore _ => false
  | _, .none => true
  | .restore _, _ => false
  | .clear, _ => true
  | h, w => h = w

structure PreparedState where
  policy : AppResetPolicy
  preparedAt : ℤ
  durationMs : ℤ
  source : String
deriving DecidableEq

/-! ### States, events and commands -/

inductive StaleReason
  | mcpTool
  | mirrorGesture
  | targetChanged
  | validationFailed
  | runStopped
  | runFailed
  | manual
deriving DecidableEq

inductive UnpreparedReason
  | speculationOff
  | noCandidate
  | grace
  | cancelled
  | startup
deriving DecidableEq

/-- The preparation that is in progress. -/
structure Preparation where
  prepareId : String
  target : AppResetPolicy
  forFile : Option String
  startedAt : ℤ
  detail : Option String := none
deriving DecidableEq

/-- What a ready device was brought into, and by whom. -/
structure Ready where
  policy : AppResetPolicy
  forFile : Option String := none
  preparedAt : ℤ
  durationMs : ℤ
  prepareId : String
  source : Option String := none
deriving DecidableEq

inductive ReadinessState
  | initializing
  | running (file : Option String)
  | unprepared (reason : UnpreparedReason)
  | preparing (preparation : Preparation)
  | ready (ready : Ready)
  | stale (reason : StaleReason) (since : ℤ) (previous : Option AppResetPolicy)
  | error (message : String) (since : ℤ) (attempts : ℕ)
  | retired
deriving DecidableEq

structure Candidate where
  file : String
  projectName : Option String := none
  policy : AppResetPolicy
deriving DecidableEq

inductive ReadinessEvent
  | workerReady (initialPolicy : Option AppResetPolicy)
  | dispatch (file : String) (want : AppResetPolicy)
  | fileDone
  | runEnded (stopped failed : Bool)
  | graceElapsed (timerId : String)
  | prepared (prepareId : String) (policy : AppResetPolicy) (startedAt durationMs : ℤ)
      (satisfiedBy : Option PreparedState)
  | prepareFailed (prepareId message : String) (cancelled : Bool)
  | progress (detail : Option String)
  | invalidate (reason : StaleReason)
  | candidateChanged
  | preferencesChanged
  | prepareNow
  | workerRetired
  | workerRespawning
  | workerRecycled
deriving DecidableEq

inductive ReadinessCommand
  | sendPrepare (prepareId : String) (target : AppResetPolicy) (forFile projectName : Option String)
  | sendCancelPrepare (prepareId : String)
  | startTimer (timerId : String) (ms : ℕ)
  | clearTimer (timerId : String)
  | broadcast
deriving DecidableEq

/-- What the environment answers while one event is handled.  Nothing but the clock moves on
    meanwhile: `now n` is what it shows when it is read for the `n`-th time. -/
structure ReadinessEnv where
  now : ℕ → ℤ
  speculationEnabled : Bool
  nextCandidate : Option Candidate
  graceMs : ℕ
  recentlyInteracted : Bool

def INTERACTION_HOLD_MS : ℕ := 2000
def TARGET_CHANGED_GRACE_MS : ℕ := 1000
def MAX_PREPARE_ATTEMPTS : ℕ := 3
def RETRY_BACKOFF_MS : List ℕ := [5000, 10000, 20000]

namespace ReadinessState

inductive Kind
  | initializing
  | running
  | unprepared
  | preparing
  | ready
  | stale
  | error
  | retired
deriving DecidableEq

def kind : ReadinessState → Kind
  | initializing => .initializing
  | running _ => .running
  | unprepared _ => .unprepared
  | preparing _ => .preparing
  | ready _ => .ready
  | stale .. => .stale
  | error .. => .error
  | retired => .retired

def preparation : ReadinessState → Option Preparation
  | preparing p => some p
  | _ => none

/-- The id of the preparation in progress, if there is one. -/
def prepareId (s : ReadinessState) : Option String := s.preparation.map Preparation.prepareId

/-- Only a preparing device has a preparation in progress. -/
theorem prepareId_eq_none {s : ReadinessState} (h : s.kind ≠ .preparing) : s.prepareId = none := by
  cases s with
  | preparing p => exact absurd rfl h
  | _ => rfl

theorem prepareId_eq_some {s : ReadinessState} {prepareId : String}
    (h : s.prepareId = some prepareId) : ∃ p, s = .preparing p ∧ p.prepareId = prepareId := by
  obtain ⟨p, hp, hid⟩ := Option.map_eq_some_iff.mp h
  cases s with
  | preparing q =>
    obtain rfl : q = p := Option.some.inj hp
    exact ⟨q, rfl, hid⟩
  | _ => cases hp

/-- The command that every event which takes a preparing device away sends. -/
def cancelCommands (s : ReadinessState) : List ReadinessCommand :=
  s.prepareId.toList.map .sendCancelPrepare

/-- The policy that an invalidated device was ready for. -/
def previous : ReadinessState → Option AppResetPolicy
  | ready r => some r.policy
  | _ => none

end ReadinessState

structure DeviceReadiness where
  workerId : ℕ
  state : ReadinessState := .initializing
  seq : ℕ := 0
  errorAttempts : ℕ := 0
deriving DecidableEq

namespace DeviceReadiness

open ReadinessState ReadinessCommand

def timerId (r : DeviceReadiness) : String := "readiness-" ++ toString r.workerId

/-- The prepared state to stamp on a file that is dispatched. -/
def preparedFor (r : DeviceReadiness) (want : AppResetPolicy) : Option PreparedState :=
  match r.state with
  | .ready s =>
    if satisfies s.policy want then
      some { policy := s.policy, preparedAt := s.preparedAt, durationMs := s.durationMs
             source := s.source.getD "background preparation" }
    else none
  | _ => none

/-- A new state, and the commands that go with it. -/
def enter (r : DeviceReadiness) (state : ReadinessState) (commands : List ReadinessCommand) :
    DeviceReadiness × List ReadinessCommand :=
  ({ r with state }, commands)

/-- The chip is told first. -/
def announce (o : DeviceReadiness × List ReadinessCommand) :
    DeviceReadiness × List ReadinessCommand :=
  (o.1, broadcast :: o.2)

def nextId (r : DeviceReadiness) : String := toString r.workerId ++ "-" ++ toString (r.seq + 1)

/-! ### The two decisions -/

/-- A ready device stays ready while it will do for the file that is likely to run next. -/
def reconcileCandidate (env : ReadinessEnv) (now : ℤ) (r : DeviceReadiness) :
    DeviceReadiness × List ReadinessCommand :=
  match r.state, env.nextCandidate with
  | .ready s, some cand =>
    if satisfies s.policy cand.policy then (r, [])
    else
      r.enter (.stale .targetChanged now (some s.policy))
        [broadcast, startTimer r.timerId TARGET_CHANGED_GRACE_MS]
  | _, _ => (r, [])

/-- Prepare for the file that is likely to run next, unless something speaks against it. -/
def arm (env : ReadinessEnv) (force : Bool) (r : DeviceReadiness) :
    DeviceReadiness × List ReadinessCommand :=
  if !force && !env.speculationEnabled then r.enter (.unprepared .speculationOff) [broadcast]
  else
    match env.nextCandidate with
    | none => r.enter (.unprepared .noCandidate) [broadcast]
    | some cand =>
      if !force && env.recentlyInteracted then
        r.enter (.unprepared .grace) [broadcast, startTimer r.timerId INTERACTION_HOLD_MS]
      else
        let preparation : Preparation :=
          { prepareId := r.nextId, target := cand.policy, forFile := some cand.file
            startedAt := env.now 0 }
        { r with seq := r.seq + 1 }.enter (.preparing preparation)
          [sendPrepare r.nextId cand.policy (some cand.file) cand.projectName, broadcast]

/-! ### One event -/

/-- The preparation in progress is answered: it brought the device into the state it reports, or
    found it there. -/
def prepared (p : Preparation) (policy : AppResetPolicy) (startedAt durationMs : ℤ)
    (satisfiedBy : Option PreparedState) : ReadinessState :=
  .ready
    { policy, forFile := p.forFile
      preparedAt := (satisfiedBy.map PreparedState.preparedAt).getD (startedAt + durationMs)
      durationMs := (satisfiedBy.map PreparedState.durationMs).getD durationMs
      source := satisfiedBy.map PreparedState.source
      prepareId := p.prepareId }

/-- The preparation in progress failed: it is tried again later, a few times. -/
def prepareFailed (env : ReadinessEnv) (r : DeviceReadiness) (message : String) :
    DeviceReadiness × List ReadinessCommand :=
  let r := { r with errorAttempts := r.errorAttempts + 1 }
  let state := ReadinessState.error message (env.now 0) r.errorAttempts
  if r.errorAttempts < MAX_PREPARE_ATTEMPTS then
    let backoff :=
      RETRY_BACKOFF_MS.getD (min (r.errorAttempts - 1) (RETRY_BACKOFF_MS.length - 1)) 0
    r.enter state [broadcast, startTimer r.timerId backoff]
  else r.enter state [broadcast]

def handle (env : ReadinessEnv) (r : DeviceReadiness) :
    ReadinessEvent → DeviceReadiness × List ReadinessCommand
  | .workerReady (some policy) =>
    let ready : Ready :=
      { policy, preparedAt := env.now 0, durationMs := 0, prepareId := r.nextId
        source := some "startup launch" }
    announce
      ({ r with errorAttempts := 0, seq := r.seq + 1, state := .ready ready }.reconcileCandidate
        env (env.now 1))
  | .workerReady none =>
    announce ({ r with errorAttempts := 0, state := .unprepared .startup }.arm env false)
  | .dispatch file _ =>
    r.enter (.running (some file)) (clearTimer r.timerId :: r.state.cancelCommands ++ [broadcast])
  | .fileDone => (r, [])
  | .runEnded stopped failed =>
    -- a device that sat the run out keeps its preparation
    if r.state.kind = .retired ∨ r.state.kind = .ready ∨ r.state.kind = .preparing then (r, [])
    else if stopped || failed then
      r.enter (.stale (if stopped then .runStopped else .runFailed) (env.now 0) none)
        [clearTimer r.timerId, broadcast]
    else r.enter (.unprepared .grace) [broadcast, startTimer r.timerId env.graceMs]
  | .graceElapsed timerId =>
    if timerId ≠ r.timerId then (r, [])
    else if r.state.kind = .running ∨ r.state.kind = .preparing ∨ r.state.kind = .ready ∨
        r.state.kind = .retired ∨ r.state.kind = .initializing then (r, [])
    else r.arm env false
  | .prepared prepareId policy startedAt durationMs satisfiedBy =>
    match r.state with
    | .preparing p =>
      if p.prepareId ≠ prepareId then (r, [])
      else
        { r with errorAttempts := 0 }.enter (prepared p policy startedAt durationMs satisfiedBy)
          [broadcast]
    | _ => (r, [])
  | .prepareFailed prepareId message cancelled =>
    if r.state.prepareId ≠ some prepareId then (r, [])
    else if cancelled then r.enter (.unprepared .cancelled) [broadcast]
    else r.prepareFailed env message
  | .progress detail =>
    match r.state with
    | .preparing p => r.enter (.preparing { p with detail }) [broadcast]
    | _ => (r, [])
  | .invalidate reason =>
    if r.state.kind = .running ∨ r.state.kind = .retired ∨ r.state.kind = .initializing then (r, [])
    else
      r.enter (.stale reason (env.now 0) r.state.previous)
        (r.state.cancelCommands ++ [broadcast, startTimer r.timerId env.graceMs])
  | .candidateChanged =>
    match r.state with
    | .ready _ => r.reconcileCandidate env (env.now 0)
    | .unprepared reason => if reason = .grace then (r, []) else r.arm env false
    | .stale reason _ _ =>
      -- a device that is held for inspection has no pending timer
      if reason = .runStopped ∨ reason = .runFailed then r.arm env false else (r, [])
    | _ => (r, [])
  | .preferencesChanged =>
    if env.speculationEnabled then
      if r.state.kind = .unprepared ∨ r.state.kind = .stale ∨ r.state.kind = .error then
        r.arm env false
      else (r, [])
    else if r.state.kind = .preparing then
      r.enter (.unprepared .speculationOff) (r.state.cancelCommands ++ [broadcast])
    else if r.state.kind = .unprepared ∨ r.state.kind = .stale ∨ r.state.kind = .error then
      r.enter (.unprepared .speculationOff) [clearTimer r.timerId, broadcast]
    else (r, [])
  | .prepareNow =>
    if r.state.kind = .running ∨ r.state.kind = .preparing ∨ r.state.kind = .retired ∨
        r.state.kind = .initializing then (r, [])
    else r.arm env true
  | .workerRetired =>
    r.enter .retired (clearTimer r.timerId :: r.state.cancelCommands ++ [broadcast])
  | .workerRespawning => r.enter .initializing [broadcast]
  | .workerRecycled => (r, [])

/-! ### Answers to other preparations -/

theorem handle_prepared_of_ne {env : ReadinessEnv} {r : DeviceReadiness} {prepareId : String}
    (h : r.state.prepareId ≠ some prepareId) (policy : AppResetPolicy) (startedAt durationMs : ℤ)
    (satisfiedBy : Option PreparedState) :
    r.handle env (.prepared prepareId policy startedAt durationMs satisfiedBy) = (r, []) := by
  cases hs : r.state with
  | preparing p =>
    have hid : p.prepareId ≠ prepareId := by
      rintro rfl
      exact h (by rw [hs]; rfl)
    simp only [handle, hs, if_pos hid]
  | _ => simp only [handle, hs]

theorem handle_prepared_of_eq {env : ReadinessEnv} {r : DeviceReadiness} {p : Preparation}
    (h : r.state = .preparing p) (policy : AppResetPolicy) (startedAt durationMs : ℤ)
    (satisfiedBy : Option PreparedState) :
    r.handle env (.prepared p.prepareId policy startedAt durationMs satisfiedBy) =
      { r with errorAttempts := 0 }.enter (prepared p policy startedAt durationMs satisfiedBy)
        [broadcast] := by
  simp only [handle, h, ne_eq, not_true_eq_false, if_false]

theorem handle_prepareFailed_of_ne {env : ReadinessEnv} {r : DeviceReadiness} {prepareId : String}
    (h : r.state.prepareId ≠ some prepareId) (message : String) (cancelled : Bool) :
    r.handle env (.prepareFailed prepareId message cancelled) = (r, []) := by
  simp only [handle, if_pos h]

/-! ### What the decisions come to -/

/-- What `arm` may answer: the device is left alone, or looked at again later, or prepared. -/
inductive Armed (env : ReadinessEnv) (force : Bool) (r : DeviceReadiness) :
    DeviceReadiness × List ReadinessCommand → Prop
  | leaves (reason : UnpreparedReason) (hreason : reason ≠ .grace) :
      Armed env force r (r.enter (.unprepared reason) [broadcast])
  | waits (ms : ℕ) :
      Armed env force r (r.enter (.unprepared .grace) [broadcast, startTimer r.timerId ms])
  | sends (p : Preparation) (projectName : Option String) (hid : p.prepareId = r.nextId)
      (hallowed : force = true ∨ env.speculationEnabled = true) :
      Armed env force r
        ({ r with seq := r.seq + 1 }.enter (.preparing p)
          [sendPrepare p.prepareId p.target p.forFile projectName, broadcast])

theorem armed (env : ReadinessEnv) (force : Bool) (r : DeviceReadiness) :
    Armed env force r (r.arm env force) := by
  unfold arm
  split
  · exact .leaves .speculationOff (by decide)
  next hon =>
    have hallowed : force = true ∨ env.speculationEnabled = true := by
      cases force <;> simp_all
    split
    · exact .leaves .noCandidate (by decide)
    · split
      · exact .waits INTERACTION_HOLD_MS
      · exact .sends _ _ rfl hallowed

/-- Where `arm` sends a preparation it sends it first, and it may. -/
theorem Armed.send {env : ReadinessEnv} {force : Bool} {r : DeviceReadiness}
    {o : DeviceReadiness × List ReadinessCommand} (h : Armed env force r o)
    {earlier later : List ReadinessCommand} {prepareId : String} {target : AppResetPolicy}
    {forFile projectName : Option String}
    (hsend : o.2 = earlier ++ sendPrepare prepareId target forFile projectName :: later) :
    earlier = [] ∧ (force = true ∨ env.speculationEnabled = true) := by
  cases h with
  | leaves reason hreason => simp [enter, List.singleton_eq_append_iff] at hsend
  | waits ms =>
    have hmem : sendPrepare prepareId target forFile projectName ∈
        [broadcast, startTimer r.timerId ms] := by
      rw [show [broadcast, startTimer r.timerId ms] = _ from hsend]
      simp
    simp at hmem
  | sends p project hid hallowed =>
    refine ⟨?_, hallowed⟩
    cases earlier with
    | nil => rfl
    | cons c earlier =>
      have hmem : sendPrepare prepareId target forFile projectName ∈ [broadcast] := by
        rw [show [broadcast] = earlier ++ _ :: later from (List.cons.inj hsend).2]
        simp
      simp at hmem

/-- What `reconcileCandidate` may answer of a ready device. -/
inductive Reconciled (s : Ready) (r : DeviceReadiness) :
    DeviceReadiness × List ReadinessCommand → Prop
  | keeps : Reconciled s r (r, [])
  | turns (now : ℤ) (ms : ℕ) :
      Reconciled s r
        (r.enter (.stale .targetChanged now (some s.policy)) [broadcast, startTimer r.timerId ms])

theorem reconciled (env : ReadinessEnv) (now : ℤ) {r : DeviceReadiness} {s : Ready}
    (h : r.state = .ready s) : Reconciled s r (r.reconcileCandidate env now) := by
  unfold reconcileCandidate
  rw [h]
  cases env.nextCandidate with
  | none => exact .keeps
  | some cand =>
    show Reconciled s r (if satisfies s.policy cand.policy then (r, []) else _)
    split
    · exact .keeps
    · exact .turns now TARGET_CHANGED_GRACE_MS

/-! ### Which events send a preparation -/

/-- Among the commands there is no preparation. -/
def Quiet (commands : List ReadinessCommand) : Prop :=
  ∀ prepareId target forFile projectName,
    sendPrepare prepareId target forFile projectName ∉ commands

theorem quiet_cancelCommands {s : ReadinessState} {commands : List ReadinessCommand}
    (h : Quiet commands) : Quiet (s.cancelCommands ++ commands) := by
  intro prepareId target forFile projectName hmem
  rcases List.mem_append.mp hmem with hmem | hmem
  · simp [cancelCommands] at hmem
  · exact h prepareId target forFile projectName hmem

theorem quiet_reconcileCandidate (env : ReadinessEnv) (now : ℤ) (r : DeviceReadiness) :
    Quiet (r.reconcileCandidate env now).2 := by
  unfold reconcileCandidate
  split
  · split
    · simp [Quiet]
    · simp [Quiet, enter]
  · simp [Quiet]

/-- An event is handled without a preparation, or makes a worker ready, or arms a worker that has
    nothing to do. -/
theorem handle_cases (env : ReadinessEnv) (r : DeviceReadiness) (e : ReadinessEvent) :
    Quiet (r.handle env e).2 ∨ e = .workerReady none ∨
      ∃ force, r.handle env e = r.arm env force ∧ (force = true → e = .prepareNow) ∧
        r.state.kind ∉ [.initializing, .running, .preparing, .retired] ∧
        ((∃ timerId, e = .graceElapsed timerId) ∨
          e ∈ [.candidateChanged, .preferencesChanged, .prepareNow]) := by
  cases e with
  | workerReady initialPolicy =>
    cases initialPolicy with
    | none => exact .inr (.inl rfl)
    | some policy =>
      left
      intro prepareId target forFile projectName hmem
      rcases List.mem_cons.mp hmem with h | hmem
      · cases h
      · exact quiet_reconcileCandidate env (env.now 1) _ prepareId target forFile projectName hmem
  | dispatch file want =>
    left
    have hquiet : Quiet (r.state.cancelCommands ++ [broadcast]) :=
      quiet_cancelCommands (by simp [Quiet])
    simpa [Quiet, handle, enter] using hquiet
  | runEnded stopped failed =>
    left
    simp only [handle]
    split
    · simp [Quiet]
    · split <;> simp [Quiet, enter]
  | graceElapsed timerId =>
    simp only [handle]
    split
    · exact .inl (by simp [Quiet])
    · split
      · exact .inl (by simp [Quiet])
      next hkind => exact .inr (.inr ⟨false, rfl, by simp, by simp; tauto, .inl ⟨timerId, rfl⟩⟩)
  | prepared prepareId policy startedAt durationMs satisfiedBy =>
    left
    simp only [handle]
    split
    · split <;> simp [Quiet, enter]
    · simp [Quiet]
  | prepareFailed prepareId message cancelled =>
    left
    simp only [handle]
    split
    · simp [Quiet]
    · split
      · simp [Quiet, enter]
      · rw [prepareFailed]
        split <;> simp [Quiet, enter]
  | progress detail =>
    left
    simp only [handle]
    split <;> simp [Quiet, enter]
  | invalidate reason =>
    left
    simp only [handle]
    split
    · simp [Quiet]
    · exact quiet_cancelCommands (by simp [Quiet])
  | candidateChanged =>
    cases hs : r.state with
    | ready s =>
      left
      simp only [handle, hs]
      exact quiet_reconcileCandidate env (env.now 0) r
    | unprepared reason =>
      simp only [handle, hs]
      split
      · exact .inl (by simp [Quiet])
      · exact .inr (.inr ⟨false, rfl, by simp, by simp [kind], by simp⟩)
    | stale reason since previous =>
      simp only [handle, hs]
      split
      · exact .inr (.inr ⟨false, rfl, by simp, by simp [kind], by simp⟩)
      · exact .inl (by simp [Quiet])
    | _ => exact .inl (by simp [Quiet, handle, hs])
  | preferencesChanged =>
    simp only [handle]
    split
    · split
      next hkind =>
        refine .inr (.inr ⟨false, rfl, by simp, ?_, by simp⟩)
        rcases hkind with h | h | h <;> simp [h]
      · exact .inl (by simp [Quiet])
    · left
      split
      · exact quiet_cancelCommands (by simp [Quiet])
      · split <;> simp [Quiet, enter]
  | prepareNow =>
    simp only [handle]
    split
    · exact .inl (by simp [Quiet])
    next hkind => exact .inr (.inr ⟨true, rfl, by simp, by simp; tauto, by simp⟩)
  | workerRetired =>
    left
    have hquiet : Quiet (r.state.cancelCommands ++ [broadcast]) :=
      quiet_cancelCommands (by simp [Quiet])
    simpa [Quiet, handle, enter] using hquiet
  | workerRespawning => exact .inl (by simp [Quiet, handle, enter])
  | fileDone => exact .inl (by simp [Quiet, handle])
  | workerRecycled => exact .inl (by simp [Quiet, handle])

end DeviceReadiness

end Tapsmith.Live
