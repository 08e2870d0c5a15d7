import Mathlib.Data.Int.Notation
import Tapsmith.Lib.Collect

namespace Tapsmith.Mcp

open Lib.Entries

/-!
# The session router

How `http-session-router.ts` routes the requests of several clients to one transport each, and how
it ends their sessions.

* `McpSessionRouter` — the maps of the router, and the functions that change them;
* `World` — the router between its callers: the requests and standby streams, the clock, and the
  callbacks that transports and servers make;
* `step` — one event;
* `Reaped` — what the ways of ending a session have in common;
* `quiet_close` — what `close` leaves.

The transport and the server of a session belong to the SDK.  They are named by the id of the
session, which is drawn fresh, and call back when they are closed.
-/

/-! ### The router -/

abbrev SessionId := ℕ

/-- A request, and the response that it is answered with. -/
abbrev RequestId := ℕ

structure McpClientInfo where
  name : String
  version : String
deriving DecidableEq

structure McpSession where
  lastActivityAt : ℤ
  standbyRes : Option RequestId := none
deriving DecidableEq

structure McpSessionRouterOptions where
  keepAliveIntervalMs : ℤ := 20000
  sessionGraceMs : ℤ := 30000
  idleTimeoutMs : ℤ := 120000
  sweepIntervalMs : ℤ := 30000
deriving DecidableEq

/-- The maps of the router; a reaping timer is the time when it runs out, a keep-alive timer the
    response that it writes to. -/
structure McpSessionRouter where
  sessions : List (SessionId × McpSession) := []
  clients : List (SessionId × McpClientInfo) := []
  reapTimers : List (SessionId × ℤ) := []
  keepAlives : List RequestId := []
  sweepTimer : Bool
deriving DecidableEq

/-- What the SDK does while a session is being closed: whether `transport.close` calls `onclose`,
    and what `server.close` calls back. -/
structure Closing where
  fires : Bool := true
  callbacks : List Bool := [true, false]
deriving DecidableEq

namespace McpSessionRouter

variable (opts : McpSessionRouterOptions)

def new : McpSessionRouter :=
  { sweepTimer := decide (opts.idleTimeoutMs > 0 ∧ opts.sweepIntervalMs > 0) }

def clientList (r : McpSessionRouter) : List McpClientInfo := r.clients.map Prod.snd

/-- The session is registered. -/
def Live (r : McpSessionRouter) (sid : SessionId) : Prop := (get sid r.sessions).isSome

instance (r : McpSessionRouter) (sid : SessionId) : Decidable (r.Live sid) :=
  inferInstanceAs (Decidable ((get sid r.sessions).isSome = true))

def cancelReap (sid : SessionId) (r : McpSessionRouter) : McpSessionRouter :=
  { r with reapTimers := erase sid r.reapTimers }

/-- A callback of `server.close`: the `onclose` of the transport, which finds the session gone, or
    the client's `null`. -/
def closeCallback (sid : SessionId) (r : McpSessionRouter) (onclose : Bool) : McpSessionRouter :=
  if onclose then r.cancelReap sid else { r with clients := erase sid r.clients }

def cleanupSession (closing : Closing) (sid : SessionId) (r : McpSessionRouter) :
    McpSessionRouter :=
  let r := r.cancelReap sid
  if r.Live sid then
    closing.callbacks.foldl (closeCallback sid)
      { r with sessions := erase sid r.sessions, clients := erase sid r.clients }
  else r

/-- The transport is closed, which may clean up by itself. -/
def reapSession (closing : Closing) (sid : SessionId) (r : McpSessionRouter) : McpSessionRouter :=
  if r.Live sid then
    let r := if closing.fires then r.cleanupSession closing sid else r
    r.cleanupSession closing sid
  else r

def scheduleReap (now : ℤ) (closing : Closing) (sid : SessionId) (r : McpSessionRouter) :
    McpSessionRouter :=
  if r.Live sid then
    if opts.sessionGraceMs ≤ 0 then r.reapSession closing sid
    else { r with reapTimers := put sid (now + opts.sessionGraceMs) r.reapTimers }
  else r

/-- The fields of a session are written, in place. -/
def setSession (sid : SessionId) (f : McpSession → McpSession) (r : McpSessionRouter) :
    McpSessionRouter :=
  { r with sessions :=
      match get sid r.sessions with
      | some session => put sid (f session) r.sessions
      | none => r.sessions }

/-- A request for the session was taken up: its owner is alive. -/
def refresh (now : ℤ) (sid : SessionId) (r : McpSessionRouter) : McpSessionRouter :=
  (r.setSession sid fun session => { session with lastActivityAt := now }).cancelReap sid

def registerStandbyStream (res : RequestId) (sid : SessionId) (r : McpSessionRouter) :
    McpSessionRouter :=
  { r.setSession sid fun session => { session with standbyRes := some res } with
    keepAlives := if opts.keepAliveIntervalMs ≤ 0 then r.keepAlives else res :: r.keepAlives }

def stopKeepAlive (res : RequestId) (r : McpSessionRouter) : McpSessionRouter :=
  { r with keepAlives := r.keepAlives.filter (· ≠ res) }

/-- The `close` of a standby stream: only that of the active one counts. -/
def standbyClosed (now : ℤ) (closing : Closing) (res : RequestId) (sid : SessionId)
    (r : McpSessionRouter) : McpSessionRouter :=
  if (get sid r.sessions).bind McpSession.standbyRes = some res then
    (r.setSession sid fun session => { session with standbyRes := none }).scheduleReap opts now
      closing sid
  else r

/-- The sweep reaps a session whose standby stream is dead, and one without a standby stream that
    has been idle for too long. -/
def sweeps (now : ℤ) (ended : RequestId → Bool) (session : McpSession) : Bool :=
  match session.standbyRes with
  | some res => ended res
  | none => opts.idleTimeoutMs > 0 ∧ now - session.lastActivityAt > opts.idleTimeoutMs

/-- The sweep goes over the sessions that were there when it began. -/
def sweep (now : ℤ) (ended : RequestId → Bool) (closing : SessionId → Closing)
    (r : McpSessionRouter) : McpSessionRouter :=
  (r.sessions.filter fun entry => sweeps opts now ended entry.2).foldl
    (fun r entry => r.reapSession (closing entry.1) entry.1) r

/-- The initialization of a session failed: everything is closed, in any case. -/
def failInit (closing : Closing) (sid : SessionId) (r : McpSessionRouter) : McpSessionRouter :=
  let r := if closing.fires then r.cleanupSession closing sid else r
  closing.callbacks.foldl (closeCallback sid) (r.cleanupSession closing sid)

/-- One round of `close`: the transport and the server are closed, whose callbacks clean up. -/
def closeSession (closing : Closing) (sid : SessionId) (r : McpSessionRouter) : McpSessionRouter :=
  let r := if closing.fires then r.cleanupSession closing sid else r
  closing.callbacks.foldl
    (fun r onclose =>
      if onclose then r.cleanupSession closing sid else { r with clients := erase sid r.clients })
    r

def close (closing : SessionId → Closing) (r : McpSessionRouter) : McpSessionRouter :=
  let r := { r with sweepTimer := false, reapTimers := [] }
  let r := r.sessions.foldl (fun r entry => r.closeSession (closing entry.1) entry.1) r
  { r with sessions := [], clients := [] }

/-! ### Ending sessions -/

/-- Sessions were ended: they are gone, with their timers and clients, and the others are as they
    were. -/
structure Reaped (sids : List SessionId) (r r' : McpSessionRouter) : Prop where
  sessions : ∀ sid, get sid r'.sessions = if sid ∈ sids then none else get sid r.sessions
  timers : ∀ sid due, get sid r'.reapTimers = some due →
    sid ∉ sids ∧ get sid r.reapTimers = some due
  clients : r'.clients.Sublist r.clients
  gone : ∀ sid ∈ sids, r.Live sid → sid ∉ r'.clients.map Prod.fst
  keepAlives : r'.keepAlives = r.keepAlives
  entries : r'.sessions.Sublist r.sessions

variable {sids sids' : List SessionId} {sid : SessionId} {r r' r'' : McpSessionRouter}
  {closing : Closing}

theorem Reaped.refl (r : McpSessionRouter) : Reaped [] r r where
  sessions sid := by simp
  timers sid due h := ⟨by simp, h⟩
  clients := List.Sublist.refl _
  gone sid h := by simp at h
  keepAlives := rfl
  entries := List.Sublist.refl _

theorem Reaped.live_iff (h : Reaped sids r r') : r'.Live sid ↔ r.Live sid ∧ sid ∉ sids := by
  unfold Live
  rw [h.sessions]
  by_cases hsid : sid ∈ sids <;> simp [hsid]

theorem Reaped.trans (h : Reaped sids r r') (h' : Reaped sids' r' r'') :
    Reaped (sids ++ sids') r r'' where
  sessions sid := by
    rw [h'.sessions, h.sessions]
    by_cases hsid : sid ∈ sids <;> by_cases hsid' : sid ∈ sids' <;> simp [hsid, hsid']
  timers sid due hdue := by
    obtain ⟨hsid', hdue⟩ := h'.timers sid due hdue
    obtain ⟨hsid, hdue⟩ := h.timers sid due hdue
    exact ⟨by simp [hsid, hsid'], hdue⟩
  clients := h'.clients.trans h.clients
  gone sid hsid hlive := by
    by_cases hfirst : sid ∈ sids
    · exact fun hmem => h.gone sid hfirst hlive ((h'.clients.map Prod.fst).subset hmem)
    · have hsid' : sid ∈ sids' := (List.mem_append.mp hsid).resolve_left hfirst
      exact h'.gone sid hsid' (h.live_iff.mpr ⟨hlive, hfirst⟩)
  keepAlives := h'.keepAlives.trans h.keepAlives
  entries := h'.entries.trans h.entries

theorem mem_names_erase {α : Type} {entries : List (SessionId × α)} :
    sid ∉ (erase sid entries).map Prod.fst := by
  simp [erase]

/-- The callbacks of an ended session change nothing about that. -/
theorem Reaped.closeCallback (h : Reaped sids r r') (sid : SessionId) (onclose : Bool) :
    Reaped sids r (r'.closeCallback sid onclose) := by
  cases onclose with
  | true =>
    refine ⟨h.sessions, ?_, h.clients, h.gone, h.keepAlives, h.entries⟩
    intro sid' due hdue
    change get sid' (erase sid r'.reapTimers) = some due at hdue
    rw [get_erase] at hdue
    split at hdue
    · cases hdue
    · exact h.timers sid' due hdue
  | false =>
    have hsublist : (erase sid r'.clients).Sublist r'.clients := List.filter_sublist
    refine ⟨h.sessions, h.timers, hsublist.trans h.clients, ?_, h.keepAlives, h.entries⟩
    intro sid' hsid' hlive hmem
    exact h.gone sid' hsid' hlive ((hsublist.map Prod.fst).subset hmem)

theorem Reaped.callbacks (h : Reaped sids r r') (sid : SessionId) (callbacks : List Bool) :
    Reaped sids r (callbacks.foldl (McpSessionRouter.closeCallback sid) r') := by
  induction callbacks generalizing r' with
  | nil => exact h
  | cons onclose callbacks ih => exact ih (h.closeCallback sid onclose)

theorem reaped_cleanupSession (closing : Closing) (sid : SessionId) (r : McpSessionRouter) :
    Reaped [sid] r (r.cleanupSession closing sid) := by
  have htimers : ∀ sid' due, get sid' (erase sid r.reapTimers) = some due →
      sid' ∉ [sid] ∧ get sid' r.reapTimers = some due := by
    intro sid' due hdue
    rw [get_erase] at hdue
    split at hdue
    · cases hdue
    next hsid => exact ⟨by simpa using hsid, hdue⟩
  unfold cleanupSession
  dsimp only
  split
  · have hended : Reaped [sid] r { r.cancelReap sid with
        sessions := erase sid r.sessions, clients := erase sid r.clients } := by
      refine ⟨fun sid' => ?_, htimers, List.filter_sublist, fun sid' hsid' _ => ?_, rfl,
        List.filter_sublist⟩
      · show get sid' (erase sid r.sessions) = _
        simp [get_erase]
      · obtain rfl := List.mem_singleton.mp hsid'
        exact mem_names_erase
    exact hended.callbacks sid closing.callbacks
  next hdead =>
    change ¬ r.Live sid at hdead
    refine ⟨fun sid' => ?_, htimers, List.Sublist.refl _, ?_, rfl, List.Sublist.refl _⟩
    · show get sid' r.sessions = _
      by_cases hsid : sid' = sid
      · subst hsid
        simpa [Live] using hdead
      · simp [hsid]
    · intro sid' hsid' hlive
      obtain rfl := List.mem_singleton.mp hsid'
      exact absurd hlive hdead

/-- How often an ended session is named does not matter. -/
theorem Reaped.congr (h : Reaped sids r r') (hsids : ∀ sid, sid ∈ sids' ↔ sid ∈ sids) :
    Reaped sids' r r' where
  sessions sid := by
    rw [h.sessions]
    exact if_congr (hsids sid).symm rfl rfl
  timers sid due hdue := by
    obtain ⟨hsid, hdue⟩ := h.timers sid due hdue
    exact ⟨fun hmem => hsid ((hsids sid).mp hmem), hdue⟩
  clients := h.clients
  gone sid hsid := h.gone sid ((hsids sid).mp hsid)
  keepAlives := h.keepAlives
  entries := h.entries

/-- The transport cleans up before the router does, or not. -/
theorem reaped_cleanupTwice (closing : Closing) (sid : SessionId) (r : McpSessionRouter) :
    Reaped [sid] r
      ((if closing.fires then r.cleanupSession closing sid else r).cleanupSession closing sid) := by
  split
  · have htwice := (reaped_cleanupSession closing sid r).trans (reaped_cleanupSession closing sid _)
    exact htwice.congr (by simp)
  · exact reaped_cleanupSession closing sid r

theorem reaped_reapSession (closing : Closing) {sid : SessionId} {r : McpSessionRouter}
    (hlive : r.Live sid) : Reaped [sid] r (r.reapSession closing sid) := by
  rw [reapSession, if_pos hlive]
  exact reaped_cleanupTwice closing sid r

theorem reaped_failInit (closing : Closing) (sid : SessionId) (r : McpSessionRouter) :
    Reaped [sid] r (r.failInit closing sid) :=
  (reaped_cleanupTwice closing sid r).callbacks sid closing.callbacks

/-- The sessions of a list are reaped one after the other. -/
theorem reaped_foldl (closing : SessionId → Closing) (entries : List (SessionId × McpSession))
    (h : Reaped sids r r') (hlive : ∀ entry ∈ entries, r.Live entry.1) :
    Reaped (sids ++ entries.map Prod.fst) r
      (entries.foldl (fun r entry => r.reapSession (closing entry.1) entry.1) r') := by
  induction entries generalizing sids r' with
  | nil => simpa using h
  | cons entry entries ih =>
    have hrest := fun e he => hlive e (List.mem_cons_of_mem _ he)
    rw [List.foldl_cons, List.map_cons, List.append_cons]
    by_cases hsid : r'.Live entry.1
    · exact ih (h.trans (reaped_reapSession (closing entry.1) hsid)) hrest
    · -- it was in the list before, and was ended then
      have hbefore : entry.1 ∈ sids := by
        by_contra hnot
        exact hsid (h.live_iff.mpr ⟨hlive entry List.mem_cons_self, hnot⟩)
      rw [reapSession, if_neg hsid]
      refine ih (h.congr fun sid => ?_) hrest
      simp only [List.mem_append, List.mem_singleton, or_iff_left_iff_imp]
      rintro rfl
      exact hbefore

theorem reaped_sweep (opts : McpSessionRouterOptions) (now : ℤ) (ended : RequestId → Bool)
    (closing : SessionId → Closing) (r : McpSessionRouter) :
    Reaped ((r.sessions.filter fun entry => sweeps opts now ended entry.2).map Prod.fst) r
      (r.sweep opts now ended closing) := by
  have h := reaped_foldl closing (r.sessions.filter fun entry => sweeps opts now ended entry.2)
    (Reaped.refl r) fun entry hentry => ?_
  · rw [List.nil_append] at h
    exact h
  · exact Option.isSome_iff_exists.mpr
      (exists_get (List.mem_map_of_mem (List.mem_of_mem_filter hentry)))

/-- The timer that ran out is gone before the session is reaped. -/
theorem reaped_elapsed (closing : Closing) {sid : SessionId} {r : McpSessionRouter}
    (hlive : r.Live sid) : Reaped [sid] r ((r.cancelReap sid).reapSession closing sid) := by
  have h := reaped_reapSession closing (show (r.cancelReap sid).Live sid from hlive)
  refine ⟨h.sessions, fun sid' due hdue => ?_, h.clients, h.gone, h.keepAlives, h.entries⟩
  obtain ⟨hsid, hdue⟩ := h.timers sid' due hdue
  change get sid' (erase sid r.reapTimers) = some due at hdue
  rw [get_erase, if_neg (by simpa using hsid)] at hdue
  exact ⟨hsid, hdue⟩

/-! ### Closing the router -/

/-- No timer of the router is pending; those of the standby streams are given. -/
structure Quiet (keepAlives : List RequestId) (r : McpSessionRouter) : Prop where
  reapTimers : r.reapTimers = []
  sweepTimer : r.sweepTimer = false
  keepAlives : r.keepAlives = keepAlives

variable {alive : List RequestId}

theorem Quiet.cancelReap (h : Quiet alive r) (sid : SessionId) : Quiet alive (r.cancelReap sid) := by
  refine ⟨?_, h.sweepTimer, h.keepAlives⟩
  show erase sid r.reapTimers = []
  rw [h.reapTimers]
  rfl

theorem Quiet.cleanupSession (h : Quiet alive r) (closing : Closing) (sid : SessionId) :
    Quiet alive (r.cleanupSession closing sid) := by
  have hcallbacks : ∀ (callbacks : List Bool) {r : McpSessionRouter}, Quiet alive r →
      Quiet alive (callbacks.foldl (closeCallback sid) r) := by
    intro callbacks
    induction callbacks with
    | nil => exact fun h => h
    | cons onclose callbacks ih =>
      intro r h
      refine ih ?_
      cases onclose with
      | true => exact h.cancelReap sid
      | false => exact ⟨h.reapTimers, h.sweepTimer, h.keepAlives⟩
  have hcancelled := h.cancelReap sid
  unfold McpSessionRouter.cleanupSession
  dsimp only
  split
  · exact hcallbacks _ ⟨hcancelled.reapTimers, hcancelled.sweepTimer, hcancelled.keepAlives⟩
  · exact hcancelled

theorem Quiet.closeSession (h : Quiet alive r) (closing : Closing) (sid : SessionId) :
    Quiet alive (r.closeSession closing sid) := by
  have hcallbacks : ∀ (callbacks : List Bool) {r : McpSessionRouter}, Quiet alive r →
      Quiet alive (callbacks.foldl (fun r onclose =>
        if onclose then r.cleanupSession closing sid
        else { r with clients := erase sid r.clients }) r) := by
    intro callbacks
    induction callbacks with
    | nil => exact fun h => h
    | cons onclose callbacks ih =>
      intro r h
      refine ih ?_
      cases onclose with
      | true => exact h.cleanupSession closing sid
      | false => exact ⟨h.reapTimers, h.sweepTimer, h.keepAlives⟩
  unfold McpSessionRouter.closeSession
  refine hcallbacks _ ?_
  split
  · exact h.cleanupSession closing sid
  · exact h

/-- Behind `close` nothing is left but the keep-alives of streams that have not closed. -/
theorem quiet_close (closing : SessionId → Closing) (r : McpSessionRouter) :
    Quiet r.keepAlives (r.close closing) ∧ (r.close closing).sessions = [] ∧
      (r.close closing).clients = [] := by
  have hfold : ∀ (entries : List (SessionId × McpSession)) {r' : McpSessionRouter},
      Quiet r.keepAlives r' → Quiet r.keepAlives
        (entries.foldl (fun r entry => r.closeSession (closing entry.1) entry.1) r') := by
    intro entries
    induction entries with
    | nil => exact fun h => h
    | cons entry entries ih => exact fun h => ih (h.closeSession (closing entry.1) entry.1)
  have h : Quiet r.keepAlives (r.sessions.foldl
      (fun r entry => r.closeSession (closing entry.1) entry.1)
      { r with sweepTimer := false, reapTimers := [] }) := hfold r.sessions ⟨rfl, rfl, rfl⟩
  exact ⟨⟨h.reapTimers, h.sweepTimer, h.keepAlives⟩, rfl, rfl⟩

end McpSessionRouter

/-! ### The world around it -/

inductive Method
  | post
  | get
  | delete
  | other
deriving DecidableEq

/-- How far `handleRequest` is: reading the body, with the session that it looked up when the
    request arrived; creating a session; handed to the transport of a session; done. -/
inductive Phase
  | reading (header existing : Option SessionId)
  | creating (bound : Option SessionId)
  | handed (method : Method) (sid : SessionId)
  | done
deriving DecidableEq

/-- A standby stream: whether it has ended or was destroyed, and which of its events have come. -/
structure Stream where
  sessionId : SessionId
  ended : Bool := false
  finished : Bool := false
  closed : Bool := false
deriving DecidableEq

/-- The router between its callers.  Watched from outside are the ids that were issued, when the
    last request of each session was taken up, when its standby stream closed, and the clients that
    were announced when their session was gone. -/
structure World where
  now : ℤ := 0
  router : McpSessionRouter
  requests : List (RequestId × Phase) := []
  streams : List (RequestId × Stream) := []
  known : List SessionId := []
  takenUp : List (SessionId × ℤ) := []
  standbyLost : List (SessionId × ℤ) := []
  late : List SessionId := []
deriving DecidableEq

inductive Event
  | waits (ms : ℕ)
  | arrives (req : RequestId) (method : Method) (header : Option SessionId)
  | bodyRead (req : RequestId) (isInitialize : Bool)
  | bodyFailed (req : RequestId)
  | sessionInitialized (req : RequestId) (sid : SessionId)
  | initFailed (req : RequestId) (closing : Closing)
  | answered (req : RequestId)
  | sessionClosed (req : RequestId) (closing : Closing)
  | clientInitialized (sid : SessionId) (info : McpClientInfo)
  | clientGone (sid : SessionId)
  | streamEnds (res : RequestId)
  | streamFinishes (res : RequestId)
  | streamCloses (res : RequestId) (closing : Closing)
  | keepAlive (res : RequestId) (throws : Bool)
  | graceElapsed (sid : SessionId) (closing : Closing)
  | sweeps (closing : SessionId → Closing)
  | closes (closing : SessionId → Closing)

namespace World

open McpSessionRouter

variable (opts : McpSessionRouterOptions)

def start : World := { router := .new opts }

def Live (w : World) (sid : SessionId) : Prop := w.router.Live sid

instance (w : World) (sid : SessionId) : Decidable (w.Live sid) :=
  inferInstanceAs (Decidable (w.router.Live sid))

/-- The response was ended or destroyed. -/
def ended (w : World) (res : RequestId) : Bool := (get res w.streams).any Stream.ended

def setPhase (w : World) (req : RequestId) (phase : Phase) : World :=
  { w with requests := put req phase w.requests }

/-- A request for a session that was found is taken up, and handed to its transport. -/
def takeUp (w : World) (req : RequestId) (method : Method) (sid : SessionId) : World :=
  let router := w.router.refresh w.now sid
  let w := { w with router, takenUp := put sid w.now w.takenUp }
  let w := if method = .get then
      { w with router := w.router.registerStandbyStream opts req sid
               streams := put req { sessionId := sid } w.streams }
    else w
  w.setPhase req (.handed method sid)

/-- A request arrives: its session is looked up at once, the body of a POST is read first. -/
def arrive (w : World) (req : RequestId) (method : Method) (header : Option SessionId) : World :=
  let existing := header.filter fun sid => w.Live sid
  if method = .post then w.setPhase req (.reading header existing)
  else
    match existing with
    | some sid => w.takeUp opts req method sid
    | none => w.setPhase req .done

/-- The body is there: the request goes on with the session of its arrival. -/
def proceed (w : World) (req : RequestId) (isInitialize : Bool) (header existing : Option SessionId) :
    World :=
  match existing with
  | some sid => w.takeUp opts req .post sid
  | none =>
    if header = none ∧ isInitialize = true then w.setPhase req (.creating none)
    else w.setPhase req .done

/-- One event, where it is possible. -/
def step (w : World) : Event → Option World
  | .waits ms => some { w with now := w.now + ms }
  | .arrives req method header =>
    if get req w.requests = none then some (w.arrive opts req method header) else none
  | .bodyRead req isInitialize =>
    match get req w.requests with
    | some (.reading header existing) => some (w.proceed opts req isInitialize header existing)
    | _ => none
  | .bodyFailed req =>
    match get req w.requests with
    | some (.reading _ _) => some (w.setPhase req .done)
    | _ => none
  | .sessionInitialized req sid =>
    if get req w.requests = some (.creating none) ∧ sid ∉ w.known then
      some ({ w with
        router := { w.router with
          sessions := put sid { lastActivityAt := w.now } w.router.sessions }
        known := sid :: w.known
        takenUp := put sid w.now w.takenUp }.setPhase req (.creating (some sid)))
    else none
  | .initFailed req closing =>
    match get req w.requests with
    | some (.creating (some sid)) =>
      some ({ w with router := w.router.failInit closing sid }.setPhase req .done)
    | some (.creating none) => some (w.setPhase req .done)
    | _ => none
  | .answered req =>
    match get req w.requests with
    | some (.creating _) => some (w.setPhase req .done)
    | some (.handed _ _) => some (w.setPhase req .done)
    | _ => none
  | .sessionClosed req closing =>
    match get req w.requests with
    | some (.handed .delete sid) =>
      some { w with router := w.router.cleanupSession closing sid }
    | _ => none
  | .clientInitialized sid info =>
    if sid ∈ w.known then
      some { w with
        router := { w.router with clients := put sid info w.router.clients }
        late := if w.Live sid then w.late else sid :: w.late }
    else none
  | .clientGone sid =>
    some { w with router := { w.router with clients := erase sid w.router.clients } }
  | .streamEnds res =>
    match get res w.streams with
    | some stream => some { w with streams := put res { stream with ended := true } w.streams }
    | none => none
  | .streamFinishes res =>
    match get res w.streams with
    | some stream =>
      if stream.ended then
        some { w with streams := put res { stream with finished := true } w.streams
                      router := w.router.stopKeepAlive res }
      else none
    | none => none
  | .streamCloses res closing =>
    match get res w.streams with
    | some stream =>
      if stream.closed then none
      else
        let active := (get stream.sessionId w.router.sessions).bind McpSession.standbyRes = some res
        some { w with
          streams := put res { stream with ended := true, closed := true } w.streams
          router := (w.router.stopKeepAlive res).standbyClosed opts w.now closing res
            stream.sessionId
          standbyLost :=
            if active then put stream.sessionId w.now w.standbyLost else w.standbyLost }
    | none => none
  | .keepAlive res throws =>
    if res ∈ w.router.keepAlives then
      some { w with router := if w.ended res || throws then w.router.stopKeepAlive res else w.router }
    else none
  | .graceElapsed sid closing =>
    match get sid w.router.reapTimers with
    | some due =>
      if due ≤ w.now then
        some { w with router := (w.router.cancelReap sid).reapSession closing sid }
      else none
    | none => none
  | .sweeps closing =>
    if w.router.sweepTimer then
      some { w with router := w.router.sweep opts w.now w.ended closing }
    else none
  | .closes closing => some { w with router := w.router.close closing }

end World

end Tapsmith.Mcp
