import Tapsmith.Lib.Machine
import Tapsmith.Mcp.SessionRouter

namespace Tapsmith.Mcp

open Lib.Entries Lib.Machine McpSessionRouter

/-!
# When sessions end

* `Ground` — the reasons for which an event may end a session;
* `Sound` — the invariant: what every reaping timer, client and keep-alive belongs to;
* `Sound.step` — one event keeps it;
* `sessions_end` — every run ends sessions for these reasons alone, and leaves nothing behind.
-/

namespace World

variable {opts : McpSessionRouterOptions} {w w' : World} {sid : SessionId}

/-- The standby stream that the router tracks for a session. -/
def standbyRes (w : World) (sid : SessionId) : Option RequestId :=
  (get sid w.router.sessions).bind McpSession.standbyRes

/-- Why an event may end a session. -/
inductive Ground (opts : McpSessionRouterOptions) (w : World) (sid : SessionId) : Event → Prop
  | deleted {req : RequestId} (closing : Closing)
      (hreq : get req w.requests = some (.handed .delete sid)) :
      Ground opts w sid (.sessionClosed req closing)
  | closed (closing : SessionId → Closing) : Ground opts w sid (.closes closing)
  | failed {req : RequestId} (closing : Closing)
      (hreq : get req w.requests = some (.creating (some sid))) :
      Ground opts w sid (.initFailed req closing)
  /-- The tracked standby stream closed, and there is no grace period. -/
  | standby {res : RequestId} (closing : Closing) (hactive : w.standbyRes sid = some res)
      (hgrace : opts.sessionGraceMs ≤ 0) : Ground opts w sid (.streamCloses res closing)
  /-- The grace period has passed since the tracked stream closed, and no request was taken up. -/
  | grace (closing : Closing) {lost taken : ℤ} (hnone : w.standbyRes sid = none)
      (hlost : get sid w.standbyLost = some lost) (htaken : get sid w.takenUp = some taken)
      (hbefore : taken ≤ lost) (hpassed : lost + opts.sessionGraceMs ≤ w.now) :
      Ground opts w sid (.graceElapsed sid closing)
  /-- The tracked standby stream is found dead. -/
  | dead {res : RequestId} (closing : SessionId → Closing) (hactive : w.standbyRes sid = some res)
      (hended : w.ended res = true) : Ground opts w sid (.sweeps closing)
  /-- No standby stream is tracked, and the idle timeout has passed since the last request. -/
  | idle (closing : SessionId → Closing) {taken : ℤ} (hnone : w.standbyRes sid = none)
      (htaken : get sid w.takenUp = some taken) (henabled : 0 < opts.idleTimeoutMs)
      (hpassed : opts.idleTimeoutMs < w.now - taken) : Ground opts w sid (.sweeps closing)

/-- How a request may enter a phase: it is handed to the transport of a session that is live, or
    that was live when the request arrived, and was ended while its body was being read. -/
inductive Entered (w : World) (req : RequestId) : Phase → Prop
  | reading (header : Option SessionId) {existing : Option SessionId}
      (hlive : ∀ sid, existing = some sid → w.Live sid) : Entered w req (.reading header existing)
  | handed (method : Method) {sid : SessionId} (hlive : w.Live sid) :
      Entered w req (.handed method sid)
  | read {header : Option SessionId} {sid : SessionId}
      (hreq : get req w.requests = some (.reading header (some sid))) :
      Entered w req (.handed .post sid)
  | creating (bound : Option SessionId) : Entered w req (.creating bound)
  | done : Entered w req .done

/-! ### The invariant -/

structure Sound (opts : McpSessionRouterOptions) (w : World) : Prop where
  timers : ∀ sid due, get sid w.router.reapTimers = some due → ∃ session lost,
    get sid w.router.sessions = some session ∧ session.standbyRes = none ∧
      get sid w.standbyLost = some lost ∧ due = lost + opts.sessionGraceMs ∧
        session.lastActivityAt ≤ lost
  activity : ∀ sid session, get sid w.router.sessions = some session →
    get sid w.takenUp = some session.lastActivityAt ∧ session.lastActivityAt ≤ w.now
  known : ∀ sid, w.Live sid → sid ∈ w.known
  clients : ∀ sid ∈ w.router.clients.map Prod.fst, w.Live sid ∨ sid ∈ w.late
  nodup : (w.router.clients.map Prod.fst).Nodup
  unique : (w.router.sessions.map Prod.fst).Nodup
  keepAlives : ∀ res ∈ w.router.keepAlives, ∃ stream, get res w.streams = some stream ∧
    stream.finished = false ∧ stream.closed = false

/-- Ending sessions keeps the invariant: their clients are dropped with them. -/
theorem Sound.reaped (h : Sound opts w) {sids : List SessionId} {r : McpSessionRouter}
    (hr : Reaped sids w.router r) : Sound opts { w with router := r } where
  timers sid due hdue := by
    obtain ⟨hsid, hdue⟩ := hr.timers sid due hdue
    obtain ⟨session, lost, hsession, hrest⟩ := h.timers sid due hdue
    exact ⟨session, lost, by rw [hr.sessions, if_neg hsid, hsession], hrest⟩
  activity sid session hsession := by
    rw [hr.sessions] at hsession
    split at hsession
    · cases hsession
    · exact h.activity sid session hsession
  known sid hlive := h.known sid (hr.live_iff.mp hlive).1
  clients sid hsid := by
    have hold := (hr.clients.map Prod.fst).subset hsid
    refine (h.clients sid hold).imp_left fun hlive => ?_
    exact hr.live_iff.mpr ⟨hlive, fun hmem => hr.gone sid hmem hlive hsid⟩
  nodup := h.nodup.sublist (hr.clients.map Prod.fst)
  unique := h.unique.sublist (hr.entries.map Prod.fst)
  keepAlives := by
    rw [hr.keepAlives]
    exact h.keepAlives

theorem Sound.setPhase (h : Sound opts w) (req : RequestId) (phase : Phase) :
    Sound opts (w.setPhase req phase) :=
  ⟨h.timers, h.activity, h.known, h.clients, h.nodup, h.unique, h.keepAlives⟩

/-! ### Requests -/

theorem get_setSession {r : McpSessionRouter} {f : McpSession → McpSession} {sid' : SessionId} :
    get sid' (r.setSession sid f).sessions =
      if sid' = sid then (get sid r.sessions).map f else get sid' r.sessions := by
  cases hsession : get sid r.sessions with
  | none =>
    by_cases hsid : sid' = sid
    · simp [setSession, hsid, hsession]
    · simp [setSession, hsid, hsession]
  | some session => simpa [setSession, hsession] using get_put

theorem nodup_setSession {r : McpSessionRouter} {f : McpSession → McpSession}
    (h : (r.sessions.map Prod.fst).Nodup) :
    ((r.setSession sid f).sessions.map Prod.fst).Nodup := by
  cases hsession : get sid r.sessions with
  | none => simpa [setSession, hsession] using h
  | some session => simpa [setSession, hsession] using nodup_put h

theorem live_setSession {r : McpSessionRouter} {f : McpSession → McpSession} {sid' : SessionId} :
    (r.setSession sid f).Live sid' ↔ r.Live sid' := by
  unfold McpSessionRouter.Live
  rw [get_setSession]
  by_cases hsid : sid' = sid
  · simp [hsid]
  · simp [hsid]

/-- A session that a request was taken up for has no reaping timer, and is as old as the request. -/
theorem Sound.refresh (h : Sound opts w) (sid : SessionId) :
    Sound opts { w with router := w.router.refresh w.now sid
                        takenUp := put sid w.now w.takenUp } where
  timers sid' due hdue := by
    change get sid' (erase sid (w.router.setSession sid _).reapTimers) = some due at hdue
    rw [get_erase] at hdue
    split at hdue
    · cases hdue
    next hsid =>
      obtain ⟨session, lost, hsession, hrest⟩ := h.timers sid' due hdue
      refine ⟨session, lost, ?_, hrest⟩
      show get sid' (w.router.setSession sid _).sessions = some session
      rw [get_setSession, if_neg hsid, hsession]
  activity sid' session hsession := by
    change get sid' (w.router.setSession sid _).sessions = some session at hsession
    rw [get_setSession] at hsession
    show get sid' (put sid w.now w.takenUp) = _ ∧ _
    rw [get_put]
    split at hsession
    next hsid =>
      obtain ⟨old, -, rfl⟩ := Option.map_eq_some_iff.mp hsession
      rw [if_pos hsid]
      exact ⟨rfl, Int.le_refl _⟩
    next hsid =>
      rw [if_neg hsid]
      exact h.activity sid' session hsession
  known sid' hlive := h.known sid' (live_setSession.mp hlive)
  clients sid' hsid := (h.clients sid' hsid).imp_left live_setSession.mpr
  nodup := h.nodup
  unique := nodup_setSession h.unique
  keepAlives := h.keepAlives

/-- A stream that is opened for a session without a reaping timer becomes the tracked one. -/
theorem Sound.registerStandbyStream (h : Sound opts w) (req : RequestId) {sid : SessionId}
    (hnotimer : get sid w.router.reapTimers = none) :
    Sound opts { w with router := w.router.registerStandbyStream opts req sid
                        streams := put req { sessionId := sid } w.streams } where
  timers sid' due hdue := by
    obtain ⟨session, lost, hsession, hrest⟩ := h.timers sid' due hdue
    have hsid : sid' ≠ sid := by
      rintro rfl
      cases hnotimer.symm.trans hdue
    refine ⟨session, lost, ?_, hrest⟩
    show get sid' (w.router.setSession sid _).sessions = some session
    rw [get_setSession, if_neg hsid, hsession]
  activity sid' session hsession := by
    change get sid' (w.router.setSession sid _).sessions = some session at hsession
    rw [get_setSession] at hsession
    split at hsession
    next hsid =>
      obtain ⟨old, hold, rfl⟩ := Option.map_eq_some_iff.mp hsession
      rw [hsid]
      exact h.activity sid old hold
    next hsid => exact h.activity sid' session hsession
  known sid' hlive := h.known sid' (live_setSession.mp hlive)
  clients sid' hsid := (h.clients sid' hsid).imp_left live_setSession.mpr
  nodup := h.nodup
  unique := nodup_setSession h.unique
  keepAlives res hres := by
    change res ∈ (if opts.keepAliveIntervalMs ≤ 0 then _ else _) at hres
    show ∃ stream, get res (put req { sessionId := sid } w.streams) = some stream ∧ _
    rw [get_put]
    by_cases hreq : res = req
    · exact ⟨{ sessionId := sid }, if_pos hreq, rfl, rfl⟩
    · rw [if_neg hreq]
      refine h.keepAlives res ?_
      split at hres
      · exact hres
      · exact (List.mem_cons.mp hres).resolve_left hreq

theorem Sound.takeUp (h : Sound opts w) (req : RequestId) (method : Method) (sid : SessionId) :
    Sound opts (w.takeUp opts req method sid) := by
  have hrefreshed := h.refresh sid
  unfold World.takeUp
  dsimp only
  split
  · refine (hrefreshed.registerStandbyStream req ?_).setPhase req _
    show get sid (erase sid _) = none
    rw [get_erase, if_pos rfl]
  · exact hrefreshed.setPhase req _

theorem Sound.arrive (h : Sound opts w) (req : RequestId) (method : Method)
    (header : Option SessionId) : Sound opts (w.arrive opts req method header) := by
  unfold World.arrive
  dsimp only
  split
  · exact h.setPhase req _
  · split
    next sid _ => exact h.takeUp req method sid
    next => exact h.setPhase req _

theorem Sound.proceed (h : Sound opts w) (req : RequestId) (isInitialize : Bool)
    (header existing : Option SessionId) :
    Sound opts (w.proceed opts req isInitialize header existing) := by
  unfold World.proceed
  split
  · exact h.takeUp req .post _
  · split
    · exact h.setPhase req _
    · exact h.setPhase req _

theorem Sound.sessionInitialized (h : Sound opts w) {sid : SessionId} (hfresh : ¬ w.Live sid) :
    Sound opts { w with
      router := { w.router with
        sessions := put sid { lastActivityAt := w.now } w.router.sessions }
      known := sid :: w.known
      takenUp := put sid w.now w.takenUp } where
  timers sid' due hdue := by
    obtain ⟨session, lost, hsession, hrest⟩ := h.timers sid' due hdue
    have hsid : sid' ≠ sid := by
      rintro rfl
      exact hfresh (by simp [World.Live, McpSessionRouter.Live, hsession])
    exact ⟨session, lost, by rw [get_put, if_neg hsid, hsession], hrest⟩
  activity sid' session hsession := by
    change get sid' (put sid _ w.router.sessions) = some session at hsession
    show get sid' (put sid w.now w.takenUp) = _ ∧ _
    rw [get_put] at hsession ⊢
    split at hsession
    next hsid =>
      obtain rfl := Option.some.inj hsession
      rw [if_pos hsid]
      exact ⟨rfl, Int.le_refl _⟩
    next hsid =>
      rw [if_neg hsid]
      exact h.activity sid' session hsession
  known sid' hlive := by
    change (get sid' (put sid _ w.router.sessions)).isSome at hlive
    rw [get_put] at hlive
    split at hlive
    next hsid => exact hsid ▸ List.mem_cons_self
    next hsid => exact List.mem_cons_of_mem _ (h.known sid' hlive)
  clients sid' hsid := by
    refine (h.clients sid' hsid).imp_left fun hlive => ?_
    show (get sid' (put sid _ w.router.sessions)).isSome
    rw [get_put]
    split
    · rfl
    · exact hlive
  nodup := h.nodup
  unique := nodup_put h.unique
  keepAlives := h.keepAlives

theorem Sound.clientInitialized (h : Sound opts w) (sid : SessionId) (info : McpClientInfo) :
    Sound opts { w with
      router := { w.router with clients := put sid info w.router.clients }
      late := if w.Live sid then w.late else sid :: w.late } where
  timers := h.timers
  activity := h.activity
  known := h.known
  clients sid' hsid := by
    show w.Live sid' ∨ sid' ∈ (if w.Live sid then w.late else sid :: w.late)
    rcases mem_names_put.mp hsid with rfl | hsid
    · by_cases hlive : w.Live sid'
      · exact .inl hlive
      · exact .inr (by simp [hlive])
    · refine (h.clients sid' hsid).imp_right fun hlate => ?_
      split
      · exact hlate
      · exact List.mem_cons_of_mem _ hlate
  nodup := nodup_put h.nodup
  unique := h.unique
  keepAlives := h.keepAlives

/-! ### Streams -/

/-- A stream whose keep-alive stops may change in any way. -/
theorem Sound.stopKeepAlive (h : Sound opts w) (res : RequestId) (stream : Stream) :
    Sound opts { w with streams := put res stream w.streams
                        router := w.router.stopKeepAlive res } where
  timers := h.timers
  activity := h.activity
  known := h.known
  clients := h.clients
  nodup := h.nodup
  unique := h.unique
  keepAlives res' hres' := by
    obtain ⟨hmem, hne⟩ := List.mem_filter.mp hres'
    show ∃ stream', get res' (put res stream w.streams) = some stream' ∧ _
    rw [get_put, if_neg (by simpa using hne)]
    exact h.keepAlives res' hmem

theorem Sound.dropKeepAlive (h : Sound opts w) (res : RequestId) :
    Sound opts { w with router := w.router.stopKeepAlive res } :=
  ⟨h.timers, h.activity, h.known, h.clients, h.nodup, h.unique,
    fun res' hres' => h.keepAlives res' (List.mem_of_mem_filter hres')⟩

/-- A stream that ends is kept alive until that is noticed. -/
theorem Sound.streamEnds (h : Sound opts w) {res : RequestId} {stream : Stream}
    (hstream : get res w.streams = some stream) :
    Sound opts { w with streams := put res { stream with ended := true } w.streams } where
  timers := h.timers
  activity := h.activity
  known := h.known
  clients := h.clients
  nodup := h.nodup
  unique := h.unique
  keepAlives res' hres' := by
    obtain ⟨stream', hstream', hopen⟩ := h.keepAlives res' hres'
    show ∃ stream', get res' (put res _ w.streams) = some stream' ∧ _
    rw [get_put]
    split
    next hres =>
      subst hres
      obtain rfl := Option.some.inj (hstream.symm.trans hstream')
      exact ⟨_, rfl, hopen⟩
    next => exact ⟨stream', hstream', hopen⟩

/-- The tracked stream of a session closes: from now on its grace period runs. -/
theorem Sound.standbyClosed (h : Sound opts w) {res : RequestId}
    (hactive : w.standbyRes sid = some res) (closing : Closing) :
    Sound opts { w with router := w.router.standbyClosed opts w.now closing res sid
                        standbyLost := put sid w.now w.standbyLost } := by
  obtain ⟨session, hsession, hres⟩ := Option.bind_eq_some_iff.mp hactive
  have hnotimer : get sid w.router.reapTimers = none := by
    cases hdue : get sid w.router.reapTimers with
    | none => rfl
    | some due =>
      obtain ⟨session', lost, hsession', hnone, -⟩ := h.timers sid due hdue
      obtain rfl := Option.some.inj (hsession.symm.trans hsession')
      cases hres.symm.trans hnone
  let r := w.router.setSession sid fun session => { session with standbyRes := none }
  have hlost : get sid r.sessions = some { session with standbyRes := none } := by
    rw [get_setSession, if_pos rfl, hsession]
    rfl
  have hsound : Sound opts { w with router := r, standbyLost := put sid w.now w.standbyLost } := by
    refine ⟨fun sid' due hdue => ?_, fun sid' session' hsession' => ?_, fun sid' hlive => ?_,
      fun sid' hsid' => ?_, h.nodup, nodup_setSession h.unique, h.keepAlives⟩
    · obtain ⟨session', lost, hsession', hrest⟩ := h.timers sid' due hdue
      have hsid : sid' ≠ sid := by
        rintro rfl
        cases hnotimer.symm.trans hdue
      refine ⟨session', lost, ?_, ?_⟩
      · rw [get_setSession, if_neg hsid, hsession']
      · rw [get_put, if_neg hsid]
        exact hrest
    · rw [get_setSession] at hsession'
      split at hsession'
      next hsid =>
        rw [hsession] at hsession'
        obtain rfl := Option.some.inj hsession'
        rw [hsid]
        exact h.activity sid session hsession
      next hsid => exact h.activity sid' session' hsession'
    · exact h.known sid' (live_setSession.mp hlive)
    · exact (h.clients sid' hsid').imp_left live_setSession.mpr
  have hlive : r.Live sid := by
    rw [McpSessionRouter.Live, hlost]
    rfl
  unfold World.standbyRes at hactive
  rw [McpSessionRouter.standbyClosed, if_pos hactive, scheduleReap, if_pos hlive]
  split
  · exact hsound.reaped (reaped_reapSession closing hlive)
  · refine ⟨fun sid' due hdue => ?_, hsound.activity, hsound.known, hsound.clients, hsound.nodup,
      hsound.unique, hsound.keepAlives⟩
    change get sid' (put sid (w.now + opts.sessionGraceMs) w.router.reapTimers) = some due at hdue
    rw [get_put] at hdue
    split at hdue
    next hsid =>
      obtain rfl := Option.some.inj hdue
      rw [hsid]
      exact ⟨_, w.now, hlost, rfl, by rw [get_put, if_pos rfl], rfl,
        (h.activity sid session hsession).2⟩
    next => exact hsound.timers sid' due hdue

/-- The `close` of a stream that is not tracked only stops its keep-alive. -/
theorem Sound.streamCloses (h : Sound opts w) (res : RequestId) (stream : Stream)
    (closing : Closing) :
    Sound opts { w with
      streams := put res { stream with ended := true, closed := true } w.streams
      router := (w.router.stopKeepAlive res).standbyClosed opts w.now closing res stream.sessionId
      standbyLost :=
        if w.standbyRes stream.sessionId = some res then
          put stream.sessionId w.now w.standbyLost
        else w.standbyLost } := by
  have hstopped := h.stopKeepAlive res { stream with ended := true, closed := true }
  by_cases hactive : w.standbyRes stream.sessionId = some res
  · rw [if_pos hactive]
    exact hstopped.standbyClosed hactive closing
  · have huntracked : (w.router.stopKeepAlive res).standbyClosed opts w.now closing res
        stream.sessionId = w.router.stopKeepAlive res := if_neg hactive
    rw [if_neg hactive, huntracked]
    exact hstopped

/-! ### One event -/

/-- **One event** keeps the invariant. -/
theorem Sound.step (h : Sound opts w) {e : Event} (hstep : w.step opts e = some w') :
    Sound opts w' := by
  cases e with
  | waits ms =>
    obtain rfl := Option.some.inj hstep
    refine ⟨h.timers, fun sid session hsession => ?_, h.known, h.clients, h.nodup,
      h.unique, h.keepAlives⟩
    obtain ⟨htaken, hage⟩ := h.activity sid session hsession
    exact ⟨htaken, by show session.lastActivityAt ≤ w.now + ms; omega⟩
  | arrives req method header =>
    simp only [World.step] at hstep
    split at hstep
    · obtain rfl := Option.some.inj hstep
      exact h.arrive req method header
    · cases hstep
  | bodyRead req isInitialize =>
    simp only [World.step] at hstep
    split at hstep
    next header existing _ =>
      obtain rfl := Option.some.inj hstep
      exact h.proceed req isInitialize header existing
    next => cases hstep
  | bodyFailed req =>
    simp only [World.step] at hstep
    split at hstep
    · obtain rfl := Option.some.inj hstep
      exact h.setPhase req _
    · cases hstep
  | sessionInitialized req sid =>
    simp only [World.step] at hstep
    split at hstep
    next hfresh =>
      obtain rfl := Option.some.inj hstep
      exact (h.sessionInitialized fun hlive => hfresh.2 (h.known sid hlive)).setPhase req _
    next => cases hstep
  | initFailed req closing =>
    simp only [World.step] at hstep
    split at hstep
    next sid _ =>
      obtain rfl := Option.some.inj hstep
      exact (h.reaped (reaped_failInit closing sid w.router)).setPhase req _
    · obtain rfl := Option.some.inj hstep
      exact h.setPhase req _
    · cases hstep
  | answered req =>
    simp only [World.step] at hstep
    split at hstep
    · obtain rfl := Option.some.inj hstep
      exact h.setPhase req _
    · obtain rfl := Option.some.inj hstep
      exact h.setPhase req _
    · cases hstep
  | sessionClosed req closing =>
    simp only [World.step] at hstep
    split at hstep
    next sid _ =>
      obtain rfl := Option.some.inj hstep
      exact h.reaped (reaped_cleanupSession closing sid w.router)
    next => cases hstep
  | clientInitialized sid info =>
    simp only [World.step] at hstep
    split at hstep
    · obtain rfl := Option.some.inj hstep
      exact h.clientInitialized sid info
    · cases hstep
  | clientGone sid =>
    obtain rfl := Option.some.inj hstep
    have hsublist : (erase sid w.router.clients).Sublist w.router.clients := List.filter_sublist
    exact ⟨h.timers, h.activity, h.known,
      fun sid' hsid' => h.clients sid' ((hsublist.map Prod.fst).subset hsid'),
      h.nodup.sublist (hsublist.map Prod.fst), h.unique, h.keepAlives⟩
  | streamEnds res =>
    simp only [World.step] at hstep
    split at hstep
    next stream hstream =>
      obtain rfl := Option.some.inj hstep
      exact h.streamEnds hstream
    next => cases hstep
  | streamFinishes res =>
    simp only [World.step] at hstep
    split at hstep
    next stream _ =>
      split at hstep
      · obtain rfl := Option.some.inj hstep
        exact h.stopKeepAlive res { stream with finished := true }
      · cases hstep
    next => cases hstep
  | streamCloses res closing =>
    simp only [World.step] at hstep
    split at hstep
    next stream _ =>
      split at hstep
      · cases hstep
      · obtain rfl := Option.some.inj hstep
        exact h.streamCloses res stream closing
    next => cases hstep
  | keepAlive res throws =>
    simp only [World.step] at hstep
    split at hstep
    · obtain rfl := Option.some.inj hstep
      by_cases hstops : (w.ended res || throws) = true
      · rw [if_pos hstops]
        exact h.dropKeepAlive res
      · rw [if_neg hstops]
        exact h
    · cases hstep
  | graceElapsed sid closing =>
    simp only [World.step] at hstep
    split at hstep
    next due hdue =>
      split at hstep
      · obtain rfl := Option.some.inj hstep
        obtain ⟨session, lost, hsession, -⟩ := h.timers sid due hdue
        refine h.reaped (reaped_elapsed closing ?_)
        simp [McpSessionRouter.Live, hsession]
      · cases hstep
    next => cases hstep
  | sweeps closing =>
    simp only [World.step] at hstep
    split at hstep
    · obtain rfl := Option.some.inj hstep
      exact h.reaped (reaped_sweep opts w.now w.ended closing w.router)
    · cases hstep
  | closes closing =>
    obtain rfl := Option.some.inj hstep
    obtain ⟨hquiet, hsessions, hclients⟩ := quiet_close closing w.router
    refine ⟨fun sid due hdue => ?_, fun sid session hsession => ?_, fun sid hlive => ?_,
      fun sid hsid => ?_, List.nodup_nil, List.nodup_nil, ?_⟩
    · rw [hquiet.reapTimers] at hdue
      cases hdue
    · cases hsession
    · cases hlive
    · cases hsid
    · show ∀ res ∈ (w.router.close closing).keepAlives, _
      rw [hquiet.keepAlives]
      exact h.keepAlives

/-! ### Which events end sessions -/

theorem live_takeUp (w : World) (req : RequestId) (method : Method) (sid sid' : SessionId) :
    (w.takeUp opts req method sid').Live sid ↔ w.Live sid := by
  unfold World.takeUp
  dsimp only
  split
  · exact live_setSession.trans live_setSession
  · exact live_setSession

theorem live_arrive (w : World) (req : RequestId) (method : Method) (header : Option SessionId)
    (sid : SessionId) : (w.arrive opts req method header).Live sid ↔ w.Live sid := by
  unfold World.arrive
  dsimp only
  split
  · rfl
  · split
    · exact live_takeUp w req method sid _
    · rfl

theorem live_proceed (w : World) (req : RequestId) (isInitialize : Bool)
    (header existing : Option SessionId) (sid : SessionId) :
    (w.proceed opts req isInitialize header existing).Live sid ↔ w.Live sid := by
  unfold World.proceed
  split
  · exact live_takeUp w req .post sid _
  · split <;> rfl

/-- The one session that was ended is the one that is no longer live. -/
theorem mem_of_reaped {sids : List SessionId} {r : McpSessionRouter}
    (h : Reaped sids w.router r) (hlive : w.Live sid) (hgone : ¬ r.Live sid) : sid ∈ sids := by
  by_contra hnot
  exact hgone (h.live_iff.mpr ⟨hlive, hnot⟩)

/-- The `close` of a stream ends a session only where there is no grace period. -/
theorem ground_of_streamCloses {res : RequestId} {sid' : SessionId} {closing : Closing}
    (hlive : w.Live sid)
    (hgone : ¬ ((w.router.stopKeepAlive res).standbyClosed opts w.now closing res sid').Live sid) :
    Ground opts w sid (.streamCloses res closing) := by
  by_cases hactive : w.standbyRes sid' = some res
  · have hclosed : (w.router.stopKeepAlive res).standbyClosed opts w.now closing res sid' =
        ((w.router.stopKeepAlive res).setSession sid' fun session =>
          { session with standbyRes := none }).scheduleReap opts w.now closing sid' :=
      if_pos hactive
    have hlive' : ((w.router.stopKeepAlive res).setSession sid' fun session =>
        { session with standbyRes := none }).Live sid := live_setSession.mpr hlive
    rw [hclosed, scheduleReap] at hgone
    split at hgone
    next hthere =>
      split at hgone
      next hgrace =>
        have hsid : sid = sid' := by
          by_contra hne
          exact hgone ((reaped_reapSession closing hthere).live_iff.mpr ⟨hlive', by simpa using hne⟩)
        exact .standby closing (hsid ▸ hactive) hgrace
      next => exact absurd hlive' hgone
    next => exact absurd hlive' hgone
  · have huntracked : (w.router.stopKeepAlive res).standbyClosed opts w.now closing res sid' =
        w.router.stopKeepAlive res := if_neg hactive
    rw [huntracked] at hgone
    exact absurd hlive hgone

/-- What a sweep reaps has a dead standby stream, or has been idle without one. -/
theorem ground_of_sweeps (h : Sound opts w) {closing : SessionId → Closing} {session : McpSession}
    (hmem : (sid, session) ∈ w.router.sessions)
    (hsweeps : McpSessionRouter.sweeps opts w.now w.ended session = true) :
    Ground opts w sid (.sweeps closing) := by
  have hsession := get_of_mem h.unique hmem
  unfold McpSessionRouter.sweeps at hsweeps
  cases hres : session.standbyRes with
  | some res =>
    rw [hres] at hsweeps
    exact .dead closing (by simp [standbyRes, hsession, hres]) hsweeps
  | none =>
    rw [hres] at hsweeps
    obtain ⟨henabled, hidle⟩ := of_decide_eq_true hsweeps
    exact .idle closing (by simp [standbyRes, hsession, hres]) (h.activity sid session hsession).1
      henabled hidle

theorem Sound.ground (h : Sound opts w) {e : Event} (hstep : w.step opts e = some w')
    (hlive : w.Live sid) (hgone : ¬ w'.Live sid) : Ground opts w sid e := by
  cases e with
  | waits ms =>
    obtain rfl := Option.some.inj hstep
    exact absurd hlive hgone
  | arrives req method header =>
    simp only [World.step] at hstep
    split at hstep
    · obtain rfl := Option.some.inj hstep
      exact absurd ((live_arrive w req method header sid).mpr hlive) hgone
    · cases hstep
  | bodyRead req isInitialize =>
    simp only [World.step] at hstep
    split at hstep
    next header existing _ =>
      obtain rfl := Option.some.inj hstep
      exact absurd ((live_proceed w req isInitialize header existing sid).mpr hlive) hgone
    next => cases hstep
  | bodyFailed req =>
    simp only [World.step] at hstep
    split at hstep
    · obtain rfl := Option.some.inj hstep
      exact absurd hlive hgone
    · cases hstep
  | sessionInitialized req sid' =>
    simp only [World.step] at hstep
    split at hstep
    · obtain rfl := Option.some.inj hstep
      refine absurd ?_ hgone
      show (get sid (put sid' _ w.router.sessions)).isSome
      rw [get_put]
      split
      · rfl
      · exact hlive
    · cases hstep
  | initFailed req closing =>
    simp only [World.step] at hstep
    split at hstep
    next sid' hreq =>
      obtain rfl := Option.some.inj hstep
      obtain rfl := List.mem_singleton.mp
        (mem_of_reaped (reaped_failInit closing sid' w.router) hlive hgone)
      exact .failed closing hreq
    · obtain rfl := Option.some.inj hstep
      exact absurd hlive hgone
    · cases hstep
  | answered req =>
    simp only [World.step] at hstep
    split at hstep
    · obtain rfl := Option.some.inj hstep
      exact absurd hlive hgone
    · obtain rfl := Option.some.inj hstep
      exact absurd hlive hgone
    · cases hstep
  | sessionClosed req closing =>
    simp only [World.step] at hstep
    split at hstep
    next sid' hreq =>
      obtain rfl := Option.some.inj hstep
      obtain rfl := List.mem_singleton.mp
        (mem_of_reaped (reaped_cleanupSession closing sid' w.router) hlive hgone)
      exact .deleted closing hreq
    next => cases hstep
  | clientInitialized sid' info =>
    simp only [World.step] at hstep
    split at hstep
    · obtain rfl := Option.some.inj hstep
      exact absurd hlive hgone
    · cases hstep
  | clientGone sid' =>
    obtain rfl := Option.some.inj hstep
    exact absurd hlive hgone
  | streamEnds res =>
    simp only [World.step] at hstep
    split at hstep
    · obtain rfl := Option.some.inj hstep
      exact absurd hlive hgone
    · cases hstep
  | streamFinishes res =>
    simp only [World.step] at hstep
    split at hstep
    · split at hstep
      · obtain rfl := Option.some.inj hstep
        exact absurd hlive hgone
      · cases hstep
    · cases hstep
  | streamCloses res closing =>
    simp only [World.step] at hstep
    split at hstep
    · split at hstep
      · cases hstep
      · obtain rfl := Option.some.inj hstep
        exact ground_of_streamCloses hlive hgone
    · cases hstep
  | keepAlive res throws =>
    simp only [World.step] at hstep
    split at hstep
    · obtain rfl := Option.some.inj hstep
      refine absurd ?_ hgone
      show McpSessionRouter.Live (if _ then _ else _) sid
      split <;> exact hlive
    · cases hstep
  | graceElapsed sid' closing =>
    simp only [World.step] at hstep
    split at hstep
    next due hdue =>
      split at hstep
      next hpassed =>
        obtain rfl := Option.some.inj hstep
        obtain ⟨session, lost, hsession, hnone, hlost, rfl, hbefore⟩ := h.timers sid' due hdue
        have hthere : w.router.Live sid' := by simp [McpSessionRouter.Live, hsession]
        obtain rfl := List.mem_singleton.mp
          (mem_of_reaped (reaped_elapsed closing hthere) hlive hgone)
        exact .grace closing (by simp [standbyRes, hsession, hnone]) hlost
          (h.activity sid session hsession).1 hbefore hpassed
      next => cases hstep
    next => cases hstep
  | sweeps closing =>
    simp only [World.step] at hstep
    split at hstep
    · obtain rfl := Option.some.inj hstep
      obtain ⟨⟨sid', session⟩, hentry, rfl⟩ := List.mem_map.mp
        (mem_of_reaped (reaped_sweep opts w.now w.ended closing w.router) hlive hgone)
      obtain ⟨hmem, hsweeps⟩ := List.mem_filter.mp hentry
      exact ground_of_sweeps h hmem hsweeps
    · cases hstep
  | closes closing => exact .closed closing

/-! ### Which transports requests are handed to -/

/-- What every state keeps: each client is one of a live session, or was announced when its session
    was gone; a reaping timer is one of a live session; and a keep-alive one of a stream that has
    neither finished nor closed. -/
structure Kept (w : World) : Prop where
  clients : ∀ sid ∈ w.router.clients.map Prod.fst, w.Live sid ∨ sid ∈ w.late
  nodup : (w.router.clients.map Prod.fst).Nodup
  timers : ∀ sid ∈ w.router.reapTimers.map Prod.fst, w.Live sid
  keepAlives : ∀ res ∈ w.router.keepAlives, ∃ stream, get res w.streams = some stream ∧
    stream.finished = false ∧ stream.closed = false

/-- What every step out of it does. -/
structure Ends (opts : McpSessionRouterOptions) (w : World) (e : Event) (w' : World) : Prop where
  ground : ∀ sid, w.Live sid → ¬ w'.Live sid → Ground opts w sid e
  entered : ∀ req phase, get req w'.requests = some phase →
    get req w.requests = some phase ∨ Entered w req phase
  closed : ∀ closing, e = .closes closing → w'.router.sessions = [] ∧ w'.router.clients = [] ∧
    w'.router.reapTimers = [] ∧ w'.router.sweepTimer = false
  stopped : ∀ res throws, e = .keepAlive res throws → w.ended res = true →
    res ∉ w'.router.keepAlives

def calling : World where
  now := 0
  router := { sessions := [(7, { lastActivityAt := 0 })], sweepTimer := true }
  requests := [(0, .done), (1, .handed .post 7)]
  known := [7]
  takenUp := [(7, 0)]

/-- The reasons that are claimed: a session that is not closed by anyone has no open standby stream,
    no unanswered request, and has been silent for the grace period or the idle timeout. -/
inductive Claimed (opts : McpSessionRouterOptions) (w : World) (sid : SessionId) : Event → Prop
  | deleted {req : RequestId} (closing : Closing)
      (hreq : get req w.requests = some (.handed .delete sid)) :
      Claimed opts w sid (.sessionClosed req closing)
  | closed (closing : SessionId → Closing) : Claimed opts w sid (.closes closing)
  | failed {req : RequestId} (closing : Closing)
      (hreq : get req w.requests = some (.creating (some sid))) :
      Claimed opts w sid (.initFailed req closing)
  | silent (e : Event)
      (hstandby : ∀ res stream, get res w.streams = some stream → stream.sessionId = sid →
        stream.ended = true)
      (hread : ∀ req header, get req w.requests ≠ some (.reading header (some sid)))
      (hanswered : ∀ req, get req w.requests ≠ some (.handed .post sid))
      (hpassed : (∃ taken, get sid w.takenUp = some taken ∧
          opts.idleTimeoutMs < w.now - taken) ∨
        ∃ lost, get sid w.standbyLost = some lost ∧ lost + opts.sessionGraceMs ≤ w.now) :
      Claimed opts w sid e

end World

end Tapsmith.Mcp
