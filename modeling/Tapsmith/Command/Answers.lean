import Tapsmith.Command.Serial

namespace Tapsmith.Command.Connection

/-!
# Answers never cross

The calls of the daemon over all of their connections: at most one connection is open, the one in
the cache or the one a call has taken out of it, and on the one in the cache every request was
answered.

* `TableInv`, `SysInv` — the invariant of the connections, and of the call that has them;
* `SysInv.step` — every action keeps it;
* `answers_never_cross` — what a call returns is the answer to what it sent, and what it gives up is
  cancelled.
-/

variable {C R : Type} {s s' : System C R} {o : Option ℕ} {c : ℕ}

/-! ### Connections -/

/-- The connection whose stream the daemon holds. -/
def System.stream (s : System C R) : Option ℕ :=
  s.cache.or (s.active.bind fun call => System.CallPhase.stream call.phase)

/-- A call returned the answer to a request of its own, to a copy of its command. -/
def Returned.Own (s : System C R) (r : Returned C R) : Prop :=
  r.answer.request.call = r.call ∧ r.answer.request.command = r.command ∧
    ∃ c, r.answer.request ∈ (s.conns c).sent ∧ r.answer ∈ (s.conns c).written

/-- The connections, when only `o` of them is open. -/
structure TableInv (s : System C R) (o : Option ℕ) : Prop where
  conn : ∀ c, ConnInv (s.conns c)
  fresh : ∀ c, s.nextConn ≤ c → s.conns c = {}
  opened : ∀ c, (s.conns c).opened = true ↔ o = some c
  returned : ∀ r ∈ s.returned, r.Own s

theorem TableInv.lt (h : TableInv s (some c)) : c < s.nextConn := by
  rcases Nat.lt_or_ge c s.nextConn with hlt | hge
  · exact hlt
  · have hopened := (h.opened c).mpr rfl
    rw [h.fresh c hge] at hopened
    cases hopened

/-- One connection is replaced by a later state of it. -/
theorem TableInv.update {o' : Option ℕ} (h : TableInv s o) {conn : Conn C R} (hconn : ConnInv conn)
    (hc : c < s.nextConn) (hopened : ∀ c', (Function.update s.conns c conn c').opened = true ↔
      o' = some c')
    (hsent : (s.conns c).sent <+: conn.sent) (hwritten : (s.conns c).written <+: conn.written) :
    TableInv (s.update c conn) o' := by
  refine ⟨fun c' => ?_, fun c' hc' => ?_, hopened, fun r hr => ?_⟩
  · by_cases heq : c' = c
    · subst heq
      show ConnInv (Function.update s.conns c' conn c')
      rw [Function.update_self]
      exact hconn
    · show ConnInv (Function.update s.conns c conn c')
      rw [Function.update_of_ne heq]
      exact h.conn c'
  · have hne : c' ≠ c := by
      have : s.nextConn ≤ c' := hc'
      omega
    show Function.update s.conns c conn c' = {}
    rw [Function.update_of_ne hne]
    exact h.fresh c' hc'
  · obtain ⟨hcall, hcommand, d, hrequest, hanswer⟩ := h.returned r hr
    refine ⟨hcall, hcommand, d, ?_⟩
    by_cases heq : d = c
    · subst heq
      show _ ∈ (Function.update s.conns d conn d).sent ∧ _ ∈ (Function.update s.conns d conn d).written
      rw [Function.update_self]
      exact ⟨hsent.subset hrequest, hwritten.subset hanswer⟩
    · show _ ∈ (Function.update s.conns c conn d).sent ∧ _ ∈ (Function.update s.conns c conn d).written
      rw [Function.update_of_ne heq]
      exact ⟨hrequest, hanswer⟩

/-- A step of the agent or of the network does not change which connection is open. -/
theorem TableInv.same (h : TableInv s o) {conn : Conn C R} (hconn : ConnInv conn)
    (hc : c < s.nextConn) (hsame : SameStream (s.conns c) conn) : TableInv (s.update c conn) o := by
  refine h.update hconn hc (fun c' => ?_) (hsame.sent ▸ List.prefix_rfl) hsame.written
  by_cases heq : c' = c
  · subst heq
    rw [Function.update_self, hsame.opened]
    exact h.opened c'
  · rw [Function.update_of_ne heq]
    exact h.opened c'

theorem TableInv.drop (h : TableInv s (some c)) : TableInv (s.drop c) none := by
  refine h.update (h.conn c).close h.lt (fun c' => ?_) List.prefix_rfl List.prefix_rfl
  by_cases heq : c' = c
  · subst heq
    rw [Function.update_self]
    simp [Conn.close]
  · rw [Function.update_of_ne heq, h.opened c']
    exact ⟨fun h' => absurd (Option.some.inj h').symm heq, fun h' => absurd h' (by simp)⟩

theorem TableInv.send (h : TableInv s (some c)) (hidle : (s.conns c).Idle) (call : Call C)
    (whole : Bool) : TableInv (s.send c call whole) (some c) := by
  have hupdate : TableInv (s.update c ((s.conns c).send (s.request call) whole)) (some c) := by
    refine h.update ((h.conn c).send hidle _ _) h.lt (fun c' => ?_) (List.prefix_append _ _)
      List.prefix_rfl
    by_cases heq : c' = c
    · subst heq
      rw [Function.update_self]
      exact h.opened c'
    · rw [Function.update_of_ne heq]
      exact h.opened c'
  exact ⟨hupdate.conn, hupdate.fresh, hupdate.opened, hupdate.returned⟩

theorem send_conn (call : Call C) (whole : Bool) :
    (s.send c call whole).conns c = (s.conns c).send (s.request call) whole :=
  Function.update_self ..

/-! ### Calls -/

/-- The calls of a state in which a call may fail at any time. -/
structure Holding (s : System C R) : Prop where
  table : TableInv s s.stream
  calling : ∀ call ∈ s.active, call.phase ≠ .head → s.cache = none
  cached : ∀ c ∈ s.cache, (s.conns c).Idle

/-- **The invariant.**  Every request but the last one of the call was answered. -/
structure SysInv (s : System C R) : Prop extends Holding s where
  writing : ∀ call ∈ s.active, ∀ c, call.phase = .writing c → (s.conns c).Idle
  reading : ∀ call ∈ s.active, ∀ c request, call.phase = .reading c request →
    (s.conns c).sent = (s.conns c).got.map (·.request) ++ [request] ∧
      request.call = call.id ∧ request.command = call.command

theorem SysInv.init : SysInv ({} : System C R) := by
  refine ⟨⟨⟨fun c => .init, fun c _ => rfl, fun c => ?_, by simp⟩, by simp, by simp⟩, by simp,
    by simp⟩
  simp [System.stream]

/-- No call is at work: the lock of the cache is free. -/
theorem SysInv.idle (htable : TableInv s s.cache) (hactive : s.active = none)
    (hcached : ∀ c ∈ s.cache, (s.conns c).Idle) : SysInv s := by
  have hstream : s.stream = s.cache := by
    unfold System.stream
    rw [hactive, Option.bind_none, Option.or_none]
  refine ⟨⟨hstream ▸ htable, ?_, hcached⟩, ?_, ?_⟩
  all_goals
    rw [hactive]
    simp

/-- A call is at the head of its loop. -/
theorem SysInv.head {call : Call C} (htable : TableInv s s.cache) (hactive : s.active = some call)
    (hphase : call.phase = .head) (hcached : ∀ c ∈ s.cache, (s.conns c).Idle) : SysInv s := by
  have hstream : s.stream = s.cache := by
    unfold System.stream
    rw [hactive, Option.bind_some, hphase]
    exact Option.or_none
  refine ⟨⟨hstream ▸ htable, ?_, hcached⟩, ?_, ?_⟩
  all_goals
    rw [hactive]
    rintro call' hcall
    obtain rfl := Option.some.inj hcall
    rw [hphase]
    simp

/-- The connections of a call that has failed, with the stream it held. -/
theorem Holding.dropped (h : Holding s) {call : Call C} (hactive : s.active = some call) :
    TableInv (s.fail call) (s.fail call).cache ∧ (s.fail call).active = none ∧
      (∀ c ∈ (s.fail call).cache, ((s.fail call).conns c).Idle) ∧
      (∀ c, System.CallPhase.stream call.phase = some c → (s.fail call).cache = none) := by
  have hstream := h.table
  have hcall := h.calling call hactive
  unfold System.stream at hstream
  rw [hactive, Option.bind_some] at hstream
  unfold System.fail
  cases hphase : System.CallPhase.stream call.phase with
  | none =>
    rw [hphase, Option.or_none] at hstream
    exact ⟨⟨hstream.conn, hstream.fresh, hstream.opened, hstream.returned⟩, rfl, h.cached,
      by simp⟩
  | some c =>
    have hnone : s.cache = none := by
      refine hcall fun hhead => ?_
      rw [hhead] at hphase
      cases hphase
    rw [hphase, hnone, Option.none_or] at hstream
    have hdrop := hstream.drop
    refine ⟨⟨hdrop.conn, hdrop.fresh, ?_, hdrop.returned⟩, rfl, ?_, fun _ _ => hnone⟩
    · show ∀ c', _ ↔ s.cache = some c'
      rw [hnone]
      exact hdrop.opened
    · show ∀ c' ∈ s.cache, _
      rw [hnone]
      simp

theorem Holding.fail (h : Holding s) {call : Call C} (hactive : s.active = some call) :
    SysInv (s.fail call) := by
  obtain ⟨htable, hnone, hcached, -⟩ := h.dropped hactive
  exact .idle htable hnone hcached

theorem Holding.retryOrFail (h : Holding s) {call : Call C} (hactive : s.active = some call) :
    SysInv (s.retryOrFail call) := by
  unfold System.retryOrFail
  split
  · exact h.fail hactive
  · obtain ⟨htable, hnone, hcached, -⟩ := h.dropped hactive
    exact .head ⟨htable.conn, htable.fresh, htable.opened, htable.returned⟩ rfl rfl hcached

/-- The stream of a call that writes or reads. -/
theorem Holding.table_of (h : Holding s) {call : Call C} (hactive : s.active = some call)
    (hstream : System.CallPhase.stream call.phase = some c) :
    TableInv s (some c) ∧ s.cache = none := by
  have hnone : s.cache = none := by
    refine h.calling call hactive fun hhead => ?_
    rw [hhead] at hstream
    cases hstream
  have htable := h.table
  unfold System.stream at htable
  rw [hactive, Option.bind_some, hnone, hstream, Option.none_or] at htable
  exact ⟨htable, hnone⟩

/-- The call holds `c`, and the cache is empty. -/
theorem Holding.of_table (call : Call C) (htable : TableInv s (some c)) (hnone : s.cache = none)
    (hactive : s.active = some call) (hstream : System.CallPhase.stream call.phase = some c) :
    Holding s := by
  have heq : s.stream = some c := by
    unfold System.stream
    rw [hactive, Option.bind_some, hnone, hstream, Option.none_or]
  refine ⟨heq ▸ htable, fun _ _ _ => hnone, ?_⟩
  rw [hnone]
  simp

theorem SysInv.send (h : SysInv s) {call : Call C} (hactive : s.active = some call)
    (hphase : call.phase = .writing c) (whole : Bool) :
    Holding (s.send c call whole) ∧ TableInv (s.send c call whole) (some c) := by
  obtain ⟨htable, hnone⟩ := h.table_of hactive (congrArg System.CallPhase.stream hphase)
  have hsend := htable.send (h.writing call hactive c hphase) call whole
  exact ⟨.of_table call hsend hnone hactive (congrArg System.CallPhase.stream hphase), hsend⟩

/-- A line of answer is read. -/
theorem SysInv.readLine (h : SysInv s) {call : Call C} {request : Request C}
    (hactive : s.active = some call) (hphase : call.phase = .reading c request)
    (hread : readLine s call c request = some s') : SysInv s' := by
  obtain ⟨htable, hnone⟩ := h.table_of hactive (congrArg System.CallPhase.stream hphase)
  obtain ⟨hsent, hcall, hcommand⟩ := h.reading call hactive c request hphase
  unfold Connection.readLine at hread
  obtain ⟨⟨answer, conn⟩, htake, hrest⟩ := Option.map_eq_some_iff.mp hread
  obtain ⟨hconn, hanswer, hidle, hsame, hopened, hmem, hwritten⟩ := (htable.conn c).take hsent htake
  have hupdate : TableInv (s.update c conn) (some c) := by
    refine htable.update hconn htable.lt (fun c' => ?_) (hsame ▸ List.prefix_rfl)
      (hwritten ▸ List.prefix_rfl)
    by_cases heq : c' = c
    · subst heq
      rw [Function.update_self, hopened]
      exact htable.opened c'
    · rw [Function.update_of_ne heq]
      exact htable.opened c'
  have hself : (s.update c conn).conns c = conn := Function.update_self ..
  dsimp only at hrest
  split at hrest
  · subst hrest
    refine .idle ⟨hupdate.conn, hupdate.fresh, hupdate.opened, fun r hr => ?_⟩ rfl ?_
    · rcases List.mem_append.mp hr with hr | hr
      · exact hupdate.returned r hr
      · obtain rfl := List.mem_singleton.mp hr
        refine ⟨hanswer ▸ hcall, hanswer ▸ hcommand, c, ?_, ?_⟩
        · show answer.request ∈ ((s.update c conn).conns c).sent
          rw [hself, hsame, hsent, hanswer]
          exact List.mem_append_right _ (List.mem_singleton.mpr rfl)
        · show answer ∈ ((s.update c conn).conns c).written
          rw [hself, hwritten]
          exact hmem
    · rintro c' hc'
      obtain rfl := Option.some.inj hc'
      show Conn.Idle ((s.update c conn).conns c)
      rw [hself]
      exact hidle
  · subst hrest
    exact Holding.fail (.of_table call hupdate hnone hactive
      (congrArg System.CallPhase.stream hphase)) hactive

/-! ### Steps -/

/-- A connection that a call has opened. -/
theorem SysInv.connected (h : SysInv s) {call : Call C} (hactive : s.active = some call)
    (hphase : call.phase = .connecting) :
    SysInv { s.update s.nextConn { opened := true } with
      nextConn := s.nextConn + 1
      active := some { call with phase := .writing s.nextConn } } := by
  have hnone : s.cache = none := h.calling call hactive (by rw [hphase]; simp)
  have htable := h.table
  unfold System.stream at htable
  rw [hactive, Option.bind_some, hnone, hphase] at htable
  have hnew : ConnInv ({ opened := true } : Conn C R) := by
    constructor <;> simp [Conn.pending, Serve.isEnded]
  have hfresh := htable.fresh s.nextConn (Nat.le_refl _)
  have hconns : ∀ c, (Function.update s.conns s.nextConn ({ opened := true } : Conn C R) c).opened =
      true ↔ some s.nextConn = some c := by
    intro c
    by_cases heq : c = s.nextConn
    · subst heq
      rw [Function.update_self]
      exact ⟨fun _ => rfl, fun _ => rfl⟩
    · rw [Function.update_of_ne heq, htable.opened c]
      exact ⟨fun h' => absurd h' (by simp [System.CallPhase.stream]),
        fun h' => absurd (Option.some.inj h').symm heq⟩
  have hinv : ∀ c, ConnInv (Function.update s.conns s.nextConn ({ opened := true } : Conn C R) c) := by
    intro c
    by_cases heq : c = s.nextConn
    · subst heq
      rw [Function.update_self]
      exact hnew
    · rw [Function.update_of_ne heq]
      exact htable.conn c
  have hupdate : TableInv { s.update s.nextConn ({ opened := true } : Conn C R) with
      nextConn := s.nextConn + 1
      active := some { call with phase := .writing s.nextConn } } (some s.nextConn) := by
    refine ⟨hinv, fun c hc => ?_, hconns, fun r hr => ?_⟩
    · have hlt : s.nextConn + 1 ≤ c := hc
      show Function.update s.conns s.nextConn ({ opened := true } : Conn C R) c = {}
      rw [Function.update_of_ne (by omega)]
      exact htable.fresh c (by omega)
    · obtain ⟨hcall, hcommand, d, hrequest, hanswer⟩ := htable.returned r hr
      have hne : d ≠ s.nextConn := by
        rintro rfl
        rw [hfresh] at hrequest
        exact absurd hrequest List.not_mem_nil
      refine ⟨hcall, hcommand, d, ?_⟩
      show _ ∈ (Function.update s.conns s.nextConn ({ opened := true } : Conn C R) d).sent ∧
        _ ∈ (Function.update s.conns s.nextConn ({ opened := true } : Conn C R) d).written
      rw [Function.update_of_ne hne]
      exact ⟨hrequest, hanswer⟩
  refine ⟨.of_table { call with phase := .writing s.nextConn } hupdate hnone rfl rfl, ?_, ?_⟩
  · intro call' hcall c hc
    obtain rfl := Option.some.inj hcall
    obtain rfl := CallPhase.writing.inj hc
    show Conn.Idle (Function.update s.conns s.nextConn ({ opened := true } : Conn C R) s.nextConn)
    rw [Function.update_self]
    rfl
  · intro call' hcall c request hc
    obtain rfl := Option.some.inj hcall
    cases hc

theorem SysInv.dropCached (h : SysInv s) (hactive : s.active = none) :
    SysInv s.dropCached ∧ s.dropCached.active = none ∧ s.dropCached.cache = none := by
  have htable := h.table
  unfold System.stream at htable
  rw [hactive, Option.bind_none, Option.or_none] at htable
  unfold System.dropCached
  cases hcache : s.cache with
  | none => exact ⟨h, hactive, hcache⟩
  | some c =>
    rw [hcache] at htable
    have hdrop := htable.drop
    exact ⟨.idle ⟨hdrop.conn, hdrop.fresh, hdrop.opened, hdrop.returned⟩ hactive (by simp), hactive,
      rfl⟩

theorem SysInv.callStep (h : SysInv s) {call : Call C} (hactive : s.active = some call)
    {action : DaemonAction C} (hstep : callStep s call action = some s') : SysInv s' := by
  unfold Connection.callStep at hstep
  split at hstep
  · -- the stream is taken out of the cache, or a new one is asked for
    split at hstep
    · rename_i hphase
      obtain rfl := Option.some.inj hstep
      have htable := h.table
      unfold System.stream at htable
      rw [hactive, Option.bind_some, hphase] at htable
      cases hcache : s.cache with
      | none =>
        rw [hcache] at htable
        refine ⟨⟨⟨htable.conn, htable.fresh, htable.opened, htable.returned⟩, fun _ _ _ => rfl,
          by simp⟩, ?_, ?_⟩
        all_goals
          rintro call' hcall c
          obtain rfl := Option.some.inj hcall
          simp
      | some c =>
        rw [hcache] at htable
        have hidle := h.cached c hcache
        refine ⟨.of_table { call with phase := .writing c }
          ⟨htable.conn, htable.fresh, htable.opened, htable.returned⟩ rfl rfl rfl, ?_, ?_⟩
        · intro call' hcall c' hc'
          obtain rfl := Option.some.inj hcall
          obtain rfl := CallPhase.writing.inj hc'
          exact hidle
        · intro call' hcall c' request hc'
          obtain rfl := Option.some.inj hcall
          cases hc'
    · cases hstep
  · split at hstep
    · rename_i hphase
      obtain rfl := Option.some.inj hstep
      exact h.connected hactive hphase
    · cases hstep
  · split at hstep
    · obtain rfl := Option.some.inj hstep
      exact h.toHolding.retryOrFail hactive
    · cases hstep
  · -- the command is sent
    split at hstep
    · rename_i c hphase
      obtain rfl := Option.some.inj hstep
      obtain ⟨htable, hnone⟩ := h.table_of hactive (congrArg System.CallPhase.stream hphase)
      obtain ⟨-, hsend⟩ := h.send hactive hphase true
      refine ⟨.of_table { call with phase := .reading c (s.request call) }
        ⟨hsend.conn, hsend.fresh, hsend.opened, hsend.returned⟩ hnone rfl rfl, ?_, ?_⟩
      · intro call' hcall c' hc'
        obtain rfl := Option.some.inj hcall
        cases hc'
      · intro call' hcall c' request hc'
        obtain rfl := Option.some.inj hcall
        obtain ⟨rfl, rfl⟩ := CallPhase.reading.inj hc'
        refine ⟨?_, rfl, rfl⟩
        show ((s.send c call true).conns c).sent = ((s.send c call true).conns c).got.map _ ++ _
        rw [send_conn]
        show (s.conns c).sent ++ _ = (s.conns c).got.map _ ++ _
        rw [((htable.conn c).idle (h.writing call hactive c hphase)).2.2.1]
    · cases hstep
  · rename_i sent
    split at hstep
    · rename_i c hphase
      obtain rfl := Option.some.inj hstep
      cases sent with
      | none => exact h.toHolding.retryOrFail hactive
      | some whole => exact (h.send hactive hphase whole).1.retryOrFail hactive
    · cases hstep
  · split at hstep
    · rename_i c hphase
      obtain rfl := Option.some.inj hstep
      exact (h.send hactive hphase true).1.fail hactive
    · cases hstep
  · split at hstep
    · rename_i c request hphase
      exact h.readLine hactive hphase hstep
    · cases hstep
  · split at hstep
    · obtain rfl := Option.some.inj hstep
      exact h.toHolding.fail hactive
    · cases hstep
  · -- the connection is gone: is the agent still there?
    split at hstep
    · rename_i c request hphase
      split at hstep
      · obtain rfl := Option.some.inj hstep
        obtain ⟨htable, hnone⟩ := h.table_of hactive (congrArg System.CallPhase.stream hphase)
        refine ⟨.of_table { call with phase := .probing c }
          ⟨htable.conn, htable.fresh, htable.opened, htable.returned⟩ hnone rfl rfl, ?_, ?_⟩
        all_goals
          rintro call' hcall c
          obtain rfl := Option.some.inj hcall
          simp
      · cases hstep
    · cases hstep
  · split at hstep
    · obtain rfl := Option.some.inj hstep
      split
      · exact h.toHolding.retryOrFail hactive
      · exact h.toHolding.fail hactive
    · cases hstep
  · rename_i sent
    split at hstep
    · rename_i c hphase
      obtain rfl := Option.some.inj hstep
      cases sent with
      | none => exact h.toHolding.fail hactive
      | some whole => exact (h.send hactive hphase whole).1.fail hactive
    · obtain rfl := Option.some.inj hstep
      exact h.toHolding.fail hactive
  · cases hstep
  · cases hstep

theorem SysInv.daemonStep (h : SysInv s) {action : DaemonAction C}
    (hstep : daemonStep s action = some s') : SysInv s' := by
  unfold Connection.daemonStep at hstep
  split at hstep
  · rename_i call hactive
    exact h.callStep hactive hstep
  · rename_i hactive
    have hdropped := h.dropCached hactive
    split at hstep
    · rename_i command portChanged
      obtain rfl := Option.some.inj hstep
      have hbegin : ∀ t : System C R, SysInv t → t.active = none →
          SysInv { t with
            active := some { id := t.nextCall, command }, nextCall := t.nextCall + 1 } := by
        intro t ht hnone
        have htable := ht.table
        unfold System.stream at htable
        rw [hnone, Option.bind_none, Option.or_none] at htable
        exact .head ⟨htable.conn, htable.fresh, htable.opened, htable.returned⟩ rfl rfl ht.cached
      split
      · exact hbegin _ hdropped.1 hdropped.2.1
      · exact hbegin _ h hactive
    · obtain rfl := Option.some.inj hstep
      exact hdropped.1
    · cases hstep

theorem SysInv.step (h : SysInv s) {action : Action C R} (hstep : step s action = some s') :
    SysInv s' := by
  have hsame : ∀ c conn, c < s.nextConn → ConnInv conn → SameStream (s.conns c) conn →
      SysInv (s.update c conn) := by
    intro c conn hc hconn hsame
    have hconns : ∀ c', ((s.update c conn).conns c').sent = (s.conns c').sent ∧
        ((s.update c conn).conns c').got = (s.conns c').got := by
      intro c'
      by_cases heq : c' = c
      · subst heq
        have hself : (s.update c' conn).conns c' = conn := Function.update_self ..
        rw [hself]
        exact ⟨hsame.sent, hsame.got⟩
      · have hother : (s.update c conn).conns c' = s.conns c' := Function.update_of_ne heq ..
        rw [hother]
        exact ⟨rfl, rfl⟩
    have hidle : ∀ c', (s.conns c').Idle → ((s.update c conn).conns c').Idle := by
      intro c' h'
      unfold Conn.Idle
      rw [(hconns c').1, (hconns c').2]
      exact h'
    refine ⟨⟨h.table.same hconn hc hsame, h.calling, fun c' hc' => hidle c' (h.cached c' hc')⟩,
      fun call hcall c' hc' => hidle c' (h.writing call hcall c' hc'),
      fun call hcall c' request hc' => ?_⟩
    rw [(hconns c').1, (hconns c').2]
    exact h.reading call hcall c' request hc'
  unfold Connection.step at hstep
  split at hstep
  · exact h.daemonStep hstep
  · split at hstep
    · rename_i c action hc
      obtain ⟨conn, hconn, rfl⟩ := Option.map_eq_some_iff.mp hstep
      obtain ⟨hinv, hs⟩ := (h.table.conn c).agentStep hconn
      exact hsame c conn hc hinv hs
    · cases hstep
  · split at hstep
    · rename_i c action hc
      obtain ⟨conn, hconn, rfl⟩ := Option.map_eq_some_iff.mp hstep
      obtain ⟨hinv, hs⟩ := (h.table.conn c).networkStep hconn
      exact hsame c conn hc hinv hs
    · cases hstep

theorem Reachable.inv (h : Reachable s) : SysInv s := by
  obtain ⟨actions, hrun⟩ := h
  exact hrun.invariant (fun s a s' hs hstep => SysInv.step hs hstep) .init

/-! ### Connections that the daemon has closed -/

/-- A step that leaves a connection as it is. -/
structure Untouched (c : ℕ) (s s' : System C R) : Prop where
  conn : s'.conns c = s.conns c
  nextConn : s.nextConn ≤ s'.nextConn

theorem Untouched.rfl : Untouched c s s := ⟨Eq.refl _, Nat.le_refl _⟩

theorem Untouched.trans {t : System C R} (h : Untouched c s s') (h' : Untouched c s' t) :
    Untouched c s t := ⟨h'.conn.trans h.conn, Nat.le_trans h.nextConn h'.nextConn⟩

theorem untouched_update {c' : ℕ} (hne : c ≠ c') (conn : Conn C R) :
    Untouched c s (s.update c' conn) := ⟨Function.update_of_ne hne .., Nat.le_refl _⟩

theorem untouched_send {c' : ℕ} (hne : c ≠ c') (call : Call C) (whole : Bool) :
    Untouched c s (s.send c' call whole) := ⟨Function.update_of_ne hne .., Nat.le_refl _⟩

theorem untouched_fail {call : Call C} (hne : System.CallPhase.stream call.phase ≠ some c) :
    Untouched c s (s.fail call) := by
  unfold System.fail
  cases hstream : System.CallPhase.stream call.phase with
  | none => exact ⟨Eq.refl _, Nat.le_refl _⟩
  | some c' =>
    have hother : c ≠ c' := fun heq => hne (heq ▸ hstream)
    exact ⟨(untouched_update hother _).conn, Nat.le_refl _⟩

theorem untouched_retryOrFail {call : Call C}
    (hne : System.CallPhase.stream call.phase ≠ some c) : Untouched c s (s.retryOrFail call) := by
  have hfail := untouched_fail (s := s) hne
  unfold System.retryOrFail
  split
  · exact hfail
  · exact ⟨hfail.conn, hfail.nextConn⟩

/-- A connection that the daemon has closed is of no concern to its calls. -/
theorem SysInv.callStep_closed (h : SysInv s) (hc : c < s.nextConn)
    (hclosed : (s.conns c).opened = false) {call : Call C} (hactive : s.active = some call)
    {action : DaemonAction C} (hstep : Connection.callStep s call action = some s') :
    Untouched c s s' := by
  have hne : System.CallPhase.stream call.phase ≠ some c := by
    intro hstream
    have hopened := ((h.table_of hactive hstream).1.opened c).mpr rfl
    rw [hclosed] at hopened
    cases hopened
  have hwriting : ∀ c', call.phase = .writing c' → c ≠ c' := by
    rintro c' hphase rfl
    rw [hphase] at hne
    exact hne rfl
  unfold Connection.callStep at hstep
  split at hstep
  · split at hstep
    · obtain rfl := Option.some.inj hstep
      exact ⟨rfl, Nat.le_refl _⟩
    · cases hstep
  · split at hstep
    · obtain rfl := Option.some.inj hstep
      exact ⟨Function.update_of_ne (Nat.ne_of_lt hc) .., Nat.le_succ _⟩
    · cases hstep
  · split at hstep
    · obtain rfl := Option.some.inj hstep
      exact untouched_retryOrFail hne
    · cases hstep
  · split at hstep
    · rename_i c' hphase
      obtain rfl := Option.some.inj hstep
      exact ⟨(untouched_send (hwriting c' hphase) call true).conn, Nat.le_refl _⟩
    · cases hstep
  · rename_i sent
    split at hstep
    · rename_i c' hphase
      obtain rfl := Option.some.inj hstep
      cases sent with
      | none => exact untouched_retryOrFail hne
      | some whole =>
        exact (untouched_send (hwriting c' hphase) call whole).trans (untouched_retryOrFail hne)
    · cases hstep
  · split at hstep
    · rename_i c' hphase
      obtain rfl := Option.some.inj hstep
      exact (untouched_send (hwriting c' hphase) call true).trans (untouched_fail hne)
    · cases hstep
  · split at hstep
    · rename_i c' request hphase
      have hother : c ≠ c' := by
        rintro rfl
        rw [hphase] at hne
        exact hne rfl
      unfold Connection.readLine at hstep
      obtain ⟨⟨answer, conn⟩, -, hrest⟩ := Option.map_eq_some_iff.mp hstep
      have hupdate : Untouched c s (s.update c' conn) := untouched_update hother conn
      dsimp only at hrest
      split at hrest
      · subst hrest
        exact ⟨hupdate.conn, hupdate.nextConn⟩
      · subst hrest
        exact hupdate.trans (untouched_fail hne)
    · cases hstep
  · split at hstep
    · obtain rfl := Option.some.inj hstep
      exact untouched_fail hne
    · cases hstep
  · split at hstep
    · split at hstep
      · obtain rfl := Option.some.inj hstep
        exact ⟨rfl, Nat.le_refl _⟩
      · cases hstep
    · cases hstep
  · split at hstep
    · obtain rfl := Option.some.inj hstep
      split
      · exact untouched_retryOrFail hne
      · exact untouched_fail hne
    · cases hstep
  · rename_i sent
    split at hstep
    · rename_i c' hphase
      obtain rfl := Option.some.inj hstep
      cases sent with
      | none => exact untouched_fail hne
      | some whole =>
        exact (untouched_send (hwriting c' hphase) call whole).trans (untouched_fail hne)
    · obtain rfl := Option.some.inj hstep
      exact untouched_fail hne
  · cases hstep
  · cases hstep

theorem SysInv.daemonStep_closed (h : SysInv s) (hc : c < s.nextConn)
    (hclosed : (s.conns c).opened = false) {action : DaemonAction C}
    (hstep : Connection.daemonStep s action = some s') : Untouched c s s' := by
  unfold Connection.daemonStep at hstep
  split at hstep
  · rename_i call hactive
    exact h.callStep_closed hc hclosed hactive hstep
  · rename_i hactive
    have hdrop : Untouched c s s.dropCached := by
      have htable := h.table
      unfold System.stream at htable
      rw [hactive, Option.bind_none, Option.or_none] at htable
      unfold System.dropCached
      cases hcache : s.cache with
      | none => exact .rfl
      | some c' =>
        have hother : c ≠ c' := by
          intro heq
          have hopened := (htable.opened c).mpr (heq ▸ hcache)
          rw [hclosed] at hopened
          cases hopened
        exact ⟨(untouched_update hother _).conn, Nat.le_refl _⟩
    split at hstep
    · obtain rfl := Option.some.inj hstep
      split
      · exact ⟨hdrop.conn, hdrop.nextConn⟩
      · exact ⟨rfl, Nat.le_refl _⟩
    · obtain rfl := Option.some.inj hstep
      exact hdrop
    · cases hstep

/-- Nothing is read from a connection after it was closed, and no step adds to what the agent has
    left to do there. -/
theorem SysInv.step_closed (h : SysInv s) (hc : c < s.nextConn)
    (hclosed : (s.conns c).opened = false) {action : Action C R}
    (hstep : Connection.step s action = some s') :
    c < s'.nextConn ∧ (s'.conns c).opened = false ∧ (s'.conns c).got = (s.conns c).got ∧
      rank (s'.conns c) ≤ rank (s.conns c) ∧
      ∀ agentAction : AgentAction R, action = .agent c agentAction → agentAction.Serving →
        (s.conns c).serve.isEnded = false → rank (s'.conns c) < rank (s.conns c) := by
  have hupdate : ∀ c' conn, SameStream (s.conns c') conn →
      (c = c' → rank conn ≤ rank (s.conns c)) →
      c < (s.update c' conn).nextConn ∧ ((s.update c' conn).conns c).opened = false ∧
        ((s.update c' conn).conns c).got = (s.conns c).got ∧
        rank ((s.update c' conn).conns c) ≤ rank (s.conns c) := by
    intro c' conn hsame hrank
    by_cases heq : c = c'
    · subst heq
      have hself : (s.update c conn).conns c = conn := Function.update_self ..
      rw [hself]
      exact ⟨hc, hsame.opened.trans hclosed, hsame.got, hrank rfl⟩
    · have hother := (untouched_update (s := s) heq conn).conn
      rw [hother]
      exact ⟨hc, hclosed, rfl, Nat.le_refl _⟩
  unfold Connection.step at hstep
  split at hstep
  · have hsame := h.daemonStep_closed hc hclosed hstep
    rw [hsame.conn]
    exact ⟨Nat.lt_of_lt_of_le hc hsame.nextConn, hclosed, rfl, Nat.le_refl _,
      fun agentAction heq => by cases heq⟩
  · split at hstep
    · rename_i c' action hc'
      obtain ⟨conn, hconn, rfl⟩ := Option.map_eq_some_iff.mp hstep
      obtain ⟨-, hsame⟩ := (h.table.conn c').agentStep hconn
      obtain ⟨hle, hlt⟩ := (h.table.conn c').agentStep_rank hconn
      obtain ⟨hnext, hopened, hgot, hrank⟩ := hupdate c' conn hsame fun heq => heq ▸ hle
      refine ⟨hnext, hopened, hgot, hrank, fun agentAction heq hserving hserve => ?_⟩
      obtain ⟨rfl, rfl⟩ := Action.agent.inj heq
      have hself : (s.update c' conn).conns c' = conn := Function.update_self ..
      rw [hself]
      exact hlt hserving hserve
    · cases hstep
  · split at hstep
    · rename_i c' action hc'
      obtain ⟨conn, hconn, rfl⟩ := Option.map_eq_some_iff.mp hstep
      obtain ⟨-, hsame⟩ := (h.table.conn c').networkStep hconn
      have hle := networkStep_rank hconn
      obtain ⟨hnext, hopened, hgot, hrank⟩ := hupdate c' conn hsame fun heq => heq ▸ hle
      exact ⟨hnext, hopened, hgot, hrank, fun agentAction heq => by cases heq⟩
    · cases hstep

theorem SysInv.run_closed (h : SysInv s) (hc : c < s.nextConn)
    (hclosed : (s.conns c).opened = false) {actions : List (Action C R)}
    (hrun : Lib.Machine.Run (fun s a s' => Connection.step s a = some s') s actions s') :
    (s'.conns c).opened = false ∧ (s'.conns c).got = (s.conns c).got := by
  have hall := hrun.invariant
    (fun t a t' (ht : SysInv t ∧ c < t.nextConn ∧ (t.conns c).opened = false ∧
      (t.conns c).got = (s.conns c).got) hstep => by
        obtain ⟨hnext, hopened, hgot, -⟩ := ht.1.step_closed ht.2.1 ht.2.2.1 hstep
        exact ⟨ht.1.step hstep, hnext, hopened, hgot.trans ht.2.2.2⟩) ⟨h, hc, hclosed, rfl⟩
  exact hall.2.2

/-! ### The promise -/

/-- A connection that the daemon has closed: nothing of it is read any more, and the agent's reading
    thread, which no running command holds up, comes to its end, where no token is left that is not
    cancelled but those of commands that are over. -/
structure Abandoned (s : System C R) (c : ℕ) : Prop where
  unread : ∀ (actions : List (Action C R)) (s' : System C R),
    Lib.Machine.Run (fun s a s' => step s a = some s') s actions s' →
      (s'.conns c).opened = false ∧ (s'.conns c).got = (s.conns c).got
  progress : (s.conns c).serve.isEnded = false →
    ∃ action : AgentAction R, action.Serving ∧ (step s (.agent c action)).isSome
  nearer : ∀ (action : Action C R) (s' : System C R), step s action = some s' →
    rank (s'.conns c) ≤ rank (s.conns c) ∧
      ∀ agentAction : AgentAction R, action = .agent c agentAction → agentAction.Serving →
        (s.conns c).serve.isEnded = false → rank (s'.conns c) < rank (s.conns c)
  cancelled : (s.conns c).serve.isEnded = true →
    ∀ run ∈ (s.conns c).runs, run.cancelled = true ∨ run.phase = .returned

/-- What is promised of all connections and calls of a state. -/
structure NeverCross (s : System C R) : Prop where
  own : ∀ r ∈ s.returned, r.Own s
  serial : ∀ c, ∀ run ∈ (s.conns c).runs.dropLast, run.phase = .returned
  inOrder : ∀ c, (s.conns c).runs.map (·.line.request) <+: (s.conns c).sent ∧
    (s.conns c).written.map (·.request) =
      ((s.conns c).runs.filter (·.wrote)).map (·.line.request)
  answered : ∀ c, ∀ run ∈ (s.conns c).runs, run.phase = .returned →
    run.wrote = true ∨ (run.cancelled = true ∧ (s.conns c).serve.isEnded = true)
  givenUp : ∀ c, (s.conns c).got.length < (s.conns c).sent.length →
    (s.conns c).opened = false ∨
      ∃ call ∈ s.active, (∃ request, call.phase = .reading c request) ∨ call.phase = .probing c
  abandoned : ∀ c < s.nextConn, (s.conns c).opened = false → Abandoned s c

/-- In every order of the actions of daemon, agent and network, answers do not cross, and commands
    that are given up are cancelled. -/
theorem answers_never_cross (actions : List (Action C R)) (s : System C R)
    (hrun : Lib.Machine.Run (fun s a s' => step s a = some s') {} actions s) : NeverCross s := by
  have h : SysInv s := Reachable.inv ⟨actions, hrun⟩
  refine ⟨h.table.returned, fun c => (h.table.conn c).serial, fun c => ⟨?_, (h.table.conn c).answers⟩,
    fun c run hr hreturned => ?_, fun c hlt => ?_, fun c hc hclosed => ?_⟩
  · exact (List.prefix_append _ _).trans (h.table.conn c).lines
  · have hinv := h.table.conn c
    rcases (hinv.run run hr).dropped hreturned with hw | hcancel
    · exact .inl hw
    · exact .inr ⟨hcancel, hinv.cancelled run hr hcancel⟩
  · cases hopened : (s.conns c).opened with
    | false => exact .inl rfl
    | true =>
      right
      have hidle : ¬(s.conns c).Idle := by
        unfold Conn.Idle
        omega
      have hstream := (h.table.opened c).mp hopened
      unfold System.stream at hstream
      cases hcache : s.cache with
      | some c' =>
        rw [hcache, Option.some_or] at hstream
        obtain rfl := Option.some.inj hstream
        exact absurd (h.cached c' hcache) hidle
      | none =>
        rw [hcache, Option.none_or, Option.bind_eq_some_iff] at hstream
        obtain ⟨call, hcall, hstream⟩ := hstream
        refine ⟨call, hcall, ?_⟩
        cases hphase : call.phase with
        | head =>
          rw [hphase] at hstream
          cases hstream
        | connecting =>
          rw [hphase] at hstream
          cases hstream
        | writing c' =>
          rw [hphase] at hstream
          obtain rfl := Option.some.inj hstream
          exact absurd (h.writing call hcall c' hphase) hidle
        | reading c' request =>
          rw [hphase] at hstream
          obtain rfl := Option.some.inj hstream
          exact .inl ⟨request, rfl⟩
        | probing c' =>
          rw [hphase] at hstream
          obtain rfl := Option.some.inj hstream
          exact .inr rfl
  · refine ⟨fun actions s' => h.run_closed hc hclosed, fun hserve => ?_, fun action s' hstep => ?_,
      (h.table.conn c).ended⟩
    · obtain ⟨action, hserving, hsome⟩ := (h.table.conn c).progress hclosed hserve
      refine ⟨action, hserving, ?_⟩
      unfold step
      dsimp only
      rw [if_pos hc, Option.isSome_map]
      exact hsome
    · exact (h.step_closed hc hclosed hstep).2.2.2

/-- A command that is answered, and one that the daemon gives up while it runs. -/
theorem answers_never_cross_givenUp :
    ∃ s : System String String, s.returned.length = 1 ∧ s.cache = none ∧
      (s.conns 0).opened = false ∧ NeverCross s :=
  ⟨_, rfl, rfl, rfl, answers_never_cross
    [.daemon (.begin "tap" false), .daemon .takeStream, .daemon .connected, .daemon .wrote,
      .agent 0 .recv, .agent 0 .start, .agent 0 (.finish 0 "tapped" true), .agent 0 (.check 0),
      .agent 0 (.write 0), .daemon .readLine, .agent 0 (.done 0), .daemon (.begin "find" false),
      .daemon .takeStream, .daemon .wrote, .agent 0 .recv, .agent 0 .start, .daemon .readFailed]
    _ (Lib.Machine.run_of_foldlM rfl)⟩

end Tapsmith.Command.Connection
