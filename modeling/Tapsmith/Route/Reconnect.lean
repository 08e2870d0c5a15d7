import Mathlib.Data.List.Nodup
import Tapsmith.Route.Registry

namespace Tapsmith.Route.Registry

open Lib.Channel Lib.Machine

/-!
# Routes survive a reconnect

What the daemon has on the open stream, once everything on its way is read, is what the manager
has: nothing is lost, doubled or brought out of order by a stream that drops and is opened again.

* `expected` — the routes the daemon should end up with;
* `Stream.Inv` — what holds of each stream by itself, whether it is the open one or not;
* `World.Inv` — the invariant; its field `agrees` relates the two sides;
* `World.Inv.step` — every step keeps it;
* `routes_survive` — in every run the daemon comes to have the routes of the SDK, in their order.
-/

variable {crate : RegexCrate}

/-! ### What the daemon should have -/

/-- A route as the daemon has it, where its pattern compiles. -/
def RegisteredRouteInfo.compiled (crate : RegexCrate) (info : RegisteredRouteInfo) :
    Option RegisteredRoute :=
  (compile crate info.urlPattern).map fun isMatch => { routeId := info.routeId, isMatch }

/-- The routes of the SDK as the daemon should have them, without those being removed. -/
def expected (crate : RegexCrate) (routes : List RegisteredRouteInfo) (removing : List ℕ) :
    List RegisteredRoute :=
  routes.filterMap fun info => if info.routeId ∈ removing then none else info.compiled crate

section Expected

variable {routes : List RegisteredRouteInfo} {removing : List ℕ} {id : ℕ}

theorem routeId_of_compiled {info : RegisteredRouteInfo} {r : RegisteredRoute}
    (h : info.compiled crate = some r) : r.routeId = info.routeId := by
  obtain ⟨isMatch, -, rfl⟩ := Option.map_eq_some_iff.mp h
  rfl

theorem unregisterRoute_filterMap {f : RegisteredRouteInfo → Option RegisteredRoute}
    (hf : ∀ info r, f info = some r → r.routeId = info.routeId) :
    unregisterRoute (routes.filterMap f) id
      = routes.filterMap fun info => if info.routeId = id then none else f info := by
  rw [unregisterRoute, List.filter_filterMap]
  apply List.filterMap_congr
  intro info _
  cases hinfo : f info with
  | none => exact (ite_self _).symm
  | some r =>
    have hr : r.routeId = info.routeId := hf info r hinfo
    by_cases hid : info.routeId = id
    · rw [if_pos hid, Option.filter_some, if_neg]
      simp [hr, hid]
    · rw [if_neg hid, Option.filter_some, if_pos]
      simp [hr, hid]

theorem routeId_of_announced {info : RegisteredRouteInfo} {r : RegisteredRoute}
    (h : (if info.routeId ∈ removing then none else info.compiled crate) = some r) :
    r.routeId = info.routeId := by
  split at h
  · cases h
  · exact routeId_of_compiled h

/-- One more route that is to be removed. -/
theorem expected_removing : expected crate routes (removing ++ [id])
    = unregisterRoute (expected crate routes removing) id := by
  rw [expected, expected, unregisterRoute_filterMap fun _ _ => routeId_of_announced]
  congr 1
  funext info
  by_cases hid : info.routeId = id
  · simp [hid]
  · simp [hid]

theorem expected_delete : expected crate (routes.filter (·.routeId ≠ id)) removing
    = unregisterRoute (expected crate routes removing) id := by
  rw [expected, expected, unregisterRoute_filterMap fun _ _ => routeId_of_announced,
    List.filterMap_filter]
  congr 1
  funext info
  by_cases hid : info.routeId = id
  · simp [hid]
  · simp [hid]

/-- A route that the daemon has refused is deleted. -/
theorem expected_refused (h : ∀ info ∈ routes, info.routeId = id → info.compiled crate = none) :
    expected crate (routes.filter (·.routeId ≠ id)) removing = expected crate routes removing := by
  rw [expected, expected, List.filterMap_filter]
  apply List.filterMap_congr
  intro info hinfo
  by_cases hid : info.routeId = id
  · rw [h info hinfo hid, ite_self]
    simp [hid]
  · simp [hid]

/-- A route that was to be removed is deleted. -/
theorem expected_removed (h : id ∈ removing) :
    expected crate (routes.filter (·.routeId ≠ id)) (removing.filter (· ≠ id))
      = expected crate routes removing := by
  rw [expected, expected, List.filterMap_filter]
  congr 1
  funext info
  by_cases hid : info.routeId = id
  · simp [hid, h]
  · simp [hid]

/-- What else is noted about a route does not matter. -/
theorem expected_map {f : RegisteredRouteInfo → RegisteredRouteInfo}
    (hid : ∀ info, (f info).routeId = info.routeId)
    (hpattern : ∀ info, (f info).urlPattern = info.urlPattern) :
    expected crate (routes.map f) removing = expected crate routes removing := by
  rw [expected, expected, List.filterMap_map]
  congr 1
  funext info
  show (if (f info).routeId ∈ removing then none else (f info).compiled crate) = _
  rw [RegisteredRouteInfo.compiled, RegisteredRouteInfo.compiled, hid, hpattern]

/-- A new route comes last. -/
theorem expected_append {info : RegisteredRouteInfo} (h : info.routeId ∉ removing) :
    expected crate (routes ++ [info]) removing
      = (registerRoute crate (expected crate routes removing) info.routeId info.urlPattern).1 := by
  rw [expected, List.filterMap_append, registerRoute, List.filterMap_cons, if_neg h,
    RegisteredRouteInfo.compiled]
  cases compile crate info.urlPattern with
  | none => exact List.append_nil _
  | some isMatch => rfl

end Expected

/-! ### One stream -/

/-- The route a message is about. -/
inductive ClientMessage.Names (id : ℕ) : ClientMessage → Prop
  | register (urlPattern : List Char) : Names id (.registerRoute id urlPattern)
  | unregister : Names id (.unregisterRoute id)

/-- The route an answer is about. -/
inductive ServerMessage.Names (id : ℕ) : ServerMessage → Prop
  | registered (success : Bool) : Names id (.registerRouteResponse id success)
  | unregistered : Names id (.unregisterRouteResponse id)

/-- The handler has no such route, and will get none by what is on its way. -/
def Stream.Without (id : ℕ) (stream : Stream) : Prop :=
  (∀ r ∈ stream.link.copy, r.routeId ≠ id) ∧
    ∀ urlPattern, .registerRoute id urlPattern ∉ stream.link.queue

namespace Stream.Without

variable {id : ℕ} {stream : Stream}

theorem fresh : Stream.fresh.Without id :=
  ⟨fun _ hr => absurd hr List.not_mem_nil, fun _ => List.not_mem_nil⟩

theorem send {m : ClientMessage} (h : stream.Without id)
    (hm : ∀ urlPattern, m ≠ .registerRoute id urlPattern) :
    Stream.Without id { stream with link := stream.link.send m } := by
  refine ⟨h.1, fun urlPattern hmem => ?_⟩
  rcases List.mem_append.mp hmem with hmem | hmem
  · exact h.2 urlPattern hmem
  · exact hm urlPattern (List.mem_singleton.mp hmem).symm

theorem read {m : ClientMessage} {link : Link ClientMessage (List RegisteredRoute)}
    (h : stream.Without id) (hread : stream.link.receive (applyMessage crate) = some (m, link)) :
    Stream.Without id { stream with link } := by
  obtain ⟨hqueue, hcopy⟩ := Link.receive_eq_some hread
  obtain ⟨hgone, hnone⟩ := h
  rw [hqueue] at hnone
  refine ⟨fun r hr => ?_, fun urlPattern hmem => hnone urlPattern (List.mem_cons_of_mem _ hmem)⟩
  replace hr : r ∈ applyMessage crate stream.link.copy m := hcopy ▸ hr
  cases m with
  | registerRoute id' urlPattern =>
    rw [applyMessage, registerRoute] at hr
    cases hcompile : compile crate urlPattern with
    | none =>
      rw [hcompile] at hr
      exact hgone r hr
    | some isMatch =>
      rw [hcompile] at hr
      rcases List.mem_append.mp hr with hr | hr
      · exact hgone r hr
      · rw [List.mem_singleton.mp hr]
        rintro rfl
        exact hnone urlPattern List.mem_cons_self
  | unregisterRoute id' => exact hgone r (List.mem_filter.mp hr).1
  | subscribeEvents => exact hgone r hr
  | unsubscribeEvents => exact hgone r hr
  | routeDecision _ => exact hgone r hr

end Stream.Without

/-- Of one stream, for the routes of the SDK and the next id. -/
structure Stream.Inv (crate : RegexCrate) (routes : List RegisteredRouteInfo) (next : ℕ)
    (stream : Stream) : Prop where
  queued_lt : ∀ m ∈ stream.link.queue, ∀ id, m.Names id → id < next
  answered_lt : ∀ m ∈ stream.out, ∀ id, m.Names id → id < next
  removing_lt : ∀ id ∈ stream.removing, id < next
  /-- A registration on its way is that of the route. -/
  pattern : ∀ id urlPattern, .registerRoute id urlPattern ∈ stream.link.queue →
    ∀ info ∈ routes, info.routeId = id → info.urlPattern = urlPattern
  /-- An answer on its way says whether the pattern of the route compiles. -/
  truthful : ∀ id success, .registerRouteResponse id success ∈ stream.out →
    ∀ info ∈ routes, info.routeId = id → (compile crate info.urlPattern).isSome = success
  /-- No route is registered behind the message that removes it. -/
  inOrder : stream.link.queue.Pairwise fun m m' =>
    ∀ id urlPattern, m = .unregisterRoute id → m' ≠ .registerRoute id urlPattern
  /-- What is answered to be removed is gone for good. -/
  settled : ∀ id, .unregisterRouteResponse id ∈ stream.out → stream.Without id

/-- Of one stream: each call that waits on it will be answered. -/
structure Stream.Pending (stream : Stream) : Prop where
  registration : ∀ id ∈ stream.registering,
    (∃ urlPattern, .registerRoute id urlPattern ∈ stream.link.queue) ∨
      ∃ success, .registerRouteResponse id success ∈ stream.out
  removal : ∀ id ∈ stream.removing,
    .unregisterRoute id ∈ stream.link.queue ∨ .unregisterRouteResponse id ∈ stream.out

namespace Stream.Inv

variable {routes routes' : List RegisteredRouteInfo} {next next' id : ℕ} {stream : Stream}

theorem fresh : Stream.fresh.Inv crate routes next where
  queued_lt := fun _ hm => absurd hm List.not_mem_nil
  answered_lt := fun _ hm => absurd hm List.not_mem_nil
  removing_lt := fun _ hid => absurd hid List.not_mem_nil
  pattern := fun _ _ hm => absurd hm List.not_mem_nil
  truthful := fun _ _ hm => absurd hm List.not_mem_nil
  inOrder := List.Pairwise.nil
  settled := fun _ hm => absurd hm List.not_mem_nil

/-- The routes may lose some, change in other fields, or get new ones. -/
theorem mono (h : stream.Inv crate routes next) (hle : next ≤ next')
    (hroutes : ∀ info ∈ routes', info.routeId < next → ∃ old ∈ routes,
      old.routeId = info.routeId ∧ old.urlPattern = info.urlPattern) :
    stream.Inv crate routes' next' := by
  refine ⟨fun m hm id hid => Nat.lt_of_lt_of_le (h.queued_lt m hm id hid) hle,
    fun m hm id hid => Nat.lt_of_lt_of_le (h.answered_lt m hm id hid) hle,
    fun id hid => Nat.lt_of_lt_of_le (h.removing_lt id hid) hle, ?_, ?_, h.inOrder, h.settled⟩
  · intro id urlPattern hm info hinfo hid
    obtain ⟨old, hold, hsame, hpattern⟩ := hroutes info hinfo
      (hid ▸ h.queued_lt _ hm id (.register urlPattern))
    exact hpattern.symm.trans (h.pattern id urlPattern hm old hold (hsame.trans hid))
  · intro id success hm info hinfo hid
    obtain ⟨old, hold, hsame, hpattern⟩ := hroutes info hinfo
      (hid ▸ h.answered_lt _ hm id (.registered success))
    rw [← hpattern]
    exact h.truthful id success hm old hold (hsame.trans hid)

/-- A message that is not about a route is written. -/
theorem send {m : ClientMessage} (h : stream.Inv crate routes next) (hm : ∀ id, ¬ m.Names id) :
    Stream.Inv crate routes next { stream with link := stream.link.send m } := by
  have hnew : ∀ id urlPattern, m ≠ .registerRoute id urlPattern := by
    rintro id urlPattern rfl
    exact hm id (.register urlPattern)
  have hqueue : ∀ id urlPattern,
      .registerRoute id urlPattern ∈ (stream.link.send m).queue →
        .registerRoute id urlPattern ∈ stream.link.queue := by
    intro id urlPattern hmem
    rcases List.mem_append.mp hmem with hmem | hmem
    · exact hmem
    · exact absurd (List.mem_singleton.mp hmem).symm (hnew id urlPattern)
  refine ⟨?_, h.answered_lt, h.removing_lt,
    fun id urlPattern hmem => h.pattern id urlPattern (hqueue id urlPattern hmem), h.truthful, ?_,
    fun id hid => (h.settled id hid).send (hnew id)⟩
  · intro m' hm' id hid
    rcases List.mem_append.mp hm' with hm' | hm'
    · exact h.queued_lt m' hm' id hid
    · rw [List.mem_singleton.mp hm'] at hid
      exact absurd hid (hm id)
  · rw [Link.send_queue, List.pairwise_append]
    refine ⟨h.inOrder, List.pairwise_singleton _ _, fun m₁ _ m₂ hm₂ id urlPattern _ => ?_⟩
    rw [List.mem_singleton.mp hm₂]
    exact hnew id urlPattern

/-- The next route is registered. -/
theorem register {info : RegisteredRouteInfo} (h : stream.Inv crate routes info.routeId)
    (hlt : ∀ old ∈ routes, old.routeId < info.routeId) :
    Stream.Inv crate (routes ++ [info]) (info.routeId + 1)
      { stream with
        link := stream.link.send (.registerRoute info.routeId info.urlPattern)
        registering := stream.registering ++ [info.routeId] } := by
  have hmono : stream.Inv crate (routes ++ [info]) (info.routeId + 1) := by
    refine h.mono (Nat.le_succ _) fun i hi hlt => ?_
    rcases List.mem_append.mp hi with hi | hi
    · exact ⟨i, hi, rfl, rfl⟩
    · rw [List.mem_singleton.mp hi] at hlt
      exact absurd hlt (Nat.lt_irrefl _)
  refine ⟨?_, hmono.answered_lt, hmono.removing_lt, ?_, hmono.truthful, ?_, ?_⟩
  · intro m hm id hid
    rcases List.mem_append.mp hm with hm | hm
    · exact hmono.queued_lt m hm id hid
    · rw [List.mem_singleton.mp hm] at hid
      cases hid
      exact Nat.lt_succ_self _
  · intro id urlPattern hm i hi hid
    rcases List.mem_append.mp hm with hm | hm
    · exact hmono.pattern id urlPattern hm i hi hid
    · cases List.mem_singleton.mp hm
      rcases List.mem_append.mp hi with hi | hi
      · exact absurd hid (Nat.ne_of_lt (hlt i hi))
      · rw [List.mem_singleton.mp hi]
  · rw [Link.send_queue, List.pairwise_append]
    refine ⟨h.inOrder, List.pairwise_singleton _ _, ?_⟩
    rintro m₁ hm₁ m₂ hm₂ id urlPattern rfl hcon
    rw [List.mem_singleton.mp hm₂] at hcon
    cases hcon
    exact Nat.lt_irrefl _ (h.queued_lt _ hm₁ _ .unregister)
  · refine fun id hid => (h.settled id hid).send fun urlPattern hcon => ?_
    cases hcon
    exact Nat.lt_irrefl _ (h.answered_lt _ hid _ .unregistered)

/-- A known route is unregistered. -/
theorem unregister (h : stream.Inv crate routes next) (hid : id < next) :
    Stream.Inv crate routes next { stream with link := stream.link.send (.unregisterRoute id) } := by
  have hqueue : ∀ id' urlPattern,
      .registerRoute id' urlPattern ∈ (stream.link.send (.unregisterRoute id)).queue →
        .registerRoute id' urlPattern ∈ stream.link.queue := by
    intro id' urlPattern hmem
    rcases List.mem_append.mp hmem with hmem | hmem
    · exact hmem
    · cases List.mem_singleton.mp hmem
  refine ⟨?_, h.answered_lt, h.removing_lt,
    fun id urlPattern hmem => h.pattern id urlPattern (hqueue id urlPattern hmem), h.truthful, ?_,
    fun id hid => (h.settled id hid).send fun urlPattern hcon => by cases hcon⟩
  · intro m hm id' hid'
    rcases List.mem_append.mp hm with hm | hm
    · exact h.queued_lt m hm id' hid'
    · rw [List.mem_singleton.mp hm] at hid'
      cases hid'
      exact hid
  · rw [Link.send_queue, List.pairwise_append]
    refine ⟨h.inOrder, List.pairwise_singleton _ _, fun m₁ _ m₂ hm₂ id' urlPattern _ hcon => ?_⟩
    rw [List.mem_singleton.mp hm₂] at hcon
    cases hcon

/-- The listeners of a stream change. -/
theorem listen (h : stream.Inv crate routes next) {registering removing : List ℕ}
    (hremoving : ∀ id ∈ removing, id < next) :
    Stream.Inv crate routes next { stream with registering, removing } :=
  ⟨h.queued_lt, h.answered_lt, hremoving, h.pattern, h.truthful, h.inOrder, h.settled⟩

/-- The oldest answer is delivered. -/
theorem deliver {m : ServerMessage} {rest : List ServerMessage} (h : stream.Inv crate routes next)
    (hout : stream.out = m :: rest) :
    Stream.Inv crate routes next { stream with out := rest } := by
  have hmem : ∀ m' ∈ rest, m' ∈ stream.out := by
    intro m' hm'
    rw [hout]
    exact List.mem_cons_of_mem _ hm'
  exact ⟨h.queued_lt, fun m hm => h.answered_lt m (hmem m hm), h.removing_lt, h.pattern,
    fun id success hm => h.truthful id success (hmem _ hm), h.inOrder,
    fun id hm => h.settled id (hmem _ hm)⟩

/-- What the handler has sent, and nothing has forwarded yet. -/
theorem hand (h : stream.Inv crate routes next) (toSdk : List InterceptedRequest) :
    Stream.Inv crate routes next { stream with toSdk } :=
  ⟨h.queued_lt, h.answered_lt, h.removing_lt, h.pattern, h.truthful, h.inOrder, h.settled⟩

/-- A message about no route is sent to the SDK. -/
theorem push {m : ServerMessage} (h : stream.Inv crate routes next) (hm : ∀ id, ¬ m.Names id) :
    Stream.Inv crate routes next { stream with out := stream.out ++ [m] } := by
  have hmem : ∀ m' id, m'.Names id → m' ∈ stream.out ++ [m] → m' ∈ stream.out := by
    intro m' id hnames hm'
    rcases List.mem_append.mp hm' with hm' | hm'
    · exact hm'
    · rw [List.mem_singleton.mp hm'] at hnames
      exact absurd hnames (hm id)
  exact ⟨h.queued_lt, fun m' hm' id hid => h.answered_lt m' (hmem m' id hid hm') id hid,
    h.removing_lt, h.pattern,
    fun id success hm' => h.truthful id success (hmem _ id (.registered success) hm'), h.inOrder,
    fun id hm' => h.settled id (hmem _ id .unregistered hm')⟩

/-- The oldest message is read and answered. -/
theorem read {m : ClientMessage} {link : Link ClientMessage (List RegisteredRoute)}
    (h : stream.Inv crate routes next)
    (hread : stream.link.receive (applyMessage crate) = some (m, link)) :
    Stream.Inv crate routes next
      { stream with link, out := stream.out ++ answer crate stream.link.copy m } := by
  obtain ⟨hqueue, hcopy⟩ := Link.receive_eq_some hread
  have hmem : ∀ m' ∈ link.queue, m' ∈ stream.link.queue := by
    intro m' hm'
    rw [hqueue]
    exact List.mem_cons_of_mem _ hm'
  have hm : m ∈ stream.link.queue := by
    rw [hqueue]
    exact List.mem_cons_self
  have horder := h.inOrder
  rw [hqueue, List.pairwise_cons] at horder
  refine ⟨fun m' hm' => h.queued_lt m' (hmem m' hm'), ?_, h.removing_lt,
    fun id urlPattern hm' => h.pattern id urlPattern (hmem _ hm'), ?_, horder.2, ?_⟩
  · intro m' hm' id hid
    rcases List.mem_append.mp hm' with hm' | hm'
    · exact h.answered_lt m' hm' id hid
    · cases m with
      | registerRoute id' urlPattern =>
        rw [List.mem_singleton.mp hm'] at hid
        cases hid
        exact h.queued_lt _ hm _ (.register urlPattern)
      | unregisterRoute id' =>
        rw [List.mem_singleton.mp hm'] at hid
        cases hid
        exact h.queued_lt _ hm _ .unregister
      | subscribeEvents => exact absurd hm' List.not_mem_nil
      | unsubscribeEvents => exact absurd hm' List.not_mem_nil
      | routeDecision _ => exact absurd hm' List.not_mem_nil
  · intro id success hm' info hinfo hid
    rcases List.mem_append.mp hm' with hm' | hm'
    · exact h.truthful id success hm' info hinfo hid
    · cases m with
      | registerRoute id' urlPattern =>
        cases List.mem_singleton.mp hm'
        rw [h.pattern id urlPattern hm info hinfo hid, registerRoute]
        cases compile crate urlPattern <;> rfl
      | unregisterRoute _ => cases List.mem_singleton.mp hm'
      | subscribeEvents => exact absurd hm' List.not_mem_nil
      | unsubscribeEvents => exact absurd hm' List.not_mem_nil
      | routeDecision _ => exact absurd hm' List.not_mem_nil
  · intro id hid
    rcases List.mem_append.mp hid with hid | hid
    · exact (h.settled id hid).read hread
    · -- this is the answer to the message that is read, behind which nothing registers it again
      cases m with
      | unregisterRoute id' =>
        cases List.mem_singleton.mp hid
        refine ⟨fun r hr => ?_, fun urlPattern hm' => horder.1 _ hm' id urlPattern rfl rfl⟩
        rw [hcopy] at hr
        exact of_decide_eq_true (List.mem_filter.mp hr).2
      | registerRoute id' urlPattern => cases List.mem_singleton.mp hid
      | subscribeEvents => exact absurd hid List.not_mem_nil
      | unsubscribeEvents => exact absurd hid List.not_mem_nil
      | routeDecision _ => exact absurd hid List.not_mem_nil

end Stream.Inv

namespace Stream.Pending

variable {stream : Stream} {id : ℕ}

theorem of_quiet (hregistering : stream.registering = []) (hremoving : stream.removing = []) :
    stream.Pending := by
  constructor
  · intro id hid
    rw [hregistering] at hid
    exact absurd hid List.not_mem_nil
  · intro id hid
    rw [hremoving] at hid
    exact absurd hid List.not_mem_nil

/-- More is on its way. -/
theorem mono {stream' : Stream} (h : stream.Pending)
    (hregistering : stream'.registering = stream.registering)
    (hremoving : stream'.removing = stream.removing)
    (hqueue : ∀ m ∈ stream.link.queue, m ∈ stream'.link.queue)
    (hout : ∀ m ∈ stream.out, m ∈ stream'.out) : stream'.Pending := by
  constructor
  · intro id hid
    rw [hregistering] at hid
    rcases h.registration id hid with ⟨urlPattern, hm⟩ | ⟨success, hm⟩
    · exact .inl ⟨urlPattern, hqueue _ hm⟩
    · exact .inr ⟨success, hout _ hm⟩
  · intro id hid
    rw [hremoving] at hid
    exact (h.removal id hid).imp (hqueue _) (hout _)

theorem register {urlPattern : List Char} (h : stream.Pending) :
    Stream.Pending
      { stream with
        link := stream.link.send (.registerRoute id urlPattern)
        registering := stream.registering ++ [id] } := by
  constructor
  · intro id' hid'
    rcases List.mem_append.mp hid' with hid' | hid'
    · rcases h.registration id' hid' with ⟨urlPattern', hm⟩ | hm
      · exact .inl ⟨urlPattern', List.mem_append_left _ hm⟩
      · exact .inr hm
    · obtain rfl := List.mem_singleton.mp hid'
      exact .inl ⟨urlPattern, List.mem_append_right _ (List.mem_singleton.mpr rfl)⟩
  · exact fun id' hid' => (h.removal id' hid').imp_left (List.mem_append_left _)

theorem unregister (h : stream.Pending) :
    Stream.Pending
      { stream with
        link := stream.link.send (.unregisterRoute id), removing := stream.removing ++ [id] } := by
  constructor
  · intro id' hid'
    rcases h.registration id' hid' with ⟨urlPattern', hm⟩ | hm
    · exact .inl ⟨urlPattern', List.mem_append_left _ hm⟩
    · exact .inr hm
  · intro id' hid'
    rcases List.mem_append.mp hid' with hid' | hid'
    · exact (h.removal id' hid').imp_left (List.mem_append_left _)
    · obtain rfl := List.mem_singleton.mp hid'
      exact .inl (List.mem_append_right _ (List.mem_singleton.mpr rfl))

/-- What is read is answered. -/
theorem read {m : ClientMessage} {link : Link ClientMessage (List RegisteredRoute)}
    (h : stream.Pending) (hread : stream.link.receive (applyMessage crate) = some (m, link)) :
    Stream.Pending
      { stream with link, out := stream.out ++ answer crate stream.link.copy m } := by
  obtain ⟨hqueue, -⟩ := Link.receive_eq_some hread
  constructor
  · intro id hid
    rcases h.registration id hid with ⟨urlPattern, hm⟩ | ⟨success, hm⟩
    · rw [hqueue] at hm
      rcases List.mem_cons.mp hm with rfl | hm
      · exact .inr ⟨_, List.mem_append_right _ (List.mem_singleton.mpr rfl)⟩
      · exact .inl ⟨urlPattern, hm⟩
    · exact .inr ⟨success, List.mem_append_left _ hm⟩
  · intro id hid
    rcases h.removal id hid with hm | hm
    · rw [hqueue] at hm
      rcases List.mem_cons.mp hm with rfl | hm
      · exact .inr (List.mem_append_right _ (List.mem_singleton.mpr rfl))
      · exact .inl hm
    · exact .inr (List.mem_append_left _ hm)

/-- What is delivered is waited for no longer. -/
theorem deliver {m : ServerMessage} {rest : List ServerMessage} {registering removing : List ℕ}
    (h : stream.Pending) (hout : stream.out = m :: rest)
    (hregistering : ∀ id ∈ registering, id ∈ stream.registering ∧
      ∀ success, m ≠ .registerRouteResponse id success)
    (hremoving : ∀ id ∈ removing, id ∈ stream.removing ∧ m ≠ .unregisterRouteResponse id) :
    Stream.Pending { stream with out := rest, registering, removing } := by
  constructor
  · intro id hid
    obtain ⟨hid, hne⟩ := hregistering id hid
    rcases h.registration id hid with hm | ⟨success, hm⟩
    · exact .inl hm
    · rw [hout] at hm
      rcases List.mem_cons.mp hm with rfl | hm
      · exact absurd rfl (hne success)
      · exact .inr ⟨success, hm⟩
  · intro id hid
    obtain ⟨hid, hne⟩ := hremoving id hid
    rcases h.removal id hid with hm | hm
    · exact .inl hm
    · rw [hout] at hm
      rcases List.mem_cons.mp hm with rfl | hm
      · exact absurd rfl hne
      · exact .inr hm

end Stream.Pending

/-! ### Both sides -/

/-- The daemon has sent something on the stream. -/
def Stream.Talks (stream : Stream) : Prop := stream.toSdk ≠ [] ∨ stream.out ≠ []

/-- The invariant. -/
structure World.Inv (crate : RegexCrate) (w : World) : Prop where
  ordered : w.sdk.routes.Pairwise fun info info' => info.routeId < info'.routeId
  counted : ∀ info ∈ w.sdk.routes, info.routeId < w.nextRoute
  newest : ∀ s, w.sdk.stream = some s → w.opened = s + 1
  quiet : ∀ s, w.sdk.stream ≠ some s →
    (w.streams s).registering = [] ∧ (w.streams s).removing = []
  /-- A route that is not confirmed waits for the answer on the open stream. -/
  waiting : ∀ info ∈ w.sdk.routes, info.confirmed = false →
    ∃ s, w.sdk.stream = some s ∧ info.routeId ∈ (w.streams s).registering
  compiles : ∀ info ∈ w.sdk.routes, info.confirmed = true →
    (compile crate info.urlPattern).isSome = true
  /-- What the daemon will have on the open stream. -/
  agrees : ∀ s, w.sdk.stream = some s → (w.streams s).link.ahead (applyMessage crate)
    = expected crate w.sdk.routes (w.streams s).removing
  streams : ∀ s, (w.streams s).Inv crate w.sdk.routes w.nextRoute
  pending : ∀ s, (w.streams s).Pending
  unopened : ∀ s, w.opened ≤ s → w.streams s = .fresh
  accepted_le : w.accepted ≤ w.opened
  talking : ∀ s, (w.streams s).Talks → s < w.accepted
  arrived : ∀ r ∈ w.arrived, r.1 < w.accepted
  matched : ∀ r ∈ w.matched, r.1 < w.accepted
  active : ∀ s, w.activeHandler = some s → s + 1 = w.accepted

namespace World.Inv

variable {w : World} {s id : ℕ}

theorem init : World.init.Inv crate where
  ordered := List.Pairwise.nil
  counted := fun _ hinfo => absurd hinfo List.not_mem_nil
  newest := fun s hs => absurd hs (Option.some_ne_none s).symm
  quiet := fun _ _ => ⟨rfl, rfl⟩
  waiting := fun _ hinfo => absurd hinfo List.not_mem_nil
  compiles := fun _ hinfo => absurd hinfo List.not_mem_nil
  agrees := fun s hs => absurd hs (Option.some_ne_none s).symm
  streams := fun _ => Stream.Inv.fresh
  pending := fun _ => .of_quiet rfl rfl
  unopened := fun _ _ => rfl
  accepted_le := Nat.le_refl _
  talking := fun _ hs => hs.elim (absurd rfl) (absurd rfl)
  arrived := fun _ hr => absurd hr List.not_mem_nil
  matched := fun _ hr => absurd hr List.not_mem_nil
  active := fun s hs => absurd hs (Option.some_ne_none s).symm

/-- The open stream and the routes change together. -/
theorem onCurrent {routes : List RegisteredRouteInfo} {stream : Stream} {n : ℕ}
    (h : w.Inv crate) (hs : w.sdk.stream = some s)
    (hordered : routes.Pairwise fun info info' => info.routeId < info'.routeId)
    (hcounted : ∀ info ∈ routes, info.routeId < n)
    (hwaiting : ∀ info ∈ routes, info.confirmed = false → info.routeId ∈ stream.registering)
    (hcompiles : ∀ info ∈ routes, info.confirmed = true →
      (compile crate info.urlPattern).isSome = true)
    (hagrees : stream.link.ahead (applyMessage crate) = expected crate routes stream.removing)
    (hstream : stream.Inv crate routes n) (hpending : stream.Pending)
    (hle : w.nextRoute ≤ n)
    (hold : ∀ info ∈ routes, info.routeId < w.nextRoute → ∃ old ∈ w.sdk.routes,
      old.routeId = info.routeId ∧ old.urlPattern = info.urlPattern)
    (htalking : stream.Talks → s < w.accepted) :
    World.Inv crate
      { w with
        sdk := { w.sdk with routes }
        streams := Function.update w.streams s stream
        nextRoute := n } := by
  have hother : ∀ t, t ≠ s → Function.update w.streams s stream t = w.streams t :=
    fun t ht => Function.update_of_ne ht _ _
  have hsame : Function.update w.streams s stream s = stream := Function.update_self _ _ _
  constructor
  · exact hordered
  · exact hcounted
  · exact h.newest
  · intro t ht
    have hne : t ≠ s := fun hcon => ht (hcon ▸ hs)
    show (Function.update w.streams s stream t).registering = []
      ∧ (Function.update w.streams s stream t).removing = []
    rw [hother t hne]
    exact h.quiet t ht
  · intro info hinfo hconfirmed
    refine ⟨s, hs, ?_⟩
    show info.routeId ∈ (Function.update w.streams s stream s).registering
    rw [hsame]
    exact hwaiting info hinfo hconfirmed
  · exact hcompiles
  · intro t ht
    obtain rfl : t = s := Option.some_injective _ (ht.symm.trans hs)
    show (Function.update w.streams t stream t).link.ahead (applyMessage crate)
      = expected crate routes (Function.update w.streams t stream t).removing
    rw [hsame]
    exact hagrees
  · intro t
    show (Function.update w.streams s stream t).Inv crate routes n
    by_cases ht : t = s
    · rw [ht, hsame]
      exact hstream
    · rw [hother t ht]
      exact (h.streams t).mono hle hold
  · intro t
    show (Function.update w.streams s stream t).Pending
    by_cases ht : t = s
    · rw [ht, hsame]
      exact hpending
    · rw [hother t ht]
      exact h.pending t
  · intro t ht
    have hne : t ≠ s := by
      rintro rfl
      have hnewest := h.newest t hs
      have hle : w.opened ≤ t := ht
      omega
    exact (hother t hne).trans (h.unopened t ht)
  · exact h.accepted_le
  · intro t ht
    replace ht : (Function.update w.streams s stream t).Talks := ht
    by_cases hts : t = s
    · rw [hts, hsame] at ht
      rw [hts]
      exact htalking ht
    · rw [hother t hts] at ht
      exact h.talking t ht
  · exact h.arrived
  · exact h.matched
  · exact h.active

/-- A stream changes, but not the calls that wait on it nor what the daemon will have. -/
theorem onStream {stream : Stream} (h : w.Inv crate) (hs : s < w.opened)
    (hregistering : stream.registering = (w.streams s).registering)
    (hremoving : stream.removing = (w.streams s).removing)
    (hahead : stream.link.ahead (applyMessage crate)
      = (w.streams s).link.ahead (applyMessage crate))
    (hstream : stream.Inv crate w.sdk.routes w.nextRoute) (hpending : stream.Pending)
    (htalking : stream.Talks → s < w.accepted) :
    (w.setStream s stream).Inv crate := by
  have hother : ∀ t, t ≠ s → (w.setStream s stream).streams t = w.streams t :=
    fun t ht => Function.update_of_ne ht _ _
  have hsame : (w.setStream s stream).streams s = stream := Function.update_self _ _ _
  have hreg : ∀ t, ((w.setStream s stream).streams t).registering = (w.streams t).registering := by
    intro t
    by_cases ht : t = s
    · rw [ht, hsame, hregistering]
    · rw [hother t ht]
  have hrem : ∀ t, ((w.setStream s stream).streams t).removing = (w.streams t).removing := by
    intro t
    by_cases ht : t = s
    · rw [ht, hsame, hremoving]
    · rw [hother t ht]
  constructor
  · exact h.ordered
  · exact h.counted
  · exact h.newest
  · intro t ht
    rw [hreg, hrem]
    exact h.quiet t ht
  · intro info hinfo hconfirmed
    obtain ⟨t, ht, hmem⟩ := h.waiting info hinfo hconfirmed
    refine ⟨t, ht, ?_⟩
    rw [hreg]
    exact hmem
  · exact h.compiles
  · intro t ht
    rw [hrem]
    refine Eq.trans ?_ (h.agrees t ht)
    by_cases hts : t = s
    · rw [hts, hsame, hahead]
    · rw [hother t hts]
  · intro t
    by_cases ht : t = s
    · rw [ht, hsame]
      exact hstream
    · rw [hother t ht]
      exact h.streams t
  · intro t
    by_cases ht : t = s
    · rw [ht, hsame]
      exact hpending
    · rw [hother t ht]
      exact h.pending t
  · intro t ht
    have hne : t ≠ s := by
      rintro rfl
      exact absurd ht (Nat.not_le_of_lt hs)
    exact (hother t hne).trans (h.unopened t ht)
  · exact h.accepted_le
  · intro t ht
    by_cases hts : t = s
    · rw [hts, hsame] at ht
      rw [hts]
      exact htalking ht
    · rw [hother t hts] at ht
      exact h.talking t ht
  · exact h.arrived
  · exact h.matched
  · exact h.active

/-- The open stream is one that was opened. -/
theorem current_lt (h : w.Inv crate) (hs : w.sdk.stream = some s) : s < w.opened := by
  rw [h.newest s hs]
  exact Nat.lt_succ_self s

/-- Routes are deleted, or change in what the daemon does not have. -/
theorem setRoutes {routes : List RegisteredRouteInfo} (h : w.Inv crate)
    (hordered : routes.Pairwise fun info info' => info.routeId < info'.routeId)
    (hsame : ∀ info ∈ routes, ∃ old ∈ w.sdk.routes, old.routeId = info.routeId ∧
      old.urlPattern = info.urlPattern ∧ old.confirmed = info.confirmed)
    (hagrees : ∀ s, w.sdk.stream = some s → expected crate routes (w.streams s).removing
      = expected crate w.sdk.routes (w.streams s).removing) :
    (w.setRoutes routes).Inv crate := by
  constructor
  · exact hordered
  · intro info hinfo
    obtain ⟨old, hold, hid, -, -⟩ := hsame info hinfo
    exact hid ▸ h.counted old hold
  · exact h.newest
  · exact h.quiet
  · intro info hinfo hconfirmed
    obtain ⟨old, hold, hid, -, hold'⟩ := hsame info hinfo
    rw [← hid]
    exact h.waiting old hold (hold'.trans hconfirmed)
  · intro info hinfo hconfirmed
    obtain ⟨old, hold, -, hpattern, hold'⟩ := hsame info hinfo
    rw [← hpattern]
    exact h.compiles old hold (hold'.trans hconfirmed)
  · exact fun s hs => (h.agrees s hs).trans (hagrees s hs).symm
  · refine fun s => (h.streams s).mono (Nat.le_refl _) fun info hinfo _ => ?_
    obtain ⟨old, hold, hid, hpattern, -⟩ := hsame info hinfo
    exact ⟨old, hold, hid, hpattern⟩
  · exact h.pending
  · exact h.unopened
  · exact h.accepted_le
  · exact h.talking
  · exact h.arrived
  · exact h.matched
  · exact h.active

/-- Fields of the manager that say nothing about its routes. -/
theorem setFields (h : w.Inv crate) (eventsWanted : Bool) (subscribedStream : Option ℕ)
    (reopenTimer : Bool) :
    World.Inv crate { w with sdk := { w.sdk with eventsWanted, subscribedStream, reopenTimer } } :=
  ⟨h.ordered, h.counted, h.newest, h.quiet, h.waiting, h.compiles, h.agrees, h.streams, h.pending,
    h.unopened, h.accepted_le, h.talking, h.arrived, h.matched, h.active⟩

/-- The requests in the proxy. -/
theorem setRequests {arrived : List (ℕ × List Char)} {matched : List (ℕ × InterceptedRequest)}
    (h : w.Inv crate) (harrived : ∀ r ∈ arrived, r.1 < w.accepted)
    (hmatched : ∀ r ∈ matched, r.1 < w.accepted) (nextIntercept : ℕ) :
    World.Inv crate { w with arrived, matched, nextIntercept } :=
  ⟨h.ordered, h.counted, h.newest, h.quiet, h.waiting, h.compiles, h.agrees, h.streams, h.pending,
    h.unopened, h.accepted_le, h.talking, harrived, hmatched, h.active⟩

/-- An id is that of one route. -/
theorem eq_of_routeId (h : w.Inv crate) {info info' : RegisteredRouteInfo}
    (hinfo : info ∈ w.sdk.routes) (hinfo' : info' ∈ w.sdk.routes)
    (hid : info.routeId = info'.routeId) : info = info' := by
  refine List.inj_on_of_nodup_map ?_ hinfo hinfo' hid
  exact List.pairwise_map.mpr (h.ordered.imp Nat.ne_of_lt)

/-! #### Writing -/

theorem write {m : ClientMessage} (h : w.Inv crate) (hs : w.sdk.stream = some s)
    (hm : ∀ id, ¬ m.Names id) : (w.write s m).Inv crate := by
  have hneutral : ∀ routes, applyMessage crate routes m = routes := by
    intro routes
    cases m with
    | registerRoute id urlPattern => exact absurd (.register urlPattern) (hm id)
    | unregisterRoute id => exact absurd .unregister (hm id)
    | subscribeEvents => rfl
    | unsubscribeEvents => rfl
    | routeDecision _ => rfl
  refine h.onStream (h.current_lt hs) rfl rfl (ahead_send.trans (hneutral _))
    ((h.streams s).send hm) ((h.pending s).mono rfl rfl ?_ fun _ => id) (h.talking s)
  exact fun _ => List.mem_append_left _

theorem safeWrite {m : ClientMessage} (h : w.Inv crate) (hm : ∀ id, ¬ m.Names id) :
    (w.safeWrite m).Inv crate := by
  unfold World.safeWrite
  cases hs : w.sdk.stream with
  | none => exact h
  | some s => exact h.write hs hm

/-- What is replayed brings back just the routes that are confirmed. -/
theorem foldl_register {routes : List RegisteredRouteInfo} {copy : List RegisteredRoute} :
    (routes.map fun info => ClientMessage.registerRoute info.routeId info.urlPattern).foldl
      (applyMessage crate) copy = copy ++ expected crate routes [] := by
  induction routes generalizing copy with
  | nil => exact (List.append_nil _).symm
  | cons info routes ih =>
    rw [List.map_cons, List.foldl_cons, ih, applyMessage, registerRoute, expected, expected,
      List.filterMap_cons, if_neg List.not_mem_nil, RegisteredRouteInfo.compiled]
    cases compile crate info.urlPattern with
    | none => rfl
    | some isMatch => exact List.append_assoc _ _ _

theorem mem_replayed {sdk : NetworkRouteManager} {m : ClientMessage} (hm : m ∈ sdk.replayed) :
    m = .subscribeEvents ∨
      ∃ info ∈ sdk.routes, m = .registerRoute info.routeId info.urlPattern := by
  rcases List.mem_append.mp hm with hm | hm
  · split at hm
    · exact .inl (List.mem_singleton.mp hm)
    · exact absurd hm List.not_mem_nil
  · obtain ⟨info, hinfo, rfl⟩ := List.mem_map.mp hm
    exact .inr ⟨info, (List.mem_filter.mp hinfo).1, rfl⟩

/-- **A stream is opened again**, and what is replayed onto it are all the routes. -/
theorem openStream (h : w.Inv crate) (hnone : w.sdk.stream = none) :
    w.openStream.Inv crate := by
  have hother : ∀ t, t ≠ w.opened → w.openStream.streams t = w.streams t :=
    fun t ht => Function.update_of_ne ht _ _
  have hsame : w.openStream.streams w.opened
      = { Stream.fresh with link := { queue := w.sdk.replayed, copy := [] } } :=
    Function.update_self _ _ _
  have hconfirmed : w.sdk.routes.filter (·.confirmed) = w.sdk.routes := by
    refine List.filter_eq_self.mpr fun info hinfo => ?_
    cases hcon : info.confirmed with
    | true => rfl
    | false =>
      obtain ⟨s, hs, -⟩ := h.waiting info hinfo hcon
      rw [hnone] at hs
      cases hs
  constructor
  · exact h.ordered
  · exact h.counted
  · intro s hs
    cases hs
    rfl
  · intro t ht
    by_cases hts : t = w.opened
    · exact absurd (congrArg some hts.symm) ht
    · rw [hother t hts]
      refine h.quiet t ?_
      rw [hnone]
      exact (Option.some_ne_none t).symm
  · intro info hinfo hcon
    obtain ⟨s, hs, -⟩ := h.waiting info hinfo hcon
    rw [hnone] at hs
    cases hs
  · exact h.compiles
  · intro s hs
    cases hs
    rw [hsame]
    show w.sdk.replayed.foldl (applyMessage crate) [] = expected crate w.sdk.routes []
    rw [NetworkRouteManager.replayed, hconfirmed, List.foldl_append]
    have hstart : (if w.sdk.eventsWanted then [ClientMessage.subscribeEvents] else []).foldl
        (applyMessage crate) [] = [] := by
      split <;> rfl
    rw [hstart, foldl_register, List.nil_append]
  · intro t
    by_cases hts : t = w.opened
    · rw [hts, hsame]
      refine ⟨?_, fun m hm => absurd hm List.not_mem_nil, fun id hid => absurd hid List.not_mem_nil,
        ?_, fun id _ hm => absurd hm List.not_mem_nil, ?_, fun id hm => absurd hm List.not_mem_nil⟩
      · intro m hm id hid
        rcases mem_replayed hm with rfl | ⟨info, hinfo, rfl⟩
        · cases hid
        · cases hid
          exact h.counted info hinfo
      · intro id urlPattern hm info hinfo hid
        rcases mem_replayed hm with hcon | ⟨info', hinfo', heq⟩
        · cases hcon
        · cases heq
          rw [h.eq_of_routeId hinfo hinfo' hid]
      · refine List.pairwise_of_forall_mem_list fun m hm m' _ id urlPattern hcon => ?_
        rcases mem_replayed hm with rfl | ⟨info, -, rfl⟩
        · cases hcon
        · cases hcon
    · rw [hother t hts]
      exact h.streams t
  · intro t
    by_cases hts : t = w.opened
    · rw [hts, hsame]
      exact .of_quiet rfl rfl
    · rw [hother t hts]
      exact h.pending t
  · intro t ht
    have hlt : w.opened + 1 ≤ t := ht
    rw [hother t (by omega)]
    exact h.unopened t (by omega)
  · exact Nat.le_succ_of_le h.accepted_le
  · intro t ht
    by_cases hts : t = w.opened
    · rw [hts, hsame] at ht
      exact ht.elim (absurd rfl) (absurd rfl)
    · rw [hother t hts] at ht
      exact h.talking t ht
  · exact h.arrived
  · exact h.matched
  · exact h.active

theorem ensureStream (h : w.Inv crate) : w.ensureStream.2.Inv crate ∧
    w.ensureStream.2.sdk.stream = some w.ensureStream.1 ∧
    w.ensureStream.2.sdk.routes = w.sdk.routes ∧ w.ensureStream.2.nextRoute = w.nextRoute := by
  unfold World.ensureStream
  cases hs : w.sdk.stream with
  | none => exact ⟨h.openStream hs, rfl, rfl, rfl⟩
  | some s => exact ⟨h, hs, rfl, rfl⟩

/-! #### Adding and removing -/

theorem ensureStream_of_some (hs : w.sdk.stream = some s) : w.ensureStream = (s, w) := by
  rw [World.ensureStream, hs]

theorem ensureStream_of_none (hs : w.sdk.stream = none) :
    w.ensureStream = (w.opened, w.openStream) := by
  rw [World.ensureStream, hs]

/-- A new route is registered on the open stream. -/
theorem register {info : RegisteredRouteInfo} (h : w.Inv crate) (hs : w.sdk.stream = some s)
    (hid : info.routeId = w.nextRoute) (hconfirmed : info.confirmed = false) :
    World.Inv crate
      { w with
        sdk := { w.sdk with routes := w.sdk.routes ++ [info] }
        streams := Function.update w.streams s
          { w.streams s with
            link := (w.streams s).link.send (.registerRoute info.routeId info.urlPattern)
            registering := (w.streams s).registering ++ [info.routeId] }
        nextRoute := w.nextRoute + 1 } := by
  have hlast : ∀ i ∈ w.sdk.routes ++ [info], i ∈ w.sdk.routes ∨ i = info := fun i hi =>
    (List.mem_append.mp hi).imp_right List.mem_singleton.mp
  have hstream := h.streams s
  rw [← hid] at hstream
  apply h.onCurrent hs
  · refine List.pairwise_append.mpr ⟨h.ordered, List.pairwise_singleton _ _, fun i hi i' hi' => ?_⟩
    rw [List.mem_singleton.mp hi', hid]
    exact h.counted i hi
  · intro i hi
    rcases hlast i hi with hi | rfl
    · exact Nat.lt_succ_of_lt (h.counted i hi)
    · exact hid ▸ Nat.lt_succ_self _
  · intro i hi hcon
    rcases hlast i hi with hi | rfl
    · obtain ⟨t, ht, hmem⟩ := h.waiting i hi hcon
      obtain rfl := Option.some_injective _ (ht.symm.trans hs)
      exact List.mem_append_left _ hmem
    · exact List.mem_append_right _ (List.mem_singleton.mpr rfl)
  · intro i hi hcon
    rcases hlast i hi with hi | rfl
    · exact h.compiles i hi hcon
    · rw [hconfirmed] at hcon
      cases hcon
  · have hnew : info.routeId ∉ (w.streams s).removing := fun hcon =>
      Nat.lt_irrefl _ (hstream.removing_lt _ hcon)
    refine (ahead_send.trans ?_).trans (expected_append hnew).symm
    rw [h.agrees s hs]
    rfl
  · rw [← congrArg (· + 1) hid]
    exact hstream.register fun old hold => hid ▸ h.counted old hold
  · exact (h.pending s).register
  · exact Nat.le_succ _
  · intro i hi hlt
    rcases hlast i hi with hi | rfl
    · exact ⟨i, hi, rfl, rfl⟩
    · rw [hid] at hlt
      exact absurd hlt (Nat.lt_irrefl _)
  · exact h.talking s

theorem addRoute (h : w.Inv crate) (originalPattern : UrlPattern) (handler : ℕ)
    (times : Option ℤ) (scope : Option ℕ) :
    (w.addRoute originalPattern handler times scope).Inv crate := by
  unfold World.addRoute
  dsimp only
  generalize hinfo : RegisteredRouteInfo.unconfirmed w.nextRoute originalPattern handler times scope
    = info
  have hid : info.routeId = w.nextRoute := hinfo ▸ rfl
  have hconfirmed : info.confirmed = false := hinfo ▸ rfl
  cases hs : w.sdk.stream with
  | some s =>
    rw [ensureStream_of_some (s := s) (by exact hs)]
    exact h.register hs hid hconfirmed
  | none =>
    rw [ensureStream_of_none (by exact hs)]
    -- the new route is not confirmed, so that it is not among those that are replayed
    have hreplayed : ({ w.sdk with routes := w.sdk.routes ++ [info] } :
        NetworkRouteManager).replayed = w.sdk.replayed := by
      have hnone : [info].filter (·.confirmed) = [] :=
        List.filter_cons_of_neg (by rw [hconfirmed]; exact Bool.false_ne_true)
      rw [NetworkRouteManager.replayed, NetworkRouteManager.replayed, List.filter_append, hnone,
        List.append_nil]
    have hopen : World.openStream
        { w.setRoutes (w.sdk.routes ++ [info]) with nextRoute := w.nextRoute + 1 }
        = { w.openStream with
            sdk := { w.openStream.sdk with routes := w.openStream.sdk.routes ++ [info] }
            nextRoute := w.openStream.nextRoute + 1 } := by
      unfold World.openStream
      dsimp only [World.setRoutes]
      rw [hreplayed]
      rfl
    rw [hopen]
    exact (h.openStream hs).register rfl hid hconfirmed

/-- A route is to be removed from the open stream. -/
theorem awaitRemoval (h : w.Inv crate) (hs : w.sdk.stream = some s) (hid : id < w.nextRoute) :
    (w.awaitRemoval s id).Inv crate := by
  refine h.onCurrent (n := w.nextRoute) hs h.ordered h.counted ?_ h.compiles ?_ ?_
    (h.pending s).unregister (Nat.le_refl _) (fun i hi _ => ⟨i, hi, rfl, rfl⟩) (h.talking s)
  · intro i hi hcon
    obtain ⟨t, ht, hmem⟩ := h.waiting i hi hcon
    obtain rfl := Option.some_injective _ (ht.symm.trans hs)
    exact hmem
  · refine (ahead_send.trans ?_).trans expected_removing.symm
    rw [h.agrees s hs]
    rfl
  · refine ((h.streams s).unregister hid).listen fun id' hid' => ?_
    rcases List.mem_append.mp hid' with hid' | hid'
    · exact (h.streams s).removing_lt id' hid'
    · rw [List.mem_singleton.mp hid']
      exact hid

theorem unregisterAndAwait (h : w.Inv crate) (hid : id < w.nextRoute) :
    (w.unregisterAndAwait id).Inv crate ∧ (w.unregisterAndAwait id).nextRoute = w.nextRoute := by
  obtain ⟨hopen, hs, -, hnext⟩ := h.ensureStream
  exact ⟨hopen.awaitRemoval hs (hnext ▸ hid), hnext⟩

theorem removeWhere (h : w.Inv crate) (selects : RegisteredRouteInfo → Bool) :
    (w.removeWhere selects).Inv crate := by
  have hids : ∀ id ∈ (w.sdk.routes.filter selects).map (·.routeId), id < w.nextRoute := by
    intro id hid
    obtain ⟨info, hinfo, rfl⟩ := List.mem_map.mp hid
    exact h.counted info (List.mem_filter.mp hinfo).1
  unfold World.removeWhere
  generalize (w.sdk.routes.filter selects).map (·.routeId) = ids at hids
  induction ids generalizing w with
  | nil => exact h
  | cons id ids ih =>
    obtain ⟨hnow, hnext⟩ := h.unregisterAndAwait (hids id List.mem_cons_self)
    apply ih hnow
    intro id' hid'
    rw [hnext]
    exact hids id' (List.mem_cons_of_mem _ hid')

/-! #### Events of the manager -/

theorem ensureEventsSubscribed (h : w.Inv crate) : w.ensureEventsSubscribed.Inv crate := by
  have hwanted := h.setFields true w.sdk.subscribedStream w.sdk.reopenTimer
  obtain ⟨hopen, hs, -, -⟩ := hwanted.ensureStream
  unfold World.ensureEventsSubscribed
  dsimp only
  split
  · exact hopen
  · refine World.Inv.write (hopen.setFields _ _ _) hs fun id hcon => ?_
    cases hcon

theorem unsubscribeIfUnused (h : w.Inv crate) : w.unsubscribeIfUnused.Inv crate := by
  unfold World.unsubscribeIfUnused
  dsimp only
  split
  · split
    · refine World.Inv.safeWrite (h.setFields _ _ _) fun id hcon => ?_
      cases hcon
    · exact h.setFields _ _ _
  · exact h

theorem reopen (h : w.Inv crate) : w.reopen.Inv crate := by
  have hfired := h.setFields w.sdk.eventsWanted w.sdk.subscribedStream false
  unfold World.reopen
  dsimp only
  split
  · exact hfired.ensureStream.1
  · exact hfired

/-- **The stream drops**: what was not confirmed is forgotten, and so is what was being removed. -/
theorem onStreamDropped (h : w.Inv crate) (s : ℕ) : (w.onStreamDropped s).1.Inv crate := by
  unfold World.onStreamDropped
  dsimp only
  by_cases hs : w.sdk.stream = some s
  · rw [if_pos hs]
    have hother : ∀ t, t ≠ s → ∀ stream, Function.update w.streams s stream t = w.streams t :=
      fun t ht stream => Function.update_of_ne ht _ _
    have hsame : ∀ stream, Function.update w.streams s stream s = stream :=
      fun stream => Function.update_self _ _ _
    have hkept : ∀ info ∈ w.sdk.routes.filter
        (·.routeId ∉ (w.streams s).registering ++ (w.streams s).removing),
        info ∈ w.sdk.routes ∧ info.routeId ∉ (w.streams s).registering := by
      intro info hinfo
      obtain ⟨hmem, hnot⟩ := List.mem_filter.mp hinfo
      exact ⟨hmem, fun hcon => of_decide_eq_true hnot (List.mem_append_left _ hcon)⟩
    constructor
    · exact h.ordered.filter _
    · exact fun info hinfo => h.counted info (hkept info hinfo).1
    · exact fun t ht => absurd ht (Option.some_ne_none t).symm
    · intro t _
      by_cases hts : t = s
      · subst hts
        show (Function.update w.streams t _ t).registering = []
          ∧ (Function.update w.streams t _ t).removing = []
        rw [hsame]
        exact ⟨rfl, rfl⟩
      · show (Function.update w.streams s _ t).registering = []
          ∧ (Function.update w.streams s _ t).removing = []
        rw [hother t hts]
        exact h.quiet t fun hcon => hts (Option.some_injective _ (hcon.symm.trans hs))
    · intro info hinfo hcon
      obtain ⟨hmem, hnot⟩ := hkept info hinfo
      obtain ⟨t, ht, hwait⟩ := h.waiting info hmem hcon
      obtain rfl := Option.some_injective _ (ht.symm.trans hs)
      exact absurd hwait hnot
    · exact fun info hinfo => h.compiles info (hkept info hinfo).1
    · exact fun t ht => absurd ht (Option.some_ne_none t).symm
    · intro t
      have hmono : ∀ stream : Stream, stream.Inv crate w.sdk.routes w.nextRoute →
          stream.Inv crate (w.sdk.routes.filter
            (·.routeId ∉ (w.streams s).registering ++ (w.streams s).removing)) w.nextRoute :=
        fun stream hstream => hstream.mono (Nat.le_refl _) fun info hinfo _ =>
          ⟨info, (hkept info hinfo).1, rfl, rfl⟩
      show (Function.update w.streams s _ t).Inv crate _ _
      by_cases hts : t = s
      · rw [hts, hsame]
        exact hmono _ ((h.streams s).listen fun id hid => absurd hid List.not_mem_nil)
      · rw [hother t hts]
        exact hmono _ (h.streams t)
    · intro t
      show (Function.update w.streams s _ t).Pending
      by_cases hts : t = s
      · rw [hts, hsame]
        exact .of_quiet rfl rfl
      · rw [hother t hts]
        exact h.pending t
    · intro t ht
      have hlt := h.current_lt hs
      have hle : w.opened ≤ t := ht
      refine (hother t (by omega) _).trans (h.unopened t ht)
    · exact h.accepted_le
    · intro t ht
      replace ht : (Function.update w.streams s _ t).Talks := ht
      by_cases hts : t = s
      · rw [hts, hsame] at ht
        rw [hts]
        exact h.talking s ht
      · rw [hother t hts] at ht
        exact h.talking t ht
    · exact h.arrived
    · exact h.matched
    · exact h.active
  · -- a stream that was replaced before: nobody waits on it any more
    obtain ⟨hregistering, hremoving⟩ := h.quiet s hs
    rw [if_neg hs, hregistering, hremoving]
    have hall : w.sdk.routes.filter (·.routeId ∉ ([] : List ℕ) ++ []) = w.sdk.routes :=
      List.filter_eq_self.mpr fun _ _ => rfl
    have hstream : ∀ stream : Stream, stream.registering = [] → stream.removing = [] →
        { stream with registering := [], removing := [] } = stream := by
      rintro ⟨link, toSdk, out, registering, removing⟩ rfl rfl
      rfl
    rw [hall, hstream _ hregistering hremoving]
    unfold World.setStream
    rw [Function.update_eq_self]
    exact h

/-! #### Messages of the daemon -/

theorem lt_of_talks (h : w.Inv crate) (htalks : (w.streams s).Talks) : s < w.opened :=
  Nat.lt_of_lt_of_le (h.talking s htalks) h.accepted_le

/-- Only on the open stream does a call wait. -/
theorem current_of_registering (h : w.Inv crate) (hid : id ∈ (w.streams s).registering) :
    w.sdk.stream = some s := by
  by_contra hs
  rw [(h.quiet s hs).1] at hid
  exact absurd hid List.not_mem_nil

theorem current_of_removing (h : w.Inv crate) (hid : id ∈ (w.streams s).removing) :
    w.sdk.stream = some s := by
  by_contra hs
  rw [(h.quiet s hs).2] at hid
  exact absurd hid List.not_mem_nil

section Deliver

variable {m : ServerMessage} {rest : List ServerMessage}

/-- A message that no call waits for. -/
theorem pop (h : w.Inv crate) (hout : (w.streams s).out = m :: rest)
    (hregistering : ∀ id ∈ (w.streams s).registering, ∀ success,
      m ≠ .registerRouteResponse id success)
    (hremoving : ∀ id ∈ (w.streams s).removing, m ≠ .unregisterRouteResponse id) :
    (w.setStream s { w.streams s with out := rest }).Inv crate := by
  have hne : (w.streams s).Talks := by
    right
    rw [hout]
    exact List.cons_ne_nil _ _
  exact h.onStream (h.lt_of_talks hne) rfl rfl rfl ((h.streams s).deliver hout)
    ((h.pending s).deliver hout (fun id hid => ⟨hid, hregistering id hid⟩)
      fun id hid => ⟨hid, hremoving id hid⟩) fun _ => h.talking s hne

/-- The answer that a call of `addRoute` waits for. -/
theorem onRegistered {success : Bool} (h : w.Inv crate)
    (hout : (w.streams s).out = .registerRouteResponse id success :: rest) :
    ((w.setStream s { w.streams s with out := rest }).onRegistered s id success).Inv crate := by
  have hself : (w.setStream s { w.streams s with out := rest }).streams s
      = { w.streams s with out := rest } := Function.update_self _ _ _
  unfold World.onRegistered
  dsimp only
  rw [hself]
  by_cases hid : id ∈ (w.streams s).registering
  · have hs := h.current_of_registering hid
    have hmem : ServerMessage.registerRouteResponse id success ∈ (w.streams s).out := by
      rw [hout]
      exact List.mem_cons_self
    have htruthful := (h.streams s).truthful id success hmem
    have hne : (w.streams s).Talks := .inr (List.ne_nil_of_mem hmem)
    have hleft : ∀ id' ∈ (w.streams s).registering.filter (· ≠ id), id' ∈ (w.streams s).registering ∧
        ∀ success', ServerMessage.registerRouteResponse id success
          ≠ .registerRouteResponse id' success' := by
      intro id' hid'
      obtain ⟨hin, hdiff⟩ := List.mem_filter.mp hid'
      refine ⟨hin, fun success' hcon => of_decide_eq_true hdiff ?_⟩
      cases hcon
      rfl
    have hpending : Stream.Pending
        { w.streams s with
          out := rest, registering := (w.streams s).registering.filter (· ≠ id) } :=
      (h.pending s).deliver hout hleft fun id' hid' => ⟨hid', fun hcon => by cases hcon⟩
    have hstream : Stream.Inv crate w.sdk.routes w.nextRoute
        { w.streams s with
          out := rest, registering := (w.streams s).registering.filter (· ≠ id) } :=
      ((h.streams s).deliver hout).listen (h.streams s).removing_lt
    have hwait : ∀ info ∈ w.sdk.routes, info.confirmed = false → info.routeId ≠ id →
        info.routeId ∈ (w.streams s).registering.filter (· ≠ id) := by
      intro info hinfo hcon hdiff
      obtain ⟨t, ht, hwaits⟩ := h.waiting info hinfo hcon
      obtain rfl := Option.some_injective _ (ht.symm.trans hs)
      exact List.mem_filter.mpr ⟨hwaits, decide_eq_true hdiff⟩
    rw [if_pos hid]
    unfold World.setStream
    dsimp only
    rw [Function.update_idem]
    cases success with
    | true =>
      rw [if_pos rfl]
      have hsame : ∀ i : RegisteredRouteInfo,
          (if i.routeId = id then { i with confirmed := true } else i).routeId = i.routeId ∧
          (if i.routeId = id then { i with confirmed := true } else i).urlPattern
            = i.urlPattern := by
        intro i
        split <;> exact ⟨rfl, rfl⟩
      apply h.onCurrent (n := w.nextRoute) hs
      · refine List.pairwise_map.mpr (h.ordered.imp fun {i i'} hlt => ?_)
        rw [(hsame i).1, (hsame i').1]
        exact hlt
      · intro i hi
        obtain ⟨old, hold, rfl⟩ := List.mem_map.mp hi
        rw [(hsame old).1]
        exact h.counted old hold
      · intro i hi hcon
        obtain ⟨old, hold, rfl⟩ := List.mem_map.mp hi
        rw [(hsame old).1]
        by_cases hdiff : old.routeId = id
        · rw [if_pos hdiff] at hcon
          cases hcon
        · rw [if_neg hdiff] at hcon
          exact hwait old hold hcon hdiff
      · intro i hi hcon
        obtain ⟨old, hold, rfl⟩ := List.mem_map.mp hi
        rw [(hsame old).2]
        by_cases hdiff : old.routeId = id
        · exact htruthful old hold hdiff
        · rw [if_neg hdiff] at hcon
          exact h.compiles old hold hcon
      · exact (h.agrees s hs).trans
          (expected_map (fun i => (hsame i).1) fun i => (hsame i).2).symm
      · refine hstream.mono (Nat.le_refl _) fun i hi _ => ?_
        obtain ⟨old, hold, rfl⟩ := List.mem_map.mp hi
        exact ⟨old, hold, (hsame old).1.symm, (hsame old).2.symm⟩
      · exact hpending
      · exact Nat.le_refl _
      · intro i hi _
        obtain ⟨old, hold, rfl⟩ := List.mem_map.mp hi
        exact ⟨old, hold, (hsame old).1.symm, (hsame old).2.symm⟩
      · exact fun _ => h.talking s hne
    | false =>
      rw [if_neg Bool.false_ne_true]
      have hkept : ∀ i ∈ w.sdk.routes.filter (·.routeId ≠ id), i ∈ w.sdk.routes ∧
          i.routeId ≠ id := fun i hi =>
        ⟨(List.mem_filter.mp hi).1, of_decide_eq_true (List.mem_filter.mp hi).2⟩
      apply h.onCurrent (n := w.nextRoute) hs
      · exact h.ordered.filter _
      · exact fun i hi => h.counted i (hkept i hi).1
      · exact fun i hi hcon => hwait i (hkept i hi).1 hcon (hkept i hi).2
      · exact fun i hi => h.compiles i (hkept i hi).1
      · refine (h.agrees s hs).trans (expected_refused fun i hi hdiff => ?_).symm
        rw [RegisteredRouteInfo.compiled, Option.map_eq_none_iff]
        exact Option.not_isSome_iff_eq_none.mp (Bool.eq_false_iff.mp (htruthful i hi hdiff))
      · exact hstream.mono (Nat.le_refl _) fun i hi _ => ⟨i, (hkept i hi).1, rfl, rfl⟩
      · exact hpending
      · exact Nat.le_refl _
      · exact fun i hi _ => ⟨i, (hkept i hi).1, rfl, rfl⟩
      · exact fun _ => h.talking s hne
  · rw [if_neg hid]
    refine h.pop hout (fun id' hid' success' hcon => ?_) fun id' _ hcon => ?_
    · cases hcon
      exact hid hid'
    · cases hcon

/-- The answer that calls of `_unregisterAndAwait` wait for. -/
theorem onUnregistered (h : w.Inv crate)
    (hout : (w.streams s).out = .unregisterRouteResponse id :: rest) :
    ((w.setStream s { w.streams s with out := rest }).onUnregistered s id).1.Inv crate := by
  have hself : (w.setStream s { w.streams s with out := rest }).streams s
      = { w.streams s with out := rest } := Function.update_self _ _ _
  unfold World.onUnregistered
  dsimp only
  rw [hself]
  by_cases hid : id ∈ (w.streams s).removing
  · have hs := h.current_of_removing hid
    have hne : (w.streams s).Talks := by
      right
      rw [hout]
      exact List.cons_ne_nil _ _
    have hkept : ∀ i ∈ w.sdk.routes.filter (·.routeId ≠ id), i ∈ w.sdk.routes := fun i hi =>
      (List.mem_filter.mp hi).1
    rw [if_pos hid]
    unfold World.setStream World.deleteRoute
    dsimp only
    rw [Function.update_idem]
    apply h.onCurrent (n := w.nextRoute) hs
    · exact h.ordered.filter _
    · exact fun i hi => h.counted i (hkept i hi)
    · intro i hi hcon
      obtain ⟨t, ht, hwaits⟩ := h.waiting i (hkept i hi) hcon
      obtain rfl := Option.some_injective _ (ht.symm.trans hs)
      exact hwaits
    · exact fun i hi => h.compiles i (hkept i hi)
    · exact (h.agrees s hs).trans (expected_removed hid).symm
    · refine (((h.streams s).deliver hout).listen fun id' hid' => ?_).mono (Nat.le_refl _)
        fun i hi _ => ⟨i, hkept i hi, rfl, rfl⟩
      exact (h.streams s).removing_lt id' (List.mem_filter.mp hid').1
    · refine (h.pending s).deliver hout (fun id' hid' => ⟨hid', fun _ hcon => ?_⟩)
        fun id' hid' => ?_
      · cases hcon
      · obtain ⟨hin, hdiff⟩ := List.mem_filter.mp hid'
        refine ⟨hin, fun hcon => of_decide_eq_true hdiff ?_⟩
        cases hcon
        rfl
    · exact Nat.le_refl _
    · exact fun i hi _ => ⟨i, hkept i hi, rfl, rfl⟩
    · exact fun _ => h.talking s hne
  · rw [if_neg hid]
    refine h.pop hout (fun id' _ success' hcon => ?_) fun id' hid' hcon => ?_
    · cases hcon
    · cases hcon
      exact hid hid'

end Deliver

/-- A route is used up, or counted down. -/
theorem countDown {info : RegisteredRouteInfo} (h : w.Inv crate) (hinfo : info ∈ w.sdk.routes) :
    (w.countDown info).Inv crate := by
  have hkept : ∀ i ∈ w.sdk.routes.filter (·.routeId ≠ info.routeId), i ∈ w.sdk.routes :=
    fun i hi => (List.mem_filter.mp hi).1
  unfold World.countDown
  split
  · exact h
  · rename_i remaining _
    split
    · unfold World.safeWrite
      cases hs : w.sdk.stream with
      | none =>
        have hs' : (w.deleteRoute info.routeId).sdk.stream = none := hs
        rw [hs']
        refine h.setRoutes (h.ordered.filter _) (fun i hi => ⟨i, hkept i hi, rfl, rfl, rfl⟩)
          fun t ht => ?_
        rw [hs] at ht
        cases ht
      | some s =>
        have hs' : (w.deleteRoute info.routeId).sdk.stream = some s := hs
        rw [hs']
        apply h.onCurrent (n := w.nextRoute) hs
        · exact h.ordered.filter _
        · exact fun i hi => h.counted i (hkept i hi)
        · intro i hi hcon
          obtain ⟨t, ht, hwaits⟩ := h.waiting i (hkept i hi) hcon
          obtain rfl := Option.some_injective _ (ht.symm.trans hs)
          exact hwaits
        · exact fun i hi => h.compiles i (hkept i hi)
        · refine (ahead_send.trans ?_).trans expected_delete.symm
          rw [show (w.deleteRoute info.routeId).streams = w.streams from rfl, h.agrees s hs]
          rfl
        · exact ((h.streams s).unregister (h.counted info hinfo)).mono (Nat.le_refl _)
            fun i hi _ => ⟨i, hkept i hi, rfl, rfl⟩
        · exact (h.pending s).mono rfl rfl (fun _ => List.mem_append_left _) fun _ => id
        · exact Nat.le_refl _
        · exact fun i hi _ => ⟨i, hkept i hi, rfl, rfl⟩
        · exact h.talking s
    · have hsame : ∀ i : RegisteredRouteInfo,
          (if i.routeId = info.routeId then { i with timesRemaining := some (remaining - 1) }
            else i).routeId = i.routeId ∧
          (if i.routeId = info.routeId then { i with timesRemaining := some (remaining - 1) }
            else i).urlPattern = i.urlPattern ∧
          (if i.routeId = info.routeId then { i with timesRemaining := some (remaining - 1) }
            else i).confirmed = i.confirmed := by
        intro i
        split <;> exact ⟨rfl, rfl, rfl⟩
      refine h.setRoutes (List.pairwise_map.mpr (h.ordered.imp fun {i i'} hlt => ?_))
        (fun i hi => ?_) fun s _ => expected_map (fun i => (hsame i).1) fun i => (hsame i).2.1
      · rw [(hsame i).1, (hsame i').1]
        exact hlt
      · obtain ⟨old, hold, rfl⟩ := List.mem_map.mp hi
        exact ⟨old, hold, (hsame old).1.symm, (hsame old).2.1.symm, (hsame old).2.2.symm⟩

theorem handleInterceptedRequest (h : w.Inv crate) (request : InterceptedRequest) (accepts : Bool) :
    (w.handleInterceptedRequest request accepts).1.Inv crate := by
  unfold World.handleInterceptedRequest
  split
  · refine h.safeWrite fun id hcon => ?_
    cases hcon
  · rename_i info hinfo
    split
    · refine h.safeWrite fun id hcon => ?_
      cases hcon
    · exact h.countDown (List.mem_of_find?_eq_some hinfo)

/-- A request in the proxy is matched. -/
theorem matchRequest {i : ℕ} {url : List Char} (h : w.Inv crate)
    (hget : w.arrived[i]? = some (s, url)) : (w.matchRequest i s url).1.Inv crate := by
  have hs : s < w.accepted := h.arrived _ (List.mem_of_getElem? hget)
  have harrived : ∀ r ∈ w.arrived.eraseIdx i, r.1 < w.accepted := fun r hr =>
    h.arrived r (List.mem_of_mem_eraseIdx hr)
  unfold World.matchRequest
  dsimp only
  split
  · exact h.setRequests harrived h.matched w.nextIntercept
  · refine h.setRequests harrived (fun r hr => ?_) (w.nextIntercept + 1)
    rcases List.mem_append.mp hr with hr | hr
    · exact h.matched r hr
    · rw [List.mem_singleton.mp hr]
      exact hs

/-- **A step.** -/
theorem step {op : Op} {w' : World} {events : List Event} (h : w.Inv crate)
    (hstep : w.step crate op = some (w', events)) : w'.Inv crate := by
  cases op with
  | addRoute pattern handler times scope =>
    cases hstep
    exact h.addRoute pattern handler times scope
  | removeRoute pattern handler =>
    cases hstep
    exact h.removeWhere _
  | removeAllRoutes =>
    cases hstep
    exact h.removeWhere _
  | removeTestRoutes =>
    cases hstep
    exact h.removeWhere _
  | removeScopeRoutes scope =>
    cases hstep
    exact h.removeWhere _
  | ensureEventsSubscribed =>
    cases hstep
    exact h.ensureEventsSubscribed
  | unsubscribe =>
    cases hstep
    exact h.unsubscribeIfUnused
  | decide interceptId =>
    cases hstep
    refine h.safeWrite fun id hcon => ?_
    cases hcon
  | reopen =>
    rw [World.step] at hstep
    split at hstep
    · cases hstep
      exact h.reopen
    · cases hstep
  | drop s =>
    rw [World.step] at hstep
    split at hstep
    · obtain rfl := congrArg Prod.fst (Option.some.inj hstep)
      exact h.onStreamDropped s
    · cases hstep
  | deliver s accepts =>
    rw [World.step] at hstep
    split at hstep
    · cases hstep
    · rename_i m rest hout
      obtain rfl := congrArg Prod.fst (Option.some.inj hstep)
      cases m with
      | registerRouteResponse id success => exact h.onRegistered hout
      | unregisterRouteResponse id => exact h.onUnregistered hout
      | interceptedRequest request =>
        refine World.Inv.handleInterceptedRequest (h.pop hout ?_ ?_) request accepts
        · exact fun id _ success hcon => by cases hcon
        · exact fun id _ hcon => by cases hcon
  | accept s =>
    rw [World.step] at hstep
    split at hstep
    · rename_i hs
      have hlater : ∀ t, t < w.accepted → t < s + 1 := fun t ht =>
        Nat.lt_succ_of_lt (Nat.lt_of_lt_of_le ht hs.1)
      cases hstep
      refine ⟨h.ordered, h.counted, h.newest, h.quiet, h.waiting, h.compiles, h.agrees, h.streams,
        h.pending, h.unopened, hs.2, fun t ht => hlater _ (h.talking t ht),
        fun r hr => hlater _ (h.arrived r hr), fun r hr => hlater _ (h.matched r hr),
        fun t ht => ?_⟩
      · cases ht
        rfl
    · cases hstep
  | read s =>
    rw [World.step] at hstep
    split at hstep
    · rename_i hs
      obtain ⟨⟨m, link⟩, hread, heq⟩ := Option.map_eq_some_iff.mp hstep
      cases heq
      exact h.onStream (Nat.lt_of_lt_of_le hs h.accepted_le) rfl rfl (ahead_receive hread)
        ((h.streams s).read hread) ((h.pending s).read hread) fun _ => hs
    · cases hstep
  | close s =>
    rw [World.step] at hstep
    split at hstep
    · cases hstep
      refine ⟨h.ordered, h.counted, h.newest, h.quiet, h.waiting, h.compiles, h.agrees, h.streams,
        h.pending, h.unopened, h.accepted_le, h.talking, h.arrived, h.matched,
        fun t ht => h.active t ?_⟩
      have ht' : (if w.activeHandler = some s then none else w.activeHandler) = some t := ht
      split at ht'
      · cases ht'
      · exact ht'
    · cases hstep
  | request url =>
    rw [World.step] at hstep
    split at hstep
    · cases hstep
      exact h
    · rename_i s hs
      cases hstep
      refine h.setRequests (fun r hr => ?_) h.matched w.nextIntercept
      rcases List.mem_append.mp hr with hr | hr
      · exact h.arrived r hr
      · rw [List.mem_singleton.mp hr]
        exact h.active s hs ▸ Nat.lt_succ_self s
  | matchRoute i =>
    rw [World.step] at hstep
    obtain ⟨⟨s, url⟩, hget, heq⟩ := Option.map_eq_some_iff.mp hstep
    obtain rfl := congrArg Prod.fst heq
    exact h.matchRequest hget
  | intercept i =>
    rw [World.step] at hstep
    obtain ⟨⟨s, request⟩, hget, heq⟩ := Option.map_eq_some_iff.mp hstep
    cases heq
    have hs : s < w.accepted := h.matched _ (List.mem_of_getElem? hget)
    have hmatched : ∀ r ∈ w.matched.eraseIdx i, r.1 < w.accepted := fun r hr =>
      h.matched r (List.mem_of_mem_eraseIdx hr)
    have hleft := h.setRequests h.arrived hmatched w.nextIntercept
    exact hleft.onStream (Nat.lt_of_lt_of_le hs h.accepted_le) rfl rfl rfl
      ((h.streams s).hand _) ((h.pending s).mono rfl rfl (fun _ => id) fun _ => id) fun _ => hs
  | forward s =>
    rw [World.step] at hstep
    split at hstep
    · cases hstep
    · rename_i request rest htoSdk
      cases hstep
      have hs : s < w.accepted := h.talking s (.inl (htoSdk ▸ List.cons_ne_nil _ _))
      refine h.onStream (Nat.lt_of_lt_of_le hs h.accepted_le) rfl rfl rfl
        (((h.streams s).hand rest).push fun id hcon => ?_)
        ((h.pending s).mono rfl rfl (fun _ => id) fun _ => List.mem_append_left _) fun _ => hs
      cases hcon

end World.Inv

/-- The invariant holds throughout every run. -/
theorem World.Inv.run {events : List (List Event)} {w : World}
    (h : Run (Steps (World.step crate)) World.init events w) : w.Inv crate :=
  h.invariant (fun _ _ _ hinv ⟨_, hstep⟩ => hinv.step hstep) World.Inv.init

/-! ### What the daemon ends up with -/

/-- The daemon would find that a route of the SDK covers a URL. -/
def RegisteredRouteInfo.covers (crate : RegexCrate) (url : List Char) (info : RegisteredRouteInfo) :
    Bool :=
  (info.compiled crate).any (·.isMatch url)

/-- The last route that covers the URL wins, and it is not one that is being removed. -/
theorem matchRoute_expected {routes : List RegisteredRouteInfo} {removing : List ℕ}
    {url : List Char} : matchRoute (expected crate routes removing) url
      = ((routes.filter (·.routeId ∉ removing)).reverse.find? (·.covers crate url)).map
          (·.routeId) := by
  have hexpected : expected crate routes removing
      = (routes.filter (·.routeId ∉ removing)).filterMap (·.compiled crate) := by
    rw [expected, List.filterMap_filter]
    congr 1
    funext info
    by_cases hid : info.routeId ∈ removing
    · simp [hid]
    · simp [hid]
  rw [hexpected, matchRoute, ← List.filterMap_reverse, List.find?_filterMap]
  generalize (routes.filter (·.routeId ∉ removing)).reverse = candidates
  show ((candidates.find? (·.covers crate url)).bind (·.compiled crate)).map (·.routeId) = _
  cases hfind : candidates.find? (·.covers crate url) with
  | none => rfl
  | some info =>
    have hcovers : info.covers crate url = true :=
      List.find?_some (p := fun i : RegisteredRouteInfo => i.covers crate url) hfind
    rw [RegisteredRouteInfo.covers] at hcovers
    rw [Option.bind_some]
    cases hcompiled : info.compiled crate with
    | none =>
      rw [hcompiled] at hcovers
      cases hcovers
    | some r => exact congrArg some (routeId_of_compiled hcompiled)

/-- With no message on its way either, every call has its answer. -/
theorem World.Inv.expected_of_quiet {w : World} {s : ℕ} (h : w.Inv crate)
    (hs : w.sdk.stream = some s) (hqueue : (w.streams s).link.queue = [])
    (hout : (w.streams s).out = []) :
    (expected crate w.sdk.routes (w.streams s).removing).map (·.routeId)
      = w.sdk.routes.map (·.routeId) := by
  have hremoving : ∀ id, id ∉ (w.streams s).removing := by
    intro id hid
    rcases (h.pending s).removal id hid with hm | hm
    · rw [hqueue] at hm
      exact List.not_mem_nil hm
    · rw [hout] at hm
      exact List.not_mem_nil hm
  have hconfirmed : ∀ info ∈ w.sdk.routes, info.confirmed = true := by
    intro info hinfo
    by_contra hcon
    obtain ⟨t, ht, hid⟩ := h.waiting info hinfo (Bool.eq_false_iff.mpr hcon)
    obtain rfl := Option.some_injective _ (ht.symm.trans hs)
    rcases (h.pending t).registration _ hid with ⟨urlPattern, hm⟩ | ⟨success, hm⟩
    · rw [hqueue] at hm
      exact List.not_mem_nil hm
    · rw [hout] at hm
      exact List.not_mem_nil hm
  have hcompiled : ∀ info ∈ w.sdk.routes, ∃ r, (if info.routeId ∈ (w.streams s).removing then none
      else info.compiled crate) = some r ∧ r.routeId = info.routeId := by
    intro info hinfo
    obtain ⟨isMatch, hmatch⟩ :=
      Option.isSome_iff_exists.mp (h.compiles info hinfo (hconfirmed info hinfo))
    refine ⟨{ routeId := info.routeId, isMatch }, ?_, rfl⟩
    rw [if_neg (hremoving _), RegisteredRouteInfo.compiled, hmatch]
    rfl
  unfold expected
  generalize w.sdk.routes = routes at hcompiled
  induction routes with
  | nil => rfl
  | cons info routes ih =>
    obtain ⟨r, hr, hid⟩ := hcompiled info List.mem_cons_self
    rw [List.filterMap_cons, hr]
    show r.routeId :: (List.filterMap _ routes).map (fun x : RegisteredRoute => x.routeId) = _
    rw [ih fun i hi => hcompiled i (List.mem_cons_of_mem _ hi), hid]
    rfl

/-- **Routes survive.**  In every run, however often the stream has dropped and was opened again:
    once the daemon has read what was written on the open stream, it has the routes of the SDK in
    the order in which they were added, but for those that are being removed (and those whose
    pattern it has refused); the last of them that covers a URL is the one that wins; and once the
    answers are delivered too, both sides have the same routes. -/
theorem routes_survive {events : List (List Event)} {w : World} {s : ℕ}
    (h : Run (Steps (World.step crate)) World.init events w) (hs : w.sdk.stream = some s)
    (hread : (w.streams s).link.queue = []) :
    (w.streams s).link.copy = expected crate w.sdk.routes (w.streams s).removing ∧
    w.sdk.routes.Pairwise (fun info info' => info.routeId < info'.routeId) ∧
    (∀ url, matchRoute (w.streams s).link.copy url
      = ((w.sdk.routes.filter (·.routeId ∉ (w.streams s).removing)).reverse.find?
          (·.covers crate url)).map (·.routeId)) ∧
    ((w.streams s).out = [] →
      (w.streams s).link.copy.map (·.routeId) = w.sdk.routes.map (·.routeId)) := by
  have hinv := World.Inv.run h
  have hcopy : (w.streams s).link.copy = expected crate w.sdk.routes (w.streams s).removing :=
    (ahead_of_drained hread).symm.trans (hinv.agrees s hs)
  refine ⟨hcopy, hinv.ordered, fun url => ?_, fun hout => ?_⟩
  · rw [hcopy]
    exact matchRoute_expected
  · rw [hcopy]
    exact hinv.expected_of_quiet hs hread hout

/-- The crate on the text of a URL, which stands for itself. -/
def literalCrate : RegexCrate where
  escape := id
  new source := some fun url => source = '^' :: (url ++ ['$'])
  tooLarge _ := false

/-- A route is added and confirmed; the stream drops, is opened again and read. -/
def reconnecting : List Op :=
  [.addRoute (.glob "http://app/api".toList) 0 none none, .accept 0, .read 0, .deliver 0 true,
    .drop 0, .reopen, .accept 1, .read 1]

/-- The daemon has the route again. -/
theorem routes_survive_reconnecting : ∃ w events,
    exec (World.step literalCrate) World.init reconnecting = some (w, events) ∧
    (w.streams 1).link.copy = expected literalCrate w.sdk.routes (w.streams 1).removing ∧
    w.sdk.routes.map (·.routeId) = [0] := by
  have hexec : exec (World.step literalCrate) World.init reconnecting = some (_, _) := rfl
  exact ⟨_, _, hexec, (routes_survive (exec_run hexec) (s := 1) rfl rfl).1, rfl⟩

end Tapsmith.Route.Registry
