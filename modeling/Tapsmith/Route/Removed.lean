import Tapsmith.Route.Reconnect

namespace Tapsmith.Route.Registry

open Lib.Channel Lib.Machine

/-!
# Routes that are removed, or used up

What `await unroute()` and the option `times` promise, whatever else is on its way and however
often the stream drops.

* `World.Keeps` — no route is brought back, and what is left of its `times` stays;
* `World.Effect` — all that a step may do: it keeps that, or calls a handler and counts it down;
* `removed_for_good` — a route that was removed has no handler called any more, and nothing that
  arrives later is matched with it once the daemon has answered;
* `called_at_most` — a route with `times` is not called more often than that.
-/

variable {crate : RegexCrate}

/-! ### What a step keeps -/

/-- The routes of `w'` that are known in `w` were there, with as many calls left; and what a stream
    does not have of the others it does not get. -/
structure World.Keeps (w w' : World) : Prop where
  routes : ∀ info ∈ w'.sdk.routes, info.routeId < w.nextRoute → ∃ old ∈ w.sdk.routes,
    old.routeId = info.routeId ∧ old.timesRemaining = info.timesRemaining
  nextRoute : w.nextRoute ≤ w'.nextRoute
  accepted : w.accepted ≤ w'.accepted
  without : ∀ id, id < w.nextRoute → (∀ info ∈ w.sdk.routes, info.routeId ≠ id) →
    ∀ t, (w.streams t).Without id → (w'.streams t).Without id

namespace World.Keeps

variable {w w' w'' : World} {s id : ℕ}

/-- What neither the routes nor the streams show. -/
theorem of_eq (hroutes : w'.sdk.routes = w.sdk.routes) (hnext : w'.nextRoute = w.nextRoute)
    (haccepted : w.accepted ≤ w'.accepted) (hstreams : w'.streams = w.streams) : w.Keeps w' where
  routes := fun info hinfo _ => ⟨info, hroutes ▸ hinfo, rfl, rfl⟩
  nextRoute := hnext.ge
  accepted := haccepted
  without := fun _ _ _ _ ht => hstreams ▸ ht

theorem refl : w.Keeps w := of_eq rfl rfl (Nat.le_refl _) rfl

theorem trans (h : w.Keeps w') (h' : w'.Keeps w'') : w.Keeps w'' where
  routes := by
    intro info hinfo hlt
    obtain ⟨mid, hmid, hid, htimes⟩ :=
      h'.routes info hinfo (Nat.lt_of_lt_of_le hlt h.nextRoute)
    obtain ⟨old, hold, hid', htimes'⟩ := h.routes mid hmid (hid ▸ hlt)
    exact ⟨old, hold, hid'.trans hid, htimes'.trans htimes⟩
  nextRoute := h.nextRoute.trans h'.nextRoute
  accepted := h.accepted.trans h'.accepted
  without := by
    intro id hid hnone t ht
    refine h'.without id (Nat.lt_of_lt_of_le hid h.nextRoute) (fun info hinfo hcon => ?_) t
      (h.without id hid hnone t ht)
    obtain ⟨old, hold, hsame, -⟩ := h.routes info hinfo (hcon ▸ hid)
    exact hnone old hold (hsame.trans hcon)

/-- One stream changes. -/
theorem setStream {stream : Stream}
    (h : ∀ id, id < w.nextRoute → (w.streams s).Without id → stream.Without id) :
    w.Keeps (w.setStream s stream) where
  routes := fun info hinfo _ => ⟨info, hinfo, rfl, rfl⟩
  nextRoute := Nat.le_refl _
  accepted := Nat.le_refl _
  without := by
    intro id hid _ t ht
    show (Function.update w.streams s stream t).Without id
    by_cases hts : t = s
    · subst hts
      rw [Function.update_self]
      exact h id hid ht
    · rw [Function.update_of_ne hts]
      exact ht

/-- Routes are deleted, or confirmed. -/
theorem setRoutes {routes : List RegisteredRouteInfo}
    (h : ∀ info ∈ routes, ∃ old ∈ w.sdk.routes,
      old.routeId = info.routeId ∧ old.timesRemaining = info.timesRemaining) :
    w.Keeps (w.setRoutes routes) where
  routes := fun info hinfo _ => h info hinfo
  nextRoute := Nat.le_refl _
  accepted := Nat.le_refl _
  without := fun _ _ _ _ ht => ht

theorem deleteRoute : w.Keeps (w.deleteRoute id) :=
  setRoutes fun info hinfo => ⟨info, (List.mem_filter.mp hinfo).1, rfl, rfl⟩

theorem write {m : ClientMessage}
    (hm : ∀ id urlPattern, id < w.nextRoute → m ≠ .registerRoute id urlPattern) :
    w.Keeps (w.write s m) :=
  setStream fun id hid h => h.send fun urlPattern => hm id urlPattern hid

theorem safeWrite {m : ClientMessage}
    (hm : ∀ id urlPattern, id < w.nextRoute → m ≠ .registerRoute id urlPattern) :
    w.Keeps (w.safeWrite m) := by
  unfold World.safeWrite
  split
  · exact write hm
  · exact refl

/-- What is replayed are routes that are there. -/
theorem openStream : w.Keeps w.openStream where
  routes := fun info hinfo _ => ⟨info, hinfo, rfl, rfl⟩
  nextRoute := Nat.le_refl _
  accepted := Nat.le_refl _
  without := by
    intro id _ hnone t ht
    show (Function.update w.streams w.opened _ t).Without id
    by_cases hts : t = w.opened
    · subst hts
      rw [Function.update_self]
      refine ⟨fun r hr => absurd hr List.not_mem_nil, fun urlPattern hm => ?_⟩
      rcases World.Inv.mem_replayed hm with hcon | ⟨info, hinfo, heq⟩
      · cases hcon
      · cases heq
        exact hnone info hinfo rfl
    · rw [Function.update_of_ne hts]
      exact ht

theorem ensureStream : w.Keeps w.ensureStream.2 := by
  unfold World.ensureStream
  split
  · exact refl
  · exact openStream

/-- The new route is the only one that is registered. -/
theorem addRoute (originalPattern : UrlPattern) (handler : ℕ) (times : Option ℤ)
    (scope : Option ℕ) : w.Keeps (w.addRoute originalPattern handler times scope) := by
  unfold World.addRoute
  dsimp only
  generalize hinfo : RegisteredRouteInfo.unconfirmed w.nextRoute originalPattern handler times scope
    = info
  have hid : info.routeId = w.nextRoute := hinfo ▸ rfl
  have hadded : w.Keeps
      { w.setRoutes (w.sdk.routes ++ [info]) with nextRoute := w.nextRoute + 1 } := by
    refine ⟨fun i hi hlt => ?_, Nat.le_succ _, Nat.le_refl _, fun _ _ _ _ ht => ht⟩
    rcases List.mem_append.mp hi with hi | hi
    · exact ⟨i, hi, rfl, rfl⟩
    · rw [List.mem_singleton.mp hi, hid] at hlt
      exact absurd hlt (Nat.lt_irrefl _)
  have hopen := hadded.trans ensureStream
  generalize World.ensureStream
    { w.setRoutes (w.sdk.routes ++ [info]) with nextRoute := w.nextRoute + 1 } = r at hopen ⊢
  refine ⟨hopen.routes, hopen.nextRoute, hopen.accepted, fun id hlt hnone t ht => ?_⟩
  have ht' := hopen.without id hlt hnone t ht
  show (Function.update r.2.streams r.1 _ t).Without id
  by_cases hts : t = r.1
  · subst hts
    rw [Function.update_self]
    refine ht'.send fun urlPattern hcon => ?_
    cases hcon
    exact Nat.ne_of_lt hlt hid
  · rw [Function.update_of_ne hts]
    exact ht'

theorem unregisterAndAwait : w.Keeps (w.unregisterAndAwait id) := by
  refine ensureStream.trans (setStream fun id' _ h => h.send fun urlPattern hcon => ?_)
  cases hcon

theorem removeWhere (selects : RegisteredRouteInfo → Bool) : w.Keeps (w.removeWhere selects) := by
  unfold World.removeWhere
  generalize (w.sdk.routes.filter selects).map (·.routeId) = ids
  induction ids generalizing w with
  | nil => exact refl
  | cons id ids ih => exact unregisterAndAwait.trans ih

theorem ensureEventsSubscribed : w.Keeps w.ensureEventsSubscribed := by
  have hwanted : w.Keeps { w with sdk := { w.sdk with eventsWanted := true } } :=
    of_eq rfl rfl (Nat.le_refl _) rfl
  have hopen := hwanted.trans ensureStream
  unfold World.ensureEventsSubscribed
  dsimp only
  split
  · exact hopen
  · refine hopen.trans (trans ?_ (write fun _ _ _ hcon => ?_))
    · exact of_eq rfl rfl (Nat.le_refl _) rfl
    · cases hcon

theorem unsubscribeIfUnused : w.Keeps w.unsubscribeIfUnused := by
  unfold World.unsubscribeIfUnused
  dsimp only
  split
  · split
    · refine trans ?_ (safeWrite fun _ _ _ hcon => ?_)
      · exact of_eq rfl rfl (Nat.le_refl _) rfl
      · cases hcon
    · exact of_eq rfl rfl (Nat.le_refl _) rfl
  · exact refl

theorem reopen : w.Keeps w.reopen := by
  unfold World.reopen
  dsimp only
  split
  · refine trans ?_ ensureStream
    exact of_eq rfl rfl (Nat.le_refl _) rfl
  · exact of_eq rfl rfl (Nat.le_refl _) rfl

theorem onStreamDropped : w.Keeps (w.onStreamDropped s).1 := by
  unfold World.onStreamDropped
  dsimp only
  refine trans ?_ (setStream fun _ _ h => h)
  refine ⟨fun info hinfo _ => ⟨info, ?_, rfl, rfl⟩, Nat.le_refl _, Nat.le_refl _,
    fun _ _ _ _ ht => ht⟩
  have hmem := (List.mem_filter.mp hinfo).1
  split at hmem <;> exact hmem

theorem onRegistered {success : Bool} : w.Keeps (w.onRegistered s id success) := by
  unfold World.onRegistered
  dsimp only
  split
  · split
    · refine trans ?_ (setRoutes fun info hinfo => ?_)
      · exact setStream fun _ _ h => h
      · obtain ⟨old, hold, rfl⟩ := List.mem_map.mp hinfo
        refine ⟨old, hold, ?_⟩
        split <;> exact ⟨rfl, rfl⟩
    · refine trans ?_ deleteRoute
      exact setStream fun _ _ h => h
  · exact refl

theorem onUnregistered : w.Keeps (w.onUnregistered s id).1 := by
  unfold World.onUnregistered
  dsimp only
  split
  · refine trans ?_ deleteRoute
    exact setStream fun _ _ h => h
  · exact refl

theorem matchRequest {i : ℕ} {url : List Char} : w.Keeps (w.matchRequest i s url).1 := by
  unfold World.matchRequest
  dsimp only
  split <;> exact of_eq rfl rfl (Nat.le_refl _) rfl

theorem intercept {i : ℕ} {request : InterceptedRequest} :
    w.Keeps (w.intercept i s request) := by
  refine trans ?_ (setStream fun _ _ h => h)
  exact of_eq rfl rfl (Nat.le_refl _) rfl

end World.Keeps

/-! ### What a step shows -/

/-- What a step may do, by what it shows. -/
inductive World.Effect (crate : RegexCrate) (w w' : World) : List Event → Prop
  | nothing (h : w.Keeps w') : Effect crate w w' []
  | added (times : Option ℤ) (h : w.Keeps w') (hnext : w.nextRoute < w'.nextRoute)
      (htimes : ∀ info ∈ w'.sdk.routes, info.routeId = w.nextRoute → info.timesRemaining = times) :
      Effect crate w w' [.added w.nextRoute times]
  | dropped (ids : List ℕ) (h : w.Keeps w') (hknown : ∀ id ∈ ids, id < w'.nextRoute)
      (hdeleted : ∀ id ∈ ids, ∀ info ∈ w'.sdk.routes, info.routeId ≠ id) :
      Effect crate w w' (ids.map fun id => .removed id none)
  | answered (s id : ℕ) (h : w.Keeps w') (hs : s < w'.accepted) (hknown : id < w'.nextRoute)
      (hdeleted : ∀ info ∈ w'.sdk.routes, info.routeId ≠ id)
      (hwithout : ∀ t, s ≤ t → (w'.streams t).Without id) :
      Effect crate w w' [.removed id (some s)]
  | given (s : ℕ) (h : w.Keeps w') (hactive : w.activeHandler = some s) :
      Effect crate w w' [.given s]
  | matched (s : ℕ) (r : RegisteredRoute) (h : w.Keeps w') (hr : r ∈ (w.streams s).link.copy) :
      Effect crate w w' [.matched s r.routeId]
  | called (w₁ : World) (info : RegisteredRouteInfo) (h : w.Keeps w₁) (hinv : w₁.Inv crate)
      (hinfo : info ∈ w₁.sdk.routes) (hw' : w' = w₁.countDown info) :
      Effect crate w w' [.called info.routeId]

namespace World.Inv

variable {w w' : World} {s id : ℕ} {rest : List ServerMessage}

theorem ensureStream_routes : w.ensureStream.2.sdk.routes = w.sdk.routes ∧
    w.ensureStream.2.nextRoute = w.nextRoute := by
  unfold World.ensureStream
  split <;> exact ⟨rfl, rfl⟩

theorem addRoute_effect (h : w.Inv crate) (pattern : UrlPattern) (handler : ℕ)
    (times : Option ℤ) (scope : Option ℕ) :
    w.Effect crate (w.addRoute pattern handler times scope) [.added w.nextRoute times] := by
  have hroutes : (w.addRoute pattern handler times scope).sdk.routes
      = w.sdk.routes ++ [.unconfirmed w.nextRoute pattern handler times scope] :=
    ensureStream_routes.1
  have hnext : (w.addRoute pattern handler times scope).nextRoute = w.nextRoute + 1 :=
    ensureStream_routes.2
  refine .added times (.addRoute pattern handler times scope) (hnext ▸ Nat.lt_succ_self _)
    fun info hinfo hid => ?_
  rw [hroutes] at hinfo
  rcases List.mem_append.mp hinfo with hinfo | hinfo
  · exact absurd hid (Nat.ne_of_lt (h.counted info hinfo))
  · rw [List.mem_singleton.mp hinfo]
    rfl

theorem onStreamDropped_effect (h : w.Inv crate) (s : ℕ) :
    w.Effect crate (w.onStreamDropped s).1 (w.onStreamDropped s).2 := by
  refine .dropped (w.streams s).removing .onStreamDropped
    (fun id hid => (h.streams s).removing_lt id hid) fun id hid info hinfo hcon => ?_
  have hwaiting := of_decide_eq_true (List.mem_filter.mp hinfo).2
  exact hwaiting (List.mem_append_right _ (hcon ▸ hid))

/-- The answer that a call waited for is the last word on the route. -/
theorem onUnregistered_effect (h : w.Inv crate)
    (hout : (w.streams s).out = .unregisterRouteResponse id :: rest) :
    w.Effect crate ((w.setStream s { w.streams s with out := rest }).onUnregistered s id).1
      ((w.setStream s { w.streams s with out := rest }).onUnregistered s id).2 := by
  have hpop : w.Keeps (w.setStream s { w.streams s with out := rest }) :=
    .setStream fun _ _ h => h
  have hself : (w.setStream s { w.streams s with out := rest }).streams s
      = { w.streams s with out := rest } := Function.update_self _ _ _
  have hmem : ServerMessage.unregisterRouteResponse id ∈ (w.streams s).out := by
    rw [hout]
    exact List.mem_cons_self
  have hkeeps : w.Keeps
      ((w.setStream s { w.streams s with out := rest }).onUnregistered s id).1 :=
    hpop.trans .onUnregistered
  unfold World.onUnregistered at hkeeps ⊢
  dsimp only at hkeeps ⊢
  rw [hself] at hkeeps ⊢
  by_cases hid : id ∈ (w.streams s).removing
  · rw [if_pos hid] at hkeeps ⊢
    refine .answered s id hkeeps (h.talking s (.inr (List.ne_nil_of_mem hmem)))
      ((h.streams s).answered_lt _ hmem id .unregistered) (fun info hinfo => ?_) fun t ht => ?_
    · exact of_decide_eq_true (List.mem_filter.mp hinfo).2
    · show (Function.update (Function.update w.streams s _) s _ t).Without id
      rw [Function.update_idem]
      by_cases hts : t = s
      · subst hts
        rw [Function.update_self]
        exact (h.streams t).settled id hmem
      · -- it is the newest stream
        have hlast := h.newest s (h.current_of_removing hid)
        rw [Function.update_of_ne hts, h.unopened t (by omega)]
        exact .fresh
  · rw [if_neg hid] at hkeeps ⊢
    exact .nothing hkeeps

theorem handleInterceptedRequest_effect {request : InterceptedRequest} {w₁ : World}
    (hkeeps : w.Keeps w₁) (h : w₁.Inv crate) (accepts : Bool) :
    w.Effect crate (w₁.handleInterceptedRequest request accepts).1
      (w₁.handleInterceptedRequest request accepts).2 := by
  unfold World.handleInterceptedRequest
  split
  · refine .nothing (hkeeps.trans (.safeWrite fun _ _ _ hcon => ?_))
    cases hcon
  · rename_i info hfind
    split
    · refine .nothing (hkeeps.trans (.safeWrite fun _ _ _ hcon => ?_))
      cases hcon
    · have hid : info.routeId = request.routeId := by simpa using List.find?_some hfind
      rw [← hid]
      exact .called w₁ info hkeeps h (List.mem_of_find?_eq_some hfind) rfl

/-- The registrations of the daemon that match are ones that it has. -/
theorem matchRequest_effect {i : ℕ} {url : List Char} :
    w.Effect crate (w.matchRequest i s url).1 (w.matchRequest i s url).2 := by
  have hkeeps : w.Keeps (w.matchRequest i s url).1 := .matchRequest
  unfold World.matchRequest at hkeeps ⊢
  dsimp only at hkeeps ⊢
  cases hmatch : matchRoute (w.streams s).link.copy url with
  | none =>
    rw [hmatch] at hkeeps
    exact .nothing hkeeps
  | some routeId =>
    rw [hmatch] at hkeeps
    obtain ⟨r, hfind, rfl⟩ := Option.map_eq_some_iff.mp hmatch
    exact .matched s r hkeeps (List.mem_reverse.mp (List.mem_of_find?_eq_some hfind))

/-- **What a step does.** -/
theorem effect {op : Op} {events : List Event} (h : w.Inv crate)
    (hstep : w.step crate op = some (w', events)) : w.Effect crate w' events := by
  cases op with
  | addRoute pattern handler times scope =>
    cases hstep
    exact h.addRoute_effect pattern handler times scope
  | removeRoute pattern handler =>
    cases hstep
    exact .nothing (.removeWhere _)
  | removeAllRoutes =>
    cases hstep
    exact .nothing (.removeWhere _)
  | removeTestRoutes =>
    cases hstep
    exact .nothing (.removeWhere _)
  | removeScopeRoutes scope =>
    cases hstep
    exact .nothing (.removeWhere _)
  | ensureEventsSubscribed =>
    cases hstep
    exact .nothing .ensureEventsSubscribed
  | unsubscribe =>
    cases hstep
    exact .nothing .unsubscribeIfUnused
  | decide interceptId =>
    cases hstep
    refine .nothing (.safeWrite fun _ _ _ hcon => ?_)
    cases hcon
  | reopen =>
    rw [World.step] at hstep
    split at hstep
    · cases hstep
      exact .nothing .reopen
    · cases hstep
  | drop s =>
    rw [World.step] at hstep
    split at hstep
    · obtain rfl := congrArg Prod.fst (Option.some.inj hstep)
      obtain rfl := congrArg Prod.snd (Option.some.inj hstep)
      exact h.onStreamDropped_effect s
    · cases hstep
  | deliver s accepts =>
    rw [World.step] at hstep
    split at hstep
    · cases hstep
    · rename_i m rest hout
      have hpop : w.Keeps (w.setStream s { w.streams s with out := rest }) :=
        .setStream fun _ _ h => h
      cases m with
      | registerRouteResponse id success =>
        cases hstep
        exact .nothing (hpop.trans .onRegistered)
      | unregisterRouteResponse id =>
        obtain rfl := congrArg Prod.fst (Option.some.inj hstep)
        obtain rfl := congrArg Prod.snd (Option.some.inj hstep)
        exact h.onUnregistered_effect hout
      | interceptedRequest request =>
        obtain rfl := congrArg Prod.fst (Option.some.inj hstep)
        obtain rfl := congrArg Prod.snd (Option.some.inj hstep)
        refine handleInterceptedRequest_effect hpop (h.pop hout ?_ ?_) accepts
        · exact fun id _ success hcon => by cases hcon
        · exact fun id _ hcon => by cases hcon
  | accept s =>
    rw [World.step] at hstep
    split at hstep
    · rename_i hs
      cases hstep
      exact .nothing (.of_eq rfl rfl (Nat.le_succ_of_le hs.1) rfl)
    · cases hstep
  | read s =>
    rw [World.step] at hstep
    split at hstep
    · obtain ⟨⟨m, link⟩, hread, heq⟩ := Option.map_eq_some_iff.mp hstep
      cases heq
      exact .nothing (.setStream fun _ _ h => h.read hread)
    · cases hstep
  | close s =>
    rw [World.step] at hstep
    split at hstep
    · cases hstep
      exact .nothing (.of_eq rfl rfl (Nat.le_refl _) rfl)
    · cases hstep
  | request url =>
    rw [World.step] at hstep
    split at hstep
    · cases hstep
      exact .nothing .refl
    · rename_i s hs
      cases hstep
      exact .given s (.of_eq rfl rfl (Nat.le_refl _) rfl) hs
  | matchRoute i =>
    rw [World.step] at hstep
    obtain ⟨⟨s, url⟩, -, heq⟩ := Option.map_eq_some_iff.mp hstep
    obtain rfl := congrArg Prod.fst heq
    obtain rfl := congrArg Prod.snd heq
    exact matchRequest_effect
  | intercept i =>
    rw [World.step] at hstep
    obtain ⟨⟨s, request⟩, -, heq⟩ := Option.map_eq_some_iff.mp hstep
    cases heq
    exact .nothing .intercept
  | forward s =>
    rw [World.step] at hstep
    split at hstep
    · cases hstep
    · cases hstep
      exact .nothing (.setStream fun _ _ h => h)

end World.Inv

/-! ### Removed -/

/-- The SDK has the route no more, and the streams from `s` on have it no more either. -/
structure World.Gone (id s : ℕ) (w : World) : Prop where
  known : id < w.nextRoute
  deleted : ∀ info ∈ w.sdk.routes, info.routeId ≠ id
  without : ∀ t, s ≤ t → (w.streams t).Without id

namespace World.Gone

variable {w w' : World} {id s : ℕ} {events : List Event}

theorem keeps (h : w.Gone id s) (hkeeps : w.Keeps w') : w'.Gone id s where
  known := Nat.lt_of_lt_of_le h.known hkeeps.nextRoute
  deleted := by
    intro info hinfo hid
    obtain ⟨old, hold, hsame, -⟩ := hkeeps.routes info hinfo (hid ▸ h.known)
    exact h.deleted old hold (hsame.trans hid)
  without := fun t ht => hkeeps.without id h.known h.deleted t (h.without t ht)

theorem countDown {info : RegisteredRouteInfo} (h : w.Gone id s) :
    (w.countDown info).Gone id s := by
  unfold World.countDown
  split
  · exact h
  · split
    · refine h.keeps (.trans .deleteRoute (.safeWrite fun _ _ _ hcon => ?_))
      cases hcon
    · refine ⟨h.known, fun i hi => ?_, h.without⟩
      obtain ⟨old, hold, rfl⟩ := List.mem_map.mp hi
      split
      · exact h.deleted old hold
      · exact h.deleted old hold

/-- **A step** neither brings the route back, nor calls its handler. -/
theorem effect (h : w.Gone id s) (heffect : w.Effect crate w' events) :
    w'.Gone id s ∧ .called id ∉ events ∧ ∀ t, s ≤ t → .matched t id ∉ events := by
  cases heffect with
  | nothing hkeeps => exact ⟨h.keeps hkeeps, List.not_mem_nil, fun _ _ => List.not_mem_nil⟩
  | added times hkeeps => exact ⟨h.keeps hkeeps, by simp, by simp⟩
  | dropped ids hkeeps => exact ⟨h.keeps hkeeps, by simp, by simp⟩
  | answered s' id' hkeeps => exact ⟨h.keeps hkeeps, by simp, by simp⟩
  | given t hkeeps => exact ⟨h.keeps hkeeps, by simp, by simp⟩
  | matched t r hkeeps hr =>
    refine ⟨h.keeps hkeeps, by simp, fun t' ht' hmem => ?_⟩
    cases List.mem_singleton.mp hmem
    exact (h.without _ ht').1 r hr rfl
  | called w₁ info hkeeps _ hinfo hw' =>
    have h₁ := h.keeps hkeeps
    refine ⟨hw' ▸ h₁.countDown, fun hmem => ?_, by simp⟩
    cases List.mem_singleton.mp hmem
    exact h₁.deleted info hinfo rfl

end World.Gone

theorem countDown_accepted {w : World} {info : RegisteredRouteInfo} :
    (w.countDown info).accepted = w.accepted := by
  unfold World.countDown World.safeWrite
  split
  · rfl
  · split
    · split <;> rfl
    · rfl

/-- Requests are given to the stream that was accepted last. -/
theorem World.Effect.given_le {w w' : World} {s : ℕ} {events : List Event}
    (heffect : w.Effect crate w' events) (h : w.Inv crate) (hs : s < w.accepted) :
    s < w'.accepted ∧ ∀ t, .given t ∈ events → s ≤ t := by
  cases heffect with
  | nothing hkeeps => exact ⟨Nat.lt_of_lt_of_le hs hkeeps.accepted, by simp⟩
  | added times hkeeps => exact ⟨Nat.lt_of_lt_of_le hs hkeeps.accepted, by simp⟩
  | dropped ids hkeeps => exact ⟨Nat.lt_of_lt_of_le hs hkeeps.accepted, by simp⟩
  | answered s' id' hkeeps => exact ⟨Nat.lt_of_lt_of_le hs hkeeps.accepted, by simp⟩
  | given t hkeeps hactive =>
    refine ⟨Nat.lt_of_lt_of_le hs hkeeps.accepted, fun t' ht' => ?_⟩
    cases List.mem_singleton.mp ht'
    have hlast := h.active t hactive
    omega
  | matched t r hkeeps => exact ⟨Nat.lt_of_lt_of_le hs hkeeps.accepted, by simp⟩
  | called w₁ info hkeeps _ _ hw' =>
    rw [hw', countDown_accepted]
    exact ⟨Nat.lt_of_lt_of_le hs hkeeps.accepted, by simp⟩

/-- What is removed is gone, from the stream on that has answered. -/
theorem World.Effect.gone {w w' : World} {id : ℕ} {answeredOn : Option ℕ} {events : List Event}
    (heffect : w.Effect crate w' events) (h : w'.Inv crate)
    (hshown : .removed id answeredOn ∈ events) :
    w'.Gone id (answeredOn.getD w'.opened) ∧ ∀ s, answeredOn = some s → s < w'.accepted := by
  cases heffect with
  | nothing => exact absurd hshown List.not_mem_nil
  | added => cases List.mem_singleton.mp hshown
  | dropped ids _ hknown hdeleted =>
    obtain ⟨id', hid', heq⟩ := List.mem_map.mp hshown
    cases heq
    refine ⟨⟨hknown id hid', hdeleted id hid', fun t ht => ?_⟩, fun s hs => by cases hs⟩
    rw [h.unopened t ht]
    exact .fresh
  | answered s id' _ hs hknown hdeleted hwithout =>
    cases List.mem_singleton.mp hshown
    refine ⟨⟨hknown, hdeleted, hwithout⟩, fun s' hs' => ?_⟩
    cases hs'
    exact hs
  | given => cases List.mem_singleton.mp hshown
  | matched => cases List.mem_singleton.mp hshown
  | called => cases List.mem_singleton.mp hshown

/-- **Removed for good.**  In every run, after a call that removes a route has come back, its
    handler is not called any more, whatever requests were on their way.  If the daemon has answered
    (on the stream `s`), the handlers of that stream and of later ones do not match the route any
    more, and these are the ones that requests are given to from then on. -/
theorem removed_for_good {before after : List (List Event)} {shown : List Event} {w : World}
    {id : ℕ} {answeredOn : Option ℕ}
    (h : Run (Steps (World.step crate)) World.init (before ++ shown :: after) w)
    (hshown : .removed id answeredOn ∈ shown) :
    ∀ events ∈ after, .called id ∉ events ∧ ∀ s, answeredOn = some s →
      ∀ t, (s ≤ t → .matched t id ∉ events) ∧ (.given t ∈ events → s ≤ t) := by
  obtain ⟨m, m', hbefore, ⟨op, hstep⟩, hafter⟩ := h.split
  have hinv := World.Inv.run hbefore
  have hinv' := hinv.step hstep
  obtain ⟨hgone, hs⟩ := (hinv.effect hstep).gone hinv' hshown
  have hpres : ∀ u events u', (u.Inv crate ∧ u.Gone id (answeredOn.getD m'.opened) ∧
      ∀ s, answeredOn = some s → s < u.accepted) → Steps (World.step crate) u events u' →
      (u'.Inv crate ∧ u'.Gone id (answeredOn.getD m'.opened) ∧
        ∀ s, answeredOn = some s → s < u'.accepted) ∧
      (.called id ∉ events ∧ ∀ s, answeredOn = some s →
        ∀ t, (s ≤ t → .matched t id ∉ events) ∧ (.given t ∈ events → s ≤ t)) := by
    rintro u events u' ⟨hinv, hgone, hs⟩ ⟨op, hstep⟩
    have heffect := hinv.effect hstep
    obtain ⟨hgone', hcalled, hmatched⟩ := hgone.effect heffect
    refine ⟨⟨hinv.step hstep, hgone', fun s hanswered => ?_⟩, hcalled, fun s hanswered t => ?_⟩
    · exact (heffect.given_le hinv (hs s hanswered)).1
    · subst hanswered
      exact ⟨hmatched t, (heffect.given_le hinv (hs s rfl)).2 t⟩
  exact hafter.always hpres ⟨hinv', hgone, hs⟩

/-- A request is matched while its route is being removed, and is handed over behind the answer. -/
def racing : List Op :=
  [.addRoute (.glob "http://app/api".toList) 0 none none, .accept 0, .read 0, .deliver 0 true,
    .request "http://app/api".toList, .matchRoute 0, .removeAllRoutes, .read 0, .intercept 0,
    .deliver 0 true, .forward 0, .deliver 0 true]

/-- Its handler is not called. -/
theorem removed_for_good_racing : ∃ w, Run (Steps (World.step literalCrate)) World.init
    ([[.added 0 none], [], [], [], [.given 0], [.matched 0 0], [], [], []] ++
      [.removed 0 (some 0)] :: [[], []]) w ∧
    ∀ events ∈ [[], ([] : List Event)], .called 0 ∉ events := by
  have hexec : (exec (World.step literalCrate) World.init racing).map Prod.snd
      = some ([[.added 0 none], [], [], [], [.given 0], [.matched 0 0], [], [], []] ++
        [.removed 0 (some 0)] :: [[], []]) := by decide +kernel
  obtain ⟨w, hrun⟩ := exists_run_of_exec hexec
  exact ⟨w, hrun, fun events hevents =>
    (removed_for_good hrun List.mem_cons_self events hevents).1⟩

/-! ### Used up -/

/-- After `calls` calls of the handler: what is left of its `times`. -/
structure World.Left (id : ℕ) (times : Option ℤ) (calls : ℕ) (w : World) : Prop where
  known : id < w.nextRoute
  atMost : ∀ n, times = some n → (calls : ℤ) ≤ max 1 n
  left : ∀ info ∈ w.sdk.routes, info.routeId = id → info.timesRemaining = times.map (· - (calls : ℤ))
  more : ∀ info ∈ w.sdk.routes, info.routeId = id → ∀ n, times = some n →
    calls = 0 ∨ (calls : ℤ) < n

namespace World.Left

variable {w w' : World} {id : ℕ} {times : Option ℤ} {calls : ℕ} {events : List Event}

theorem keeps (h : w.Left id times calls) (hkeeps : w.Keeps w') : w'.Left id times calls where
  known := Nat.lt_of_lt_of_le h.known hkeeps.nextRoute
  atMost := h.atMost
  left := by
    intro info hinfo hid
    obtain ⟨old, hold, hsame, htimes⟩ := hkeeps.routes info hinfo (hid ▸ h.known)
    rw [← htimes]
    exact h.left old hold (hsame.trans hid)
  more := by
    intro info hinfo hid
    obtain ⟨old, hold, hsame, -⟩ := hkeeps.routes info hinfo (hid ▸ h.known)
    exact h.more old hold (hsame.trans hid)

/-- Another route is called. -/
theorem countDown_of_ne {info : RegisteredRouteInfo} (h : w.Left id times calls)
    (hid : info.routeId ≠ id) : (w.countDown info).Left id times calls := by
  unfold World.countDown
  split
  · exact h
  · split
    · refine h.keeps (.trans .deleteRoute (.safeWrite fun _ _ _ hcon => ?_))
      cases hcon
    · rename_i remaining _ _
      have hsame : ∀ i ∈ w.sdk.routes.map (fun i : RegisteredRouteInfo =>
          if i.routeId = info.routeId then { i with timesRemaining := some (remaining - 1) }
          else i), i.routeId = id → i ∈ w.sdk.routes := by
        intro i hi hcon
        obtain ⟨old, hold, rfl⟩ := List.mem_map.mp hi
        by_cases hold' : old.routeId = info.routeId
        · rw [if_pos hold'] at hcon
          exact absurd (hold'.symm.trans hcon) hid
        · rw [if_neg hold']
          exact hold
      exact ⟨h.known, h.atMost, fun i hi hcon => h.left i (hsame i hi hcon) hcon,
        fun i hi hcon => h.more i (hsame i hi hcon) hcon⟩

/-- The route is called: one time less. -/
theorem countDown {info : RegisteredRouteInfo} (h : w.Left id times calls)
    (hinfo : info ∈ w.sdk.routes) (hid : info.routeId = id) :
    (w.countDown info).Left id times (calls + 1) := by
  have hleft := h.left info hinfo hid
  unfold World.countDown
  cases times with
  | none =>
    rw [Option.map_none] at hleft
    rw [hleft]
    refine ⟨h.known, fun n hn => ?_, h.left, fun i _ _ n hn => ?_⟩
    · cases hn
    · cases hn
  | some n =>
    have hmore := h.more info hinfo hid n rfl
    rw [Option.map_some] at hleft
    rw [hleft]
    dsimp only
    split
    · -- that was the last one
      rename_i hlast
      have hdeleted : ((w.deleteRoute info.routeId).safeWrite (.unregisterRoute info.routeId)).Left
          id (some n) calls := by
        refine h.keeps (.trans .deleteRoute (.safeWrite fun _ _ _ hcon => ?_))
        cases hcon
      have hnone : ∀ i ∈ ((w.deleteRoute info.routeId).safeWrite
          (.unregisterRoute info.routeId)).sdk.routes, i.routeId ≠ id := by
        intro i hi
        have hroutes : ((w.deleteRoute info.routeId).safeWrite
            (.unregisterRoute info.routeId)).sdk.routes
            = w.sdk.routes.filter (·.routeId ≠ info.routeId) := by
          unfold World.safeWrite
          split <;> rfl
        rw [hroutes] at hi
        exact hid ▸ of_decide_eq_true (List.mem_filter.mp hi).2
      refine ⟨hdeleted.known, fun n' hn' => ?_, fun i hi hcon => absurd hcon (hnone i hi),
        fun i hi hcon => absurd hcon (hnone i hi)⟩
      cases hn'
      push_cast
      rcases hmore with rfl | hlt
      · exact le_max_left _ _
      · exact le_max_of_le_right (by omega)
    · rename_i hnot
      have hlt : (calls : ℤ) + 1 < n := by omega
      refine ⟨h.known, fun n' hn' => ?_, fun i hi hcon => ?_, fun i hi hcon n' hn' => ?_⟩
      · cases hn'
        push_cast
        exact le_max_of_le_right hlt.le
      · obtain ⟨old, hold, rfl⟩ := List.mem_map.mp hi
        by_cases hold' : old.routeId = info.routeId
        · rw [if_pos hold', Option.map_some]
          push_cast
          exact congrArg some (sub_sub n (calls : ℤ) 1)
        · rw [if_neg hold'] at hcon
          exact absurd (hcon.trans hid.symm) hold'
      · cases hn'
        push_cast
        exact .inr hlt

/-- **A step** counts the calls that it shows. -/
theorem effect (h : w.Left id times calls) (heffect : w.Effect crate w' events) :
    w'.Left id times (calls + events.count (.called id)) := by
  cases heffect with
  | nothing hkeeps => exact h.keeps hkeeps
  | added _ hkeeps => exact h.keeps hkeeps
  | dropped ids hkeeps =>
    rw [List.count_eq_zero.mpr (by simp)]
    exact h.keeps hkeeps
  | answered s' id' hkeeps => exact h.keeps hkeeps
  | given t hkeeps => exact h.keeps hkeeps
  | matched t r hkeeps => exact h.keeps hkeeps
  | called w₁ info hkeeps _ hinfo hw' =>
    have h₁ := h.keeps hkeeps
    subst hw'
    by_cases hid : info.routeId = id
    · subst hid
      rw [List.count_singleton_self]
      exact h₁.countDown hinfo rfl
    · rw [List.count_eq_zero.mpr (by simp [Ne.symm hid])]
      exact h₁.countDown_of_ne hid

theorem run {m : World} {after : List (List Event)} (hm : m.Inv crate) (hstart : m.Left id times 0)
    (h : Run (Steps (World.step crate)) m after w) :
    w.Inv crate ∧ w.Left id times (after.flatten.count (.called id)) := by
  induction h with
  | nil => exact ⟨hm, hstart⟩
  | snoc _ hstep ih =>
    obtain ⟨op, hstep⟩ := hstep
    refine ⟨ih.1.step hstep, ?_⟩
    rw [List.flatten_concat, List.count_append]
    exact ih.2.effect (ih.1.effect hstep)

end World.Left

/-- What is added is left with all its `times`. -/
theorem World.Effect.left {w w' : World} {id : ℕ} {times : Option ℤ} {events : List Event}
    (heffect : w.Effect crate w' events) (hshown : .added id times ∈ events) :
    w'.Left id times 0 := by
  cases heffect with
  | nothing => exact absurd hshown List.not_mem_nil
  | added times' _ hnext htimes =>
    cases List.mem_singleton.mp hshown
    refine ⟨hnext, fun n _ => le_max_of_le_left (by simp), fun info hinfo hid => ?_,
      fun _ _ _ _ _ => .inl rfl⟩
    rw [htimes info hinfo hid]
    simp
  | dropped ids => simp at hshown
  | answered => cases List.mem_singleton.mp hshown
  | given => cases List.mem_singleton.mp hshown
  | matched => cases List.mem_singleton.mp hshown
  | called => cases List.mem_singleton.mp hshown

/-- **Times.**  In every run, however often the stream has dropped and was opened again: what is
    left of the `times` of a route is what it was added with, less the calls of its handler; so it
    is called that often at most (once, where `times` is not positive), and with the last call the
    SDK has it no more, nor has the daemon once it has read what was written. -/
theorem called_at_most {before after : List (List Event)} {shown : List Event} {w : World}
    {id : ℕ} {times : Option ℤ}
    (h : Run (Steps (World.step crate)) World.init (before ++ shown :: after) w)
    (hshown : .added id times ∈ shown) :
    (∀ info ∈ w.sdk.routes, info.routeId = id →
      info.timesRemaining = times.map (· - (after.flatten.count (.called id) : ℤ))) ∧
    ∀ n, times = some n → (after.flatten.count (.called id) : ℤ) ≤ max 1 n ∧
      ((after.flatten.count (.called id) : ℤ) = max 1 n →
        (∀ info ∈ w.sdk.routes, info.routeId ≠ id) ∧
        ∀ s, w.sdk.stream = some s → (w.streams s).link.queue = [] →
          ∀ r ∈ (w.streams s).link.copy, r.routeId ≠ id) := by
  obtain ⟨m, m', hbefore, ⟨op, hstep⟩, hafter⟩ := h.split
  have hinv := World.Inv.run hbefore
  obtain ⟨hinv', hleft⟩ :=
    World.Left.run (hinv.step hstep) ((hinv.effect hstep).left hshown) hafter
  refine ⟨hleft.left, fun n hn => ⟨hleft.atMost n hn, fun hused => ?_⟩⟩
  have hnone : ∀ info ∈ w.sdk.routes, info.routeId ≠ id := by
    intro info hinfo hid
    have hmore := hleft.more info hinfo hid n hn
    rcases le_total (1 : ℤ) n with hle | hle
    · rw [max_eq_right hle] at hused
      omega
    · rw [max_eq_left hle] at hused
      omega
  refine ⟨hnone, fun s hs hread r hr hid => ?_⟩
  have hcopy : (w.streams s).link.copy = expected crate w.sdk.routes (w.streams s).removing :=
    (ahead_of_drained hread).symm.trans (hinv'.agrees s hs)
  rw [hcopy] at hr
  obtain ⟨info, hinfo, hcompiled⟩ := List.mem_filterMap.mp hr
  exact hnone info hinfo ((routeId_of_announced hcompiled).symm.trans hid)

/-- Two requests are matched before the first is handed over. -/
def once : List Op :=
  [.addRoute (.glob "http://app/api".toList) 0 (some 1) none, .accept 0, .read 0, .deliver 0 true,
    .request "http://app/api".toList, .request "http://app/api".toList, .matchRoute 0,
    .matchRoute 0, .intercept 0, .intercept 0, .forward 0, .forward 0, .deliver 0 true,
    .deliver 0 true]

/-- Only the first is for the handler. -/
theorem called_at_most_once : ∃ w after, Run (Steps (World.step literalCrate)) World.init
    ([] ++ [.added 0 (some 1)] :: after) w ∧
    after.flatten.count (.called 0) = 1 ∧ ∀ info ∈ w.sdk.routes, info.routeId ≠ 0 := by
  have hexec : (exec (World.step literalCrate) World.init once).map Prod.snd
      = some ([] ++ [.added 0 (some 1)] :: [[], [], [], [.given 0], [.given 0], [.matched 0 0],
        [.matched 0 0], [], [], [], [], [.called 0], []]) := by decide +kernel
  obtain ⟨w, hrun⟩ := exists_run_of_exec hexec
  exact ⟨w, _, hrun, rfl, (((called_at_most hrun List.mem_cons_self).2 1 rfl).2 rfl).1⟩

end Tapsmith.Route.Registry
