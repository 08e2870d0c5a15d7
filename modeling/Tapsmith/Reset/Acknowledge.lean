import Tapsmith.Reset.Policy

namespace Tapsmith.Reset

open Lib.Machine

/-!
# Acknowledged resets

How the daemon tells that a reset through the hooks of the app ran: it compares the marker that the
app shows after the link was delivered with one from before, which it may only remember.

* `Marker`, `hooks_acknowledged` — what the app shows, and when that acknowledges a reset;
* `Session.warm_hooks` — the delivery of the reset link and what is remembered of it;
* `Session.reset_app`, `Session.step` — a request, and what else happens in a session;
* `Settled` — the remembered marker does not take what the app shows for an acknowledgement;
* `acknowledged_ran` — where sessions stay settled, a reset that is acknowledged has run.
-/

/-! ### Markers -/

/-- What an acknowledgement looks at. -/
structure Marker extends HooksMarker where
  epoch : ℕ
  err : Option String := none
  boot : Option String := none

/-- Both tokens are there, and they differ. -/
def bootChanged : Option String → Option String → Bool
  | some before, some after => after ≠ before
  | _, _ => false

def hooks_acknowledged (epoch_before : ℕ) (boot_before : Option String) (after : Marker) : Bool :=
  if bootChanged boot_before after.boot then 1 ≤ after.epoch else epoch_before < after.epoch

/-- The marker acknowledges a reset against the baseline. -/
def Marker.acknowledges (after baseline : Marker) : Bool :=
  hooks_acknowledged baseline.epoch baseline.boot after

/-! ### The app -/

/-- What happens to the app: a reset completes in it, or it is relaunched with a fresh token. -/
inductive Move
  | reset (err : Option String)
  | relaunch (boot : String)
deriving DecidableEq

/-- The marker that the app shows after it. -/
def Marker.move (app : Marker) : Move → Marker
  | .reset err => { app with epoch := app.epoch + 1, err := err }
  | .relaunch boot => { app with epoch := 0, err := none, boot := some boot }

def Marker.run (app : Marker) (moves : List Move) : Marker := moves.foldl Marker.move app

def Move.isReset : Move → Bool
  | .reset _ => true
  | .relaunch _ => false

/-! ### Sessions -/

/-- `completed` counts the resets that the app has completed. -/
structure Session where
  app : Marker
  completed : ℕ := 0
  last_hooks_marker : Option Marker := none
  nav_probe_found_no_marker : Bool := false
  policy : SessionState := {}

namespace Session

/-- The app is relaunched by other means. -/
def relaunch (s : Session) (boots : List String) : Session :=
  { s with app := s.app.run (boots.map .relaunch) }

end Session

/-- A read of the hierarchy: how the app is relaunched before it, and whether it shows the marker. -/
structure Read where
  relaunches : List String := []
  hit : Bool := true

/-- A delivery: what happens to the app on the way, whether its marker is seen at the end, and the
    status that the call breaks with, if it does. -/
structure Delivery where
  moves : List Move
  seen : Bool := true
  status : Option String := none

structure WarmEnv where
  delivery : Delivery
  readBack : Read := {}
  root : Delivery := { moves := [] }
  rootReadBack : Read := {}
  response_error : String := ""

namespace Session

def current_hooks_marker (s : Session) (r : Read) : Option Marker × Session :=
  let s := s.relaunch r.relaunches
  (if r.hit then some s.app else none, s)

/-- `deliver_deep_link` with the baseline of an acknowledgement. -/
def deliver_deep_link (s : Session) (baseline : Marker) (d : Delivery) :
    Except String Bool × Session :=
  let app := s.app.run d.moves
  (match d.status with
    | some e => .error e
    | none => .ok (d.seen && app.acknowledges baseline),
    { s with app := app, completed := s.completed + d.moves.countP Move.isReset })

/-- An acknowledging marker was read back. -/
def acknowledge (s : Session) (marker after : Marker) : Except String WarmAck × Session :=
  (match after.err with
    | some err => .error s!"in-app reset reported an error: {err}"
    | none => .ok
      { epoch := after.epoch, process_recreated := bootChanged marker.boot after.boot },
    { s with last_hooks_marker := some after })

/-- No marker was read back behind an acknowledged delivery: a cold one makes the daemon forget the
    baseline, another one advances it. -/
def trust (s : Session) (marker : Marker) (cold : Bool) : Except String WarmAck × Session :=
  (.ok { epoch := marker.epoch + 1, process_recreated := false },
    { s with
      last_hooks_marker :=
        if cold then none else some { marker with epoch := marker.epoch + 1 } })

def readBack (s : Session) (marker : Marker) (cold : Bool) (r : Read) :
    Except String WarmAck × Session :=
  let read := s.current_hooks_marker r
  match read.1 with
  | some after =>
    if after.acknowledges marker then read.2.acknowledge marker after
    else (.error "in-app reset did not advance its epoch", read.2)
  | none => read.2.trust marker cold

/-- Behind the delivery to the root route every marker is trusted. -/
def rootReadBack (s : Session) (marker : Marker) (cold : Bool) (r : Read) :
    Except String WarmAck × Session :=
  let read := s.current_hooks_marker r
  match read.1 with
  | some after =>
    if after.acknowledges marker then read.2.acknowledge marker after
    else read.2.trust marker cold
  | none => read.2.trust marker cold

def nonRoot (target_path : String) (marker : Marker) : Bool :=
  target_path ≠ "/" && marker.url_prefix ≠ ""

/-- The link is delivered to the root route once more, where the marker can be seen. -/
def redeliver (s : Session) (marker : Marker) (cold : Bool) (env : WarmEnv) :
    Except String WarmAck × Session :=
  let root := s.deliver_deep_link marker env.root
  match root.1 with
  | .ok true => root.2.rootReadBack marker cold env.rootReadBack
  | .ok false | .error _ => (.error env.response_error, root.2)

def warmFrom (s : Session) (target_path : String) (marker : Marker) (cold : Bool)
    (env : WarmEnv) : Except String WarmAck × Session :=
  let first := s.deliver_deep_link marker env.delivery
  match first.1 with
  | .error e => (.error e, first.2)
  | .ok true => first.2.readBack marker cold env.readBack
  | .ok false =>
    if nonRoot target_path marker then first.2.redeliver marker cold env
    else (.error env.response_error, first.2)

def warm_hooks (s : Session) (target_path : String) (marker : Option Marker) (cold : Bool)
    (env : WarmEnv) : Except String WarmAck × Session :=
  match marker with
  | some marker => s.warmFrom target_path marker cold env
  | none => (.error "no in-app reset hooks detected", s)

end Session

/-! ### Requests -/

structure ResetRequest where
  target_path : String := "/"
  reset_deep_link : String := ""
  force_cold : Bool := false
  cold_every_n : ℕ := 0
  fallback_to_clear : Bool := false
  allow_fallback : Bool := true

/-- What a warm request meets with; `relaunches` is what the other rungs do to the app. -/
structure ResetEnv where
  supports_cold_delivery : Bool := true
  read : Read := {}
  rereads : List Read := []
  running : Option Bool := some true
  warm : WarmEnv
  warm_deep_link : String → Bool → Except String Unit := fun _ _ => .ok ()
  restart : Except String Unit := .ok ()
  clear : Except String Unit := .ok ()
  relaunches : List String := []

/-- A request up to its plan: the baseline of the rungs, and what the plan looks at. -/
structure Prepared where
  marker : Option Marker
  input : PlanInput
  session : Session

structure Call where
  answer : Option (Except String WarmAck)
  ran : ℕ

def hasHook (marker : Option Marker) : Bool := marker.any fun m => m.has_reset_hook

namespace Session

/-- A marker with a hook is remembered. -/
def remember (s : Session) (marker : Option Marker) : Session :=
  if hasHook marker then { s with last_hooks_marker := marker } else s

/-- The reads that follow a missed one, until one shows a hook. -/
def reread (s : Session) (marker : Option Marker) : List Read → Option Marker × Session
  | [] => (marker, s)
  | r :: rest =>
    let read := s.current_hooks_marker r
    if hasHook read.1 then (read.1, read.2.remember read.1) else read.2.reread read.1 rest

def liveMarker (s : Session) (env : ResetEnv) : Option Marker × Session :=
  let read := s.current_hooks_marker env.read
  if hasHook read.1 then (read.1, read.2.remember read.1)
  else if hasHook read.2.last_hooks_marker then read.2.reread read.1 (env.rereads.take 2)
  else read

def prepare (s : Session) (request : ResetRequest) (env : ResetEnv) : Prepared :=
  let live := s.liveMarker env
  let remembered :=
    if live.1.isNone && env.running ≠ some false then live.2.last_hooks_marker else none
  { marker := (live.1.or remembered).filter fun m => m.has_reset_hook
    input :=
      { mode := .warm
        marker := live.1.map Marker.toHooksMarker
        remembered_marker := remembered.map Marker.toHooksMarker
        reset_deep_link := request.reset_deep_link
        force_cold := request.force_cold
        cold_every_n := request.cold_every_n
        supports_cold_delivery := env.supports_cold_delivery
        fallback_to_clear := request.fallback_to_clear
        allow_fallback := request.allow_fallback }
    session := live.2 }

end Session

def ResetRequest.target (request : ResetRequest) : String :=
  if request.target_path = "" then "/" else request.target_path

namespace Prepared

def plan (p : Prepared) : ResetPlan := decide p.session.policy.toResetPolicyState p.input

def ops (p : Prepared) (request : ResetRequest) (env : ResetEnv) : ResetOps where
  warm_hooks cold := (p.session.warm_hooks request.target p.marker cold env.warm).1
  warm_deep_link := env.warm_deep_link
  restart := env.restart
  clear := env.clear

/-- The warm rung, where the plan begins with it. -/
def warm (p : Prepared) (request : ResetRequest) (env : ResetEnv) :
    Option (Except String WarmAck) × Session :=
  match p.plan.first with
  | .warmHooks cold =>
    let w := p.session.warm_hooks request.target p.marker cold.isSome env.warm
    (some w.1, w.2)
  | .warmDeepLink _ _ | .restart | .clear => (none, p.session)

end Prepared

namespace Session

/-- A `ResetApp` request for a warm reset. -/
def reset_app (s : Session) (request : ResetRequest) (env : ResetEnv) :
    Option (Session × Call) :=
  let p := s.prepare request env
  (Reset.reset_app p.session.policy (p.input, p.ops request env)).map fun served =>
    let w := p.warm request env
    ({ w.2.relaunch env.relaunches with policy := served.1 },
      { answer := w.1, ran := w.2.completed - s.completed })

/-- A deep link that is no reset link: the marker is read for the counter of navigations. -/
def navigate (s : Session) (r : Read) (relaunches : List String) : Session :=
  let probed :=
    if s.last_hooks_marker.isSome || !s.nav_probe_found_no_marker then
      let read := s.current_hooks_marker r
      match read.1 with
      | some marker => { read.2 with last_hooks_marker := some marker }
      | none =>
        if s.last_hooks_marker.isSome then read.2
        else { read.2 with nav_probe_found_no_marker := true }
    else s
  probed.relaunch relaunches

end Session

inductive Input
  | reset_app (request : ResetRequest) (env : ResetEnv)
  | navigate (r : Read) (relaunches : List String)
  | relaunch (boot : String)

/-- What a session shows of a step: the call that a request came to, if it was one. -/
abbrev Event := Option Call

def Session.step (s : Session) : Input → Option (Session × Event)
  | .reset_app request env => (s.reset_app request env).map fun r => (r.1, some r.2)
  | .navigate r relaunches => some (s.navigate r relaunches, none)
  | .relaunch boot => some (s.relaunch [boot], none)

/-! ### What acknowledges -/

section Markers

variable {app marker : Marker} {moves : List Move}

/-- A marker acknowledges nothing against itself. -/
theorem acknowledges_self (marker : Marker) : marker.acknowledges marker = false := by
  have hsame : bootChanged marker.boot marker.boot = false := by
    cases marker.boot with
    | none => rfl
    | some boot => exact decide_eq_false fun h => h rfl
  unfold Marker.acknowledges hooks_acknowledged
  rw [hsame]
  exact decide_eq_false (Nat.lt_irrefl _)

/-- Nothing is acknowledged by an epoch that has just begun. -/
theorem acknowledges_relaunch (app marker : Marker) (boot : String) :
    (app.move (.relaunch boot)).acknowledges marker = false := by
  unfold Marker.acknowledges hooks_acknowledged
  split
  · rfl
  · exact decide_eq_false (Nat.not_lt_zero _)

/-- What does not acknowledge a reset does not acknowledge a later one. -/
theorem acknowledges_advanced (h : ¬ app.acknowledges marker = true) :
    app.acknowledges { marker with epoch := marker.epoch + 1 } = false := by
  unfold Marker.acknowledges hooks_acknowledged at h ⊢
  dsimp only at h ⊢
  split at h
  case isTrue hchanged =>
    rw [if_pos hchanged]
    exact Bool.eq_false_iff.mpr h
  case isFalse hsame =>
    rw [if_neg hsame]
    refine decide_eq_false fun hlt => h ?_
    exact decide_eq_true (Nat.lt_of_succ_lt hlt)

/-- What acknowledges a reset that was not acknowledged before is a reset. -/
theorem reset_of_acknowledges (hbefore : app.acknowledges marker = false)
    (hafter : (app.run moves).acknowledges marker = true) : 0 < moves.countP Move.isReset := by
  induction moves generalizing app with
  | nil => exact absurd (hbefore.symm.trans hafter) Bool.false_ne_true
  | cons move rest ih =>
    cases move with
    | reset err =>
      rw [List.countP_cons_of_pos rfl]
      exact Nat.succ_pos _
    | relaunch boot =>
      rw [List.countP_cons_of_neg Bool.false_ne_true]
      exact ih (acknowledges_relaunch app marker boot) hafter

theorem acknowledges_relaunches (hbefore : app.acknowledges marker = false)
    (boots : List String) : (app.run (boots.map .relaunch)).acknowledges marker = false := by
  refine Bool.eq_false_iff.mpr fun hafter => ?_
  have hran := reset_of_acknowledges hbefore hafter
  rw [List.countP_map, List.countP_pos_iff] at hran
  obtain ⟨boot, -, hboot⟩ := hran
  exact Bool.false_ne_true hboot

end Markers

/-! ### Settled sessions -/

/-- The remembered marker does not take what the app shows now for an acknowledgement. -/
def Settled (s : Session) : Prop :=
  ∀ marker, s.last_hooks_marker = some marker → s.app.acknowledges marker = false

namespace Settled

variable {s : Session} {marker : Marker}

theorem relaunch (h : Settled s) (boots : List String) : Settled (s.relaunch boots) :=
  fun marker hmarker => acknowledges_relaunches (h marker hmarker) boots

theorem of_some (hlast : s.last_hooks_marker = some marker)
    (hnot : s.app.acknowledges marker = false) : Settled s := by
  intro other hother
  rw [hlast] at hother
  obtain rfl := Option.some.inj hother
  exact hnot

/-- A marker that the app shows is remembered. -/
theorem of_app (hlast : s.last_hooks_marker = some s.app) : Settled s :=
  .of_some hlast (acknowledges_self s.app)

theorem of_none (hlast : s.last_hooks_marker = none) : Settled s := by
  intro marker hmarker
  rw [hlast] at hmarker
  cases hmarker

end Settled

/-! ### The warm rung -/

section Warm

variable {s : Session} {marker : Marker} {cold : Bool} {ack : WarmAck}

/-- The delivery that the warm rung ends with, the read behind it, and the app in between. -/
def WarmEnv.last (env : WarmEnv) (target_path : String) (marker app : Marker) :
    Delivery × Read × Marker :=
  let first := app.run env.delivery.moves
  if env.delivery.status.isSome || env.delivery.seen && first.acknowledges marker ||
      !Session.nonRoot target_path marker then
    (env.delivery, env.readBack, first)
  else (env.root, env.rootReadBack, first.run env.root.moves)

/-- If the app acknowledges a reset in the end, the delivery is acknowledged; and behind it the
    marker is read back, or forgotten with a cold delivery, or advanced to what the app shows. -/
def Known (marker : Marker) (cold : Bool) (last : Delivery × Read × Marker) : Bool :=
  !last.2.2.acknowledges marker ||
    last.1.seen && last.1.status.isNone && (last.2.1.hit || cold ||
      !(last.2.2.run (last.2.1.relaunches.map .relaunch)).acknowledges
        { marker with epoch := marker.epoch + 1 })

theorem deliver_cases (s : Session) (marker : Marker) (d : Delivery) :
    (∃ e, d.status = some e ∧ (s.deliver_deep_link marker d).1 = .error e) ∨
      d.status = none ∧ (s.deliver_deep_link marker d).1 =
        .ok (d.seen && (s.app.run d.moves).acknowledges marker) := by
  unfold Session.deliver_deep_link
  dsimp only
  cases d.status with
  | some e => exact .inl ⟨e, rfl, rfl⟩
  | none => exact .inr ⟨rfl, rfl⟩

/-- What is remembered behind an acknowledged delivery. -/
theorem trust_settled (h : (s.app.acknowledges { marker with epoch := marker.epoch + 1 }) = false ∨
    cold = true) : Settled (s.trust marker cold).2 := by
  unfold Session.trust
  cases cold with
  | true => exact .of_none rfl
  | false =>
    rcases h with h | h
    · exact .of_some rfl h
    · cases h

theorem readBack_settled {r : Read} (hlast : s.last_hooks_marker = some marker)
    (h : r.hit = true ∨ cold = true ∨ (s.app.run (r.relaunches.map .relaunch)).acknowledges
      { marker with epoch := marker.epoch + 1 } = false) :
    Settled (s.readBack marker cold r).2 := by
  unfold Session.readBack Session.current_hooks_marker
  dsimp only
  cases hhit : r.hit with
  | true =>
    show Settled (if (s.relaunch r.relaunches).app.acknowledges marker then _ else _ :
      Except String WarmAck × Session).2
    split
    case isTrue => exact .of_app rfl
    case isFalse hnot => exact .of_some hlast (Bool.eq_false_iff.mpr hnot)
  | false =>
    rw [hhit] at h
    rcases h with h | h | h
    · cases h
    · exact trust_settled (.inr h)
    · exact trust_settled (.inl h)

theorem rootReadBack_settled {r : Read}
    (h : r.hit = true ∨ cold = true ∨ (s.app.run (r.relaunches.map .relaunch)).acknowledges
      { marker with epoch := marker.epoch + 1 } = false) :
    Settled (s.rootReadBack marker cold r).2 := by
  unfold Session.rootReadBack Session.current_hooks_marker
  dsimp only
  cases hhit : r.hit with
  | true =>
    show Settled (if (s.relaunch r.relaunches).app.acknowledges marker then _ else _ :
      Except String WarmAck × Session).2
    split
    case isTrue => exact .of_app rfl
    case isFalse hnot => exact trust_settled (.inl (acknowledges_advanced hnot))
  | false =>
    rw [hhit] at h
    rcases h with h | h | h
    · cases h
    · exact trust_settled (.inr h)
    · exact trust_settled (.inl h)

theorem known_cases {d : Delivery} {r : Read} {app : Marker}
    (h : Known marker cold (d, r, app) = true) :
    app.acknowledges marker = false ∨ (d.seen = true ∧ d.status = none) ∧
      (r.hit = true ∨ cold = true ∨ (app.run (r.relaunches.map .relaunch)).acknowledges
        { marker with epoch := marker.epoch + 1 } = false) := by
  unfold Known at h
  rw [Bool.or_eq_true, Bool.not_eq_true'] at h
  rcases h with h | h
  · exact .inl h
  · simp only [Bool.and_eq_true, Bool.or_eq_true, Bool.not_eq_true', Option.isNone_iff_eq_none,
      or_assoc] at h
    exact .inr h

theorem redeliver_settled {env : WarmEnv} (hlast : s.last_hooks_marker = some marker)
    (h : Known marker cold (env.root, env.rootReadBack, s.app.run env.root.moves) = true) :
    Settled (s.redeliver marker cold env).2 := by
  have hkept : (s.app.run env.root.moves).acknowledges marker = false →
      Settled (s.deliver_deep_link marker env.root).2 := fun hnot => .of_some hlast hnot
  unfold Session.redeliver
  dsimp only
  rcases deliver_cases s marker env.root with ⟨e, hstatus, herror⟩ | ⟨hstatus, hok⟩
  · rw [herror]
    rcases known_cases h with hnot | ⟨⟨-, hnone⟩, -⟩
    · exact hkept hnot
    · rw [hstatus] at hnone
      cases hnone
  · rw [hok]
    rcases known_cases h with hnot | ⟨⟨hseen, -⟩, hread⟩
    · rw [hnot, Bool.and_false]
      exact hkept hnot
    · rw [hseen, Bool.true_and]
      cases hacknowledged : (s.app.run env.root.moves).acknowledges marker with
      | true => exact rootReadBack_settled hread
      | false => exact hkept hacknowledged

/-- **The warm rung** leaves the session settled if what the app completed is known. -/
theorem warmFrom_settled {target_path : String} {env : WarmEnv}
    (hlast : s.last_hooks_marker = some marker)
    (h : Known marker cold (env.last target_path marker s.app) = true) :
    Settled (s.warmFrom target_path marker cold env).2 := by
  have hkept : (s.app.run env.delivery.moves).acknowledges marker = false →
      Settled (s.deliver_deep_link marker env.delivery).2 := fun hnot => .of_some hlast hnot
  unfold WarmEnv.last at h
  dsimp only at h
  unfold Session.warmFrom
  dsimp only
  rcases deliver_cases s marker env.delivery with ⟨e, hstatus, herror⟩ | ⟨hstatus, hok⟩
  · rw [herror]
    rw [hstatus, Option.isSome_some, Bool.true_or, Bool.true_or, if_pos rfl] at h
    rcases known_cases h with hnot | ⟨⟨-, hnone⟩, -⟩
    · exact hkept hnot
    · rw [hstatus] at hnone
      cases hnone
  · rw [hok]
    rw [hstatus, Option.isSome_none, Bool.false_or] at h
    cases hacked : env.delivery.seen && (s.app.run env.delivery.moves).acknowledges marker with
    | true =>
      rw [hacked, Bool.true_or, if_pos rfl] at h
      rcases known_cases h with hnot | ⟨-, hread⟩
      · rw [hnot, Bool.and_false] at hacked
        cases hacked
      · exact readBack_settled hlast hread
    | false =>
      rw [hacked, Bool.false_or] at h
      show Settled (if Session.nonRoot target_path marker then
        (s.deliver_deep_link marker env.delivery).2.redeliver marker cold env
        else (.error env.response_error, (s.deliver_deep_link marker env.delivery).2)).2
      split
      case isTrue hnonRoot =>
        rw [hnonRoot, Bool.not_true, if_neg Bool.false_ne_true] at h
        exact redeliver_settled hlast h
      case isFalse hroot =>
        rw [Bool.eq_false_iff.mpr hroot, Bool.not_false, if_pos rfl] at h
        refine hkept ?_
        rcases known_cases h with hnot | ⟨⟨hseen, -⟩, -⟩
        · exact hnot
        · rw [hseen, Bool.true_and] at hacked
          exact hacked

theorem readBack_completed (s : Session) (marker : Marker) (cold : Bool) (r : Read) :
    (s.readBack marker cold r).2.completed = s.completed := by
  unfold Session.readBack Session.current_hooks_marker
  dsimp only
  split
  · split
    · rfl
    · rfl
  · rfl

theorem rootReadBack_completed (s : Session) (marker : Marker) (cold : Bool) (r : Read) :
    (s.rootReadBack marker cold r).2.completed = s.completed := by
  unfold Session.rootReadBack Session.current_hooks_marker
  dsimp only
  split
  · split
    · rfl
    · rfl
  · rfl

/-- A delivery that is acknowledged against a baseline that the app had not gone beyond. -/
theorem completed_lt_of_deliver {d : Delivery} (hnot : s.app.acknowledges marker = false)
    (hok : (s.deliver_deep_link marker d).1 = .ok true) :
    s.completed < (s.deliver_deep_link marker d).2.completed := by
  rcases deliver_cases s marker d with ⟨e, -, herror⟩ | ⟨-, hacked⟩
  · rw [herror] at hok
    cases hok
  · rw [hacked] at hok
    have hacked := (Bool.and_eq_true_iff.mp (Except.ok.inj hok)).2
    exact Nat.lt_add_of_pos_right (reset_of_acknowledges hnot hacked)

theorem warmFrom_ran {target_path : String} {env : WarmEnv}
    (hnot : s.app.acknowledges marker = false)
    (hok : (s.warmFrom target_path marker cold env).1 = .ok ack) :
    s.completed < (s.warmFrom target_path marker cold env).2.completed := by
  unfold Session.warmFrom at hok ⊢
  dsimp only at hok ⊢
  generalize hfirst : (s.deliver_deep_link marker env.delivery).1 = first at *
  cases first with
  | error e => cases hok
  | ok seen =>
    cases seen with
    | true =>
      rw [readBack_completed]
      exact completed_lt_of_deliver hnot hfirst
    | false =>
      have hmono : s.completed ≤ (s.deliver_deep_link marker env.delivery).2.completed :=
        Nat.le_add_right _ _
      dsimp only at hok ⊢
      split at hok
      case isFalse => cases hok
      case isTrue hnonRoot =>
        rw [if_pos hnonRoot]
        unfold Session.redeliver at hok ⊢
        dsimp only at hok ⊢
        generalize hroot : ((s.deliver_deep_link marker env.delivery).2.deliver_deep_link
          marker env.root).1 = root at *
        cases root with
        | error e => cases hok
        | ok acked =>
          cases acked with
          | false => cases hok
          | true =>
            dsimp only
            rw [rootReadBack_completed]
            -- what the second delivery sees may have happened in the first
            cases hfirstAcked : (s.app.run env.delivery.moves).acknowledges marker with
            | true =>
              exact Nat.lt_of_lt_of_le
                (Nat.lt_add_of_pos_right (reset_of_acknowledges hnot hfirstAcked))
                (Nat.le_add_right _ _)
            | false => exact Nat.lt_of_le_of_lt hmono (completed_lt_of_deliver hfirstAcked hroot)

end Warm

/-! ### Requests -/

section Requests

variable {s : Session}

theorem current_hooks_marker_cases (s : Session) (r : Read) :
    (s.current_hooks_marker r).1 = none ∨
      (s.current_hooks_marker r).1 = some (s.current_hooks_marker r).2.app := by
  unfold Session.current_hooks_marker
  dsimp only
  split
  · exact .inr rfl
  · exact .inl rfl

/-- What the reads of a request leave behind: a settled session, in which a marker with a hook
    that was seen is the one that is remembered, and shown. -/
structure Looked (s : Session) (marker : Option Marker) (s' : Session) : Prop where
  settled : Settled s'
  completed : s'.completed = s.completed
  hook : hasHook marker = true → s'.last_hooks_marker = marker

theorem Looked.of_hit {s' : Session} {marker : Option Marker} (hcompleted : s'.completed = s.completed)
    (hsettled : Settled s') (happ : marker = none ∨ marker = some s'.app) :
    Looked s marker (s'.remember marker) := by
  unfold Session.remember
  split
  case isTrue hhook =>
    rcases happ with rfl | rfl
    · cases hhook
    · exact ⟨.of_app rfl, hcompleted, fun _ => rfl⟩
  case isFalse hno => exact ⟨hsettled, hcompleted, fun hhook => absurd hhook hno⟩

theorem reread_looked (reads : List Read) : ∀ (s' : Session) (marker : Option Marker),
    s'.completed = s.completed → Settled s' → hasHook marker = false →
    Looked s (s'.reread marker reads).1 (s'.reread marker reads).2 := by
  induction reads with
  | nil =>
    intro s' marker hcompleted hsettled hno
    exact ⟨hsettled, hcompleted, fun hhook => absurd (hno.symm.trans hhook) Bool.false_ne_true⟩
  | cons r rest ih =>
    intro s' marker hcompleted hsettled _
    unfold Session.reread
    dsimp only
    split
    case isTrue =>
      exact .of_hit hcompleted (hsettled.relaunch _) (current_hooks_marker_cases s' r)
    case isFalse hno => exact ih _ _ hcompleted (hsettled.relaunch _) (Bool.eq_false_iff.mpr hno)

theorem liveMarker_looked (env : ResetEnv) (h : Settled s) :
    Looked s (s.liveMarker env).1 (s.liveMarker env).2 := by
  unfold Session.liveMarker
  dsimp only
  split
  case isTrue => exact .of_hit rfl (h.relaunch _) (current_hooks_marker_cases s env.read)
  case isFalse hno =>
    have hno := Bool.eq_false_iff.mpr hno
    split
    · exact reread_looked _ _ _ rfl (h.relaunch _) hno
    · exact ⟨h.relaunch _, rfl, fun hhook => absurd (hno.symm.trans hhook) Bool.false_ne_true⟩

/-- The baseline of a request is the marker that is remembered by then. -/
theorem prepare_marker {request : ResetRequest} {env : ResetEnv} (h : Settled s) {marker : Marker}
    (hmarker : (s.prepare request env).marker = some marker) :
    (s.prepare request env).session.last_hooks_marker = some marker := by
  have hlooked := liveMarker_looked env h
  unfold Session.prepare at hmarker ⊢
  dsimp only at hmarker ⊢
  obtain ⟨hor, hhook⟩ := Option.filter_eq_some_iff.mp hmarker
  cases hlive : (s.liveMarker env).1 with
  | some live =>
    rw [hlive, Option.some_or] at hor
    obtain rfl := Option.some.inj hor
    rw [hlive] at hlooked
    exact hlooked.hook hhook
  | none =>
    rw [hlive, Option.none_or] at hor
    split at hor
    · exact hor
    · cases hor

/-- For the warm rung of a request, what the app completed is known. -/
def Traceable (s : Session) : Input → Prop
  | .reset_app request env =>
    let p := s.prepare request env
    ∀ marker cold, p.marker = some marker → p.plan.first = .warmHooks cold →
      Known marker cold.isSome (env.warm.last request.target marker p.session.app) = true
  | .navigate _ _ | .relaunch _ => True

/-- The step of an input after which what the app completed is known. -/
def Traced (s : Session) (e : Event) (s' : Session) : Prop :=
  ∃ i, s.step i = some (s', e) ∧ Traceable s i

/-- The warm rung of a request in a settled session. -/
theorem warm_settled {request : ResetRequest} {env : ResetEnv} (h : Settled s)
    (htraceable : Traceable s (.reset_app request env)) :
    Settled ((s.prepare request env).warm request env).2 ∧
      ∀ ack, ((s.prepare request env).warm request env).1 = some (.ok ack) →
        s.completed < ((s.prepare request env).warm request env).2.completed := by
  have hlooked := liveMarker_looked env h
  have hcompleted : (s.prepare request env).session.completed = s.completed := hlooked.completed
  have hsettled : Settled (s.prepare request env).session := hlooked.settled
  have hmarker := @prepare_marker s request env h
  unfold Traceable at htraceable
  dsimp only at htraceable
  generalize s.prepare request env = p at *
  unfold Prepared.warm
  split
  case h_1 cold hfirst =>
    cases hp : p.marker with
    | none => exact ⟨hsettled, nofun⟩
    | some marker =>
      have hlast := hmarker hp
      refine ⟨warmFrom_settled hlast (htraceable marker cold hp hfirst), fun ack hok => ?_⟩
      rw [← hcompleted]
      exact warmFrom_ran (hsettled marker hlast) (Option.some.inj hok)
  all_goals exact ⟨hsettled, nofun⟩

theorem navigate_settled (h : Settled s) (r : Read) (relaunches : List String) :
    Settled (s.navigate r relaunches) := by
  unfold Session.navigate
  refine Settled.relaunch ?_ relaunches
  split
  case isFalse => exact h
  case isTrue =>
    dsimp only
    rcases current_hooks_marker_cases s r with hmiss | hhit
    · rw [hmiss]
      dsimp only
      split
      · exact h.relaunch _
      · exact h.relaunch _
    · rw [hhit]
      exact .of_app rfl

/-- **One step** keeps a session settled, and acknowledges only a reset that ran. -/
theorem step_settled {e : Event} {s' : Session} (h : Settled s) (hstep : Traced s e s') :
    Settled s' ∧ ∀ call, e = some call → ∀ ack, call.answer = some (.ok ack) → 0 < call.ran := by
  obtain ⟨i, hi, htraceable⟩ := hstep
  cases i with
  | navigate r relaunches =>
    cases hi
    exact ⟨navigate_settled h r relaunches, nofun⟩
  | relaunch boot =>
    cases hi
    exact ⟨h.relaunch _, nofun⟩
  | reset_app request env =>
    obtain ⟨⟨s'', call⟩, hcall, heq⟩ := Option.map_eq_some_iff.mp hi
    cases heq
    obtain ⟨served, -, heq⟩ := Option.map_eq_some_iff.mp hcall
    cases heq
    obtain ⟨hsettled, hran⟩ := warm_settled h htraceable
    refine ⟨?_, fun call hcall ack hack => ?_⟩
    · exact hsettled.relaunch env.relaunches
    · obtain rfl := Option.some.inj hcall
      exact Nat.sub_pos_of_lt (hran ack hack)

/-- **Acknowledged resets ran.**  In a session in which what the app completes is known after every
    request, a warm rung that succeeds has run a reset with a link that it delivered itself. -/
theorem acknowledged_ran {s₀ : Session} (hstart : s₀.last_hooks_marker = none) {es : List Event}
    (h : Run Traced s₀ es s) {call : Call} (hcall : some call ∈ es) {ack : WarmAck}
    (hack : call.answer = some (.ok ack)) : 0 < call.ran := by
  have hsteps : ∀ s e s', Settled s → Traced s e s' → Settled s' ∧
      ∀ call, e = some call → ∀ ack, call.answer = some (.ok ack) → 0 < call.ran :=
    fun s e s' => step_settled
  exact h.always hsteps (.of_none hstart) _ hcall call rfl ack hack

/-- An app that has just been started. -/
def freshApp : Marker where
  url_prefix := "myapp:///"
  epoch := 0
  boot := some "a"

/-- A reset in place whose marker is read back. -/
def readBackEnv : ResetEnv where
  warm := { delivery := { moves := [.reset none] } }

/-- No read shows the marker before the delivery, which runs a reset. -/
def missedEnv : ResetEnv where
  read := { hit := false }
  rereads := [{ hit := false }, { hit := false }]
  warm := { delivery := { moves := [.reset none] } }

/-- The second of two resets is acknowledged against the marker that the first left. -/
theorem acknowledged_ran_missed : ∃ first second s,
    Run Traced { app := freshApp } [some first, some second] s ∧
      second.answer = some (.ok { epoch := 2, process_recreated := false }) ∧ 0 < second.ran := by
  have hknown : ∀ {s : Session} {env : ResetEnv},
      (∀ marker cold, (s.prepare {} env).marker = some marker →
        Known marker cold (env.warm.last "/" marker (s.prepare {} env).session.app) = true) →
      Traceable s (.reset_app {} env) :=
    fun h marker cold hmarker _ => h marker cold.isSome hmarker
  have h : Run Traced { app := freshApp } ([] ++ [some _] ++ [some _]) _ :=
    (Run.nil.snoc ⟨.reset_app {} readBackEnv, rfl, hknown fun marker cold hmarker => by
      cases hmarker
      cases cold <;> decide +kernel⟩).snoc
        ⟨.reset_app {} missedEnv, rfl, hknown fun marker cold hmarker => by
          cases hmarker
          cases cold <;> decide +kernel⟩
  exact ⟨_, _, _, h, rfl, acknowledged_ran rfl h (List.mem_append_right _ List.mem_cons_self) rfl⟩

/-- The delivery relaunches the app on the way, and the marker cannot be read back. -/
def relaunchedEnv : ResetEnv where
  warm :=
    { delivery := { moves := [.relaunch "b", .reset none] }
      readBack := { hit := false } }

/-- The link is dropped, and no read shows the marker before. -/
def droppedEnv : ResetEnv :=
  { missedEnv with warm := { delivery := { moves := [] } } }

/-- The reset that is dropped is acknowledged by the one before it, in the new process. -/
theorem acknowledged_dropped : ∃ first second s,
    Run (Steps Session.step) { app := freshApp } [some first, some second] s ∧
      second.answer = some (.ok { epoch := 1, process_recreated := true }) ∧ second.ran = 0 := by
  have h : Run (Steps Session.step) { app := freshApp } ([] ++ [some _] ++ [some _]) _ :=
    (Run.nil.snoc ⟨.reset_app {} relaunchedEnv, rfl⟩).snoc ⟨.reset_app {} droppedEnv, rfl⟩
  exact ⟨_, _, _, h, rfl, rfl⟩

end Requests

end Tapsmith.Reset
