import Tapsmith.Lib.Machine
import Tapsmith.Reset.Truth

namespace Tapsmith.Reset

open Lib.Machine

/-!
# The reset policy over a session

What the resets of a session leave in its counters, as `reset_app` of `grpc_server.rs` folds them.

* `SessionState` — all counters of the session, and the functions that change them;
* `reset_app`, `Resets` — one request: its plan, its ladder and the counters after it;
* `resets_cases` — what a request with fallback can come to;
* `warm_window_bounded` — how many resets in a row are delivered in place;
* `warm_allowance` — how often a hook that fails is tried, and when it is tried again.
-/

def MAX_STREAK_VALVE_RELAUNCHES : ℕ := 3

/-- The counters that the plan looks at, and the relaunches that stood in for the streak valve
    since the last warm success. -/
structure SessionState extends ResetPolicyState where
  valve_relaunches : ℕ := 0

namespace SessionState

/-- A completed reset is folded into the counters. -/
def record (state : SessionState) (outcome : ResetOutcome) : SessionState :=
  let warm_succeeded := outcome.mode_used = .warm ∧ outcome.fell_back = false
  let window :=
    if outcome.cold_launch then 0
    else if warm_succeeded then state.warm_resets_since_cold + 1
    else 0
  if warm_succeeded then
    { warm_resets_since_cold := window, consecutive_warm_failures := 0, valve_relaunches := 0 }
  else { state with warm_resets_since_cold := window }

def record_warm_failure (state : SessionState) : SessionState :=
  { state with consecutive_warm_failures := state.consecutive_warm_failures + 1 }

/-- The relaunch that stands in for the streak valve lets the hook be tried again, a few times. -/
def consume_streak_valve (state : SessionState) : SessionState :=
  { state with
    valve_relaunches := state.valve_relaunches + 1
    consecutive_warm_failures :=
      if state.valve_relaunches + 1 < MAX_STREAK_VALVE_RELAUNCHES then 0
      else state.consecutive_warm_failures }

end SessionState

def ResetStep.warmFailed (step : ResetStep) : Bool :=
  "warm".toList.isPrefixOf step.name.toList && !step.ok

/-- What `reset_app` does to the counters behind a ladder. -/
def SessionState.fold (state : SessionState) (plan : ResetPlan) (outcome : ResetOutcome) :
    SessionState :=
  let state := if outcome.steps.any ResetStep.warmFailed then state.record_warm_failure else state
  if outcome.error = none then
    if plan.consumes_warm_failure_streak then (state.record outcome).consume_streak_valve
    else state.record outcome
  else state

/-- A request as it was planned and carried out. -/
structure Served where
  input : PlanInput
  plan : ResetPlan
  ladder : Ladder

/-- The `reset_app` request: the plan, its ladder and the counters after it. -/
def reset_app (s : SessionState) (request : PlanInput × ResetOps) :
    Option (SessionState × Served) :=
  let plan := decide s.toResetPolicyState request.1
  (run_ladder request.2 plan request.1.allow_fallback).map fun ladder =>
    (s.fold plan ladder.outcome, { input := request.1, plan, ladder })

def Resets : SessionState → Served → SessionState → Prop := Steps reset_app

namespace Served

/-- The warm rung was tried. -/
def attempted (e : Served) : Bool := e.ladder.invoked.any (·.rung = .warm)

/-- The warm rung succeeded. -/
def succeeded (e : Served) : Bool :=
  e.ladder.outcome.error = none && e.ladder.outcome.mode_used = .warm

/-- A warm reset was delivered to the running app. -/
def inPlace (e : Served) : Bool := e.succeeded && !e.ladder.outcome.cold_launch

/-- The app was relaunched: by a cold delivery, a restart or a clear. -/
def relaunched (e : Served) : Bool :=
  e.ladder.outcome.error = none && e.ladder.outcome.cold_launch

end Served

/-! ### One request -/

section Request

variable {ops : ResetOps} {l : Ladder}

/-- The operations behind the first are on higher rungs. -/
theorem Reported.rung_lt {allow_fallback : Bool} {mode : ResetMode}
    (h : Reported ops allow_fallback mode l) {op : Operation} {rest : List Operation}
    (hinvoked : l.invoked = op :: rest) : ∀ o ∈ rest, op.rung.rank < o.rung.rank := by
  have hordered := h.ordered
  rw [hinvoked] at hordered
  exact (List.pairwise_cons.mp hordered).1

theorem warmFailed_step (op : Operation) :
    (ops.step op).warmFailed = (op.rung = .warm && !ops.succeeds op) := by
  have hname : ∀ {α : Type} (name : String) (result : Except String α),
      (stepOf name result).warmFailed =
        ("warm".toList.isPrefixOf name.toList && !(stepOf name result).ok) := by
    intro α name result
    cases result <;> rfl
  unfold ResetOps.succeeds
  cases op <;> rw [ResetOps.step, hname] <;> rfl

/-- A step that records a failed warm operation is among the steps just when one was invoked. -/
theorem any_warmFailed {invoked : List Operation} :
    (invoked.map ops.step).any ResetStep.warmFailed =
      invoked.any fun op => op.rung = .warm && !ops.succeeds op := by
  rw [List.any_map]
  congr 1
  funext op
  exact warmFailed_step op

theorem resets_spec {s s' : SessionState} {e : Served} (h : Resets s e s') :
    e.plan = decide s.toResetPolicyState e.input ∧
      (∃ ops, run_ladder ops e.plan e.input.allow_fallback = some e.ladder) ∧
      s' = s.fold e.plan e.ladder.outcome := by
  obtain ⟨⟨input, ops⟩, hserved⟩ := h
  obtain ⟨ladder, hrun, heq⟩ := Option.map_eq_some_iff.mp hserved
  cases heq
  exact ⟨rfl, ⟨ops, hrun⟩, rfl⟩

/-- What a request comes to: a relaunch, a warm reset, or one that failed. -/
inductive Comes (s : SessionState) (e : Served) (s' : SessionState) : Prop
  | relaunch (hfirst : e.plan.first.Relaunch)
      (hhead : e.ladder.invoked.head? = some e.plan.first.operation)
      (hattempted : e.attempted = false)
      (hsucceeded : e.succeeded = false)
      (hcold : e.ladder.outcome.error = none → e.ladder.outcome.cold_launch = true)
      (hstate : s' = if e.ladder.outcome.error = none then
        (if e.plan.consumes_warm_failure_streak then
          { s with warm_resets_since_cold := 0 : SessionState }.consume_streak_valve
        else { s with warm_resets_since_cold := 0 })
        else s)
  | warm (hfirst : ¬ e.plan.first.Relaunch) (hattempted : e.attempted = true)
      (hsucceeded : e.succeeded = true)
      (hcold : e.ladder.outcome.cold_launch = false → InPlace s.toResetPolicyState e.input)
      (hstate : s' =
        { warm_resets_since_cold :=
            if e.ladder.outcome.cold_launch then 0 else s.warm_resets_since_cold + 1
          consecutive_warm_failures := 0
          valve_relaunches := 0 })
  | failed (hfirst : ¬ e.plan.first.Relaunch) (hattempted : e.attempted = true)
      (hsucceeded : e.succeeded = false)
      (hcold : e.ladder.outcome.error = none → e.ladder.outcome.cold_launch = true)
      (hstate : s' =
        { s with
          warm_resets_since_cold :=
            if e.ladder.outcome.error = none then 0 else s.warm_resets_since_cold
          consecutive_warm_failures := s.consecutive_warm_failures + 1 })

theorem fold_quiet {s : SessionState} {plan : ResetPlan} {outcome : ResetOutcome}
    (hquiet : outcome.steps.any ResetStep.warmFailed = false) :
    s.fold plan outcome = if outcome.error = none then
      (if plan.consumes_warm_failure_streak then (s.record outcome).consume_streak_valve
      else s.record outcome) else s := by
  unfold SessionState.fold
  rw [hquiet]
  rfl

theorem fold_failed {s : SessionState} {plan : ResetPlan} {outcome : ResetOutcome}
    (hfailed : outcome.steps.any ResetStep.warmFailed = true)
    (hconsumes : plan.consumes_warm_failure_streak = false) :
    s.fold plan outcome = if outcome.error = none then s.record_warm_failure.record outcome
      else s.record_warm_failure := by
  unfold SessionState.fold
  rw [hfailed, hconsumes]
  rfl

theorem Served.succeeded_eq_false {e : Served}
    (h : e.ladder.outcome.error = none → e.ladder.outcome.mode_used ≠ .warm) :
    e.succeeded = false := by
  unfold Served.succeeded
  by_cases herror : e.ladder.outcome.error = none
  · rw [decide_eq_false (h herror), Bool.and_false]
  · rw [decide_eq_false herror, Bool.false_and]

theorem record_of_relaunch {s : SessionState} {outcome : ResetOutcome}
    (hmode : outcome.mode_used ≠ .warm) (hcold : outcome.cold_launch = true) :
    s.record outcome = { s with warm_resets_since_cold := 0 } := by
  unfold SessionState.record
  dsimp only
  rw [hcold, if_neg fun h => hmode h.1, if_pos rfl]

theorem Operation.rung_ne_warm {op : Operation} (h : op = .restart ∨ op = .clear) :
    op.rung ≠ .warm := by
  rcases h with rfl | rfl
  · nofun
  · nofun

theorem Reported.mode_used_ne {allow_fallback : Bool} {mode : ResetMode}
    (h : Reported ops allow_fallback mode l) (hnone : l.outcome.error = none)
    (hlast : ∀ op, l.invoked.getLast? = some op → op = .restart ∨ op = .clear) :
    l.outcome.mode_used ≠ .warm := by
  obtain ⟨op, hop, -⟩ := h.error_iff.mp hnone
  rw [h.mode_used hnone op hop]
  exact Operation.rung_ne_warm (hlast op hop)

variable {s : SessionState} {e : Served}

theorem relaunch_comes (hfirst : e.plan.first.Relaunch) {mode : ResetMode}
    (hmode : e.plan.reason = none ∧ e.plan.first.operation.rung = mode ∨
      e.plan.reason.isSome = true ∧ mode = .warm)
    (hrun : run_ladder ops e.plan true = some e.ladder) :
    Comes s e (s.fold e.plan e.ladder.outcome) := by
  obtain ⟨l, hl, hreported, hhead, hends⟩ := @run_ladder_relaunch ops true e.plan mode hfirst hmode
  obtain rfl : l = e.ladder := Option.some.inj (hl.symm.trans hrun)
  have hno : ∀ op ∈ e.ladder.invoked, op.rung ≠ .warm := by
    have hhead := hhead rfl
    have hrung : 0 < e.plan.first.operation.rung.rank := by
      rcases hfirst with h | h
      · rw [h]
        decide
      · rw [h]
        decide
    cases hinvoked : e.ladder.invoked with
    | nil => exact nofun
    | cons op rest =>
      rw [hinvoked] at hhead
      obtain rfl := Option.some.inj hhead
      intro o ho hwarm
      rcases List.mem_cons.mp ho with rfl | ho
      · rw [hwarm] at hrung
        exact Nat.lt_irrefl 0 hrung
      · have hlt := hreported.rung_lt hinvoked o ho
        rw [hwarm] at hlt
        exact Nat.not_lt_zero _ hlt
  have hquiet : e.ladder.outcome.steps.any ResetStep.warmFailed = false := by
    rw [hreported.steps, any_warmFailed, List.any_eq_false]
    intro op hop
    rw [decide_eq_false (hno op hop), Bool.false_and]
    exact Bool.false_ne_true
  have hmode_used : e.ladder.outcome.error = none → e.ladder.outcome.mode_used ≠ .warm :=
    fun hnone => hreported.mode_used_ne hnone (hends hnone).2
  refine .relaunch hfirst (hhead rfl) ?_ (Served.succeeded_eq_false hmode_used) (fun h => (hends h).1) ?_
  · rw [Served.attempted, List.any_eq_false]
    intro op hop
    rw [decide_eq_false (hno op hop)]
    exact Bool.false_ne_true
  · rw [fold_quiet hquiet]
    split
    case isTrue hnone => rw [record_of_relaunch (hmode_used hnone) (hends hnone).1]
    case isFalse => rfl

theorem warm_comes {op : Operation} {cold_launch : Bool} (hfirst : ¬ e.plan.first.Relaunch)
    (hrung : op.rung = .warm) (hconsumes : e.plan.consumes_warm_failure_streak = false)
    (hcold : cold_launch = false → InPlace s.toResetPolicyState e.input)
    (h : WarmLadder ops true op cold_launch e.ladder) :
    Comes s e (s.fold e.plan e.ladder.outcome) := by
  have hmem : op ∈ e.ladder.invoked := List.mem_of_head? h.head
  have hattempted : e.attempted = true :=
    List.any_eq_true.mpr ⟨op, hmem, decide_eq_true hrung⟩
  cases hsucceeds : ops.succeeds op with
  | true =>
    obtain ⟨hnone, hlast⟩ := h.succeeds hsucceeds
    have hmode : e.ladder.outcome.mode_used = .warm :=
      (h.reported.mode_used hnone op hlast).trans hrung
    have hfell : e.ladder.outcome.fell_back = false :=
      Bool.eq_false_iff.mpr fun hfell => (h.reported.fell_back hnone).mp hfell hmode
    have hquiet : e.ladder.outcome.steps.any ResetStep.warmFailed = false := by
      rw [h.reported.steps, any_warmFailed, List.any_eq_false]
      intro o ho
      -- no operation is invoked behind the warm one
      have heq : o = op := by
        cases hinvoked : e.ladder.invoked with
        | nil => exact absurd (hinvoked ▸ ho) List.not_mem_nil
        | cons first rest =>
          have hhead := h.head
          rw [hinvoked] at hhead hlast ho
          have hop : first = op := Option.some.inj hhead
          rcases List.mem_cons.mp ho with heq | ho
          · exact heq.trans hop
          · have hrest : op ∈ rest := by
              rw [List.getLast?_cons_of_ne_nil (List.ne_nil_of_mem ho)] at hlast
              exact List.mem_of_getLast? hlast
            have hlt := h.reported.rung_lt hinvoked op hrest
            rw [hop] at hlt
            exact absurd hlt (Nat.lt_irrefl _)
      rw [heq, hsucceeds, Bool.not_true, Bool.and_false]
      exact Bool.false_ne_true
    refine .warm hfirst hattempted ?_ (fun hlaunch => hcold ?_) ?_
    · rw [Served.succeeded, hnone, hmode]
      rfl
    · rcases h.cold_launch hnone op hlast with ⟨-, heq⟩ | ⟨hop, -⟩
      · exact heq.symm.trans hlaunch
      · exact absurd hrung (Operation.rung_ne_warm hop)
    · rw [fold_quiet hquiet, if_pos hnone, hconsumes, if_neg Bool.false_ne_true]
      unfold SessionState.record
      simp only [hmode, hfell, and_self, if_true]
  | false =>
    have hfailed : e.ladder.outcome.steps.any ResetStep.warmFailed = true := by
      rw [h.reported.steps, any_warmFailed]
      refine List.any_eq_true.mpr ⟨op, hmem, ?_⟩
      rw [hsucceeds, decide_eq_true hrung]
      rfl
    have hlast : e.ladder.outcome.error = none → e.ladder.outcome.cold_launch = true ∧
        ∀ o, e.ladder.invoked.getLast? = some o → o = .restart ∨ o = .clear := by
      intro hnone
      have hends : ∀ o, e.ladder.invoked.getLast? = some o →
          (o = .restart ∨ o = .clear) ∧ e.ladder.outcome.cold_launch = true := by
        intro o ho
        rcases h.cold_launch hnone o ho with ⟨rfl, -⟩ | hrelaunch
        · exact absurd (hsucceeds.symm.trans (h.reported.last_succeeds hnone ho)) nofun
        · exact hrelaunch
      obtain ⟨o, ho, -⟩ := h.reported.error_iff.mp hnone
      exact ⟨(hends o ho).2, fun o ho => (hends o ho).1⟩
    have hmode : e.ladder.outcome.error = none → e.ladder.outcome.mode_used ≠ .warm :=
      fun hnone => h.reported.mode_used_ne hnone (hlast hnone).2
    refine .failed hfirst hattempted (Served.succeeded_eq_false hmode) (fun h => (hlast h).1) ?_
    rw [fold_failed hfailed hconsumes]
    split
    case isTrue hnone =>
      rw [record_of_relaunch (hmode hnone) (hlast hnone).1]
      rfl
    case isFalse => rfl

/-- **One request** that may fall back. -/
theorem resets_cases {s' : SessionState} (h : Resets s e s')
    (hallow : e.input.allow_fallback = true) : Comes s e s' := by
  obtain ⟨hplan, ⟨ops, hrun⟩, rfl⟩ := resets_spec h
  rw [hallow] at hrun
  have hwarm : ∀ cold, (cold = none → InPlace s.toResetPolicyState e.input) →
      e.plan = warmPlan e.input e.input.warm_fallback cold →
      Comes s e (s.fold e.plan e.ladder.outcome) := by
    intro cold hcold hwarm
    have hfallback : e.plan.warm_fallback ≠ .warm := by
      rw [hwarm, warmPlan_fallback]
      exact warm_fallback_ne
    have hconsumes : e.plan.consumes_warm_failure_streak = false := by
      rw [hwarm, warmPlan]
      split
      · rfl
      · rfl
    have hfirst := @warmPlan_first e.input e.input.warm_fallback cold
    rw [← hwarm] at hfirst
    split at hfirst
    · obtain ⟨l, hl, hladder⟩ := @run_ladder_warmHooks ops true e.plan cold hfirst hfallback
      obtain rfl : l = e.ladder := Option.some.inj (hl.symm.trans hrun)
      refine warm_comes ?_ rfl hconsumes (fun hlaunch => hcold ?_) hladder
      · rw [hfirst]
        rintro (h | h)
        · cases h
        · cases h
      · rw [Bool.or_eq_false_iff] at hlaunch
        exact Option.isNone_iff_eq_none.mp (Option.isSome_eq_false_iff.mp hlaunch.1)
    · obtain ⟨l, hl, hladder⟩ := @run_ladder_warmDeepLink ops true e.plan _ cold hfirst hfallback
      obtain rfl : l = e.ladder := Option.some.inj (hl.symm.trans hrun)
      refine warm_comes ?_ rfl hconsumes (fun hlaunch => hcold ?_) hladder
      · rw [hfirst]
        rintro (h | h)
        · cases h
        · cases h
      · exact Option.isNone_iff_eq_none.mp (Option.isSome_eq_false_iff.mp hlaunch)
  rcases decide_cases s.toResetPolicyState e.input with ⟨-, hfirst, hreason⟩ |
    ⟨-, hfirst, hreason⟩ | ⟨-, -, hfirst, hreason⟩ | ⟨-, -, reason, hwarmPlan⟩ |
    ⟨hinplace, hwarmPlan⟩
  · rw [← hplan] at hfirst hreason
    exact relaunch_comes (.inl hfirst) (.inl ⟨hreason, rfl⟩) hrun
  · rw [← hplan] at hfirst hreason
    exact relaunch_comes (.inr hfirst) (.inl ⟨hreason, rfl⟩) hrun
  · rw [← hplan] at hfirst hreason
    exact relaunch_comes hfirst (.inr ⟨hreason, rfl⟩) hrun
  · exact hwarm (some reason) nofun (hplan.trans hwarmPlan)
  · exact hwarm none (fun _ => hinplace) (hplan.trans hwarmPlan)

end Request

/-! ### The warm window -/

section Window

variable {n : ℕ} {s s' : SessionState} {e : Served} {es : List Served}

/-- A retry asks for a cold delivery on a platform without one, when the warm window is full. -/
def RetryPastBound (s : SessionState) (input : PlanInput) : Prop :=
  input.mode = .warm ∧ input.hook_available = true ∧ input.force_cold = true ∧
    input.supports_cold_delivery = false ∧ input.cold_every_n ≤ s.warm_resets_since_cold

/-- A request that is no retry past the bound. -/
def Bounded (s : SessionState) (e : Served) (s' : SessionState) : Prop :=
  Resets s e s' ∧ ¬ RetryPastBound s e.input

/-- A reset is delivered in place only while the window is open. -/
theorem InPlace.window_lt {input : PlanInput} (h : InPlace s.toResetPolicyState input)
    (hretry : ¬ RetryPastBound s input) (hn : 0 < input.cold_every_n)
    (hallow : input.allow_fallback = true) : s.warm_resets_since_cold < input.cold_every_n := by
  obtain ⟨hmode, hhook, hcold⟩ := h
  unfold ResetPolicyState.cold_reason at hcold
  by_contra hfull
  have hfull : input.cold_every_n ≤ s.warm_resets_since_cold := Nat.le_of_not_lt hfull
  rcases hcold with hnone | ⟨hsupports, hretried | hno⟩
  · split at hnone
    · cases hnone
    · split at hnone
      · cases hnone
      · rw [if_pos ⟨hn, hfull⟩] at hnone
        cases hnone
  · split at hretried
    case isTrue hforce => exact hretry ⟨hmode, hhook, hforce, hsupports, hfull⟩
    case isFalse =>
      split at hretried
      · cases hretried
      · split at hretried
        · cases hretried
        · cases hretried
  · rw [hallow] at hno
    cases hno

/-- What a request does to the window: a reset in place takes one of its places, a relaunch opens
    it, and a request that fails leaves it alone. -/
theorem window_step (h : Bounded s e s') (hn : 0 < n) (hcold : e.input.cold_every_n = n)
    (hallow : e.input.allow_fallback = true) (hle : s.warm_resets_since_cold ≤ n) :
    s'.warm_resets_since_cold ≤ n ∧ (e.relaunched = false →
      s'.warm_resets_since_cold = s.warm_resets_since_cold + if e.inPlace then 1 else 0) := by
  have hrelaunch : e.succeeded = false →
      (e.ladder.outcome.error = none → e.ladder.outcome.cold_launch = true) →
      ∀ w, (w = if e.ladder.outcome.error = none then 0 else s.warm_resets_since_cold) →
      w ≤ n ∧ (e.relaunched = false →
        w = s.warm_resets_since_cold + if e.inPlace then 1 else 0) := by
    intro hfailed hlaunch w hw
    have hinplace : e.inPlace = false := by rw [Served.inPlace, hfailed, Bool.false_and]
    rw [hinplace]
    split at hw
    case isTrue hnone =>
      refine ⟨hw ▸ Nat.zero_le n, fun hno => ?_⟩
      rw [Served.relaunched, hnone, hlaunch hnone] at hno
      cases hno
    case isFalse => exact ⟨hw ▸ hle, fun _ => hw⟩
  cases resets_cases h.1 hallow with
  | relaunch _ _ _ hfailed hlaunch hstate =>
    refine hrelaunch hfailed hlaunch _ ?_
    rw [hstate]
    split
    · split
      · rfl
      · rfl
    · rfl
  | failed _ _ hfailed hlaunch hstate => exact hrelaunch hfailed hlaunch _ (by rw [hstate])
  | warm _ _ hsucceeded hinplace hstate =>
    rw [hstate]
    cases hlaunch : e.ladder.outcome.cold_launch with
    | true =>
      refine ⟨Nat.zero_le n, fun hno => ?_⟩
      rw [Served.succeeded, Bool.and_eq_true] at hsucceeded
      rw [Served.relaunched, hlaunch, hsucceeded.1] at hno
      cases hno
    | false =>
      have hlt := (hinplace hlaunch).window_lt h.2 (hcold ▸ hn) hallow
      rw [hcold] at hlt
      rw [Served.inPlace, hsucceeded, hlaunch]
      exact ⟨hlt, fun _ => rfl⟩

theorem window_run (hn : 0 < n) (h : Run Bounded s es s')
    (hes : ∀ e ∈ es, e.input.cold_every_n = n ∧ e.input.allow_fallback = true)
    (hle : s.warm_resets_since_cold ≤ n) :
    s'.warm_resets_since_cold ≤ n ∧ ((∀ e ∈ es, e.relaunched = false) →
      s'.warm_resets_since_cold = s.warm_resets_since_cold + es.countP Served.inPlace) := by
  induction h with
  | nil => exact ⟨hle, fun _ => rfl⟩
  | @snoc es m s' e _ hstep ih =>
    obtain ⟨hm, hcount⟩ := ih fun e he => hes e (List.mem_append_left _ he)
    have he := hes e (List.mem_append_right _ (List.mem_singleton.mpr rfl))
    obtain ⟨hle', hstep'⟩ := window_step hstep hn he.1 he.2 hm
    refine ⟨hle', fun hno => ?_⟩
    rw [hstep' (hno e (List.mem_append_right _ (List.mem_singleton.mpr rfl))),
      hcount fun e he => hno e (List.mem_append_left _ he), List.countP_append,
      List.countP_singleton, Nat.add_assoc]

/-- **The warm window is bounded.**  Between two relaunches no more than `n` resets are delivered
    in place, if no retry asks for one when the window is full. -/
theorem warm_window_bounded (hn : 0 < n) (h : Run Bounded {} es s)
    (hes : ∀ e ∈ es, e.input.cold_every_n = n ∧ e.input.allow_fallback = true)
    {before between after : List Served} (hsplit : es = before ++ (between ++ after))
    (hbetween : ∀ e ∈ between, e.relaunched = false) : between.countP Served.inPlace ≤ n := by
  subst hsplit
  obtain ⟨s₁, hbefore, hrest⟩ := Run.append_iff.mp h
  obtain ⟨s₂, hrun, -⟩ := Run.append_iff.mp hrest
  obtain ⟨hle, -⟩ := window_run hn hbefore
    (fun e he => hes e (List.mem_append_left _ he)) (Nat.zero_le n)
  obtain ⟨hle', hcount⟩ := window_run hn hrun
    (fun e he => hes e (List.mem_append_right _ (List.mem_append_left _ he))) hle
  calc between.countP Served.inPlace
      ≤ s₁.warm_resets_since_cold + between.countP Served.inPlace := Nat.le_add_left ..
    _ = s₂.warm_resets_since_cold := (hcount hbetween).symm
    _ ≤ n := hle'

/-- A warm request of an app with hooks, on a device that cannot deliver cold. -/
def androidInput (cold_every_n : ℕ) (force_cold : Bool) : PlanInput where
  mode := .warm
  marker := some { url_prefix := "myapp:///" }
  remembered_marker := none
  reset_deep_link := ""
  force_cold := force_cold
  cold_every_n := cold_every_n
  supports_cold_delivery := false
  fallback_to_clear := true
  allow_fallback := true

def workingOps : ResetOps where
  warm_hooks _ := .ok { epoch := 1, process_recreated := false }
  warm_deep_link _ _ := .ok ()
  restart := .ok ()
  clear := .ok ()

/-- After a reset in place a window of one is full, and the next request clears. -/
theorem warm_window_bounded_android : ∃ first second s,
    Run Bounded {} ([first] ++ [second]) s ∧ second.relaunched = true ∧
      [first].countP Served.inPlace ≤ 1 := by
  have h : Run Bounded {} _ _ := (Run.nil.snoc ⟨⟨(androidInput 1 false, workingOps), rfl⟩,
    fun hretry => Bool.false_ne_true hretry.2.2.1⟩).snoc
      ⟨⟨(androidInput 1 false, workingOps), rfl⟩, fun hretry => Bool.false_ne_true hretry.2.2.1⟩
  exact ⟨_, _, _, h, rfl, warm_window_bounded Nat.one_pos h
    (List.forall_mem_cons.mpr ⟨⟨rfl, rfl⟩, List.forall_mem_singleton.mpr ⟨rfl, rfl⟩⟩)
    (show _ = [] ++ ([_] ++ [_]) from rfl) (List.forall_mem_singleton.mpr rfl)⟩

/-- Two retries in a row are both delivered in place, in a window of one. -/
theorem warm_window_exceeded : ∃ es s, Run Resets {} es s ∧
    (∀ e ∈ es, e.input.cold_every_n = 1 ∧ e.input.allow_fallback = true) ∧
    (∀ e ∈ es, e.relaunched = false) ∧ es.countP Served.inPlace = 2 := by
  have h : Run Resets {} _ _ :=
    (Run.nil.snoc ⟨(androidInput 1 true, workingOps), rfl⟩).snoc
      ⟨(androidInput 1 true, workingOps), rfl⟩
  exact ⟨_, _, h, List.forall_mem_cons.mpr ⟨⟨rfl, rfl⟩, List.forall_mem_singleton.mpr ⟨rfl, rfl⟩⟩,
    List.forall_mem_cons.mpr ⟨rfl, List.forall_mem_singleton.mpr rfl⟩, rfl⟩

end Window

/-! ### The allowance of a hook -/

section Allowance

variable {s s' : SessionState} {e : Served} {es : List Served}

/-- A warm request that is no retry and may fall back, for an app with a hook on a platform without
    cold delivery. -/
structure WarmRequest (input : PlanInput) : Prop where
  mode : input.mode = .warm
  force_cold : input.force_cold = false
  allow_fallback : input.allow_fallback = true
  hook_available : input.hook_available = true
  supports_cold_delivery : input.supports_cold_delivery = false

/-- The plan of such a request: at the limit of the streak, the relaunch that stands in for its
    valve; below it a warm step, or the relaunch that opens a full window. -/
theorem WarmRequest.plan {input : PlanInput} (h : WarmRequest input) (state : ResetPolicyState) :
    (WARM_FAILURE_STREAK_LIMIT ≤ state.consecutive_warm_failures ∧
      (decide state input).first.Relaunch ∧
      (decide state input).consumes_warm_failure_streak = true) ∨
    (state.consecutive_warm_failures < WARM_FAILURE_STREAK_LIMIT ∧
      (decide state input).consumes_warm_failure_streak = false ∧
      (state.warm_resets_since_cold = 0 → ¬ (decide state input).first.Relaunch)) := by
  have hwarm : (warmPlan input input.warm_fallback none).consumes_warm_failure_streak = false ∧
      ¬ (warmPlan input input.warm_fallback none).first.Relaunch := by
    refine ⟨?_, ?_⟩
    · unfold warmPlan
      split
      · rfl
      · rfl
    · rw [warmPlan_first]
      split
      · rintro (hfirst | hfirst)
        · cases hfirst
        · cases hfirst
      · rintro (hfirst | hfirst)
        · cases hfirst
        · cases hfirst
  have hdecide : decide state input = decideWarm state input := by
    unfold decide
    rw [h.mode]
  rw [hdecide]
  unfold decideWarm ResetPolicyState.cold_reason
  rw [h.hook_available, h.force_cold, h.supports_cold_delivery, h.allow_fallback]
  by_cases hstreak : WARM_FAILURE_STREAK_LIMIT ≤ state.consecutive_warm_failures
  · left
    rw [if_neg Bool.false_ne_true, if_pos hstreak]
    exact ⟨hstreak, fallbackPlan_relaunch _ _, rfl⟩
  · right
    refine ⟨Nat.lt_of_not_le hstreak, ?_⟩
    rw [if_neg Bool.false_ne_true, if_neg hstreak]
    by_cases hwindow : 0 < input.cold_every_n ∧ input.cold_every_n ≤ state.warm_resets_since_cold
    · rw [if_pos hwindow]
      refine ⟨rfl, fun hzero => ?_⟩
      rw [hzero] at hwindow
      exact absurd (Nat.lt_of_lt_of_le hwindow.1 hwindow.2) (Nat.lt_irrefl 0)
    · rw [if_neg hwindow]
      exact ⟨hwarm.1, fun _ => hwarm.2⟩

/-- The hook has failed this many times of those that it may. -/
structure Spent (s : SessionState) (attempts : ℕ) : Prop where
  streak : s.consecutive_warm_failures ≤ WARM_FAILURE_STREAK_LIMIT
  spent : (s.valve_relaunches < MAX_STREAK_VALVE_RELAUNCHES ∧ attempts =
      WARM_FAILURE_STREAK_LIMIT * s.valve_relaunches + s.consecutive_warm_failures) ∨
    (MAX_STREAK_VALVE_RELAUNCHES ≤ s.valve_relaunches ∧
      attempts = WARM_FAILURE_STREAK_LIMIT * MAX_STREAK_VALVE_RELAUNCHES ∧
      s.consecutive_warm_failures = WARM_FAILURE_STREAK_LIMIT)

/-- The most a hook may fail before it is given up. -/
def allowance : ℕ := WARM_FAILURE_STREAK_LIMIT * MAX_STREAK_VALVE_RELAUNCHES

theorem Spent.le {attempts : ℕ} (h : Spent s attempts) : attempts ≤ allowance := by
  have hstreak := h.streak
  have hspent := h.spent
  simp only [allowance, WARM_FAILURE_STREAK_LIMIT, MAX_STREAK_VALVE_RELAUNCHES] at *
  omega

/-- The hook is given up once the allowance is used up. -/
theorem Spent.at_limit (h : Spent s allowance) :
    WARM_FAILURE_STREAK_LIMIT ≤ s.consecutive_warm_failures := by
  have hstreak := h.streak
  have hspent := h.spent
  simp only [allowance, WARM_FAILURE_STREAK_LIMIT, MAX_STREAK_VALVE_RELAUNCHES] at *
  omega

/-- Until then the relaunch for the valve lets it be tried again. -/
theorem Spent.rearmed {attempts : ℕ} (h : Spent s attempts) (hlt : attempts < allowance)
    (hlimit : WARM_FAILURE_STREAK_LIMIT ≤ s.consecutive_warm_failures) :
    s.valve_relaunches + 1 < MAX_STREAK_VALVE_RELAUNCHES := by
  have hstreak := h.streak
  have hspent := h.spent
  simp only [allowance, WARM_FAILURE_STREAK_LIMIT, MAX_STREAK_VALVE_RELAUNCHES] at *
  omega

/-- A request that is no warm success spends at most the attempt that it makes. -/
theorem Spent.step {attempts : ℕ} (h : Spent s attempts) (hstep : Resets s e s')
    (hrequest : WarmRequest e.input) (hfailed : e.succeeded = false) :
    Spent s' (attempts + if e.attempted then 1 else 0) := by
  obtain ⟨hplan, -, -⟩ := resets_spec hstep
  have hcases := hrequest.plan s.toResetPolicyState
  rw [← hplan] at hcases
  cases resets_cases hstep hrequest.allow_fallback with
  | relaunch _ _ hno _ _ hstate =>
    rw [hno]
    rcases hcases with ⟨hlimit, -, hconsumes⟩ | ⟨-, hconsumes, -⟩
    · rw [hconsumes] at hstate
      split at hstate
      · subst hstate
        obtain ⟨hstreak, hspent⟩ := h
        have hfull : s.consecutive_warm_failures = WARM_FAILURE_STREAK_LIMIT :=
          Nat.le_antisymm hstreak hlimit
        by_cases hlt : s.valve_relaunches + 1 < MAX_STREAK_VALVE_RELAUNCHES
        · refine ⟨?_, .inl ⟨hlt, ?_⟩⟩
          · exact Nat.le_trans (Nat.le_of_eq (if_pos hlt)) (Nat.zero_le _)
          · show attempts + 0 = WARM_FAILURE_STREAK_LIMIT * (s.valve_relaunches + 1) +
              if s.valve_relaunches + 1 < MAX_STREAK_VALVE_RELAUNCHES then 0
              else s.consecutive_warm_failures
            rw [if_pos hlt]
            simp only [WARM_FAILURE_STREAK_LIMIT, MAX_STREAK_VALVE_RELAUNCHES] at *
            omega
        · have hkept : (if s.valve_relaunches + 1 < MAX_STREAK_VALVE_RELAUNCHES then 0
              else s.consecutive_warm_failures) = WARM_FAILURE_STREAK_LIMIT :=
            (if_neg hlt).trans hfull
          refine ⟨Nat.le_of_eq hkept, .inr ⟨Nat.le_of_not_lt hlt, ?_, hkept⟩⟩
          show attempts + 0 = _
          simp only [WARM_FAILURE_STREAK_LIMIT, MAX_STREAK_VALVE_RELAUNCHES] at *
          omega
      · exact hstate ▸ h
    · rw [hconsumes] at hstate
      subst hstate
      split
      · exact ⟨h.streak, h.spent⟩
      · exact h
  | failed hfirst hattempted _ _ hstate =>
    rw [hattempted, hstate]
    rcases hcases with ⟨-, hrelaunch, -⟩ | ⟨hlt, -⟩
    · exact absurd hrelaunch hfirst
    · obtain ⟨hstreak, hspent⟩ := h
      refine ⟨hlt, ?_⟩
      show s.valve_relaunches < MAX_STREAK_VALVE_RELAUNCHES ∧ attempts + 1 =
          WARM_FAILURE_STREAK_LIMIT * s.valve_relaunches + (s.consecutive_warm_failures + 1) ∨ _
      rcases hspent with ⟨hvalve, hspent⟩ | ⟨-, -, hfull⟩
      · exact .inl ⟨hvalve, by rw [hspent, Nat.add_assoc]⟩
      · rw [hfull] at hlt
        exact absurd hlt (Nat.lt_irrefl _)
  | warm _ _ hsucceeded => rw [hsucceeded] at hfailed; cases hfailed

theorem Spent.run {attempts : ℕ} (h : Spent s attempts) (hrun : Run Resets s es s')
    (hes : ∀ e ∈ es, WarmRequest e.input ∧ e.succeeded = false) :
    Spent s' (attempts + es.countP Served.attempted) := by
  induction hrun with
  | nil => exact h
  | @snoc es m s' e _ hstep ih =>
    have he := hes e (List.mem_append_right _ (List.mem_singleton.mpr rfl))
    have hm := (ih fun e he => hes e (List.mem_append_left _ he)).step hstep he.1 he.2
    rw [List.countP_append, List.countP_singleton, ← Nat.add_assoc]
    exact hm

/-- At the start of a session, and after a warm success. -/
def FullAllowance (before : List Served) : Prop :=
  before = [] ∨ ∃ front e, before = front ++ [e] ∧ e.succeeded = true

theorem FullAllowance.spent {before : List Served} (h : FullAllowance before)
    (hrun : Run Resets {} before s) (hes : ∀ e ∈ before, WarmRequest e.input) : Spent s 0 := by
  have hfresh : ∀ w, Spent { warm_resets_since_cold := w } 0 := fun w =>
    ⟨Nat.zero_le _, .inl ⟨Nat.succ_pos 2, rfl⟩⟩
  rcases h with rfl | ⟨front, e, rfl, hsucceeded⟩
  · obtain rfl := Run.nil_iff.mp hrun
    exact hfresh 0
  · obtain ⟨m, m', -, hstep, hnil⟩ := Run.split hrun
    obtain rfl := Run.nil_iff.mp hnil
    have he := hes e (List.mem_append_right _ (List.mem_singleton.mpr rfl))
    cases resets_cases hstep he.allow_fallback with
    | relaunch _ _ _ hfailed => rw [hfailed] at hsucceeded; cases hsucceeded
    | failed _ _ hfailed => rw [hfailed] at hsucceeded; cases hsucceeded
    | warm _ _ _ _ hstate => exact hstate ▸ hfresh _

/-- What is promised of the requests after `before`: at most as many attempts as a hook is allowed
    that never succeeds, none after that, and until then one after every relaunch that stands in
    for the streak valve. -/
structure WarmAllowance (before es : List Served) : Prop where
  bounded : ∀ session after, es = before ++ (session ++ after) →
    (∀ e ∈ session, e.succeeded = false) → session.countP Served.attempted ≤ allowance
  given_up : ∀ session e after, es = before ++ (session ++ e :: after) →
    (∀ e ∈ session, e.succeeded = false) → session.countP Served.attempted = allowance →
    e.attempted = false ∧
      (e.ladder.invoked.head? = some .restart ∨ e.ladder.invoked.head? = some .clear)
  retried : ∀ session e next after, es = before ++ (session ++ e :: next :: after) →
    (∀ e ∈ session, e.succeeded = false) → session.countP Served.attempted < allowance →
    e.plan.consumes_warm_failure_streak = true → e.ladder.outcome.error = none →
    next.attempted = true

/-- **A broken hook is given up, a recovered one is tried again**, from the start of the session
    and from every warm success on. -/
theorem warm_allowance (hrun : Run Resets {} es s) (hes : ∀ e ∈ es, WarmRequest e.input)
    {before : List Served} (hbefore : FullAllowance before) : WarmAllowance before es := by
  have hspent : ∀ session rest, es = before ++ (session ++ rest) →
      (∀ e ∈ session, e.succeeded = false) →
      ∃ m, Spent m (session.countP Served.attempted) ∧ Run Resets m rest s ∧
        ∀ e ∈ rest, WarmRequest e.input := by
    intro session rest hsplit hsession
    subst hsplit
    obtain ⟨m₁, hrun₁, hrest⟩ := Run.append_iff.mp hrun
    obtain ⟨m₂, hrun₂, hrun₃⟩ := Run.append_iff.mp hrest
    have hstart := hbefore.spent hrun₁ fun e he => hes e (List.mem_append_left _ he)
    have hend := hstart.run hrun₂ fun e he =>
      ⟨hes e (List.mem_append_right _ (List.mem_append_left _ he)), hsession e he⟩
    rw [Nat.zero_add] at hend
    exact ⟨m₂, hend, hrun₃, fun e he =>
      hes e (List.mem_append_right _ (List.mem_append_right _ he))⟩
  refine ⟨fun session after hsplit hsession => ?_, fun session e after hsplit hsession hcount => ?_,
    fun session e next after hsplit hsession hcount hconsumes hnone => ?_⟩
  · obtain ⟨m, hm, -⟩ := hspent session after hsplit hsession
    exact hm.le
  · obtain ⟨m, hm, hrest, hrequests⟩ := hspent session (e :: after) hsplit hsession
    obtain ⟨m', hstep, -⟩ := hrest.uncons
    rw [hcount] at hm
    have he := hrequests e List.mem_cons_self
    obtain ⟨hplan, -, -⟩ := resets_spec hstep
    have hcases := he.plan m.toResetPolicyState
    rw [← hplan] at hcases
    rcases hcases with ⟨-, hrelaunch, -⟩ | ⟨hlt, -⟩
    · cases resets_cases hstep he.allow_fallback with
      | relaunch hfirst hhead hno =>
        refine ⟨hno, ?_⟩
        rcases hfirst with hfirst | hfirst
        · rw [hhead, hfirst]
          exact .inl rfl
        · rw [hhead, hfirst]
          exact .inr rfl
      | warm hfirst => exact absurd hrelaunch hfirst
      | failed hfirst => exact absurd hrelaunch hfirst
    · exact absurd hm.at_limit (Nat.not_le_of_lt hlt)
  · obtain ⟨m, hm, hrest, hrequests⟩ := hspent session (e :: next :: after) hsplit hsession
    obtain ⟨m', hstep, hrest⟩ := hrest.uncons
    obtain ⟨m'', hnext, -⟩ := hrest.uncons
    have he := hrequests e List.mem_cons_self
    have hnextRequest := hrequests next (List.mem_cons_of_mem _ List.mem_cons_self)
    -- the relaunch empties the window and, as the allowance is not used up, the streak
    have hfresh : m'.consecutive_warm_failures < WARM_FAILURE_STREAK_LIMIT ∧
        m'.warm_resets_since_cold = 0 := by
      obtain ⟨hplan, -, -⟩ := resets_spec hstep
      have hcases := he.plan m.toResetPolicyState
      rw [← hplan] at hcases
      rcases hcases with ⟨hlimit, hrelaunch, -⟩ | ⟨-, hno, -⟩
      · have hrearmed := hm.rearmed hcount hlimit
        cases resets_cases hstep he.allow_fallback with
        | relaunch _ _ _ _ _ hstate =>
          rw [if_pos hnone, hconsumes, if_pos rfl] at hstate
          rw [hstate]
          exact ⟨Nat.lt_of_le_of_lt (Nat.le_of_eq (if_pos hrearmed)) (Nat.succ_pos 1), rfl⟩
        | warm hfirst => exact absurd hrelaunch hfirst
        | failed hfirst => exact absurd hrelaunch hfirst
      · rw [hno] at hconsumes
        cases hconsumes
    obtain ⟨hplan, -, -⟩ := resets_spec hnext
    have hcases := hnextRequest.plan m'.toResetPolicyState
    rw [← hplan] at hcases
    rcases hcases with ⟨hlimit, -⟩ | ⟨-, -, hwarm⟩
    · exact absurd hfresh.1 (Nat.not_lt_of_le hlimit)
    · cases resets_cases hnext hnextRequest.allow_fallback with
      | relaunch hfirst => exact absurd hfirst (hwarm hfresh.2)
      | warm _ hattempted => exact hattempted
      | failed _ hattempted => exact hattempted

def failingOps : ResetOps :=
  { workingOps with warm_hooks := fun _ => .error "no acknowledgement" }

theorem androidInput_warmRequest (cold_every_n : ℕ) :
    WarmRequest (androidInput cold_every_n false) :=
  ⟨rfl, rfl, rfl, rfl, rfl⟩

/-- A hook that fails twice is left alone once, and tried again behind that relaunch. -/
theorem warm_allowance_android : ∃ first second third fourth s,
    Run Resets {} [first, second, third, fourth] s ∧
      WarmAllowance [] [first, second, third, fourth] ∧
      third.plan.consumes_warm_failure_streak = true ∧ fourth.attempted = true := by
  have hrequest := androidInput_warmRequest 10
  have h : Run Resets {} ([] ++ [_] ++ [_] ++ [_] ++ [_]) _ :=
    (((Run.nil.snoc ⟨(androidInput 10 false, failingOps), rfl⟩).snoc
      ⟨(androidInput 10 false, failingOps), rfl⟩).snoc
        ⟨(androidInput 10 false, failingOps), rfl⟩).snoc
          ⟨(androidInput 10 false, failingOps), rfl⟩
  refine ⟨_, _, _, _, _, h, warm_allowance h ?_ (.inl rfl), rfl, rfl⟩
  exact List.forall_mem_cons.mpr ⟨hrequest, List.forall_mem_cons.mpr ⟨hrequest,
    List.forall_mem_cons.mpr ⟨hrequest, List.forall_mem_singleton.mpr hrequest⟩⟩⟩

end Allowance

end Tapsmith.Reset
