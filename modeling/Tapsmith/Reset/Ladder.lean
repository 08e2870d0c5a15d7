import Mathlib.Data.List.Basic

namespace Tapsmith.Reset

/-!
# The app reset ladder

`app_reset.rs`: how the daemon plans a reset of the app under test and runs the plan.

* `decide` — the plan for a request, from the counters of the session and what the app advertises;
* `run_ladder` — the device operations that are invoked and the outcome that is reported.
-/

inductive ResetMode
  | warm
  | restart
  | clear
deriving DecidableEq

/-! ### The cold policy -/

/-- The counters behind the warm or cold decision that the plan looks at. -/
structure ResetPolicyState where
  warm_resets_since_cold : ℕ := 0
  consecutive_warm_failures : ℕ := 0

inductive ColdReason
  | retryAttempt
  | warmFailureStreak (n : ℕ)
  | warmWindowBound (n : ℕ)
deriving DecidableEq

def ColdReason.describe : ColdReason → String
  | .retryAttempt => "cold relaunch: retry attempt"
  | .warmFailureStreak n => s!"cold relaunch: {n} consecutive warm resets failed verification"
  | .warmWindowBound n => s!"cold relaunch: warm-window bound reached ({n} resets)"

def WARM_FAILURE_STREAK_LIMIT : ℕ := 2

/-- Whether the next warm reset must be delivered cold. -/
def ResetPolicyState.cold_reason (state : ResetPolicyState) (force_cold : Bool)
    (cold_every_n : ℕ) : Option ColdReason :=
  if force_cold then some .retryAttempt
  else if WARM_FAILURE_STREAK_LIMIT ≤ state.consecutive_warm_failures then
    some (.warmFailureStreak state.consecutive_warm_failures)
  else if 0 < cold_every_n ∧ cold_every_n ≤ state.warm_resets_since_cold then
    some (.warmWindowBound cold_every_n)
  else none

/-! ### The plan -/

/-- What the plan looks at in a marker of the app. -/
structure HooksMarker where
  url_prefix : String

def HooksMarker.has_reset_hook (marker : HooksMarker) : Bool :=
  marker.url_prefix ≠ ""

inductive FirstStep
  | warmHooks (cold : Option ColdReason)
  | warmDeepLink (link : String) (cold : Option ColdReason)
  | restart
  | clear
deriving DecidableEq

structure ResetPlan where
  first : FirstStep
  reason : Option String
  warm_fallback : ResetMode
  consumes_warm_failure_streak : Bool

structure PlanInput where
  mode : ResetMode
  marker : Option HooksMarker
  remembered_marker : Option HooksMarker
  reset_deep_link : String
  force_cold : Bool
  cold_every_n : ℕ
  supports_cold_delivery : Bool
  fallback_to_clear : Bool
  allow_fallback : Bool

def PlanInput.live_hooks (input : PlanInput) : Bool :=
  input.marker.any HooksMarker.has_reset_hook

def PlanInput.remembered_hooks (input : PlanInput) : Bool :=
  input.remembered_marker.any HooksMarker.has_reset_hook

def noHookReason (fallback_verb : String) : String :=
  s!"warm reset requested but the app exposes no reset hook (@tapsmith/react-native or resetAppDeepLink); {fallback_verb} instead"

/-- The plan of a warm request that stays warm. -/
def warmPlan (input : PlanInput) (warm_fallback : ResetMode) (cold : Option ColdReason) :
    ResetPlan :=
  if input.live_hooks || input.remembered_hooks then
    let reasons :=
      (if input.live_hooks then []
        else ["live marker read missed; acknowledging against the epoch seen earlier this session"])
      ++ (cold.map ColdReason.describe).toList
    { first := .warmHooks cold
      reason := if reasons = [] then none else some ("; ".intercalate reasons)
      warm_fallback, consumes_warm_failure_streak := false }
  else
    { first := .warmDeepLink input.reset_deep_link cold
      reason := cold.map ColdReason.describe
      warm_fallback, consumes_warm_failure_streak := false }

def PlanInput.warm_fallback (input : PlanInput) : ResetMode :=
  if input.fallback_to_clear then .clear else .restart

/-- A plan whose first step stands in for the warm reset that was asked for. -/
def fallbackPlan (input : PlanInput) (reason : String) (consumes_warm_failure_streak : Bool) :
    ResetPlan :=
  { first := if input.fallback_to_clear then .clear else .restart
    reason := some reason
    warm_fallback := input.warm_fallback
    consumes_warm_failure_streak }

def ColdReason.isStreak : ColdReason → Bool
  | .warmFailureStreak _ => true
  | _ => false

def PlanInput.hook_available (input : PlanInput) : Bool :=
  input.live_hooks || input.remembered_hooks || input.reset_deep_link ≠ ""

/-- The warm arm of `decide`. -/
def decideWarm (state : ResetPolicyState) (input : PlanInput) : ResetPlan :=
  if !input.hook_available then
    fallbackPlan input (noHookReason (if input.fallback_to_clear then "cleared" else "restarted"))
      false
  else
    match state.cold_reason input.force_cold input.cold_every_n with
    | none => warmPlan input input.warm_fallback none
    | some reason =>
      if input.supports_cold_delivery then warmPlan input input.warm_fallback (some reason)
      else if reason = .retryAttempt then warmPlan input input.warm_fallback none
      else if input.allow_fallback then
        -- the platform cannot deliver cold: a relaunch stands in for it
        fallbackPlan input reason.describe reason.isStreak
      else warmPlan input input.warm_fallback none

def decide (state : ResetPolicyState) (input : PlanInput) : ResetPlan :=
  match input.mode with
  | .restart =>
    { first := .restart, reason := none, warm_fallback := input.warm_fallback
      consumes_warm_failure_streak := false }
  | .clear =>
    { first := .clear, reason := none, warm_fallback := input.warm_fallback
      consumes_warm_failure_streak := false }
  | .warm => decideWarm state input

/-! ### The ladder -/

/-- A `ResetStep` without its duration. -/
structure ResetStep where
  name : String
  ok : Bool
  detail : String
deriving DecidableEq

structure ResetOutcome where
  mode_used : ResetMode
  fell_back : Bool
  cold_launch : Bool
  reason : Option String
  steps : List ResetStep
  epoch_after : Option ℕ
  error : Option String
deriving DecidableEq

structure WarmAck where
  epoch : ℕ
  process_recreated : Bool

inductive Operation
  | warmHooks (cold : Bool)
  | warmDeepLink (link : String) (cold : Bool)
  | restart
  | clear
deriving DecidableEq

/-- What the device operations answer. -/
structure ResetOps where
  warm_hooks : Bool → Except String WarmAck
  warm_deep_link : String → Bool → Except String Unit
  restart : Except String Unit
  clear : Except String Unit

/-- What a finished ladder has invoked and reports. -/
structure Ladder where
  outcome : ResetOutcome
  invoked : List Operation

/-- The variables of `run_ladder`. -/
structure Progress where
  steps : List ResetStep := []
  invoked : List Operation := []
  reasons : List String := []
  fell_back : Bool := false

def join (reasons : List String) : Option String :=
  if reasons = [] then none else some ("; ".intercalate reasons)

def stepOf {α : Type} (name : String) : Except String α → ResetStep
  | .ok _ => { name, ok := true, detail := "" }
  | .error e => { name, ok := false, detail := e }

/-- `timed`: the step of an operation is recorded with its result. -/
def Progress.timed {α : Type} (p : Progress) (op : Operation) (name : String)
    (result : Except String α) : Progress :=
  { p with steps := p.steps ++ [stepOf name result], invoked := p.invoked ++ [op] }

def Progress.because (p : Progress) (reason : String) : Progress :=
  { p with reasons := p.reasons ++ [reason] }

/-- Return with an outcome. -/
def Progress.finish (p : Progress) (mode_used : ResetMode) (fell_back cold_launch : Bool)
    (epoch_after : Option ℕ) (error : Option String) : Ladder :=
  { outcome := { mode_used, fell_back, cold_launch, reason := join p.reasons, steps := p.steps
                 epoch_after, error }
    invoked := p.invoked }

/-- The loop over the rungs behind the warm one; nothing where it comes to `unreachable!`. -/
def climb (ops : ResetOps) (allow_fallback : Bool) : ℕ → Option ResetMode → Progress →
    Option Ladder
  | 0, _, _ => none
  | _ + 1, none, _ => none
  | _ + 1, some .warm, _ => none
  | fuel + 1, some .restart, p =>
    let p := p.timed .restart "restart" ops.restart
    match ops.restart with
    | .ok () => some (p.finish .restart p.fell_back true none none)
    | .error e =>
      let p := p.because s!"restart failed ({e})"
      if allow_fallback then
        climb ops allow_fallback fuel (some .clear) { p with fell_back := true }
      else some (p.finish .restart p.fell_back false none (some e))
  | _ + 1, some .clear, p =>
    let p := p.timed .clear "clear" ops.clear
    match ops.clear with
    | .ok () => some (p.finish .clear p.fell_back true none none)
    | .error e =>
      some ((p.because s!"clear failed ({e})").finish .clear p.fell_back false none (some e))

/-- What follows the first step, unless that returned. -/
def fallThrough (ops : ResetOps) (allow_fallback : Bool) (next : Option ResetMode)
    (p : Progress) : Option Ladder :=
  let warm_failed := p.steps.head?.any fun s => !s.ok
  if warm_failed && !allow_fallback then
    some (p.finish .warm false false none (some "warm reset failed and fallback is disabled"))
  else
    -- the loop is left at the latest with the clear that follows a restart
    climb ops allow_fallback 2 next { p with fell_back := p.fell_back || warm_failed }

/-- The first step, and what follows where it does not return. -/
def runFirst (ops : ResetOps) (plan : ResetPlan) (allow_fallback : Bool) (p : Progress) :
    Option Ladder :=
  match plan.first with
  | .warmHooks cold =>
    let p := p.timed (.warmHooks cold.isSome) "warm-hooks" (ops.warm_hooks cold.isSome)
    match ops.warm_hooks cold.isSome with
    | .ok ack =>
      let p := if ack.process_recreated && !cold.isSome then
        p.because "warm delivery relaunched the app (its boot token changed)" else p
      some (p.finish .warm false (cold.isSome || ack.process_recreated) (some ack.epoch) none)
    | .error e =>
      fallThrough ops allow_fallback (some plan.warm_fallback)
        (p.because s!"warm reset via in-app hooks failed ({e})")
  | .warmDeepLink link cold =>
    let p := p.timed (.warmDeepLink link cold.isSome) "warm-deep-link"
      (ops.warm_deep_link link cold.isSome)
    match ops.warm_deep_link link cold.isSome with
    | .ok () => some (p.finish .warm false cold.isSome none none)
    | .error e =>
      fallThrough ops allow_fallback (some plan.warm_fallback)
        (p.because s!"warm reset via resetAppDeepLink failed ({e})")
  | .restart => fallThrough ops allow_fallback (some .restart) p
  | .clear => fallThrough ops allow_fallback (some .clear) p

/-- A plan that could not honour the requested mode is a fallback before any step runs. -/
def ResetPlan.fell_back (plan : ResetPlan) : Bool :=
  plan.reason.isSome && (plan.first = .restart || plan.first = .clear)

def refusal (reasons : List String) : String :=
  match reasons.getLast? with
  | some r => s!"warm reset could not run and fallback is disabled: {r}"
  | none => "warm reset could not run and fallback is disabled"

def run_ladder (ops : ResetOps) (plan : ResetPlan) (allow_fallback : Bool) : Option Ladder :=
  let p : Progress := { reasons := plan.reason.toList, fell_back := plan.fell_back }
  if plan.fell_back && !allow_fallback then
    some (p.finish .warm false false none (some (refusal p.reasons)))
  else runFirst ops plan allow_fallback p

end Tapsmith.Reset
