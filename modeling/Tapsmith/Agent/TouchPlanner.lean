import Mathlib.Data.Int.Notation
import Tapsmith.Lib.Loop

namespace Tapsmith.Agent.TouchPlanner

/-!
# Planning a touch

`TouchPlanner.kt` and `TouchPlanClock.kt`: how the Android agent plans a touch on an element, so
that it does not land on something drawn over it.  The screen, the target and the clock are an
environment with a state `W` of its own, read anew on every pass of the wait.

* `TouchPlanClock` — the deadlines of one wait;
* `pass` — one pass: read the target, look for a cover, touch or wait;
* `plan`, `planFocusTap` — the wait, and the wait of a tap that only moves the focus.
-/

/-! ### Budgets and deadlines -/

/-- The time an element action may spend, fixed when its command arrived. -/
structure ActionBudget where
  startMs : ℤ
  timeoutMs : ℤ
  readDeadlineMs : Option ℤ
deriving DecidableEq

namespace ActionBudget

/-- The same deadlines with no waiting; `now` is what the clock shows. -/
def noWait (b : ActionBudget) (now : ℤ) : ActionBudget :=
  { startMs := now, timeoutMs := 0, readDeadlineMs := b.readDeadlineMs }

end ActionBudget

def POLL_MS : ℤ := 250
def READ_DEADLINE_MARGIN_MS : ℤ := 1000
def LATE_WITHOUT_READ_DEADLINE_MS : ℤ := 4000

structure TouchPlanClock where
  startMs : ℤ
  timeoutMs : ℤ
  readDeadlineMs : Option ℤ
  reserveMs : ℤ

namespace TouchPlanClock

def deadlineMs (c : TouchPlanClock) : ℤ := c.startMs + max c.timeoutMs 0

/-- How long to sleep before the next pass; `none` when the wait should give up. -/
def sleepBeforeNextPass (c : TouchPlanClock) (nowMs : ℤ) : Option ℤ :=
  let remaining := c.deadlineMs - nowMs
  if remaining ≤ 0 then none else some (min POLL_MS remaining)

/-- What is left free before the read deadline, for the touch itself and the answer. -/
def margin (c : TouchPlanClock) (readDeadlineMs : ℤ) : ℤ :=
  min READ_DEADLINE_MARGIN_MS (max (readDeadlineMs - c.deadlineMs) 0)

def isTooLateToAct (c : TouchPlanClock) (nowMs : ℤ) : Bool :=
  c.readDeadlineMs.elim
    (c.timeoutMs > 0 && nowMs + max c.reserveMs 0 - c.deadlineMs > LATE_WITHOUT_READ_DEADLINE_MS)
    fun readDeadlineMs => nowMs + max c.reserveMs 0 + c.margin readDeadlineMs > readDeadlineMs

end TouchPlanClock

def ActionBudget.clock (b : ActionBudget) (reserveMs : ℤ) : TouchPlanClock :=
  { startMs := b.startMs, timeoutMs := b.timeoutMs, readDeadlineMs := b.readDeadlineMs, reserveMs }

/-! ### Targets -/

structure Box where
  left : ℤ
  top : ℤ
  right : ℤ
  bottom : ℤ
deriving DecidableEq

/-- What identified a target when it was resolved. -/
structure TargetIdentity where
  className : Option String
  resourceId : Option String
  contentDescription : Option String
  text : Option String
deriving DecidableEq

/-- One read of the target; `Node` is its node for the search in its own window. -/
structure TargetSnapshot (Node : Type) where
  node : Option Node
  windowId : Option ℤ
  bounds : Box
  className : Option String
  resourceId : Option String
  contentDescription : Option String
  text : Option String
  isEditable : Bool
deriving DecidableEq

/-- `orEmpty`. -/
def orEmpty (s : Option String) : String := s.getD ""

def same (a b : Option String) : Bool := orEmpty a = orEmpty b

def TargetIdentity.isLabelled (i : TargetIdentity) : Bool :=
  orEmpty i.contentDescription ≠ "" || orEmpty i.resourceId ≠ ""

def TargetIdentity.identifiedOnlyByContent (i : TargetIdentity) : Bool :=
  !i.isLabelled && orEmpty i.text = ""

/-- Text identifies a node that has neither a content description nor a resource id, and that is
    not a field whose text is its value. -/
def TargetSnapshot.matchesIdentity {Node : Type} (s : TargetSnapshot Node)
    (expected : TargetIdentity) : Bool :=
  same expected.className s.className && same expected.resourceId s.resourceId &&
    same expected.contentDescription s.contentDescription &&
    (s.isEditable || expected.isLabelled || same expected.text s.text)

/-! ### Environments -/

inductive CoverKind
  | keyboard
  | window
  | control
deriving DecidableEq

inductive Verdict
  | clear (x y : ℤ) (visible : Box)
  | covered (cover : String) (kind : CoverKind)
  | offScreen
deriving DecidableEq

/-- What a plan meets with.  `read` gives nothing when the target is gone and `some none` when it
    cannot be read; `sleep` says whether the command was cancelled meanwhile; `isFocused` gives
    nothing when it throws.  `analyze` is the search for a cover on one sight of the screen. -/
structure Env (W Node Window : Type) where
  cancelled : W → Bool × W
  read : W → Option (Option (TargetSnapshot Node)) × W
  content : W → String × W
  isFocused : W → Option Bool × W
  windows : W → List Window × W
  bounds : W → Box × W
  answerSystemDialogs : W → Bool × W
  now : W → ℤ × W
  sleep : ℤ → W → Bool × W
  analyze : Option Node → Box → Option ℤ → List Window → Box → Verdict

/-- What one pass met with: the target, where it was looked for and the screen around it, the clock
    when the verdict was there, the content it read, and how long it then slept. -/
structure Pass (Node Window : Type) where
  snapshot : Option (TargetSnapshot Node)
  content : Option String
  bounds : Box
  windows : List Window
  screen : Box
  now : ℤ
  slept : Option ℤ := none
deriving DecidableEq

structure State (W Node Window : Type) where
  world : W
  passes : List (Pass Node Window) := []

/-- How a plan ends: a point to touch, nothing on screen, or the exception it throws. -/
inductive Outcome
  | point (x y : ℤ)
  | offScreen
  | covered (message : String) (kind : CoverKind)
  | changed
  | tooLate
  | cancelled
  | gone
deriving DecidableEq

variable {W Node Window : Type}

def Pass.verdict (env : Env W Node Window) (p : Pass Node Window) : Verdict :=
  env.analyze (p.snapshot.bind (·.node)) p.bounds (p.snapshot.bind (·.windowId)) p.windows p.screen

namespace State

def call {α : Type} (s : State W Node Window) (f : W → α × W) : α × State W Node Window :=
  ((f s.world).1, { s with world := (f s.world).2 })

def record (s : State W Node Window) (p : Pass Node Window) : State W Node Window :=
  { s with passes := s.passes ++ [p] }

end State

variable (env : Env W Node Window)

/-! ### One pass -/

/-- The local variables of the wait. -/
structure Wait where
  bounds : Box
  coveredSinceMs : Option ℤ := none
  firstPass : Bool := true
  contentWhenWaiting : Option String := none

/-- The target as a pass sees it. -/
structure Sight (Node : Type) where
  snapshot : Option (TargetSnapshot Node)
  content : Option String := none
  bounds : Box

/-- Read the target and refuse one that shows another element by now. -/
def look (expected : Option TargetIdentity) (wait : Wait) (s : State W Node Window) :
    (Outcome ⊕ Sight Node) × State W Node Window :=
  let stop := s.call env.cancelled
  if stop.1 then (.inl .cancelled, stop.2)
  else
    let target := stop.2.call env.read
    match target.1 with
    | none => (.inl .gone, target.2)
    | some none => (.inr { snapshot := none, bounds := wait.bounds }, target.2)
    | some (some snapshot) =>
      let bounds := if wait.firstPass then wait.bounds else snapshot.bounds
      if expected.any (!snapshot.matchesIdentity ·) then (.inl .changed, target.2)
      else
        match wait.contentWhenWaiting with
        | none => (.inr { snapshot := some snapshot, bounds }, target.2)
        | some before =>
          let content := target.2.call env.content
          if content.1 ≠ before then (.inl .changed, content.2)
          else (.inr { snapshot := some snapshot, content := some content.1, bounds }, content.2)

/-- The text inside the target, read when a wait begins and nothing else identifies the target. -/
def armContentCheck (expected : Option TargetIdentity) (snapshot : Option (TargetSnapshot Node))
    (contentWhenWaiting : Option String) (s : State W Node Window) :
    Option String × State W Node Window :=
  if contentWhenWaiting = none ∧ snapshot.isSome ∧ expected.any (·.identifiedOnlyByContent) then
    let content := s.call env.content
    (some content.1, content.2)
  else (contentWhenWaiting, s)

def coveredMessage (cover : String) (waitedMs : ℤ) : String :=
  "Element is covered by " ++ cover ++ ", so a touch would land on it instead" ++
    (if waitedMs > 0 then " (still covered after waiting " ++ toString waitedMs ++ "ms)" else "") ++
    if cover = "the keyboard" then
      ". Dismiss the keyboard first (device.hideKeyboard()) or scroll the element into view."
    else ""

abbrev Round (W Node Window : Type) : Type :=
  (Outcome × State W Node Window) ⊕ (Wait × State W Node Window)

/-- Sleep before the next pass. -/
def sleepFor (expected : Option TargetIdentity) (wait : Wait) (p : Pass Node Window) (ms : ℤ)
    (s : State W Node Window) : Round W Node Window :=
  let armed := armContentCheck env expected p.snapshot wait.contentWhenWaiting s
  let content := if wait.contentWhenWaiting = none then armed.1 else p.content
  let woken := (armed.2.record { p with content, slept := some ms }).call (env.sleep ms)
  if woken.1 then .inl (.cancelled, woken.2)
  else .inr ({ wait with contentWhenWaiting := armed.1 }, woken.2)

/-- Answer a system dialog; only a window can be one. -/
def answer (kind : CoverKind) (s : State W Node Window) : Bool × State W Node Window :=
  if kind = .window then s.call env.answerSystemDialogs else (false, s)

/-- What a pass does about its verdict. -/
def act (clock : TouchPlanClock) (expected : Option TargetIdentity) (wait : Wait)
    (p : Pass Node Window) (s : State W Node Window) : Round W Node Window :=
  match p.verdict env with
  | .clear x y _ =>
    let looked := s.record p
    if clock.isTooLateToAct p.now then .inl (.tooLate, looked)
    else
      let stop := looked.call env.cancelled
      .inl (if stop.1 then .cancelled else .point x y, stop.2)
  | .offScreen =>
    match clock.sleepBeforeNextPass p.now with
    | none => .inl (.offScreen, s.record p)
    | some ms => sleepFor env expected wait p ms s
  | .covered cover kind =>
    -- behind an answered dialog there may be no cover any more: look again at once
    let answered := answer env kind s
    if answered.1 then .inr (wait, answered.2.record p)
    else
      match clock.sleepBeforeNextPass p.now with
      | none =>
        .inl (.covered (coveredMessage cover ((wait.coveredSinceMs.map (p.now - ·)).getD 0)) kind,
          answered.2.record p)
      | some ms =>
        sleepFor env expected
          { wait with coveredSinceMs := some (wait.coveredSinceMs.getD p.now) } p ms answered.2

def pass (clock : TouchPlanClock) (expected : Option TargetIdentity)
    (ws : Wait × State W Node Window) : Round W Node Window :=
  let sight := look env expected ws.1 ws.2
  match sight.1 with
  | .inl refusal => .inl (refusal, sight.2)
  | .inr seen =>
    let windows := sight.2.call env.windows
    let screen := windows.2.call env.bounds
    let now := screen.2.call env.now
    act env clock expected { ws.1 with bounds := seen.bounds, firstPass := false }
      { snapshot := seen.snapshot, content := seen.content, bounds := seen.bounds,
        windows := windows.1, screen := screen.1, now := now.1 } now.2

/-! ### Plans -/

/-- Where a touch on the target can land, within `fuel` passes. -/
def plan (initialBounds : Box) (budget : ActionBudget) (expected : Option TargetIdentity)
    (reserveMs : ℤ) (fuel : ℕ) (s : State W Node Window) : Option (Outcome × State W Node Window) :=
  Lib.Loop.iterate (pass env (budget.clock reserveMs) expected) fuel ({ bounds := initialBounds }, s)

end Tapsmith.Agent.TouchPlanner
