import Mathlib.Algebra.Order.Ring.Int

namespace Tapsmith.Agent

/-!
# Gestures

`GestureInjector.kt`: how the Android agent makes taps, swipes, drags and gestures of several
pointers out of single touch events.  The display, the clock and the input system are a device with
a state `W` of its own; a loop that waits for the clock takes fuel.

* `Device`, `State` — what a gesture is played on, and what has been sent so far;
* `click`, `stepSwipe`, `stepDrag` — the gestures of one pointer;
* `perform` — pointer paths that are played together;
* `Gesture.run` — a gesture operation with its arguments.
-/

/-! ### Events -/

structure ScreenPoint where
  x : ℤ
  y : ℤ
deriving DecidableEq

inductive TouchAction
  | down
  | pointerDown
  | move
  | pointerUp
  | up
  | cancel
deriving DecidableEq

structure PointerState where
  id : ℕ
  point : ScreenPoint
deriving DecidableEq

structure TouchEvent where
  action : TouchAction
  downTime : ℤ
  pointers : List PointerState
  actionIndex : ℕ := 0
  sync : Bool
deriving DecidableEq

/-! ### Devices -/

/-- What a gesture meets with.  `touch` says whether the input system accepts an event, `cancelled`
    whether a checkpoint finds the command cancelled; `along` and `between` are the floating point
    of the points on a line, after `i` of `n` steps and after a part of the duration. -/
structure Device (W : Type) where
  touch : TouchEvent → W → Bool × W
  now : W → ℤ × W
  sleep : ℤ → W → W
  waitForNextFrame : W → W
  cancelled : W → Bool × W
  tickMs : W → ℤ × W
  along : ScreenPoint → ScreenPoint → ℕ → ℕ → ScreenPoint
  between : ScreenPoint → ScreenPoint → ℤ → ℤ → ScreenPoint

/-- The events that were sent, with whether they were accepted. -/
structure State (W : Type) where
  world : W
  log : List (TouchEvent × Bool) := []

/-- How an operation ends: it returns, or throws that the command was cancelled, or that its
    arguments are none of a gesture. -/
inductive Outcome
  | returned (ok : Bool)
  | cancelled
  | illegal
deriving DecidableEq

variable {W : Type}

namespace State

def call {α : Type} (s : State W) (f : W → α × W) : α × State W :=
  ((f s.world).1, { s with world := (f s.world).2 })

def wait (s : State W) (f : W → W) : State W := { s with world := f s.world }

def touch (dev : Device W) (s : State W) (e : TouchEvent) : Bool × State W :=
  ((dev.touch e s.world).1,
    { world := (dev.touch e s.world).2, log := s.log ++ [(e, (dev.touch e s.world).1)] })

/-- One event of a gesture of one pointer. -/
def single (dev : Device W) (s : State W) (action : TouchAction) (downTime : ℤ) (p : ScreenPoint) :
    Bool × State W :=
  s.touch dev { action, downTime, pointers := [{ id := 0, point := p }], sync := true }

end State

variable (dev : Device W)

/-! ### Clicks -/

def HOLD_CHECK_MS : ℤ := 50

/-- Sleep until `ms` after `since`; says whether the command was cancelled meanwhile. -/
def hold (since ms : ℤ) : ℕ → State W → Option (Bool × State W)
  | 0, _ => none
  | fuel + 1, s =>
    let now := s.call dev.now
    let left := since + ms - now.1
    if left ≤ 0 then some (false, now.2)
    else
      let check := (now.2.wait (dev.sleep (min left HOLD_CHECK_MS))).call dev.cancelled
      if check.1 then some (true, check.2) else hold since ms fuel check.2

/-- A release that is refused is followed by a cancel. -/
def releaseOrCancel (s : State W) (downTime : ℤ) (p : ScreenPoint) : Bool × State W :=
  let up := s.single dev .up downTime p
  (up.1, if up.1 then up.2 else (up.2.single dev .cancel downTime p).2)

def click (p : ScreenPoint) (pressMs : ℤ) (fuel : ℕ) (s : State W) :
    Option (Outcome × State W) :=
  let downTime := s.call dev.now
  let down := downTime.2.single dev .down downTime.1 p
  let since := down.2.call dev.now
  (hold dev since.1 pressMs fuel since.2).map fun held =>
    if held.1 then (.cancelled, (held.2.single dev .cancel downTime.1 p).2)
    else
      let up := releaseOrCancel dev held.2 downTime.1 p
      (.returned (down.1 && up.1), up.2)

def longPress (p : ScreenPoint) (holdMs : ℤ) (fuel : ℕ) (s : State W) :
    Option (Outcome × State W) :=
  click dev p holdMs fuel s

/-! ### Step swipes -/

/-- The moves of a swipe, each followed by a frame, until one is refused. -/
def swipeMoves (downTime : ℤ) (start dest : ScreenPoint) (n : ℕ) :
    List ℕ → Bool → State W → Bool × State W
  | [], ok, s => (ok, s)
  | i :: rest, ok, s =>
    if ok then
      let moved := s.single dev .move downTime (dev.along start dest i n)
      swipeMoves downTime start dest n rest moved.1 (moved.2.wait dev.waitForNextFrame)
    else (ok, s)

def stepSwipe (start dest : ScreenPoint) (steps : ℤ) (s : State W) : Outcome × State W :=
  let n := (max steps 1).toNat
  let downTime := s.call dev.now
  let down := downTime.2.single dev .down downTime.1 start
  let moved := swipeMoves dev downTime.1 start dest n (List.range' 1 (n - 1)) down.1
    (down.2.wait dev.waitForNextFrame)
  let up := moved.2.single dev .up downTime.1 dest
  (.returned (moved.1 && up.1), up.2)

/-! ### Step drags -/

def DRAG_REST_MS : ℤ := 120

def DRAG_FRAME_MOVES : ℕ := 2

/-- The variables of a drag: where the pointer is, the moves sent, whether all were accepted, and
    when the rest at the end began. -/
structure Drag where
  point : ScreenPoint
  moves : ℕ := 0
  ok : Bool
  restFrom : ℤ := 0

/-- `checkpoint` of a drag: a cancelled command cancels the pointer. -/
def dragCheckpoint (downTime : ℤ) (p : ScreenPoint) (s : State W) : Bool × State W :=
  let check := s.call dev.cancelled
  if check.1 then (true, (check.2.single dev .cancel downTime p).2) else (false, check.2)

/-- `move` of a drag: the first ones wait for a frame, the others for the clock. -/
def dragMove (downTime frameMs : ℤ) (drag : Drag) (s : State W) : Drag × State W :=
  let sentAt := s.call dev.now
  let moved := sentAt.2.single dev .move downTime drag.point
  ({ drag with ok := moved.1, moves := drag.moves + 1 },
    if drag.moves + 1 ≤ DRAG_FRAME_MOVES then moved.2.wait dev.waitForNextFrame
    else
      let now := moved.2.call dev.now
      let left := sentAt.1 + frameMs - now.1
      if 0 < left then now.2.wait (dev.sleep left) else now.2)

/-- The moves of a drag; the first component says whether the command was cancelled. -/
def dragMoves (downTime frameMs : ℤ) (start dest : ScreenPoint) (n : ℕ) :
    List ℕ → Drag → State W → Bool × Drag × State W
  | [], drag, s => (false, drag, s)
  | i :: rest, drag, s =>
    if drag.ok then
      let check := dragCheckpoint dev downTime drag.point s
      if check.1 then (true, drag, check.2)
      else
        let rested := check.2.call dev.now
        let moved :=
          if i = n then dragMove dev downTime frameMs { drag with point := dest, restFrom := rested.1 } rested.2
          else dragMove dev downTime frameMs { drag with point := dev.along start dest i n } check.2
        dragMoves downTime frameMs start dest n rest moved.1 moved.2
    else (false, drag, s)

/-- The rest at the end of a drag, a stationary move each frame. -/
def dragRest (downTime frameMs : ℤ) : ℕ → Drag → State W → Option (Bool × Drag × State W)
  | 0, _, _ => none
  | fuel + 1, drag, s =>
    if drag.ok then
      let now := s.call dev.now
      if now.1 - drag.restFrom < DRAG_REST_MS then
        let check := dragCheckpoint dev downTime drag.point now.2
        if check.1 then some (true, drag, check.2)
        else
          let moved := dragMove dev downTime frameMs drag check.2
          dragRest downTime frameMs fuel moved.1 moved.2
      else some (false, drag, now.2)
    else some (false, drag, s)

/-- The end of a drag: its last checkpoint, and the release. -/
def dragEnd (downTime : ℤ) (drag : Drag) (s : State W) : Outcome × State W :=
  let check := dragCheckpoint dev downTime drag.point s
  if check.1 then (.cancelled, check.2)
  else
    let up := releaseOrCancel dev check.2 downTime drag.point
    (.returned (drag.ok && up.1), up.2)

def stepDrag (start dest : ScreenPoint) (steps : ℤ) (fuel : ℕ) (s : State W) :
    Option (Outcome × State W) :=
  let n := (max steps 1).toNat
  let downTime := s.call dev.now
  let tick := downTime.2.call dev.tickMs
  let frameMs := 2 * max tick.1 1
  let down := tick.2.single dev .down downTime.1 start
  let moved := dragMoves dev downTime.1 frameMs start dest n (List.range' 1 n)
    { point := start, ok := down.1 } (down.2.wait dev.waitForNextFrame)
  if moved.1 then some (.cancelled, moved.2.2)
  else
    (dragRest dev downTime.1 frameMs fuel moved.2.1 moved.2.2).map fun rested =>
      if rested.1 then (.cancelled, rested.2.2) else dragEnd dev downTime.1 rested.2.1 rested.2.2

/-! ### Pointer paths -/

structure Segment where
  start : ScreenPoint
  stop : ScreenPoint
  durationMs : ℤ

/-- The path of one pointer: the segments after its start point. -/
structure PointerPath where
  start : ScreenPoint
  delayMs : ℤ := 0
  segments : List Segment := []

namespace PointerPath

def stop (path : PointerPath) : ScreenPoint :=
  (path.segments.getLast?.map Segment.stop).getD path.start

def durationMs (path : PointerPath) : ℤ := (path.segments.map Segment.durationMs).sum

def travelTo (path : PointerPath) (dest : ScreenPoint) (durationMs : ℤ) : PointerPath :=
  { path with segments := path.segments ++ [{ start := path.stop, stop := dest, durationMs }] }

/-- When the pointer is released. -/
def endMs (path : PointerPath) : ℤ := path.delayMs + path.durationMs

end PointerPath

/-- The point on the segments `t` after the pointer went down. -/
def pointOn (last : ScreenPoint) : List Segment → ℤ → ScreenPoint
  | [], _ => last
  | segment :: rest, t =>
    if t < segment.durationMs then dev.between segment.start segment.stop t segment.durationMs
    else pointOn last rest (t - segment.durationMs)

def PointerPath.pointAt (path : PointerPath) (timeMs : ℤ) : ScreenPoint :=
  -- the first segment is the start point itself, for no time
  pointOn dev path.stop ({ start := path.start, stop := path.start, durationMs := 0 } :: path.segments)
    (timeMs - path.delayMs)

/-! ### Gestures of several pointers -/

/-- The variables of `perform`; a pointer is the index of its path. -/
structure Playing where
  down : List ℕ := []
  pending : List ℕ
  position : ℕ → ScreenPoint
  sent : ℕ → Option ScreenPoint := fun _ => none

section Perform

variable (paths : ℕ → PointerPath) (startTime : ℤ)

/-- `inject`: all the pointers that are down are in the event. -/
def inject (action : TouchAction) (index : ℕ) (play : Playing) (s : State W) : State W :=
  (s.touch dev
    { action, downTime := startTime
      pointers := play.down.map fun i => { id := i, point := play.position i }
      actionIndex := index, sync := false }).2

/-- All pointers that are down are moved to where they are. -/
def injectMove (play : Playing) (s : State W) : Playing × State W :=
  ({ play with sent := fun i => if i ∈ play.down then some (play.position i) else play.sent i },
    inject dev startTime .move 0 play s)

/-- The first of the pointers whose path ends first. -/
def firstDone (down : List ℕ) : Option ℕ :=
  down.minOn? fun i => (paths i).endMs

/-- One pointer whose path has ended is moved to its end, if it was not there, and released. -/
def release (elapsed : ℤ) (done : ℕ) (play : Playing) (s : State W) : Playing × State W :=
  let play := { play with
    position := fun i =>
      if i = done then (paths i).stop
      else if i ∈ play.down then (paths i).pointAt dev elapsed else play.position i }
  let moved :=
    if (play.sent done).getD (paths done).start ≠ (paths done).stop then
      injectMove dev startTime play s
    else (play, s)
  let index := moved.1.down.idxOf done
  ({ moved.1 with down := moved.1.down.eraseIdx index },
    inject dev startTime (if 1 < moved.1.down.length then .pointerUp else .up) index moved.1 moved.2)

/-- The pointers whose paths have ended are released, one after the other. -/
def releaseDone (elapsed : ℤ) : ℕ → Playing → State W → Playing × State W
  | 0, play, s => (play, s)
  | n + 1, play, s =>
    match firstDone paths play.down with
    | none => (play, s)
    | some done =>
      if elapsed ≤ (paths done).endMs then (play, s)
      else
        let released := release dev paths startTime elapsed done play s
        releaseDone elapsed n released.1 released.2

/-- The pointers that are still down move on. -/
def moveOn (elapsed : ℤ) (play : Playing) (s : State W) : Playing × State W :=
  let play := { play with
    position := fun i =>
      if i ∈ play.down then (paths i).pointAt dev elapsed else play.position i }
  if play.down.isEmpty then (play, s) else injectMove dev startTime play s

/-- The pointers whose delay has come are pressed. -/
def pressPending (elapsed : ℤ) : List ℕ → Playing → State W → Playing × State W
  | [], play, s => ({ play with pending := [] }, s)
  | p :: rest, play, s =>
    if (paths p).delayMs ≤ elapsed then
      let play := { play with down := play.down ++ [p] }
      pressPending elapsed rest play (inject dev startTime
        (if 1 < play.down.length then .pointerDown else .down) (play.down.length - 1) play s)
    else ({ play with pending := p :: rest }, s)

/-- One tick of the gesture after its checkpoint. -/
def playTick (elapsed : ℤ) (play : Playing) (s : State W) : Playing × State W :=
  let released := releaseDone dev paths startTime elapsed play.down.length play s
  let moved := moveOn dev paths startTime elapsed released.1 released.2
  pressPending dev paths startTime elapsed moved.1.pending moved.1 moved.2

/-- The ticks of the gesture, until all pointers have been released. -/
def playTicks (tick : ℤ) (pacedByClock : Bool) :
    ℕ → ℤ → Playing → State W → Option (Outcome × State W)
  | 0, _, _, _ => none
  | fuel + 1, elapsed, play, s =>
    if play.pending.isEmpty && play.down.isEmpty then some (.returned true, s)
    else
      let check := s.call dev.cancelled
      if check.1 then
        some (.cancelled,
          if play.down.isEmpty then check.2 else inject dev startTime .cancel 0 play check.2)
      else
        let played := playTick dev paths startTime elapsed play check.2
        let slept := played.2.wait (dev.sleep tick)
        if pacedByClock then
          let now := slept.call dev.now
          playTicks tick pacedByClock fuel (now.1 - startTime) played.1 now.2
        else playTicks tick pacedByClock fuel (elapsed + tick) played.1 slept

end Perform

/-- Play the paths together, each an object of its own. -/
def perform (paths : List PointerPath) (pacedByClock : Bool) (fuel : ℕ) (s : State W) :
    Option (Outcome × State W) :=
  if paths.isEmpty then some (.illegal, s)
  else
    let path := fun i => paths.getD i { start := { x := 0, y := 0 } }
    let pending := (List.range paths.length).mergeSort fun i j =>
      (path i).delayMs ≤ (path j).delayMs
    let startTime := s.call dev.now
    let tick := startTime.2.call dev.tickMs
    playTicks dev path startTime.1 (max tick.1 1) pacedByClock fuel 0
      { pending, position := fun i => (path i).start } tick.2

def timedSwipe (start dest : ScreenPoint) (durationMs : ℤ) (fuel : ℕ) (s : State W) :
    Option (Outcome × State W) :=
  if durationMs < 0 then some (.illegal, s)
  else perform dev [({ start := start } : PointerPath).travelTo dest durationMs] true fuel s

/-! ### Operations -/

inductive Gesture
  | click (p : ScreenPoint) (pressMs : ℤ)
  | longPress (p : ScreenPoint) (holdMs : ℤ)
  | timedSwipe (start dest : ScreenPoint) (durationMs : ℤ)
  | stepSwipe (start dest : ScreenPoint) (steps : ℤ)
  | stepDrag (start dest : ScreenPoint) (steps : ℤ)
  | perform (paths : List PointerPath) (pacedByClock : Bool)

def Gesture.run (fuel : ℕ) (s : State W) : Gesture → Option (Outcome × State W)
  | .click p pressMs => Agent.click dev p pressMs fuel s
  | .longPress p holdMs => Agent.longPress dev p holdMs fuel s
  | .timedSwipe start dest durationMs => Agent.timedSwipe dev start dest durationMs fuel s
  | .stepSwipe start dest steps => some (Agent.stepSwipe dev start dest steps s)
  | .stepDrag start dest steps => Agent.stepDrag dev start dest steps fuel s
  | .perform paths pacedByClock => Agent.perform dev paths pacedByClock fuel s

end Tapsmith.Agent
