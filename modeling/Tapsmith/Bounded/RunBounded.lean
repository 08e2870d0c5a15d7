import Mathlib
import Tapsmith.Lib.Machine

namespace Tapsmith.Bounded

/-!
# Bounded runs

How a test body or a hook runs under the test timeout, and the channel on which device actions tell
that they start and end.  `R` is the type of what the body's promise settles with; times are
readings of the clock in milliseconds.

* `Channel` — the actions of `withActionProgress` that are in flight;
* `Excluded` — the time inside actions, as the listener of `runBounded` adds it up;
* `State`, `step` — a call of `runBounded` from its subscription on, one event after the other;
* `spanned` — the length of the union of the intervals in which an action is in flight.
-/

/-! ### The channel -/

/-- The actions in flight, by their ids, and the id of the next one. -/
structure Channel where
  nextId : ℕ
  inFlight : List ℕ
  nodup : inFlight.Nodup
  bound : ∀ id ∈ inFlight, id < nextId

namespace Channel

def start (c : Channel) : Channel where
  nextId := c.nextId + 1
  inFlight := c.nextId :: c.inFlight
  nodup := List.nodup_cons.mpr ⟨fun h => Nat.lt_irrefl _ (c.bound _ h), c.nodup⟩
  bound id h := by
    rcases List.mem_cons.mp h with rfl | h
    · exact Nat.lt_succ_self _
    · exact Nat.lt_succ_of_lt (c.bound id h)

def finish (c : Channel) (id : ℕ) : Channel where
  nextId := c.nextId
  inFlight := c.inFlight.erase id
  nodup := c.nodup.erase id
  bound id' h := c.bound id' (List.mem_of_mem_erase h)

end Channel

/-! ### The excluded time -/

structure Excluded where
  totalMs : ℤ := 0
  depth : ℕ := 0
  inFlightSince : ℤ := 0

namespace Excluded

def onStart (x : Excluded) (now : ℤ) : Excluded :=
  { x with
    depth := x.depth + 1
    inFlightSince := if x.depth = 0 then now else x.inFlightSince }

def onEnd (x : Excluded) (now : ℤ) : Excluded :=
  if x.depth > 0 then
    { x with
      depth := x.depth - 1
      totalMs := if x.depth - 1 = 0 then x.totalMs + (now - x.inFlightSince) else x.totalMs }
  else x

def inFlightMs (x : Excluded) (now : ℤ) : ℤ := if x.depth > 0 then now - x.inFlightSince else 0

end Excluded

/-! ### The run -/

structure BoundedRunOptions where
  subject : String
  timeoutMs : ℤ
  closeOnSettle : Bool
  abortSignal : Bool := false

def WALL_CAP_MULTIPLIER : ℤ := 5

/-- How the race ends. -/
inductive Outcome (R : Type)
  | ran (result : R)
  | timedOut (message : String)
  | stopped
deriving DecidableEq

def Outcome.isTimeout {R : Type} : Outcome R → Bool
  | .timedOut _ => true
  | .ran _ | .stopped => false

/-- What happens while a call of `runBounded` is under way: an action starts, or ends; the body's
    promise settles; the race is set up; the signal is aborted; the timer fires, and the clock is
    read again for the action in flight; the `finally` block runs. -/
inductive Act (R : Type)
  | start (id : ℕ)
  | finish (id : ℕ)
  | settle (result : R)
  | race
  | abort
  | check (again : ℤ)
  | leave
deriving DecidableEq

structure State (R : Type) where
  now : ℤ
  start : ℤ
  channel : Channel
  excluded : Excluded := {}
  settled : Option R := none
  racing : Bool := false
  aborted : Bool := false
  listening : Bool := false
  timer : Option ℤ := none
  outcome : Option (Outcome R) := none
  abandoned : Bool := false
  tokenClosed : Bool := false
  returned : Bool := false

variable {R : Type}

/-- Subscribed, and about to call the body. -/
def State.begin (start : ℤ) (channel : Channel) (aborted : Bool) : State R where
  now := start
  start := start
  channel := channel
  aborted := aborted

/-- `Math.round` of seconds. -/
def roundSeconds (ms : ℤ) : ℤ := (ms + 500) / 1000

def budgetMessage (o : BoundedRunOptions) (wallMs countedMs : ℤ) : String :=
  o.subject ++ " timed out after " ++ toString o.timeoutMs ++ "ms" ++
    (if wallMs - countedMs > 1000 then
      " (" ++ toString (roundSeconds wallMs) ++ "s wall clock; " ++
        toString (roundSeconds (wallMs - countedMs)) ++ "s inside device actions excluded)"
    else "")

def capMessage (o : BoundedRunOptions) (wallMs countedMs : ℤ) : String :=
  o.subject ++ " timed out after " ++ toString (roundSeconds wallMs) ++ "s wall clock " ++
    "(cap: " ++ toString WALL_CAP_MULTIPLIER ++ "× the " ++ toString o.timeoutMs ++
    "ms test timeout; " ++ toString (roundSeconds (wallMs - countedMs)) ++
    "s inside device actions)"

namespace State

variable (o : BoundedRunOptions) (s : State R)

def wallMs (now : ℤ) : ℤ := now - s.start

def countedMs (now again : ℤ) : ℤ := s.wallMs now - s.excluded.totalMs - s.excluded.inFlightMs again

def timeOut (message : String) : State R :=
  { s with abandoned := true, timer := none, outcome := some (.timedOut message) }

/-- The delay of the timer after a check that found some of the budget left. -/
def rearmMs (now again : ℤ) : ℤ :=
  max 1 (min 1000 (min (o.timeoutMs - s.countedMs now again)
    (o.timeoutMs * WALL_CAP_MULTIPLIER - s.wallMs now)))

def check (now again : ℤ) : State R :=
  if s.countedMs now again ≥ o.timeoutMs then
    s.timeOut (budgetMessage o (s.wallMs now) (s.countedMs now again))
  else if s.wallMs now ≥ o.timeoutMs * WALL_CAP_MULTIPLIER then
    s.timeOut (capMessage o (s.wallMs now) (s.countedMs now again))
  else { s with timer := some (s.rearmMs o now again) }

/-- The promises of the race in their order: the body's, which may have settled by now, the timer's
    and the signal's, which is rejected at once if it is aborted by now. -/
def race : State R :=
  let stopped := o.abortSignal && s.aborted
  { s with
    racing := true
    timer := some (min 1000 o.timeoutMs)
    listening := o.abortSignal && !s.aborted
    abandoned := stopped
    outcome := (s.settled.map .ran).or (if stopped then some .stopped else none) }

def settle (result : R) : State R :=
  { s with
    settled := some result
    outcome := if s.racing then s.outcome.or (some (.ran result)) else s.outcome }

/-- The signal is aborted, which tells the listener of the race once. -/
def abort : State R :=
  if s.listening then
    { s with
      aborted := true
      listening := false
      abandoned := true
      outcome := s.outcome.or (some .stopped) }
  else { s with aborted := true }

def leave : State R :=
  { s with
    tokenClosed := s.tokenClosed || (o.closeOnSettle || s.abandoned)
    timer := none
    listening := false
    returned := true }

/-- The timer fires only before the race is decided: what follows its end are microtasks. -/
def act (now : ℤ) : Act R → Option (State R)
  | .start id =>
    if id = s.channel.nextId then
      some { s with channel := s.channel.start, excluded := s.excluded.onStart now }
    else none
  | .finish id =>
    if id ∈ s.channel.inFlight then
      some { s with channel := s.channel.finish id, excluded := s.excluded.onEnd now }
    else none
  | .settle result => if s.settled.isNone then some (s.settle result) else none
  | .race => if s.racing then none else some (s.race o)
  | .abort => if o.abortSignal && !s.aborted then some s.abort else none
  | .check again =>
    if s.timer.isSome && s.outcome.isNone && now ≤ again then
      some { s.check o now again with now := again }
    else none
  | .leave => if s.outcome.isSome then some (s.leave o) else none

end State

/-- An event at a reading of the clock, which never goes back. -/
def step (o : BoundedRunOptions) (s : State R) (e : ℤ × Act R) : Option (State R) :=
  if s.now ≤ e.1 ∧ s.returned = false then { s with now := e.1 }.act o e.1 e.2 else none

/-! ### What the budget is about -/

/-- An action that started since the run began is in flight at `x`. -/
def inFlightAt (trace : List (ℤ × Act R)) (x : ℤ) : Prop :=
  ∃ id since, (since, Act.start id) ∈ trace ∧ since ≤ x ∧
    ∀ until', (until', Act.finish id) ∈ trace → x < until'

open scoped Classical in
/-- The length of the union of the intervals in which such an action is in flight, up to `now`. -/
noncomputable def spanned (trace : List (ℤ × Act R)) (start now : ℤ) : ℕ :=
  ((Finset.Ico start now).filter (inFlightAt trace)).card

end Tapsmith.Bounded
