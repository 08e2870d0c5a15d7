import Mathlib.Data.List.Basic
import Tapsmith.Fixture.Registry
import Tapsmith.Lib.Machine

namespace Tapsmith.Fixture

open Lib.Machine

/-!
# Fixtures as suspended functions

What `resolveFixtures` and the teardown that it hands out do with the promises of the fixture
functions, while these run on beside it.

* `Running.advance` — one step of a fixture function;
* `ResolveState.stepMain` — one step of `resolveFixtures`, or of the teardown behind it;
* `ResolveState.step` — both, in any order.
-/

variable {F V E : Type}

/-- What a call of `use` is given.  A promise that fulfils counts as the value it fulfils with. -/
inductive Provided (V E : Type)
  | value (value : Option V)
  | rejects (error : E)
  | pending
deriving DecidableEq

inductive Act (V E : Type)
  | use (provided : Provided V E) (awaited : Bool)
  /-- Anything else that it does or waits for. -/
  | other
deriving DecidableEq

/-- What a fixture function does, up to where it returns or throws. -/
structure Script (V E : Type) where
  acts : List (Act V E)
  throws : Option E
deriving DecidableEq

def Act.provided : Act V E → Option (Provided V E)
  | .use provided _ => some provided
  | .other => none

def Act.awaitsUse : Act V E → Bool
  | .use _ awaited => awaited
  | .other => false

/-- What the first call of `use` is given. -/
def firstUse (acts : List (Act V E)) : Option (Provided V E) := acts.findSome? Act.provided

/-- How often some acts wait for the teardown. -/
def awaits (acts : List (Act V E)) : ℕ := acts.countP Act.awaitsUse

/-- The value that the function provides, where it provides one. -/
def Script.value (script : Script V E) : Option V :=
  (firstUse script.acts).bind fun
    | .value v => v
    | _ => none

/-- What the caller of the function is told before the function is torn down. -/
def Script.outcome (truthy : E → Bool) (script : Script V E) : Outcome V :=
  match firstUse script.acts with
  | some (.value v) => .provides v
  | some (.rejects _) => .rejects true
  | some .pending => .hangs
  | none => script.throws.elim .hangs fun error => .rejects (truthy error)

/-! ### A fixture function -/

/-- A call of a fixture function, with what `resolveFixtures` keeps for it. -/
structure Running (V E : Type) where
  script : Script V E
  /-- What it has not done yet. -/
  acts : List (Act V E)
  /-- It waits for a `use` that it has called. -/
  suspended : Bool := false
  hasUsed : Bool := false
  /-- What `usePromise` has been resolved with. -/
  usePromise : Option (Provided V E) := none
  fixtureError : Option E := none
  /-- `teardownPromise` has been resolved. -/
  teardown : Bool := false
  /-- `fixturePromise` has been settled. -/
  settled : Bool := false
deriving DecidableEq

namespace Running

def start (script : Script V E) : Running V E := { script, acts := script.acts }

variable (r : Running V E)

/-- A promise is resolved once. -/
def resolveUse (provided : Provided V E) : Running V E :=
  { r with usePromise := r.usePromise.or (some provided) }

/-- The end of the function, with the `catch` behind it. -/
def settle : Running V E :=
  r.script.throws.elim { r with settled := true } fun error =>
    if r.hasUsed then { r with settled := true }
    else ({ r with settled := true, fixtureError := some error }).resolveUse (.value none)

/-- The next step of the function, and whether it is resumed by it. -/
def advance : Option (Running V E × Bool) :=
  if r.settled then none
  else if r.suspended then
    if r.teardown then some ({ r with suspended := false }, true) else none
  else
    match r.acts with
    | [] => some (r.settle, false)
    | .other :: acts => some ({ r with acts }, false)
    | .use provided awaited :: acts =>
      some (({ r with acts, hasUsed := true, suspended := awaited }).resolveUse provided, false)

end Running

/-! ### The loop and the teardown -/

/-- Where `resolveFixtures` is, or the teardown: `error` is the error that it will throw when the
    fixtures are torn down, and nothing where its caller tears down. -/
inductive Main (F E : Type)
  | setUp (rest : List (String × ResolvedFixture F))
  | awaitUse (name : String) (rest : List (String × ResolvedFixture F))
  | resolved
  | tearDown (error : Option E) (todo : List ℕ)
  | awaitFixture (error : Option E) (i : ℕ) (todo : List ℕ)
  | finished (error : Option E)

/-- The state of a setup: the calls in the order they were made, the queued teardowns by the
    number of their call, and the calls that have been resumed so far. -/
structure ResolveState (F V E : Type) where
  fixtures : Env V
  calls : List (Running V E)
  teardowns : List ℕ
  main : Main F E
  resumed : List ℕ

inductive Actor
  | main
  | fixture (i : ℕ)

namespace ResolveState

def start (baseFixtures : Env V) (fixturesToResolve : List (String × ResolvedFixture F)) :
    ResolveState F V E where
  fixtures := baseFixtures
  calls := []
  teardowns := []
  main := .setUp fixturesToResolve
  resumed := []

variable (run : F → Env V → Script V E) (truthy : E → Bool) (s : ResolveState F V E)

/-- The value of `usePromise` is there. -/
def use (name : String) (rest : List (String × ResolvedFixture F)) (r : Running V E)
    (value : Option V) : ResolveState F V E :=
  (r.fixtureError.filter truthy).elim
    { s with
      fixtures := Function.update s.fixtures name value
      teardowns := (s.calls.length - 1) :: s.teardowns
      main := .setUp rest }
    fun error => { s with main := .tearDown (some error) s.teardowns }

def stepMain : Option (ResolveState F V E) :=
  match s.main with
  | .setUp [] => some { s with main := .resolved }
  | .setUp ((name, fixture) :: rest) =>
    some { s with
      calls := s.calls ++ [.start (run fixture.fn s.fixtures)]
      main := .awaitUse name rest }
  | .awaitUse name rest =>
    s.calls.getLast?.bind fun r => r.usePromise.bind fun
      | .value v => some (s.use truthy name rest r v)
      | .rejects error => some { s with main := .tearDown (some error) s.teardowns }
      | .pending => none
  -- the caller tears down
  | .resolved => some { s with main := .tearDown none s.teardowns }
  | .tearDown error [] => some { s with main := .finished error }
  | .tearDown error (i :: todo) =>
    some { s with
      calls := s.calls.modify i fun r => { r with teardown := true }
      main := .awaitFixture error i todo }
  | .awaitFixture error i todo =>
    s.calls[i]?.bind fun r => if r.settled then some { s with main := .tearDown error todo } else none
  | .finished _ => none

def step : Actor → Option (ResolveState F V E)
  | .main => s.stepMain run truthy
  | .fixture i =>
    s.calls[i]?.bind fun r => r.advance.map fun q =>
      { s with
        calls := s.calls.set i q.1
        resumed := if q.2 then s.resumed ++ [i] else s.resumed }

/-- Nothing can happen any more. -/
def Stuck : Prop := ∀ actor, s.step run truthy actor = none

end ResolveState

/-- What the functions do, where each sees the values of those before it. -/
def scripts (run : F → Env V → Script V E) :
    Env V → List (String × ResolvedFixture F) → List (Script V E)
  | _, [] => []
  | fixtures, (name, fixture) :: rest =>
    run fixture.fn fixtures ::
      scripts run (Function.update fixtures name (run fixture.fn fixtures).value) rest

end Tapsmith.Fixture
