import Mathlib.Data.List.Nodup
import Mathlib.Logic.Function.Basic

namespace Tapsmith.Fixture

/-!
# The fixture registry

The registry of `fixtures.ts` and what it does with it to set fixtures up.  `F` is the type of the
fixture functions, `V` that of the values they provide; `none` is `undefined`.

* `FixtureRegistry` — a map in insertion order, with `register` and `merge`;
* `collectDeps` — the requested fixtures of a scope and what they depend on, dependencies first;
* `resolveFixtures` — the fixtures set up one after the other.
-/

inductive FixtureScope
  | test
  | worker
deriving DecidableEq

/-- A fixture.  What its function reads of the other fixtures is `uses`; where the parameters of
    the function tell, `deps` is the same list. -/
structure ResolvedFixture (F : Type) where
  fn : F
  scope : FixtureScope
  uses : List String
  deps : Option (List String)
  deps_eq : ∀ names, deps = some names → names = uses

/-- Setting a name that is there keeps its place. -/
def setEntry {β : Type} (name : String) (value : β) (entries : List (String × β)) :
    List (String × β) :=
  if name ∈ entries.map Prod.fst then
    entries.map fun entry => if entry.1 = name then (name, value) else entry
  else entries ++ [(name, value)]

theorem nodup_setEntry {β : Type} {name : String} {value : β} {entries : List (String × β)}
    (h : (entries.map Prod.fst).Nodup) : ((setEntry name value entries).map Prod.fst).Nodup := by
  unfold setEntry
  split
  · have hkeys : (entries.map fun entry => if entry.1 = name then (name, value) else entry).map
        Prod.fst = entries.map Prod.fst := by
      rw [List.map_map]
      refine List.map_congr_left fun entry _ => ?_
      dsimp only [Function.comp_apply]
      split
      · rename_i hname
        exact hname.symm
      · rfl
    rw [hkeys]
    exact h
  · rename_i hnew
    rw [List.map_append]
    refine List.nodup_append.mpr ⟨h, List.nodup_singleton _, ?_⟩
    rintro a ha b hb rfl
    obtain rfl := List.mem_singleton.mp hb
    exact hnew ha

structure FixtureRegistry (F : Type) where
  fixtures : List (String × ResolvedFixture F) := []
  nodup : (fixtures.map Prod.fst).Nodup := by exact List.nodup_nil

namespace FixtureRegistry

variable {F : Type} (registry : FixtureRegistry F)

def set (name : String) (fixture : ResolvedFixture F) : FixtureRegistry F :=
  ⟨setEntry name fixture registry.fixtures, nodup_setEntry registry.nodup⟩

/-- `register`: one call of `test.extend`. -/
def register (definitions : List (String × ResolvedFixture F)) : FixtureRegistry F :=
  definitions.foldl (fun registry entry => registry.set entry.1 entry.2) registry

def merge (other : FixtureRegistry F) : FixtureRegistry F := registry.register other.fixtures

def get (name : String) : Option (ResolvedFixture F) :=
  (registry.fixtures.find? fun entry => entry.1 = name).map Prod.snd

def byScope (scope : FixtureScope) : List (String × ResolvedFixture F) :=
  registry.fixtures.filter fun entry => entry.2.scope = scope

/-! ### Dependencies -/

/-- `visited` holds the same names as `ordered`. -/
structure Visit where
  ordered : List String := []
  visiting : List String := []
deriving DecidableEq

inductive VisitError
  /-- A fixture in the chain has unknown dependencies. -/
  | unknown
  /-- "Circular fixture dependency detected", with the names of the cycle. -/
  | circular (path : List String)
  | outOfFuel
deriving DecidableEq

/-- The fixture of the name, where it has the scope. -/
def inScope (scope : FixtureScope) (name : String) : Option (ResolvedFixture F) :=
  (registry.get name).filter fun fixture => fixture.scope = scope

/-- The fixture is behind all its dependencies once they are visited. -/
def Visit.close (name : String) (v : Visit) : Visit :=
  { ordered := v.ordered ++ [name], visiting := v.visiting.erase name }

def visit (scope : FixtureScope) : ℕ → Visit → String → Except VisitError Visit
  | 0, _, _ => .error .outOfFuel
  | fuel + 1, v, name =>
    match registry.inScope scope name with
    | none => .ok v
    | some fixture =>
      if name ∈ v.visiting then .error (.circular (v.visiting ++ [name]))
      else if name ∈ v.ordered then .ok v
      else
        match fixture.deps with
        | none => .error .unknown
        | some deps =>
          (deps.foldlM (visit scope fuel) { v with visiting := v.visiting ++ [name] }).map
            (Visit.close name)

/-- `collectDeps`: no more than the registered fixtures are visited inside each other. -/
def collectDeps (names : List String) (scope : FixtureScope) : Except VisitError (List String) :=
  (names.foldlM (registry.visit scope (registry.fixtures.length + 1)) {}).map Visit.ordered

end FixtureRegistry

/-! ### Setting up -/

variable {F V : Type}

/-- What the fixtures see: the value of each name. -/
abbrev Env (V : Type) : Type := String → Option V

/-- What a fixture function does before its `use` resolves. -/
inductive Outcome (V : Type)
  | provides (value : Option V)
  /-- It rejects; the error may be a falsy value. -/
  | rejects (truthy : Bool)
  /-- It never calls `use` and never rejects. -/
  | hangs
deriving DecidableEq

/-- The value that goes on.  A falsy error is taken for no error. -/
def Outcome.provided : Outcome V → Option (Option V)
  | .provides value => some value
  | .rejects false => some none
  | .rejects true => none
  | .hangs => none

/-- A call of a fixture function, with what it saw. -/
structure Setup (V : Type) where
  name : String
  env : Env V
  outcome : Outcome V

/-- How it ends: with the fixtures and the order of their teardown, or with an error (thrown by
    `collectDeps`, or by a fixture after the teardown of those before it), or not at all. -/
inductive Resolved (V : Type)
  | ok (fixtures : Env V) (teardown : List String)
  | failed (tornDown : List String)
  | pending

structure Resolution (V : Type) where
  setups : List (Setup V) := []
  result : Resolved V

def Resolution.after (setup : Setup V) (r : Resolution V) : Resolution V :=
  { r with setups := setup :: r.setups }

variable (call : F → Env V → Outcome V)

/-- Where no value goes on: the fixtures before it are torn down, or the wait never ends. -/
def Outcome.stopped (teardowns : List String) : Outcome V → Resolved V
  | .hangs => .pending
  | _ => .failed teardowns

/-- The loop of `resolveFixtures`. -/
def setUp : List (String × ResolvedFixture F) → Env V → List String → Resolution V
  | [], fixtures, teardowns => { result := .ok fixtures teardowns }
  | (name, fixture) :: rest, fixtures, teardowns =>
    let outcome := call fixture.fn fixtures
    let setup : Setup V := { name, env := fixtures, outcome }
    outcome.provided.elim { setups := [setup], result := outcome.stopped teardowns } fun value =>
      (setUp rest (Function.update fixtures name value) (name :: teardowns)).after setup

/-- The order of `collectDeps` where it has one, else all fixtures of the scope as registered. -/
def fixturesToResolve (registry : FixtureRegistry F) (scope : FixtureScope)
    (requestedNames : Option (List String)) :
    Except FixtureRegistry.VisitError (List (String × ResolvedFixture F)) :=
  match requestedNames with
  | none => .ok (registry.byScope scope)
  | some names =>
    match registry.collectDeps names scope with
    | .ok order => .ok (order.filterMap fun name => (registry.get name).map fun f => (name, f))
    | .error .unknown => .ok (registry.byScope scope)
    | .error e => .error e

end Tapsmith.Fixture
