import Tapsmith.Lib.Group
import Tapsmith.Report.Blob

namespace Tapsmith.Runner

open Lib
open Report (TestStatus)

/-!
# Suites

The describe tree that a test file registers, and the results of it, as `runner.ts` has them.  `H`
is the type of the hooks, `F` that of the test bodies.

* `SuiteContext` — a describe block: its scope, its tests, and the blocks in it;
* `selected` — the full names of the tests that the selection filters keep;
* `firstRunnableTest` — the first test that is going to run in a block, if any is;
* `skipAll`, `failAll` — a block whose tests all get the same result without running.
-/

/-! ### Reset policies -/

inductive AppResetMode
  | warm
  | restart
  | clear
  | none
deriving DecidableEq

inductive AppResetScope
  | file
  | test
deriving DecidableEq

structure AppResetPolicy where
  mode : AppResetMode
  scope : AppResetScope
  appState : Option String := none
deriving DecidableEq

/-- The action of the policy is not `none`. -/
def AppResetPolicy.resets (policy : AppResetPolicy) : Bool :=
  policy.appState.isSome || policy.mode ≠ .none

/-! ### The tree -/

structure TestEntry (F : Type) where
  name : String
  only : Bool := false
  skip : Bool := false
  fn : F

/-- What a describe block is registered with, and what `resolveScope` makes of the options in
    force there: the reset policy, whether the devices can be reset, the retries, and whether
    traces are recorded. -/
structure Scope (H : Type) where
  name : String
  only : Bool := false
  skip : Bool := false
  serial : Bool := false
  skipped : Bool := false
  beforeAll : List H := []
  afterAll : List H := []
  beforeEach : List H := []
  afterEach : List H := []
  policy : AppResetPolicy := { mode := .clear, scope := .file }
  canReset : Bool := true
  retries : ℕ := 0
  records : Bool := false

abbrev SuiteContext (H F : Type) := Group (Scope H) (TestEntry F)

structure RunOptions where
  projectName : Option String := none
  testFilePath : Option String := none
  passesTestFilter : String → Bool := fun _ => true

def joinName (parentPrefix name : String) : String :=
  if parentPrefix = "" then name else parentPrefix ++ (" > " ++ name)

variable {H F : Type}

def hasOnlyTests (tests : List (TestEntry F)) : Bool := tests.any TestEntry.only

def hasOnly (tests : List (TestEntry F)) (suites : List (SuiteContext H F)) : Bool :=
  hasOnlyTests tests || suites.any (·.label.only)

/-- A test that neither `test.skip` nor another one's `only` excludes. -/
def TestEntry.included (entry : TestEntry F) (only : Bool) : Bool :=
  !(entry.skip || (only && !entry.only))

/-- A describe block that `describe.skip` or an `only` elsewhere excludes. -/
def excluded (tests : List (TestEntry F)) (suites : List (SuiteContext H F))
    (child : SuiteContext H F) : Bool :=
  child.label.skip || (hasOnly tests suites && !child.label.only && !hasOnlyTests tests)

mutual

def firstRunnableTest (passes : String → Bool) (parentPrefix : String) :
    SuiteContext H F → Option String
  | .mk scope tests suites =>
    if scope.skipped then none
    else
      match tests.find? fun entry => entry.included (hasOnly tests suites) &&
          passes (joinName parentPrefix entry.name) with
      | some entry => some (joinName parentPrefix entry.name)
      | none => firstRunnableSuite passes parentPrefix (excluded tests suites) suites

def firstRunnableSuite (passes : String → Bool) (parentPrefix : String)
    (excluded : SuiteContext H F → Bool) : List (SuiteContext H F) → Option String
  | [] => none
  | child :: rest =>
    if excluded child then firstRunnableSuite passes parentPrefix excluded rest
    else
      (firstRunnableTest passes (joinName parentPrefix child.label.name) child).or
        (firstRunnableSuite passes parentPrefix excluded rest)

end

mutual

/-- The full names of the tests that pass the filters. -/
def selected (passes : String → Bool) (parentPrefix : String) : SuiteContext H F → List String
  | .mk _ tests suites =>
    (tests.map fun entry => joinName parentPrefix entry.name).filter passes ++
      selectedAll passes parentPrefix suites

def selectedAll (passes : String → Bool) (parentPrefix : String) :
    List (SuiteContext H F) → List String
  | [] => []
  | child :: rest =>
    selected passes (joinName parentPrefix child.label.name) child ++
      selectedAll passes parentPrefix rest

end

/-! ### Results -/

/-- What is known of the result of a test besides its artifacts and times.  `willRetry` marks a
    failed attempt that is going to be retried. -/
structure TestResult where
  name : String
  fullName : String
  status : TestStatus
  project : Option String := none
  filePath : Option String := none
  willRetry : Bool := false
deriving DecidableEq

/-- The results of a block, labelled with its full title. -/
abbrev SuiteResult := Group String TestResult

/-- `collectResults`. -/
def collectResults (suite : SuiteResult) : List TestResult := suite.leaves

mutual

/-- The tests that pass the filters get the result that `mark` makes of their names. -/
def markAll (passes : String → Bool) (mark : String → String → TestResult)
    (parentPrefix : String) : SuiteContext H F → SuiteResult
  | .mk _ tests suites =>
    .mk parentPrefix
      ((tests.filter fun entry => passes (joinName parentPrefix entry.name)).map fun entry =>
        mark entry.name (joinName parentPrefix entry.name))
      (markSuites passes mark parentPrefix suites)

def markSuites (passes : String → Bool) (mark : String → String → TestResult)
    (parentPrefix : String) : List (SuiteContext H F) → List SuiteResult
  | [] => []
  | child :: rest =>
    markAll passes mark (joinName parentPrefix child.label.name) child ::
      markSuites passes mark parentPrefix rest

end

/-- Every test skipped: neither the project nor the file is set. -/
def skipAll (opts : RunOptions) (parentPrefix : String) (ctx : SuiteContext H F) : SuiteResult :=
  markAll opts.passesTestFilter
    (fun name fullName => { name := name, fullName := fullName, status := .skipped })
    parentPrefix ctx

/-- Every test failed. -/
def failAll (opts : RunOptions) (parentPrefix : String) (ctx : SuiteContext H F) : SuiteResult :=
  markAll opts.passesTestFilter
    (fun name fullName =>
      { name := name, fullName := fullName, status := .failed, project := opts.projectName })
    parentPrefix ctx

/-! ### What is selected is marked -/

variable {passes : String → Bool} {mark : String → String → TestResult}

mutual

theorem fullNames_markAll (hmark : ∀ name fullName, (mark name fullName).fullName = fullName) :
    ∀ (parentPrefix : String) (ctx : SuiteContext H F),
      (markAll passes mark parentPrefix ctx).leaves.map TestResult.fullName =
        selected passes parentPrefix ctx
  | parentPrefix, .mk _ tests suites => by
    show (((tests.filter fun entry => passes (joinName parentPrefix entry.name)).map fun entry =>
        mark entry.name (joinName parentPrefix entry.name)) ++
      Group.leavesAll (markSuites passes mark parentPrefix suites)).map TestResult.fullName =
        (tests.map fun entry => joinName parentPrefix entry.name).filter passes ++
          selectedAll passes parentPrefix suites
    rw [List.map_append, fullNames_markSuites hmark parentPrefix suites, List.map_map,
      List.filter_map]
    congr 1
    exact List.map_congr_left fun entry _ => hmark _ _

theorem fullNames_markSuites (hmark : ∀ name fullName, (mark name fullName).fullName = fullName) :
    ∀ (parentPrefix : String) (suites : List (SuiteContext H F)),
      (Group.leavesAll (markSuites passes mark parentPrefix suites)).map TestResult.fullName =
        selectedAll passes parentPrefix suites
  | _, [] => rfl
  | parentPrefix, child :: rest => by
    show ((markAll passes mark (joinName parentPrefix child.label.name) child).leaves ++
      Group.leavesAll (markSuites passes mark parentPrefix rest)).map TestResult.fullName = _
    rw [List.map_append, fullNames_markAll hmark _ child, fullNames_markSuites hmark _ rest]
    rfl

end

end Tapsmith.Runner
