import Tapsmith.Runner.Suite

namespace Tapsmith.Runner

open Lib
open Report (TestStatus)

/-!
# Running a suite

`runSuiteContext` of `runner.ts` and what it runs with, for a run that nobody stops.  What hooks,
resets and test bodies do is up to an environment, whose state `W` is passed through all of them.

* `Env`, `State` — the environment; the state of a run with the log of what happened in it;
* `runRetryTeardown`, `runRetryRebuild` — the fresh start that retries and failures ask for;
* `runTest` — a test with its retries;
* `runSuiteContext` — a describe block: its setup, tests, nested blocks and teardown.
-/

/-! ### Environment and state -/

inductive HookOutcome
  | ok
  | skip
  | timeout
  | error
deriving DecidableEq

inductive HookKind
  | beforeAll
  | beforeEach
  | afterEach
  | afterAll
deriving DecidableEq

/-- What happens to the state of the world, and how it ends: a hook, an app reset, the preparation
    of a test (`beforeEachTest` and its fixtures), a test body; and whether promises were rejected
    unhandled, or soft assertions failed, since they were looked at last. -/
structure Env (W H F : Type) where
  hook : HookKind → H → W → HookOutcome × W
  reset : AppResetPolicy → W → Bool × W
  prepare : W → HookOutcome × W
  body : F → W → HookOutcome × W
  unhandled : W → Bool × W
  softErrors : W → Bool × W

/-- What happens in a run, scopes by their path from the innermost index on: a result is reported;
    a round of beforeAll hooks is started, and completed; a round of afterAll hooks runs; a test
    body runs; a rebuild breaks part-way. -/
inductive Event
  | report (result : TestResult)
  | beforeAll (scope : List ℕ)
  | completed (scope : List ℕ)
  | afterAll (scope : List ℕ)
  | body (scope : List ℕ)
  | rebuildBroken
deriving DecidableEq

/-- `setupBroken` and `freshStartPending` are the retry state of the file; `applied` is the policy
    last applied; `serial` is the failed flag of the serial group that runs, if one does. -/
structure State (W : Type) where
  world : W
  log : List Event := []
  setupBroken : Bool := false
  freshStartPending : Bool := false
  applied : Option AppResetPolicy := none
  serial : Option Bool := none

variable {W H F : Type}

def State.emit (s : State W) (e : Event) : State W := { s with log := s.log ++ [e] }

def State.report (s : State W) (results : List TestResult) : State W :=
  { s with log := s.log ++ results.map Event.report }

def State.call {α : Type} (s : State W) (f : W → α × W) : α × State W :=
  ((f s.world).1, { s with world := (f s.world).2 })

/-- What comes next runs only after an outcome that is `ok`. -/
def andThen (r : HookOutcome × State W) (next : State W → HookOutcome × State W) :
    HookOutcome × State W :=
  if r.1 = .ok then next r.2 else r

theorem andThen_ok {r : HookOutcome × State W} {next : State W → HookOutcome × State W} :
    (andThen r next).1 = .ok ↔ r.1 = .ok ∧ (next r.2).1 = .ok := by
  unfold andThen
  split
  case isTrue h => exact ⟨fun hnext => ⟨h, hnext⟩, fun hnext => hnext.2⟩
  case isFalse h => exact ⟨fun hok => absurd hok h, fun hok => absurd hok.1 h⟩

/-! ### Hooks and resets -/

variable (env : Env W H F)

/-- The hooks of a setup: the first that does not end well ends it. -/
def runHooks (kind : HookKind) : List H → State W → HookOutcome × State W
  | [], s => (.ok, s)
  | hook :: rest, s => andThen (s.call (env.hook kind hook)) (runHooks kind rest)

def runAppReset (policy : AppResetPolicy) (s : State W) : HookOutcome × State W :=
  let r := s.call (env.reset policy)
  if r.1 then (.ok, { r.2 with applied := some policy }) else (.error, r.2)

/-- A promise left behind that rejects unhandled fails what ended well. -/
def settle (r : HookOutcome × State W) : HookOutcome × State W :=
  andThen r fun s =>
    let u := s.call env.unhandled
    (if u.1 then .error else .ok, u.2)

/-- The afterAll hooks of a scope: errors are logged, and all of them run. -/
def runAfterAll (path : List ℕ) (hooks : List H) (s : State W) : State W :=
  hooks.foldl (fun s hook => (s.call (env.hook .afterAll hook)).2) (s.emit (.afterAll path))

def completeRound (path : List ℕ) (r : HookOutcome × State W) : HookOutcome × State W :=
  andThen r fun s => (.ok, s.emit (.completed path))

/-! ### Fresh starts -/

/-- One scope's setup as a retry re-runs it. -/
structure ScopeRetryStep (H : Type) where
  path : List ℕ
  resetPolicy : Option AppResetPolicy
  beforeAll : List H
  afterAll : List H

def retryReplaysSetup (policy : AppResetPolicy) (resets : List (Option AppResetPolicy))
    (serialGroup : Option Bool) : Bool :=
  policy.scope = .file && serialGroup.isNone && policy.resets &&
    resets.any fun reset => reset.any AppResetPolicy.resets

/-- The afterAll hooks of the chain, innermost first; none where a rebuild broke. -/
def runRetryTeardown (chain : List (ScopeRetryStep H)) (s : State W) : State W :=
  (if s.setupBroken then [] else chain.reverse).foldl
    (fun s step => runAfterAll env step.path step.afterAll s)
    { s with setupBroken := true, freshStartPending := false }

def rebuildStep (step : ScopeRetryStep H) (s : State W) : HookOutcome × State W :=
  andThen (step.resetPolicy.elim (.ok, s) (runAppReset env · s)) fun s =>
    completeRound step.path (runHooks env .beforeAll step.beforeAll (s.emit (.beforeAll step.path)))

def rebuildSteps : List (ScopeRetryStep H) → State W → HookOutcome × State W
  | [], s => (.ok, s)
  | step :: rest, s => andThen (rebuildStep env step s) (rebuildSteps rest)

/-- Resets and beforeAll hooks of the chain, outermost first.  A failure leaves the setup broken. -/
def runRetryRebuild (chain : List (ScopeRetryStep H)) (s : State W) : HookOutcome × State W :=
  let r := rebuildSteps env chain s
  if r.1 = .ok then (.ok, { r.2 with setupBroken := false })
  else (r.1, r.2.emit .rebuildBroken)

def runRetrySetup (chain : List (ScopeRetryStep H)) (s : State W) : HookOutcome × State W :=
  runRetryRebuild env chain (runRetryTeardown env chain s)

/-! ### Tests -/

/-- What the tests of a scope have in common. -/
structure ScopeRun (H : Type) where
  scope : Scope H
  path : List ℕ
  fullPrefix : String
  hasOnly : Bool
  skippedByBeforeAll : Bool
  retryChain : List (ScopeRetryStep H)
  replaySetupOnRetry : Bool
  allBeforeEach : List H
  allAfterEach : List H

def outcomeStatus : HookOutcome → TestStatus
  | .ok => .passed
  | .skip => .skipped
  | .timeout => .failed
  | .error => .failed

/-- A skip makes a passed test a skipped one, a timeout fails it, other errors are logged. -/
def afterEachStatus (status : TestStatus) : HookOutcome → TestStatus
  | .ok => status
  | .skip => if status = .passed then .skipped else status
  | .timeout => .failed
  | .error => status

def runAfterEach : List H → TestStatus → State W → TestStatus × State W
  | [], status, s => (status, s)
  | hook :: rest, status, s =>
    let r := s.call (env.hook .afterEach hook)
    runAfterEach rest (afterEachStatus status r.1) r.2

/-- Whether an attempt runs the setup again before it starts. -/
def retrySetupRuns (run : ScopeRun H) (attempt : ℕ) (s : State W) : Bool :=
  run.replaySetupOnRetry && (attempt > 0 || s.setupBroken || s.freshStartPending)

/-- An attempt up to the end of the test body. -/
def attemptBody (run : ScopeRun H) (fn : F) (attempt : ℕ) (s : State W) :
    HookOutcome × State W :=
  andThen (if retrySetupRuns run attempt s then runRetrySetup env run.retryChain s else (.ok, s))
    fun s =>
  andThen (if run.scope.policy.scope = .test && run.scope.canReset then
      runAppReset env run.scope.policy s else (.ok, s)) fun s =>
  andThen (s.call env.prepare) fun s =>
  andThen (runHooks env .beforeEach run.allBeforeEach s) fun s =>
    (s.emit (.body run.path)).call (env.body fn)

def runAttempt (run : ScopeRun H) (fn : F) (attempt : ℕ) (s : State W) : TestStatus × State W :=
  let ended := attemptBody env run fn attempt s
  let cleaned := runAfterEach env run.allAfterEach (outcomeStatus ended.1) ended.2
  let unhandled := cleaned.2.call env.unhandled
  let soft := unhandled.2.call env.softErrors
  (if unhandled.1 || soft.1 then .failed else cleaned.1, soft.2)

/-- The attempts from `attempt` on, with `retries` more after it.  `failedBefore` says whether one
    failed before, and is returned with the status of the last. -/
def runAttempts (run : ScopeRun H) (fn : F) (provisional : TestResult) :
    ℕ → ℕ → Bool → State W → (TestStatus × Bool) × State W
  | 0, attempt, failedBefore, s =>
    let r := runAttempt env run fn attempt s
    ((r.1, failedBefore), r.2)
  | retries + 1, attempt, failedBefore, s =>
    let r := runAttempt env run fn attempt s
    if r.1 = .failed then
      runAttempts run fn provisional retries (attempt + 1) true (r.2.emit (.report provisional))
    else ((r.1, failedBefore), r.2)

/-- What a failed test leaves to those after it. -/
def State.noteFailure (s : State W) (canReset : Bool) : State W :=
  { s with
    serial := s.serial.map fun _ => true
    freshStartPending := s.freshStartPending || canReset }

def testResult (opts : RunOptions) (run : ScopeRun H) (entry : TestEntry F)
    (status : TestStatus) : TestResult where
  name := entry.name
  fullName := joinName run.fullPrefix entry.name
  status := status
  project := opts.projectName
  filePath := opts.testFilePath

/-- A skip on a retry never hides the failure before it. -/
def finalStatus (last : TestStatus) (failedBefore : Bool) : TestStatus :=
  if last = .skipped ∧ failedBefore = true then .failed else last

def runTest (opts : RunOptions) (run : ScopeRun H) (entry : TestEntry F) (s : State W) :
    TestResult × State W :=
  let provisional := { testResult opts run entry .failed with willRetry := true }
  let r := runAttempts env run entry.fn provisional run.scope.retries 0 false s
  let status := finalStatus r.1.1 r.1.2
  let reported := r.2.report [testResult opts run entry status]
  (testResult opts run entry status,
    if status = .failed then reported.noteFailure run.scope.canReset else reported)

/-- A test that does not run. -/
def skipsTest (run : ScopeRun H) (entry : TestEntry F) (s : State W) : Bool :=
  !entry.included run.hasOnly || run.scope.skipped || run.skippedByBeforeAll ||
    s.serial = some true

def runTests (opts : RunOptions) (run : ScopeRun H) :
    List (TestEntry F) → State W → List TestResult × State W
  | [], s => ([], s)
  | entry :: rest, s =>
    if opts.passesTestFilter (joinName run.fullPrefix entry.name) then
      let r :=
        if skipsTest run entry s then
          (testResult opts run entry .skipped, s.report [testResult opts run entry .skipped])
        else runTest env opts run entry s
      let others := runTests opts run rest r.2
      (r.1 :: others.1, others.2)
    else runTests opts run rest s

/-! ### Entering a scope -/

/-- What a scope inherits from the one around it. -/
structure Inherited (H : Type) where
  path : List ℕ := []
  fullPrefix : String := ""
  parentPolicy : Option AppResetPolicy := none
  retryChain : List (ScopeRetryStep H) := []
  beforeEach : List H := []
  afterEach : List H := []

def Inherited.isRoot (inherited : Inherited H) : Bool := inherited.fullPrefix = ""

/-- A fresh worker resets on entering the scope. -/
def freshWorkerReset (scope : Scope H) (inherited : Inherited H) : Bool :=
  scope.canReset &&
    match scope.policy.scope with
    | .file => inherited.isRoot || some scope.policy ≠ inherited.parentPolicy
    | .test => !scope.beforeAll.isEmpty

/-- A failure asked for a fresh start, and nothing has started fresh since. -/
def freshStartAtEntry (scope : Scope H) (inherited : Inherited H) (runnable : Bool)
    (serialGroup : Option Bool) (s : State W) : Bool :=
  !inherited.isRoot && runnable && scope.canReset && s.freshStartPending &&
    retryReplaysSetup scope.policy
      (inherited.retryChain.map ScopeRetryStep.resetPolicy ++
        if freshWorkerReset scope inherited then [some scope.policy] else []) serialGroup

def needsScopeReset (scope : Scope H) (inherited : Inherited H) (runnable fresh : Bool)
    (s : State W) : Bool :=
  runnable && scope.canReset &&
    match scope.policy.scope with
    | .file =>
      inherited.isRoot || some scope.policy ≠
        (if fresh then inherited.parentPolicy else s.applied.or inherited.parentPolicy)
    | .test => !scope.beforeAll.isEmpty

/-- The setup of a scope that has a test to run. -/
def runScopeSetup (scope : Scope H) (inherited : Inherited H) (fresh needsReset : Bool)
    (s : State W) : HookOutcome × State W :=
  andThen (if fresh then runRetrySetup env inherited.retryChain s else (.ok, s)) fun s =>
  andThen (if needsReset then runAppReset env scope.policy s else (.ok, s)) fun s =>
    completeRound inherited.path
      (settle env (runHooks env .beforeAll scope.beforeAll (s.emit (.beforeAll inherited.path))))

/-- A scope is a step of the retries below it if it resets, has hooks, or has a recording. -/
def retryStep (scope : Scope H) (inherited : Inherited H) (runnable fresh needsReset : Bool) :
    List (ScopeRetryStep H) :=
  if freshWorkerReset scope inherited || !scope.beforeAll.isEmpty || !scope.afterAll.isEmpty ||
      (runnable && scope.records && (!scope.beforeAll.isEmpty || needsReset || fresh)) then
    [{ path := inherited.path
       resetPolicy := if freshWorkerReset scope inherited then some scope.policy else none
       beforeAll := scope.beforeAll
       afterAll := scope.afterAll }]
  else []

/-- The run of a scope whose setup did not fail. -/
def scopeRun (scope : Scope H) (inherited : Inherited H) (hasOnly skippedByBeforeAll : Bool)
    (step : List (ScopeRetryStep H)) (serialGroup : Option Bool) : ScopeRun H :=
  let retryChain := inherited.retryChain ++ step
  { scope := scope
    path := inherited.path
    fullPrefix := inherited.fullPrefix
    hasOnly := hasOnly
    skippedByBeforeAll := skippedByBeforeAll
    retryChain := retryChain
    replaySetupOnRetry := scope.canReset &&
      retryReplaysSetup scope.policy (retryChain.map ScopeRetryStep.resetPolicy) serialGroup
    allBeforeEach := inherited.beforeEach ++ scope.beforeEach
    allAfterEach := scope.afterEach ++ inherited.afterEach }

def ScopeRun.inherited (run : ScopeRun H) (i : ℕ) (name : String) : Inherited H where
  path := i :: run.path
  fullPrefix := joinName run.fullPrefix name
  parentPolicy := some run.scope.policy
  retryChain := run.retryChain
  beforeEach := run.allBeforeEach
  afterEach := run.allAfterEach

/-- A scope that declares a serial group starts one, unless it is in one. -/
def enterGroup (scope : Scope H) (s : State W) : State W :=
  if s.serial.isNone && scope.serial then { s with serial := some false } else s

/-- The group ends with the scope that started it. -/
def leaveGroup (outer : Option Bool) (s : State W) : State W :=
  if outer.isNone then { s with serial := none } else s

/-- A child whose tests failed without running fails the group as well. -/
def noteChild (out : SuiteResult × State W) : SuiteResult × State W :=
  (out.1, if (collectResults out.1).any (·.status = .failed) then
    { out.2 with serial := out.2.serial.map fun _ => true } else out.2)

/-- The tests of a scope whose setup failed: reported one by one, and returned in one list. -/
def failScope (opts : RunOptions) (inherited : Inherited H) (ctx : SuiteContext H F)
    (s : State W) : SuiteResult × State W :=
  let results := collectResults (failAll opts inherited.fullPrefix ctx)
  (.mk inherited.fullPrefix results [],
    { s.report results with
      freshStartPending := s.freshStartPending || ctx.label.canReset })

/-! ### Scopes -/

/-- The results of a skipped block with the project and the file that skipped tests have. -/
def stampSkipped (opts : RunOptions) (skipped : SuiteResult) : SuiteResult :=
  skipped.map fun t => { t with project := opts.projectName, filePath := opts.testFilePath }

mutual

def runSuiteContext (opts : RunOptions) :
    SuiteContext H F → Inherited H → State W → SuiteResult × State W
  | .mk scope tests suites, inherited, s₀ =>
    let s := enterGroup scope s₀
    let runnable := (firstRunnableTest opts.passesTestFilter inherited.fullPrefix
      (.mk scope tests suites)).isSome
    let fresh := freshStartAtEntry scope inherited runnable s₀.serial s
    let needsReset := needsScopeReset scope inherited runnable fresh s
    let setup := if runnable then runScopeSetup env scope inherited fresh needsReset s else (.ok, s)
    if setup.1 = .ok ∨ setup.1 = .skip then
      let run := scopeRun scope inherited (hasOnly tests suites) (setup.1 = .skip)
        (retryStep scope inherited runnable fresh needsReset) s.serial
      let ran := runTests env opts run tests setup.2
      let nested := runSuites opts run (excluded tests suites) suites 0 ran.2
      (.mk inherited.fullPrefix ran.1 nested.1,
        leaveGroup s₀.serial
          (if runnable then runAfterAll env inherited.path scope.afterAll nested.2 else nested.2))
    else
      let failed := failScope opts inherited (.mk scope tests suites) setup.2
      (failed.1, leaveGroup s₀.serial failed.2)

def runSuites (opts : RunOptions) (run : ScopeRun H) (excluded : SuiteContext H F → Bool) :
    List (SuiteContext H F) → ℕ → State W → List SuiteResult × State W
  | [], _, s => ([], s)
  | child :: rest, i, s =>
    let childPrefix := joinName run.fullPrefix child.label.name
    let skipped := skipAll opts childPrefix child
    let out :=
      if excluded child then (skipped, s)
      else if s.serial = some true || run.scope.skipped || run.skippedByBeforeAll then
        (stampSkipped opts skipped, s.report (collectResults (stampSkipped opts skipped)))
      else
        noteChild (runSuiteContext opts child (run.inherited i child.label.name) s)
    let others := runSuites opts run excluded rest (i + 1) out.2
    (out.1 :: others.1, others.2)

end

/-- The run of a file. -/
def runFile (opts : RunOptions) (ctx : SuiteContext H F) (world : W) : SuiteResult × State W :=
  runSuiteContext env opts ctx {} { world := world }

end Tapsmith.Runner
