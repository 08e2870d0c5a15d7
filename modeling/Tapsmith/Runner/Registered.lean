import Tapsmith.Runner.Serial

namespace Tapsmith.Runner

open Lib
open Report (TestStatus)

/-!
# Registered suites

A describe block is registered with the options of `test.use()`.  What these make of the options of
the blocks around it is resolved when the block is entered, and by the search for the first test
that is going to run; what the session knows of the app may be different then.

* `resolveScope` — the options and the reset policy of a block, from those of the block around it;
* `Registered.firstRunnableTest` — the search, with the policy of the test that it finds;
* `Registered.runSuiteContext` — the run, which resolves each block as it enters it;
* `Registered.runSuiteContext_eq` — while what is resolved does not change, it is the run of the
  blocks as they were resolved at its start.
-/

/-! ### Options -/

/-- The option `appReset`. -/
inductive AppReset
  | auto
  | mode (mode : AppResetMode)
deriving DecidableEq

/-- The option `appResetScope`. -/
inductive AppResetScopeOption
  | auto
  | scope (scope : AppResetScope)
deriving DecidableEq

inductive TraceMode
  | off
  | on
  | onFirstRetry
  | onAllRetries
  | retainOnFailure
  | retainOnFirstFailure
  | retainOnFailureAndRetries
deriving DecidableEq

def shouldRecord : TraceMode → ℕ → Bool
  | .off, _ => false
  | .on, _ => true
  | .retainOnFailure, _ => true
  | .retainOnFirstFailure, _ => true
  | .retainOnFailureAndRetries, _ => true
  | .onFirstRetry, attempt => attempt = 1
  | .onAllRetries, attempt => attempt > 0

/-- The options that the run of a block depends on, each `none` where it is undefined; `trace` is
    the mode, of either form of the option. -/
structure Config where
  appReset : Option AppReset := none
  appResetScope : Option AppResetScopeOption := none
  resetAppDeepLink : Option String := none
  rootDir : String := "/"
  package : Option String := none
  retries : Option ℕ := some 0
  trace : Option TraceMode := none
deriving DecidableEq

/-- The keys that `test.use()` was given; a key may be given the value undefined. -/
structure UseOptions where
  appState : Option String := none
  appReset : Option (Option AppReset) := none
  appResetScope : Option (Option AppResetScopeOption) := none
  resetAppDeepLink : Option (Option String) := none
  package : Option (Option String) := none
  retries : Option (Option ℕ) := none
  trace : Option (Option TraceMode) := none

/-- `{ ...config, ...configOverrides }`: a key that is given overrides, whatever its value. -/
def Config.override (config : Config) (use : UseOptions) : Config where
  appReset := use.appReset.getD config.appReset
  appResetScope := use.appResetScope.getD config.appResetScope
  resetAppDeepLink := use.resetAppDeepLink.getD config.resetAppDeepLink
  rootDir := config.rootDir
  package := use.package.getD config.package
  retries := use.retries.getD config.retries
  trace := use.trace.getD config.trace

/-- What the session has learned of the app; it changes during a run. -/
structure ResetCapabilities where
  hooksDetected : Option Bool := none
deriving DecidableEq

/-- The path functions of the platform. -/
structure NodePath where
  isAbsolute : String → Bool
  resolve : String → String → String

/-- The options of a run with its config; whether one of its devices can be reset, and whether it
    has a device at all. -/
structure FileOptions extends RunOptions where
  config : Config
  path : NodePath
  resettable : Bool := true
  hasDevice : Bool := true

/-- A string that is set, and not empty. -/
def truthy (s : Option String) : Bool := s.any (· ≠ "")

/-- The mode that `auto` stands for, or the one that was asked for. -/
def resolveMode (config : Config) (caps : ResetCapabilities) : AppResetMode :=
  let warmAvailable := caps.hooksDetected = some true || truthy config.resetAppDeepLink
  match config.appReset.getD .auto with
  | .auto => if warmAvailable then .warm else .clear
  | .mode mode => mode

def resolveResetScope (config : Config) : AppResetScope :=
  match config.appResetScope.getD .auto with
  | .auto => .file
  | .scope scope => scope

def resolveAppState (path : NodePath) (config : Config) (appState : String) : String :=
  if appState = "" then ""
  else if path.isAbsolute appState then appState
  else path.resolve config.rootDir appState

def resolveAppResetPolicy (path : NodePath) (appState : Option String) (config : Config)
    (caps : ResetCapabilities) : AppResetPolicy where
  mode := resolveMode config caps
  scope := resolveResetScope config
  appState := appState.map (resolveAppState path config)

/-- The options in force in a block, and its reset policy. -/
def resolveScope (use : UseOptions) (parentOpts : FileOptions)
    (parentPolicy : Option AppResetPolicy) (caps : ResetCapabilities) :
    FileOptions × AppResetPolicy :=
  let opts := { parentOpts with config := parentOpts.config.override use }
  (opts, resolveAppResetPolicy opts.path (use.appState.or (parentPolicy.bind (·.appState)))
    opts.config caps)

/-! ### The tree as it is registered -/

structure Registration (H : Type) where
  name : String
  only : Bool := false
  skip : Bool := false
  serial : Bool := false
  skipped : Bool := false
  beforeAll : List H := []
  afterAll : List H := []
  beforeEach : List H := []
  afterEach : List H := []
  useOptions : UseOptions := {}

abbrev RegisteredSuite (H F : Type) := Group (Registration H) (TestEntry F)

/-- The test that runs first as it was planned: with its full name, the options in force where it
    is, and the policy it runs under. -/
structure Planned (F : Type) where
  entry : TestEntry F
  fullName : String
  config : Config
  policy : AppResetPolicy

/-- The test as it is planned when the session knows this. -/
def Planned.under {F : Type} (p : Planned F) (caps : ResetCapabilities) : Planned F :=
  { p with policy := { p.policy with mode := resolveMode p.config caps } }

namespace Registered

variable {W H F : Type}

/-- A test of a block in which these options and this policy are in force. -/
def plan (opts : FileOptions) (policy : AppResetPolicy) (parentPrefix : String)
    (entry : TestEntry F) : Planned F where
  entry := entry
  fullName := joinName parentPrefix entry.name
  config := opts.config
  policy := policy

def hasOnly (tests : List (TestEntry F)) (suites : List (RegisteredSuite H F)) : Bool :=
  hasOnlyTests tests || suites.any (·.label.only)

def excluded (tests : List (TestEntry F)) (suites : List (RegisteredSuite H F))
    (child : RegisteredSuite H F) : Bool :=
  child.label.skip || (hasOnly tests suites && !child.label.only && !hasOnlyTests tests)

mutual

/-- The source returns the full name and the policy of the test. -/
def firstRunnableTest (opts : FileOptions) (policy : AppResetPolicy) (caps : ResetCapabilities)
    (parentPrefix : String) : RegisteredSuite H F → Option (Planned F)
  | .mk registration tests suites =>
    if registration.skipped then none
    else
      ((tests.find? fun entry => entry.included (hasOnly tests suites) &&
        opts.passesTestFilter (joinName parentPrefix entry.name)).map
          (plan opts policy parentPrefix)).or
        (firstRunnableSuite opts policy caps parentPrefix (excluded tests suites) suites)

def firstRunnableSuite (opts : FileOptions) (policy : AppResetPolicy) (caps : ResetCapabilities)
    (parentPrefix : String) (excluded : RegisteredSuite H F → Bool) :
    List (RegisteredSuite H F) → Option (Planned F)
  | [] => none
  | child :: rest =>
    let inner := resolveScope child.label.useOptions opts (some policy) caps
    if excluded child then firstRunnableSuite opts policy caps parentPrefix excluded rest
    else
      (firstRunnableTest inner.1 inner.2 caps (joinName parentPrefix child.label.name) child).or
        (firstRunnableSuite opts policy caps parentPrefix excluded rest)

end

/-! ### Resolving a block -/

def scope (registration : Registration H) (opts : FileOptions) (policy : AppResetPolicy) :
    Scope H where
  name := registration.name
  only := registration.only
  skip := registration.skip
  serial := registration.serial
  skipped := registration.skipped
  beforeAll := registration.beforeAll
  afterAll := registration.afterAll
  beforeEach := registration.beforeEach
  afterEach := registration.afterEach
  policy := policy
  canReset := truthy opts.config.package && opts.resettable
  retries := opts.config.retries.getD 0
  records := opts.hasDevice && shouldRecord (opts.config.trace.getD .off) 0

/-- A test whose body is told what its block runs it with. -/
def resolveTest (opts : FileOptions) (policy : AppResetPolicy) (parentPrefix : String)
    (entry : TestEntry F) : TestEntry (Planned F) where
  name := entry.name
  only := entry.only
  skip := entry.skip
  fn := plan opts policy parentPrefix entry

mutual

/-- A block in which these options and this policy are in force, with what is known now of the
    blocks in it. -/
def resolve (opts : FileOptions) (policy : AppResetPolicy) (caps : ResetCapabilities)
    (parentPrefix : String) : RegisteredSuite H F → SuiteContext H (Planned F)
  | .mk registration tests suites =>
    .mk (scope registration opts policy) (tests.map (resolveTest opts policy parentPrefix))
      (resolveAll opts policy caps parentPrefix suites)

def resolveAll (opts : FileOptions) (policy : AppResetPolicy) (caps : ResetCapabilities)
    (parentPrefix : String) : List (RegisteredSuite H F) → List (SuiteContext H (Planned F))
  | [] => []
  | child :: rest =>
    let inner := resolveScope child.label.useOptions opts (some policy) caps
    resolve inner.1 inner.2 caps (joinName parentPrefix child.label.name) child ::
      resolveAll opts policy caps parentPrefix rest

end

def resolveChild (opts : FileOptions) (policy : AppResetPolicy) (caps : ResetCapabilities)
    (parentPrefix : String) (child : RegisteredSuite H F) : SuiteContext H (Planned F) :=
  let inner := resolveScope child.label.useOptions opts (some policy) caps
  resolve inner.1 inner.2 caps (joinName parentPrefix child.label.name) child

/-! ### Running it -/

/-- The tests of a block where `retries` is undefined: `attempt <= maxRetries` is false at once, and
    what is left is a passed test. -/
def runUnattempted (opts : RunOptions) (run : ScopeRun H) :
    List (TestEntry F) → State W → List TestResult × State W
  | [], s => ([], s)
  | entry :: rest, s =>
    if opts.passesTestFilter (joinName run.fullPrefix entry.name) then
      let result := testResult opts run entry (if skipsTest run entry s then .skipped else .passed)
      let others := runUnattempted opts run rest (s.report [result])
      (result :: others.1, others.2)
    else runUnattempted opts run rest s

def runTests (env : Env W H F) (opts : FileOptions) (run : ScopeRun H)
    (tests : List (TestEntry F)) (s : State W) : List TestResult × State W :=
  if opts.config.retries.isSome then Runner.runTests env opts.toRunOptions run tests s
  else runUnattempted opts.toRunOptions run tests s

variable (env : Env W H (Planned F)) (capabilities : W → ResetCapabilities × W)

mutual

/-- The run of a block.  Its options and its policy, and the test it runs first, are resolved with
    what the session knows as it is entered. -/
def runSuiteContext : RegisteredSuite H F → FileOptions → Inherited H → State W →
    SuiteResult × State W
  | .mk registration tests suites, parentOpts, inherited, s₀ =>
    let read := s₀.call capabilities
    let inner := resolveScope registration.useOptions parentOpts inherited.parentPolicy read.1
    let opts := inner.1
    let ctx := resolve opts inner.2 read.1 inherited.fullPrefix (.mk registration tests suites)
    let setup := setUpScope env opts.toRunOptions ctx inherited read.2
    if setup.1 = .ok ∨ setup.1 = .skip then
      let run := scopeRun ctx.label inherited (Runner.hasOnly ctx.own ctx.groups) (setup.1 = .skip)
        (retryStep ctx.label inherited (runnable opts.toRunOptions ctx inherited)
          (setUpFresh opts.toRunOptions ctx inherited read.2)
          (setUpReset opts.toRunOptions ctx inherited read.2))
        (enterGroup ctx.label read.2).serial
      let ran := runTests env opts run ctx.own setup.2
      let nested := runSuites opts run
        (resolveChild opts inner.2 read.1 inherited.fullPrefix)
        (Runner.excluded ctx.own ctx.groups) suites 0 ran.2
      (.mk inherited.fullPrefix ran.1 nested.1,
        leaveGroup s₀.serial (finishScope env opts.toRunOptions ctx inherited nested.2))
    else
      let failed := failScope opts.toRunOptions inherited ctx setup.2
      (failed.1, leaveGroup s₀.serial failed.2)

/-- The nested blocks; `resolved` is what they were resolved to on entering the block. -/
def runSuites (opts : FileOptions) (run : ScopeRun H)
    (resolved : RegisteredSuite H F → SuiteContext H (Planned F))
    (excluded : SuiteContext H (Planned F) → Bool) :
    List (RegisteredSuite H F) → ℕ → State W → List SuiteResult × State W
  | [], _, s => ([], s)
  | child :: rest, i, s =>
    let childPrefix := joinName run.fullPrefix child.label.name
    let skipped := skipAll opts.toRunOptions childPrefix (resolved child)
    let out :=
      if excluded (resolved child) then (skipped, s)
      else if s.serial = some true || run.scope.skipped || run.skippedByBeforeAll then
        (stampSkipped opts.toRunOptions skipped,
          s.report (collectResults (stampSkipped opts.toRunOptions skipped)))
      else
        noteChild (runSuiteContext child opts (run.inherited i child.label.name) s)
    let others := runSuites opts run resolved excluded rest (i + 1) out.2
    (out.1 :: others.1, others.2)

end

/-- The run of a file. -/
def runFile (opts : FileOptions) (ctx : RegisteredSuite H F) (world : W) : SuiteResult × State W :=
  runSuiteContext env capabilities ctx opts {} { world := world }

/-! ### What a block is entered with -/

section Entering

variable {env} {ctx : RegisteredSuite H F} {parentOpts : FileOptions}
  {inherited : Inherited H} {s₀ s : State W} {run : ScopeRun H}
  {inner : FileOptions × AppResetPolicy} {resolved : SuiteContext H (Planned F)}

theorem runSuiteContext_of_entered
    (hinner : resolveScope ctx.label.useOptions parentOpts inherited.parentPolicy
      (s₀.call capabilities).1 = inner)
    (hresolved : resolve inner.1 inner.2 (s₀.call capabilities).1 inherited.fullPrefix ctx =
      resolved)
    (h : entered env inner.1.toRunOptions resolved inherited (s₀.call capabilities).2 =
      .ok (run, s)) :
    let ran := runTests env inner.1 run resolved.own s
    let nested := runSuites env capabilities inner.1 run
      (resolveChild inner.1 inner.2 (s₀.call capabilities).1 inherited.fullPrefix)
      (Runner.excluded resolved.own resolved.groups) ctx.groups 0 ran.2
    runSuiteContext env capabilities ctx parentOpts inherited s₀ =
      (.mk inherited.fullPrefix ran.1 nested.1, leaveGroup s₀.serial
        (finishScope env inner.1.toRunOptions resolved inherited nested.2)) := by
  obtain ⟨registration, tests, suites⟩ := ctx
  subst hinner hresolved
  unfold entered at h
  dsimp only at h
  split at h
  case isFalse => cases h
  case isTrue hsetup =>
    obtain ⟨rfl, rfl⟩ := Prod.mk.inj (Except.ok.inj h)
    unfold runSuiteContext
    dsimp only
    exact if_pos hsetup

theorem runSuiteContext_of_failed
    (hinner : resolveScope ctx.label.useOptions parentOpts inherited.parentPolicy
      (s₀.call capabilities).1 = inner)
    (hresolved : resolve inner.1 inner.2 (s₀.call capabilities).1 inherited.fullPrefix ctx =
      resolved)
    (h : entered env inner.1.toRunOptions resolved inherited (s₀.call capabilities).2 = .error s) :
    runSuiteContext env capabilities ctx parentOpts inherited s₀ =
      ((failScope inner.1.toRunOptions inherited resolved s).1,
        leaveGroup s₀.serial (failScope inner.1.toRunOptions inherited resolved s).2) := by
  obtain ⟨registration, tests, suites⟩ := ctx
  subst hinner hresolved
  unfold entered at h
  dsimp only at h
  split at h
  case isTrue => cases h
  case isFalse hsetup =>
    obtain rfl := Except.error.inj h
    unfold runSuiteContext
    dsimp only
    exact if_neg hsetup

end Entering

theorem resolveAll_eq_map (opts : FileOptions) (policy : AppResetPolicy) (caps : ResetCapabilities)
    (parentPrefix : String) (suites : List (RegisteredSuite H F)) :
    resolveAll opts policy caps parentPrefix suites =
      suites.map (resolveChild opts policy caps parentPrefix) := by
  induction suites with
  | nil => rfl
  | cons child rest ih => exact congrArg _ ih

theorem groups_resolve (opts : FileOptions) (policy : AppResetPolicy) (caps : ResetCapabilities)
    (parentPrefix : String) (ctx : RegisteredSuite H F) :
    (resolve opts policy caps parentPrefix ctx).groups =
      ctx.groups.map (resolveChild opts policy caps parentPrefix) := by
  obtain ⟨registration, tests, suites⟩ := ctx
  exact resolveAll_eq_map opts policy caps parentPrefix suites

theorem label_resolveChild (opts : FileOptions) (policy : AppResetPolicy) (caps : ResetCapabilities)
    (parentPrefix : String) (child : RegisteredSuite H F) :
    (resolveChild opts policy caps parentPrefix child).label.name = child.label.name := by
  obtain ⟨registration, tests, suites⟩ := child
  rfl

/-! ### While nothing changes -/

mutual

/-- No block takes the number of retries back. -/
def keepsRetries : RegisteredSuite H F → Bool
  | .mk registration _ suites => registration.useOptions.retries ≠ some none && keepRetries suites

def keepRetries : List (RegisteredSuite H F) → Bool
  | [] => true
  | child :: rest => keepsRetries child && keepRetries rest

end

theorem override_retries {config : Config} {use : UseOptions} (h : config.retries.isSome = true)
    (huse : use.retries ≠ some none) : (config.override use).retries.isSome = true := by
  show (use.retries.getD config.retries).isSome = true
  cases hretries : use.retries with
  | none => exact h
  | some retries =>
    cases retries with
    | none => exact absurd hretries huse
    | some retries => rfl

mutual

/-- While what the session knows does not change, the run of a block is that of what it was resolved
    to as it was entered. -/
theorem runSuiteContext_eq (caps : ResetCapabilities) :
    ∀ (ctx : RegisteredSuite H F) (parentOpts : FileOptions) (inherited : Inherited H)
      (s₀ : State W) (inner : FileOptions × AppResetPolicy),
      resolveScope ctx.label.useOptions parentOpts inherited.parentPolicy caps = inner →
      parentOpts.config.retries.isSome = true → keepsRetries ctx = true →
      runSuiteContext env (fun w => (caps, w)) ctx parentOpts inherited s₀ =
        Runner.runSuiteContext env inner.1.toRunOptions
          (resolve inner.1 inner.2 caps inherited.fullPrefix ctx) inherited s₀
  | .mk registration tests suites, parentOpts, inherited, s₀, inner, hinner, hretries, hkeeps => by
    obtain ⟨huse, hnested⟩ := (Bool.and_eq_true _ _).mp hkeeps
    have hopts : inner.1.config.retries.isSome = true := by
      rw [← hinner]
      exact override_retries hretries (of_decide_eq_true huse)
    obtain ⟨resolved, hresolved⟩ : ∃ resolved, resolve inner.1 inner.2 caps inherited.fullPrefix
        (.mk registration tests suites) = resolved := ⟨_, rfl⟩
    rw [hresolved]
    cases hentered : entered env inner.1.toRunOptions resolved inherited s₀ with
    | error s =>
      have hrun := runSuiteContext_of_failed (fun w => (caps, w)) hinner hresolved hentered
      rw [hrun, Runner.runSuiteContext_of_failed hentered]
    | ok run =>
      obtain ⟨run, s⟩ := run
      have hrun := runSuiteContext_of_entered (fun w => (caps, w)) hinner hresolved hentered
      rw [hrun, Runner.runSuiteContext_of_entered hentered]
      obtain ⟨hscope, -, hfull, -⟩ := entered_ok hentered
      have htests : ∀ tests s, runTests env inner.1 run tests s =
          Runner.runTests env inner.1.toRunOptions run tests s := fun _ _ => if_pos hopts
      have hpolicy : run.scope.policy = inner.2 := by
        rw [hscope, ← hresolved]
        rfl
      have hgroups : resolved.groups =
          suites.map (resolveChild inner.1 inner.2 caps inherited.fullPrefix) := by
        rw [← hresolved]
        exact resolveAll_eq_map inner.1 inner.2 caps inherited.fullPrefix suites
      have hsuites : ∀ excluded s, runSuites env (fun w => (caps, w)) inner.1 run
          (resolveChild inner.1 inner.2 caps inherited.fullPrefix) excluded
          (Lib.Group.mk registration tests suites).groups 0 s =
            Runner.runSuites env inner.1.toRunOptions run excluded resolved.groups 0 s := by
        intro excluded s
        have heq := runSuites_eq caps inner.1 run excluded hopts suites 0 s hnested
        rw [hpolicy, hfull, ← hgroups] at heq
        exact heq
      dsimp only [State.call]
      rw [htests, hsuites]

theorem runSuites_eq (caps : ResetCapabilities) (opts : FileOptions) (run : ScopeRun H)
    (excluded : SuiteContext H (Planned F) → Bool) (hretries : opts.config.retries.isSome = true) :
    ∀ (suites : List (RegisteredSuite H F)) (i : ℕ) (s : State W), keepRetries suites = true →
      runSuites env (fun w => (caps, w)) opts run
          (resolveChild opts run.scope.policy caps run.fullPrefix) excluded suites i s =
        Runner.runSuites env opts.toRunOptions run excluded
          (suites.map (resolveChild opts run.scope.policy caps run.fullPrefix)) i s
  | [], _, _, _ => rfl
  | child :: rest, i, s, hkeeps => by
    obtain ⟨hchild, hrest⟩ := (Bool.and_eq_true _ _).mp hkeeps
    have hrun := runSuiteContext_eq caps child opts (run.inherited i child.label.name) s _ rfl
      hretries hchild
    unfold runSuites
    rw [List.map_cons]
    unfold Runner.runSuites
    dsimp only
    rw [label_resolveChild, hrun, runSuites_eq caps opts run excluded hretries rest (i + 1) _ hrest]
    rfl

end

end Registered

end Tapsmith.Runner
