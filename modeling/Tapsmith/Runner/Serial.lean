import Tapsmith.Runner.Reported

namespace Tapsmith.Runner

open Lib
open Report (TestStatus)

/-!
# Serial groups

A describe block that declares a serial group shares one failed flag with every block in it.  Tests
and blocks look at the flag when their turn comes.

* `entered` — what the tests of a block run with, unless its setup fails;
* `Within`, `Turn` — the blocks that the run of a block runs, and the states in which their tests and
  blocks have their turn;
* `StopsAtFailure` — after the first failure no body runs and everything is skipped, and before it
  nothing is skipped for the group;
* `serial_stopsAtFailure` — so it is in every serial group, whatever happens in it.
-/

variable {W H F : Type}

/-! ### Entering a block -/

/-- A test of the block is going to run. -/
def runnable (opts : RunOptions) (ctx : SuiteContext H F) (inherited : Inherited H) : Bool :=
  (firstRunnableTest opts.passesTestFilter inherited.fullPrefix ctx).isSome

def setUpFresh (opts : RunOptions) (ctx : SuiteContext H F) (inherited : Inherited H)
    (s₀ : State W) : Bool :=
  freshStartAtEntry ctx.label inherited (runnable opts ctx inherited) s₀.serial
    (enterGroup ctx.label s₀)

def setUpReset (opts : RunOptions) (ctx : SuiteContext H F) (inherited : Inherited H)
    (s₀ : State W) : Bool :=
  needsScopeReset ctx.label inherited (runnable opts ctx inherited)
    (setUpFresh opts ctx inherited s₀) (enterGroup ctx.label s₀)

/-- How the setup of a block ends, which has one if a test of it is going to run. -/
def setUpScope (env : Env W H F) (opts : RunOptions) (ctx : SuiteContext H F)
    (inherited : Inherited H) (s₀ : State W) : HookOutcome × State W :=
  if runnable opts ctx inherited then
    runScopeSetup env ctx.label inherited (setUpFresh opts ctx inherited s₀)
      (setUpReset opts ctx inherited s₀) (enterGroup ctx.label s₀)
  else (.ok, enterGroup ctx.label s₀)

/-- The run of a block and the state its tests start in, or the state its setup failed in. -/
def entered (env : Env W H F) (opts : RunOptions) (ctx : SuiteContext H F)
    (inherited : Inherited H) (s₀ : State W) : Except (State W) (ScopeRun H × State W) :=
  let setup := setUpScope env opts ctx inherited s₀
  if setup.1 = .ok ∨ setup.1 = .skip then
    .ok (scopeRun ctx.label inherited (hasOnly ctx.own ctx.groups) (setup.1 = .skip)
      (retryStep ctx.label inherited (runnable opts ctx inherited)
        (setUpFresh opts ctx inherited s₀) (setUpReset opts ctx inherited s₀))
      (enterGroup ctx.label s₀).serial, setup.2)
  else .error setup.2

/-- The afterAll hooks of a block in which a test was to run. -/
def finishScope (env : Env W H F) (opts : RunOptions) (ctx : SuiteContext H F)
    (inherited : Inherited H) (s : State W) : State W :=
  if runnable opts ctx inherited then
    runAfterAll env inherited.path ctx.label.afterAll s
  else s

variable {env : Env W H F} {opts : RunOptions} {ctx : SuiteContext H F} {inherited : Inherited H}
  {s₀ s s' s'' : State W} {run : ScopeRun H}

theorem runSuiteContext_of_entered (h : entered env opts ctx inherited s₀ = .ok (run, s)) :
    runSuiteContext env opts ctx inherited s₀ =
      (.mk inherited.fullPrefix (runTests env opts run ctx.own s).1
          (runSuites env opts run (excluded ctx.own ctx.groups) ctx.groups 0
            (runTests env opts run ctx.own s).2).1,
        leaveGroup s₀.serial (finishScope env opts ctx inherited
          (runSuites env opts run (excluded ctx.own ctx.groups) ctx.groups 0
            (runTests env opts run ctx.own s).2).2)) := by
  obtain ⟨scope, tests, suites⟩ := ctx
  unfold entered at h
  dsimp only at h
  split at h
  case isFalse => cases h
  case isTrue hsetup =>
    obtain ⟨rfl, rfl⟩ := Prod.mk.inj (Except.ok.inj h)
    unfold runSuiteContext
    dsimp only
    exact if_pos hsetup

theorem runSuiteContext_of_failed (h : entered env opts ctx inherited s₀ = .error s) :
    runSuiteContext env opts ctx inherited s₀ =
      ((failScope opts inherited ctx s).1, leaveGroup s₀.serial (failScope opts inherited ctx s).2) := by
  obtain ⟨scope, tests, suites⟩ := ctx
  unfold entered at h
  dsimp only at h
  split at h
  case isTrue => cases h
  case isFalse hsetup =>
    obtain rfl := Except.error.inj h
    unfold runSuiteContext
    dsimp only
    exact if_neg hsetup

/-! ### Stretches without results -/

/-- Events that report nothing for good, and the same serial group. -/
structure Unreported (s s' : State W) : Prop where
  log : ∃ events, s'.log = s.log ++ events ∧ ∀ e ∈ events, e.final = none
  serial : s'.serial = s.serial

theorem unreported_frame : Frame (Unreported (W := W)) where
  refl s := ⟨⟨[], (List.append_nil _).symm, fun _ h => absurd h List.not_mem_nil⟩, rfl⟩
  trans h h' := by
    obtain ⟨⟨events, hlog, hfinal⟩, hserial⟩ := h
    obtain ⟨⟨events', hlog', hfinal'⟩, hserial'⟩ := h'
    refine ⟨⟨events ++ events', by rw [hlog', hlog, List.append_assoc], fun e he => ?_⟩,
      hserial'.trans hserial⟩
    rcases List.mem_append.mp he with he | he
    · exact hfinal e he
    · exact hfinal' e he
  call s _ := ⟨⟨[], (List.append_nil _).symm, fun _ h => absurd h List.not_mem_nil⟩, rfl⟩
  emit s e he := ⟨⟨[e], rfl, fun e' he' => by rw [List.mem_singleton.mp he', he]⟩, rfl⟩
  retry s _ _ _ := ⟨⟨[], (List.append_nil _).symm, fun _ h => absurd h List.not_mem_nil⟩, rfl⟩

theorem setUpScope_unreported :
    Unreported (enterGroup ctx.label s₀) (setUpScope env opts ctx inherited s₀).2 := by
  unfold setUpScope
  split
  · exact unreported_frame.runScopeSetup env _ _ _ _ _
  · exact unreported_frame.refl _

/-- What is true of the scope of a block that is entered, and of the state it is entered in. -/
theorem entered_ok (h : entered env opts ctx inherited s₀ = .ok (run, s)) :
    run.scope = ctx.label ∧ run.path = inherited.path ∧ run.fullPrefix = inherited.fullPrefix ∧
      Unreported (enterGroup ctx.label s₀) s := by
  unfold entered at h
  dsimp only at h
  split at h
  case isFalse => cases h
  case isTrue =>
    obtain ⟨rfl, rfl⟩ := Prod.mk.inj (Except.ok.inj h)
    exact ⟨rfl, rfl, rfl, setUpScope_unreported⟩

theorem entered_error (h : entered env opts ctx inherited s₀ = .error s) :
    Unreported (enterGroup ctx.label s₀) s := by
  unfold entered at h
  dsimp only at h
  split at h
  case isTrue => cases h
  case isFalse =>
    obtain rfl := Except.error.inj h
    exact setUpScope_unreported

/-! ### Turns -/

/-- A block next to which nothing keeps its scope from running it. -/
def runsChild (run : ScopeRun H) (excluded : SuiteContext H F → Bool) (child : SuiteContext H F)
    (s : State W) : Bool :=
  !(excluded child || s.serial = some true || run.scope.skipped || run.skippedByBeforeAll)

/-- The state in which the first block after `before` has its turn. -/
def stateAfter (env : Env W H F) (opts : RunOptions) (run : ScopeRun H) (ctx : SuiteContext H F)
    (before : List (SuiteContext H F)) (s : State W) : State W :=
  (runSuites env opts run (excluded ctx.own ctx.groups) before 0
    (runTests env opts run ctx.own s).2).2

/-- The run of the block from `s₀` on runs the block `ctx'`, from `s'` on. -/
inductive Within (env : Env W H F) (opts : RunOptions) :
    SuiteContext H F → Inherited H → State W → SuiteContext H F → Inherited H → State W → Prop
  | here {ctx : SuiteContext H F} {inherited : Inherited H} {s₀ : State W} :
      Within env opts ctx inherited s₀ ctx inherited s₀
  | nested {ctx child ctx' : SuiteContext H F} {inherited inherited' : Inherited H}
      {s₀ s s' : State W} {run : ScopeRun H} {before rest : List (SuiteContext H F)}
      (hentered : entered env opts ctx inherited s₀ = .ok (run, s))
      (hsuites : ctx.groups = before ++ child :: rest)
      (hruns : runsChild run (excluded ctx.own ctx.groups) child
        (stateAfter env opts run ctx before s) = true)
      (hwithin : Within env opts child (run.inherited before.length child.label.name)
        (stateAfter env opts run ctx before s) ctx' inherited' s') :
      Within env opts ctx inherited s₀ ctx' inherited' s'

/-- In the run of the block from `s₀` on, a test or a block of the scope has its turn in `t`. -/
inductive Turn (env : Env W H F) (opts : RunOptions) (ctx : SuiteContext H F)
    (inherited : Inherited H) (s₀ : State W) (run : ScopeRun H) : State W → Prop
  | test {ctx' : SuiteContext H F} {inherited' : Inherited H} {s s' : State W}
      {entry : TestEntry F} {done rest : List (TestEntry F)}
      (hwithin : Within env opts ctx inherited s₀ ctx' inherited' s')
      (hentered : entered env opts ctx' inherited' s' = .ok (run, s))
      (htests : ctx'.own = done ++ entry :: rest) :
      Turn env opts ctx inherited s₀ run (runTests env opts run done s).2
  | suite {ctx' child : SuiteContext H F} {inherited' : Inherited H} {s s' : State W}
      {before rest : List (SuiteContext H F)}
      (hwithin : Within env opts ctx inherited s₀ ctx' inherited' s')
      (hentered : entered env opts ctx' inherited' s' = .ok (run, s))
      (hsuites : ctx'.groups = before ++ child :: rest) :
      Turn env opts ctx inherited s₀ run (stateAfter env opts run ctx' before s)

/-! ### The property -/

def TestResult.fails (r : TestResult) : Bool := r.status = .failed

/-- A test has finally failed, run or not. -/
def Event.fails (e : Event) : Bool := e.final.any TestResult.fails

def Event.runsBody : Event → Bool
  | .body _ => true
  | .report _ | .beforeAll _ | .completed _ | .afterAll _ | .rebuildBroken => false

/-- After a failure, the later event is not the run of a test body. -/
def Stops (e e' : Event) : Prop := e.fails = true → e'.runsBody = false

/-- Results up to the first failure and after it.  The failure is that of one test, or the results
    of the block that `Broken` tells. -/
inductive Split (Broken : List TestResult → Prop) : List TestResult → Prop
  | clean {results} (h : ∀ r ∈ results, r.fails = false) : Split Broken results
  | failed {before failure after} (hbefore : ∀ r ∈ before, r.fails = false)
      (hfailure : ∀ r ∈ failure, r.fails = true)
      (hcause : (∃ r, failure = [r]) ∨ Broken failure)
      (hafter : ∀ r ∈ after, r.status = .skipped) : Split Broken (before ++ failure ++ after)

/-- The results of a block in the run whose setup failed. -/
def Broken (env : Env W H F) (opts : RunOptions) (ctx : SuiteContext H F) (inherited : Inherited H)
    (s₀ : State W) (failure : List TestResult) : Prop :=
  ∃ ctx' inherited' s' s, Within env opts ctx inherited s₀ ctx' inherited' s' ∧
    entered env opts ctx' inherited' s' = .error s ∧
      failure = collectResults (failAll opts inherited'.fullPrefix ctx')

def FailedSince (s₀ t : State W) : Prop :=
  ∃ events, t.log = s₀.log ++ events ∧ events.any Event.fails = true

/-- The test is not to run in its scope, whatever happened before. -/
def leftOut (run : ScopeRun H) (entry : TestEntry F) : Bool :=
  !entry.included run.hasOnly || run.scope.skipped || run.skippedByBeforeAll

/-- The block is not to run in its scope, whatever happened before. -/
def leftOutSuite (run : ScopeRun H) (excluded : SuiteContext H F → Bool)
    (child : SuiteContext H F) : Bool :=
  excluded child || run.scope.skipped || run.skippedByBeforeAll

/-- The group stops at its first failure, and not before.  Every test that passes the filters has
    one result, and the results after the failure are all skips. -/
structure StopsAtFailure (env : Env W H F) (opts : RunOptions) (ctx : SuiteContext H F)
    (inherited : Inherited H) (s₀ : State W) : Prop where
  bodies : ∃ events, (runSuiteContext env opts ctx inherited s₀).2.log = s₀.log ++ events ∧
    events.Pairwise Stops
  names : (collectResults (runSuiteContext env opts ctx inherited s₀).1).map TestResult.fullName =
    selected opts.passesTestFilter inherited.fullPrefix ctx
  results : Split (Broken env opts ctx inherited s₀)
    (collectResults (runSuiteContext env opts ctx inherited s₀).1)
  tests : ∀ run t, Turn env opts ctx inherited s₀ run t → ∀ entry : TestEntry F,
    skipsTest run entry t = true ↔ leftOut run entry = true ∨ FailedSince s₀ t
  suites : ∀ run t, Turn env opts ctx inherited s₀ run t → ∀ excluded (child : SuiteContext H F),
    runsChild run excluded child t = false ↔
      leftOutSuite run excluded child = true ∨ FailedSince s₀ t

/-! ### Stretches of a group -/

/-- What a part of the group whose flag was `failed` returns and logs. -/
structure Stretch (Broken : List TestResult → Prop) (failed : Bool) (s : State W)
    (results : List TestResult) (s' : State W) : Prop where
  log : ∃ events, s'.log = s.log ++ events ∧ events.Pairwise Stops ∧
    events.any Event.fails = results.any TestResult.fails ∧
      (failed = true → ∀ e ∈ events, e.runsBody = false)
  skipped : failed = true → ∀ r ∈ results, r.status = .skipped
  split : Split Broken results

/-- The flag after a part that returned `results`. -/
def Marked (failed : Bool) (results : List TestResult) (s' : State W) : Prop :=
  s'.serial = some (failed || results.any TestResult.fails)

variable {Cause : List TestResult → Prop} {failed : Bool} {results results' : List TestResult}

theorem any_fails_eq_false : results.any TestResult.fails = false ↔ ∀ r ∈ results, r.fails = false := by
  rw [List.any_eq_false]
  exact forall₂_congr fun r _ => by rw [Bool.not_eq_true]

theorem Split.append (h : Split Cause results) (h' : Split Cause results')
    (hskipped : results.any TestResult.fails = true → ∀ r ∈ results', r.status = .skipped) :
    Split Cause (results ++ results') := by
  cases hany : results.any TestResult.fails with
  | true =>
    cases h with
    | clean hclean => rw [any_fails_eq_false.mpr hclean] at hany; cases hany
    | failed hbefore hfailure hcause hafter =>
      rw [List.append_assoc _ _ results']
      refine .failed hbefore hfailure hcause fun r hr => ?_
      rcases List.mem_append.mp hr with hr | hr
      · exact hafter r hr
      · exact hskipped hany r hr
  | false =>
    have hclean := any_fails_eq_false.mp hany
    cases h' with
    | clean hclean' =>
      refine .clean fun r hr => ?_
      rcases List.mem_append.mp hr with hr | hr
      · exact hclean r hr
      · exact hclean' r hr
    | failed hbefore hfailure hcause hafter =>
      rw [← List.append_assoc, ← List.append_assoc]
      refine .failed (fun r hr => ?_) hfailure hcause hafter
      rcases List.mem_append.mp hr with hr | hr
      · exact hclean r hr
      · exact hbefore r hr

theorem Stretch.append (h : Stretch Cause failed s results s')
    (h' : Stretch Cause (failed || results.any TestResult.fails) s' results' s'') :
    Stretch Cause failed s (results ++ results') s'' where
  log := by
    obtain ⟨events, hlog, hstops, hany, hbody⟩ := h.log
    obtain ⟨events', hlog', hstops', hany', hbody'⟩ := h'.log
    refine ⟨events ++ events', by rw [hlog', hlog, List.append_assoc], ?_, ?_, fun hfailed e he => ?_⟩
    · refine List.pairwise_append.mpr ⟨hstops, hstops', fun e he e' he' hfails => ?_⟩
      have hresults : results.any TestResult.fails = true := by
        rw [← hany]
        exact List.any_eq_true.mpr ⟨e, he, hfails⟩
      exact hbody' (by rw [hresults, Bool.or_true]) e' he'
    · rw [List.any_append, List.any_append, hany, hany']
    · rcases List.mem_append.mp he with he | he
      · exact hbody hfailed e he
      · exact hbody' (by rw [hfailed, Bool.true_or]) e he
  skipped hfailed r hr := by
    rcases List.mem_append.mp hr with hr | hr
    · exact h.skipped hfailed r hr
    · exact h'.skipped (by rw [hfailed, Bool.true_or]) r hr
  split := h.split.append h'.split fun hany => h'.skipped (by rw [hany, Bool.or_true])

theorem Marked.append
    (h : Marked (failed || results.any TestResult.fails) results' s'') :
    Marked failed (results ++ results') s'' := by
  unfold Marked
  rw [List.any_append, ← Bool.or_assoc]
  exact h

theorem Split.mono {Cause' : List TestResult → Prop} (h : Split Cause results)
    (hcause : ∀ failure, Cause failure → Cause' failure) : Split Cause' results := by
  cases h with
  | clean hclean => exact .clean hclean
  | failed hbefore hfailure hor hafter =>
    exact .failed hbefore hfailure (hor.imp_right (hcause _)) hafter

theorem Stretch.mono {Cause' : List TestResult → Prop} (h : Stretch Cause failed s results s')
    (hcause : ∀ failure, Cause failure → Cause' failure) : Stretch Cause' failed s results s' where
  log := h.log
  skipped := h.skipped
  split := h.split.mono hcause

theorem Event.fails_of_final_none {e : Event} (h : e.final = none) : e.fails = false := by
  rw [Event.fails, h]
  rfl

/-- Nothing is reported, and in a group that failed no body runs. -/
theorem Stretch.of_events {events : List Event} (hlog : s'.log = s.log ++ events)
    (hfinal : ∀ e ∈ events, e.final = none)
    (hbody : failed = true → ∀ e ∈ events, e.runsBody = false) : Stretch Cause failed s [] s' where
  log := by
    have hfails : ∀ e ∈ events, e.fails = false := fun e he =>
      Event.fails_of_final_none (hfinal e he)
    refine ⟨events, hlog, List.pairwise_of_forall_mem_list fun e he e' _ hfailed => ?_, ?_, hbody⟩
    · rw [hfails e he] at hfailed
      cases hfailed
    · rw [List.any_nil, List.any_eq_false]
      exact fun e he hfailed => by rw [hfails e he] at hfailed; cases hfailed
  skipped _ r hr := absurd hr List.not_mem_nil
  split := .clean fun r hr => absurd hr List.not_mem_nil

theorem Stretch.nil (hlog : s'.log = s.log) : Stretch Cause failed s [] s' :=
  .of_events (hlog.trans (List.append_nil _).symm) (fun _ he => absurd he List.not_mem_nil)
    fun _ _ he => absurd he List.not_mem_nil

/-- Where nothing is returned after. -/
theorem Stretch.after (h : Stretch Cause failed s results s')
    (h' : Stretch Cause (failed || results.any TestResult.fails) s' [] s'') :
    Stretch Cause failed s results s'' := by
  simpa using h.append h'

theorem Stretch.of_unreported (h : Unreported s s') : Stretch Cause false s [] s' := by
  obtain ⟨events, hlog, hfinal⟩ := h.log
  exact .of_events hlog hfinal nofun

/-- No body runs where results are only reported. -/
theorem Stretch.of_report (s : State W) (hretry : ∀ r ∈ results, r.willRetry = false)
    (hskipped : failed = true → ∀ r ∈ results, r.status = .skipped) (hsplit : Split Cause results) :
    Stretch Cause failed s results (s.report results) where
  log := by
    have hbody : ∀ e ∈ results.map Event.report, e.runsBody = false := by
      intro e he
      obtain ⟨r, -, rfl⟩ := List.mem_map.mp he
      rfl
    refine ⟨results.map Event.report, rfl,
      List.pairwise_of_forall_mem_list fun _ _ e' he' _ => hbody e' he', ?_, fun _ => hbody⟩
    rw [List.any_map, Bool.eq_iff_iff, List.any_eq_true, List.any_eq_true]
    refine exists_congr fun r => and_congr_right fun hr => ?_
    show (Event.report r).final.any TestResult.fails = true ↔ r.fails = true
    rw [show (Event.report r).final = some r from if_neg (by rw [hretry r hr]; exact nofun)]
    rfl
  skipped := hskipped
  split := hsplit

/-- A single result, which is a failure of its own if it is one. -/
theorem Split.singleton (r : TestResult) : Split Cause [r] := by
  cases hfails : r.fails with
  | true =>
    show Split Cause ([] ++ [r] ++ [])
    exact .failed nofun
      (fun r' hr' => by rw [List.mem_singleton.mp hr', hfails]) (.inl ⟨r, rfl⟩) nofun
  | false => exact .clean fun r' hr' => by rw [List.mem_singleton.mp hr', hfails]

/-! ### Tests of a group -/

theorem runTest_stretch (Cause : List TestResult → Prop) (run : ScopeRun H) (entry : TestEntry F)
    (hs : s.serial = some false) :
    Stretch Cause false s [(runTest env opts run entry s).1] (runTest env opts run entry s).2 ∧
      Marked false [(runTest env opts run entry s).1] (runTest env opts run entry s).2 := by
  let provisional := { testResult opts run entry .failed with willRetry := true }
  have hquiet : Unreported s
      (runAttempts env run entry.fn provisional run.scope.retries 0 false s).2 :=
    unreported_frame.runAttempts env run entry.fn rfl _ _ _ s
  unfold runTest
  dsimp only
  generalize runAttempts env run entry.fn provisional run.scope.retries 0 false s = r at hquiet
  generalize finalStatus r.1.1 r.1.2 = status
  have hreport : Stretch Cause false r.2 [testResult opts run entry status]
      (r.2.report [testResult opts run entry status]) :=
    .of_report r.2 (fun t ht => by rw [List.mem_singleton.mp ht]; rfl) nofun (.singleton _)
  have hstretch := (Stretch.of_unreported hquiet).append hreport
  have hserial : r.2.serial = some false := hquiet.serial.trans hs
  by_cases hstatus : status = .failed
  · rw [if_pos hstatus]
    refine ⟨⟨hstretch.log, hstretch.skipped, hstretch.split⟩, ?_⟩
    show r.2.serial.map (fun _ => true) = _
    rw [hserial, hstatus]
    rfl
  · rw [if_neg hstatus]
    refine ⟨hstretch, ?_⟩
    show r.2.serial = some (false || (decide (status = .failed) || false))
    rw [hserial, decide_eq_false hstatus]
    rfl

theorem runTests_stretch (env : Env W H F) (opts : RunOptions) (Cause : List TestResult → Prop)
    (run : ScopeRun H) (tests : List (TestEntry F)) (s : State W) (hs : s.serial = some failed) :
    Stretch Cause failed s (runTests env opts run tests s).1 (runTests env opts run tests s).2 ∧
      Marked failed (runTests env opts run tests s).1 (runTests env opts run tests s).2 := by
  induction tests generalizing s failed with
  | nil =>
    refine ⟨.nil rfl, hs.trans ?_⟩
    show some failed = some (failed || false)
    rw [Bool.or_false]
  | cons entry rest ih =>
    have hfirst : ∀ r : TestResult × State W,
        Stretch Cause failed s [r.1] r.2 → Marked failed [r.1] r.2 →
        Stretch Cause failed s (r.1 :: (runTests env opts run rest r.2).1)
            (runTests env opts run rest r.2).2 ∧
          Marked failed (r.1 :: (runTests env opts run rest r.2).1)
            (runTests env opts run rest r.2).2 := by
      intro r hstretch hmarked
      obtain ⟨hrest, hrestMarked⟩ := ih r.2 hmarked
      exact ⟨hstretch.append hrest, Marked.append hrestMarked⟩
    unfold runTests
    split
    case isFalse => exact ih s hs
    case isTrue =>
      refine hfirst _ ?_ ?_
      · split
        case isTrue =>
          exact .of_report s (fun t ht => by rw [List.mem_singleton.mp ht]; rfl)
            (fun _ t ht => by rw [List.mem_singleton.mp ht]; rfl) (.singleton _)
        case isFalse hruns =>
          obtain rfl : failed = false := by
            cases failed with
            | false => rfl
            | true => exact absurd (by simp [skipsTest, hs]) hruns
          exact (runTest_stretch Cause run entry hs).1
      · split
        case isTrue =>
          show s.serial = some (failed || (decide (TestStatus.skipped = .failed) || false))
          rw [hs]
          simp
        case isFalse hruns =>
          obtain rfl : failed = false := by
            cases failed with
            | false => rfl
            | true => exact absurd (by simp [skipsTest, hs]) hruns
          exact (runTest_stretch Cause run entry hs).2

/-! ### Blocks of a group -/

theorem stampSkipped_skipped (opts : RunOptions) (parentPrefix : String) (ctx : SuiteContext H F) :
    ∀ r ∈ collectResults (stampSkipped opts (skipAll opts parentPrefix ctx)),
      r.willRetry = false ∧ r.status = .skipped := by
  have hleaves : collectResults (stampSkipped opts (skipAll opts parentPrefix ctx)) =
      (collectResults (skipAll opts parentPrefix ctx)).map fun t =>
        { t with project := opts.projectName, filePath := opts.testFilePath } :=
    Group.leaves_map _ _
  rw [hleaves]
  intro r hr
  obtain ⟨t, ht, rfl⟩ := List.mem_map.mp hr
  exact forall_markAll (p := fun r => r.willRetry = false ∧ r.status = .skipped)
    (fun _ _ => ⟨rfl, rfl⟩) parentPrefix ctx t ht

theorem Split.of_skipped (h : ∀ r ∈ results, r.status = .skipped) : Split Cause results :=
  .clean fun r hr => by rw [TestResult.fails, h r hr]; rfl

theorem Stretch.of_skipped (h : ∀ r ∈ results, r.status = .skipped) (hlog : s'.log = s.log) :
    Stretch Cause failed s results s' where
  log := by
    refine ⟨[], hlog.trans (List.append_nil _).symm, .nil, ?_, fun _ _ he => absurd he List.not_mem_nil⟩
    exact (any_fails_eq_false.mpr fun r hr => by rw [TestResult.fails, h r hr]; rfl).symm
  skipped _ := h
  split := .of_skipped h

theorem Marked.of_skipped (h : ∀ r ∈ results, r.status = .skipped) (hs : s.serial = some failed) :
    Marked failed results s := by
  have hclean : results.any TestResult.fails = false :=
    any_fails_eq_false.mpr fun r hr => by rw [TestResult.fails, h r hr]; rfl
  rw [Marked, hclean, Bool.or_false, hs]

/-- The note changes the flag only. -/
theorem noteChild_stretch {out : SuiteResult × State W}
    (h : Stretch Cause failed s (collectResults out.1) out.2) :
    Stretch Cause failed s (collectResults (noteChild out).1) (noteChild out).2 := by
  unfold noteChild
  dsimp only
  split
  · exact ⟨h.log, h.skipped, h.split⟩
  · exact h

/-- A child that failed without telling the group is noted. -/
theorem noteChild_marked {out : SuiteResult × State W} {flag : Bool}
    (hserial : out.2.serial = some flag)
    (hflag : flag = true → (collectResults out.1).any TestResult.fails = true) :
    Marked false (collectResults (noteChild out).1) (noteChild out).2 := by
  unfold noteChild Marked
  dsimp only
  split
  case isTrue hany =>
    show out.2.serial.map (fun _ => true) = some (false || (collectResults out.1).any TestResult.fails)
    rw [hserial, show (collectResults out.1).any TestResult.fails = true from hany]
    rfl
  case isFalse hany =>
    have hclean : (collectResults out.1).any TestResult.fails = false := Bool.eq_false_iff.mpr hany
    rw [hclean, hserial]
    cases flag with
    | false => rfl
    | true => rw [hflag rfl] at hclean; cases hclean

/-- The events of the afterAll hooks: none but that they run. -/
theorem runAfterAll_log (env : Env W H F) (path : List ℕ) (hooks : List H) (s : State W) :
    (runAfterAll env path hooks s).log = s.log ++ [.afterAll path] ∧
      (runAfterAll env path hooks s).serial = s.serial := by
  have hfold : ∀ (hooks : List H) (s : State W),
      (hooks.foldl (fun s hook => (s.call (env.hook .afterAll hook)).2) s).log = s.log ∧
        (hooks.foldl (fun s hook => (s.call (env.hook .afterAll hook)).2) s).serial = s.serial := by
    intro hooks
    induction hooks with
    | nil => exact fun s => ⟨rfl, rfl⟩
    | cons hook rest ih => exact fun s => ih (s.call (env.hook .afterAll hook)).2
  exact hfold hooks (s.emit (.afterAll path))

theorem finishScope_stretch (env : Env W H F) (opts : RunOptions) (ctx : SuiteContext H F)
    (inherited : Inherited H) (Cause : List TestResult → Prop) (failed : Bool) (s : State W) :
    Stretch Cause failed s [] (finishScope env opts ctx inherited s) ∧
      (finishScope env opts ctx inherited s).serial = s.serial := by
  unfold finishScope
  split
  case isFalse => exact ⟨.nil rfl, rfl⟩
  case isTrue =>
    obtain ⟨hlog, hserial⟩ := runAfterAll_log env inherited.path ctx.label.afterAll s
    refine ⟨.of_events hlog (fun e he => ?_) fun _ e he => ?_, hserial⟩
    · rw [List.mem_singleton.mp he]
      rfl
    · rw [List.mem_singleton.mp he]
      rfl

mutual

theorem runSuiteContext_stretch (env : Env W H F) (opts : RunOptions) :
    ∀ (ctx : SuiteContext H F) (inherited : Inherited H) (s₀ : State W),
      (enterGroup ctx.label s₀).serial = some false →
      Stretch (Broken env opts ctx inherited s₀) false s₀
          (collectResults (runSuiteContext env opts ctx inherited s₀).1)
          (runSuiteContext env opts ctx inherited s₀).2 ∧
        (s₀.serial = some false → ∃ flag,
          (runSuiteContext env opts ctx inherited s₀).2.serial = some flag ∧
            (flag = true → (collectResults (runSuiteContext env opts ctx inherited s₀).1).any
              TestResult.fails = true))
  | .mk scope tests suites, inherited, s₀ => by
    intro henter
    have hlog : (enterGroup scope s₀).log = s₀.log := by
      unfold enterGroup
      split <;> rfl
    have hleave : ∀ (outer : Option Bool) (s : State W), (leaveGroup outer s).log = s.log := by
      intro outer s
      unfold leaveGroup
      split <;> rfl
    have hleaveSome : ∀ s : State W, s₀.serial = some false →
        (leaveGroup s₀.serial s).serial = s.serial := by
      intro s hs
      rw [hs]
      rfl
    cases hentered : entered env opts (.mk scope tests suites) inherited s₀ with
    | error s =>
      have hsetup : Unreported (enterGroup scope s₀) s := entered_error hentered
      have hresults : collectResults (failScope opts inherited (.mk scope tests suites) s).1 =
          collectResults (failAll opts inherited.fullPrefix (.mk scope tests suites)) :=
        List.append_nil _
      rw [runSuiteContext_of_failed hentered, hresults]
      refine ⟨?_, fun hs => ⟨false, ?_, nofun⟩⟩
      · have hreport : Stretch (Broken env opts (.mk scope tests suites) inherited s₀) false s
            (collectResults (failAll opts inherited.fullPrefix (.mk scope tests suites)))
            (s.report (collectResults (failAll opts inherited.fullPrefix (.mk scope tests suites)))) := by
          refine .of_report s (forall_markAll (p := fun r => r.willRetry = false) (fun _ _ => rfl) _ _)
            nofun ?_
          rw [← List.append_nil (collectResults _), ← List.nil_append (collectResults _)]
          exact .failed nofun
            (forall_markAll (p := fun r => r.fails = true) (fun _ _ => rfl) _ _)
            (.inr ⟨_, _, _, s, .here, hentered, rfl⟩) nofun
        have hbegin : Stretch (Broken env opts (.mk scope tests suites) inherited s₀) false s₀ [] s :=
          (Stretch.nil hlog).after (.of_unreported hsetup)
        exact (hbegin.append hreport).after (.nil (hleave _ _))
      · rw [hleaveSome _ hs]
        exact hsetup.serial.trans henter
    | ok entry =>
      obtain ⟨run, s⟩ := entry
      obtain ⟨-, -, -, hsetup⟩ := entered_ok hentered
      have hs : s.serial = some false := hsetup.serial.trans henter
      obtain ⟨htests, htestsMarked⟩ := runTests_stretch env opts
        (Broken env opts (.mk scope tests suites) inherited s₀) run tests s hs
      obtain ⟨hsuites, hsuitesMarked⟩ := runSuites_stretch env opts run (excluded tests suites)
        (Broken env opts (.mk scope tests suites) inherited s₀)
        suites 0 _ _ htestsMarked (fun before child rest heq hruns failure hbroken => by
          obtain ⟨ctx', inherited', s', t, hwithin, hfailed, hfailure⟩ := hbroken
          rw [Nat.zero_add] at hwithin
          exact ⟨ctx', inherited', s', t, .nested hentered heq hruns hwithin, hfailed, hfailure⟩)
      have hboth := htests.append hsuites
      have hmarked := Marked.append hsuitesMarked
      rw [runSuiteContext_of_entered hentered]
      have hfinish := fun failed => finishScope_stretch env opts (.mk scope tests suites) inherited
        (Broken env opts (.mk scope tests suites) inherited s₀) failed
        (runSuites env opts run (excluded tests suites) suites 0 (runTests env opts run tests s).2).2
      refine ⟨?_, fun hs₀ => ⟨((runTests env opts run tests s).1 ++ Group.leavesAll
        (runSuites env opts run (excluded tests suites) suites 0
          (runTests env opts run tests s).2).1).any TestResult.fails, ?_, ?_⟩⟩
      · have hbegin : Stretch (Broken env opts (.mk scope tests suites) inherited s₀) false s₀ [] s :=
          (Stretch.nil hlog).after (.of_unreported hsetup)
        exact (hbegin.append (hboth.after (hfinish _).1)).after (.nil (hleave _ _))
      · exact (hleaveSome _ hs₀).trans ((hfinish false).2.trans hmarked)
      · exact id

theorem runSuites_stretch (env : Env W H F) (opts : RunOptions) (run : ScopeRun H)
    (excluded : SuiteContext H F → Bool) (Cause : List TestResult → Prop) :
    ∀ (suites : List (SuiteContext H F)) (i : ℕ) (s : State W) (failed : Bool),
      s.serial = some failed →
      (∀ before child rest, suites = before ++ child :: rest →
        runsChild run excluded child (runSuites env opts run excluded before i s).2 = true →
        ∀ failure, Broken env opts child (run.inherited (i + before.length) child.label.name)
          (runSuites env opts run excluded before i s).2 failure → Cause failure) →
      Stretch Cause failed s (Group.leavesAll (runSuites env opts run excluded suites i s).1)
          (runSuites env opts run excluded suites i s).2 ∧
        Marked failed (Group.leavesAll (runSuites env opts run excluded suites i s).1)
          (runSuites env opts run excluded suites i s).2
  | [], _, s, failed, hs, _ => by
    refine ⟨.nil rfl, hs.trans ?_⟩
    show some failed = some (failed || false)
    rw [Bool.or_false]
  | child :: rest, i, s, failed, hs, hcause => by
    let childPrefix := joinName run.fullPrefix child.label.name
    let skipped := skipAll opts childPrefix child
    generalize hout : (if excluded child then (skipped, s)
      else if s.serial = some true || run.scope.skipped || run.skippedByBeforeAll then
        (stampSkipped opts skipped, s.report (collectResults (stampSkipped opts skipped)))
      else
        noteChild (runSuiteContext env opts child (run.inherited i child.label.name) s)) = out
    have hlater : ∀ before, runSuites env opts run excluded (child :: before) i s =
        (out.1 :: (runSuites env opts run excluded before (i + 1) out.2).1,
          (runSuites env opts run excluded before (i + 1) out.2).2) := by
      intro before
      rw [runSuites, ← hout]
    have hchild : Stretch Cause failed s (collectResults out.1) out.2 ∧
        Marked failed (collectResults out.1) out.2 := by
      rw [← hout]
      split
      case isTrue =>
        have hskipped : ∀ r ∈ collectResults skipped, r.status = .skipped :=
          forall_markAll (p := fun r => r.status = .skipped) (fun _ _ => rfl) childPrefix child
        exact ⟨.of_skipped hskipped rfl, Marked.of_skipped hskipped hs⟩
      case isFalse hincluded =>
        split
        case isTrue =>
          have hstamped := stampSkipped_skipped opts childPrefix child
          have hskipped := fun r hr => (hstamped r hr).2
          exact ⟨.of_report s (fun r hr => (hstamped r hr).1) (fun _ => hskipped)
            (.of_skipped hskipped), Marked.of_skipped hskipped hs⟩
        case isFalse hruns =>
          obtain rfl : failed = false := by
            cases failed with
            | false => rfl
            | true => exact absurd (by simp [hs]) hruns
          have henter : (enterGroup child.label s).serial = some false := by
            rw [enterGroup, hs]
            exact hs
          obtain ⟨hstretch, hflag⟩ := runSuiteContext_stretch env opts child
            (run.inherited i child.label.name) s henter
          obtain ⟨flag, hserial, hflag⟩ := hflag hs
          refine ⟨?_, noteChild_marked hserial hflag⟩
          have hrunsChild : runsChild run excluded child s = true := by
            simp only [Bool.not_eq_true, Bool.or_eq_false_iff] at hincluded hruns
            simp [runsChild, hincluded, hruns]
          exact noteChild_stretch (hstretch.mono (hcause [] child rest rfl hrunsChild))
    obtain ⟨hrest, hrestMarked⟩ := runSuites_stretch env opts run excluded Cause rest
      (i + 1) out.2 _ hchild.2 fun before next others heq hruns failure hbroken => by
        refine hcause (child :: before) next others (by rw [heq]; rfl) ?_ failure ?_
        · rw [hlater]
          exact hruns
        · rw [hlater, List.length_cons, Nat.add_comm before.length 1, ← Nat.add_assoc]
          exact hbroken
    rw [hlater]
    exact ⟨hchild.1.append hrest, Marked.append hrestMarked⟩

end

/-! ### Every serial group -/

variable {before : List (SuiteContext H F)} {done : List (TestEntry F)}

theorem failedSince_iff {events : List Event} (hlog : s'.log = s.log ++ events) :
    FailedSince s s' ↔ events.any Event.fails = true := by
  constructor
  · rintro ⟨events', hlog', hfails⟩
    rwa [List.append_cancel_left (hlog.symm.trans hlog')]
  · exact fun hfails => ⟨events, hlog, hfails⟩

/-- The flag tells whether something failed since the group was entered. -/
structure Flagged (s₀ t : State W) : Prop where
  log : ∃ events, t.log = s₀.log ++ events
  serial : t.serial = some true ↔ FailedSince s₀ t
  isSome : t.serial.isSome

theorem Stretch.flagged (h : Stretch Cause false s results s') (hmarked : Marked false results s') :
    Flagged s s' := by
  obtain ⟨events, hlog, -, hany, -⟩ := h.log
  refine ⟨⟨events, hlog⟩, ?_, by rw [hmarked]; rfl⟩
  rw [failedSince_iff hlog, hany, hmarked, Bool.false_or, Option.some_inj]

theorem Flagged.of_clean (hlog : ∃ events, s'.log = s.log ++ events ∧ events.any Event.fails = false)
    (h : Flagged s' s'') : Flagged s s'' := by
  obtain ⟨events, hlog, hclean⟩ := hlog
  obtain ⟨events', hlog'⟩ := h.log
  have hboth : s''.log = s.log ++ (events ++ events') := by
    rw [hlog', hlog, List.append_assoc]
  refine ⟨⟨_, hboth⟩, ?_, h.isSome⟩
  rw [h.serial, failedSince_iff hlog', failedSince_iff hboth, List.any_append, hclean,
    Bool.false_or]

/-- Up to the tests of a block nothing fails. -/
theorem entered_stretch (Cause : List TestResult → Prop)
    (hs : (enterGroup ctx.label s₀).serial = some false)
    (hentered : entered env opts ctx inherited s₀ = .ok (run, s)) :
    Stretch Cause false s₀ [] s ∧ s.serial = some false := by
  obtain ⟨-, -, -, hsetup⟩ := entered_ok hentered
  have hlog : (enterGroup ctx.label s₀).log = s₀.log := by
    unfold enterGroup
    split <;> rfl
  exact ⟨(Stretch.nil hlog).after (.of_unreported hsetup), hsetup.serial.trans hs⟩

theorem runTests_flagged (hs : (enterGroup ctx.label s₀).serial = some false)
    (hentered : entered env opts ctx inherited s₀ = .ok (run, s)) (done : List (TestEntry F)) :
    Flagged s₀ (runTests env opts run done s).2 := by
  obtain ⟨hsetup, hserial⟩ := entered_stretch (fun _ => True) hs hentered
  obtain ⟨htests, hmarked⟩ := runTests_stretch env opts (fun _ => True) run done s hserial
  exact (hsetup.append htests).flagged hmarked

theorem stateAfter_flagged (hs : (enterGroup ctx.label s₀).serial = some false)
    (hentered : entered env opts ctx inherited s₀ = .ok (run, s))
    (before : List (SuiteContext H F)) : Flagged s₀ (stateAfter env opts run ctx before s) := by
  obtain ⟨hsetup, hserial⟩ := entered_stretch (fun _ => True) hs hentered
  obtain ⟨htests, hmarked⟩ := runTests_stretch env opts (fun _ => True) run ctx.own s hserial
  obtain ⟨hsuites, hsuitesMarked⟩ := runSuites_stretch env opts run (excluded ctx.own ctx.groups)
    (fun _ => True) before 0 _ _ hmarked fun _ _ _ _ _ _ _ => trivial
  exact ((hsetup.append htests).append hsuites).flagged (Marked.append hsuitesMarked)

/-- A block of the group that runs is entered before anything failed. -/
theorem Within.clean {ctx' : SuiteContext H F} {inherited' : Inherited H}
    (h : Within env opts ctx inherited s₀ ctx' inherited' s')
    (hs : (enterGroup ctx.label s₀).serial = some false) :
    (enterGroup ctx'.label s').serial = some false ∧
      ∃ events, s'.log = s₀.log ++ events ∧ events.any Event.fails = false := by
  induction h with
  | here => exact ⟨hs, [], (List.append_nil _).symm, rfl⟩
  | @nested ctx child ctx' inherited inherited' s₀ s s' run before rest hentered _ hruns _ ih =>
    have hflagged := stateAfter_flagged hs hentered before
    have hserial : (stateAfter env opts run ctx before s).serial ≠ some true := by
      intro hserial
      rw [runsChild, hserial] at hruns
      simp at hruns
    obtain ⟨flag, hflag⟩ := Option.isSome_iff_exists.mp hflagged.isSome
    obtain rfl : flag = false := by
      cases flag with
      | false => rfl
      | true => exact absurd hflag hserial
    obtain ⟨hchild, events', hlog', hclean'⟩ := ih (by rw [enterGroup, hflag]; exact hflag)
    obtain ⟨events, hlog⟩ := hflagged.log
    have hclean : events.any Event.fails = false := by
      rw [Bool.eq_false_iff]
      exact fun hfails => hserial (hflagged.serial.mpr ⟨events, hlog, hfails⟩)
    refine ⟨hchild, events ++ events', ?_, ?_⟩
    · rw [hlog', hlog, List.append_assoc]
    · rw [List.any_append, hclean, hclean']
      rfl

theorem Turn.flagged {t : State W} (h : Turn env opts ctx inherited s₀ run t)
    (hs : (enterGroup ctx.label s₀).serial = some false) : Flagged s₀ t := by
  cases h with
  | test hwithin hentered htests =>
    obtain ⟨henter, hclean⟩ := hwithin.clean hs
    exact (runTests_flagged henter hentered _).of_clean hclean
  | suite hwithin hentered hsuites =>
    obtain ⟨henter, hclean⟩ := hwithin.clean hs
    exact (stateAfter_flagged henter hentered _).of_clean hclean

/-- **Every serial group stops at its first failure**, whether a test or the setup of a nested
    block failed, and skips nothing for the group before. -/
theorem serial_stopsAtFailure (env : Env W H F) (opts : RunOptions) (ctx : SuiteContext H F)
    (inherited : Inherited H) (s₀ : State W) (hserial : ctx.label.serial = true)
    (hs₀ : s₀.serial ≠ some true) : StopsAtFailure env opts ctx inherited s₀ := by
  have hs : (enterGroup ctx.label s₀).serial = some false := by
    unfold enterGroup
    rw [hserial, Bool.and_true]
    split
    case isTrue => rfl
    case isFalse hsome =>
      cases hflag : s₀.serial with
      | none => rw [hflag] at hsome; exact absurd rfl hsome
      | some flag =>
        cases flag with
        | false => rfl
        | true => exact absurd hflag hs₀
  obtain ⟨hstretch, -⟩ := runSuiteContext_stretch env opts ctx inherited s₀ hs
  obtain ⟨events, hlog, hstops, -, -⟩ := hstretch.log
  refine ⟨⟨events, hlog, hstops⟩, (runSuiteContext_reports env opts ctx inherited s₀).names,
    hstretch.split, fun run t hturn entry => ?_, fun run t hturn excluded child => ?_⟩
  · rw [← (hturn.flagged hs).serial]
    simp [skipsTest, leftOut]
  · rw [← (hturn.flagged hs).serial]
    simp only [runsChild, leftOutSuite, Bool.not_eq_eq_eq_not, Bool.not_false, Bool.or_eq_true,
      decide_eq_true_eq]
    tauto

/-- Two tests and a nested one. -/
def checkout : SuiteContext Bool Bool :=
  .mk { name := "checkout", serial := true }
    [{ name := "pays", fn := false }, { name := "ships", fn := true }]
    [.mk { name := "refund" } [{ name := "returns", fn := true }] []]

/-- Hooks and bodies fail or not as they say. -/
def scriptedEnv : Env Unit Bool Bool where
  hook _ ok w := (if ok then .ok else .error, w)
  reset _ w := (true, w)
  prepare w := (.ok, w)
  body ok w := (if ok then .ok else .error, w)
  unhandled w := (false, w)
  softErrors w := (false, w)

/-- The first test of three fails. -/
theorem serial_stopsAtFailure_checkout :
    StopsAtFailure scriptedEnv {} checkout {} { world := () } ∧
      (collectResults (runFile scriptedEnv {} checkout ()).1).map TestResult.status =
        [.failed, .skipped, .skipped] :=
  ⟨serial_stopsAtFailure scriptedEnv {} checkout {} { world := () } rfl nofun, by decide +kernel⟩

/-- A nested block whose afterAll hook fails, and a block after it. -/
def leakyCheckout : SuiteContext Bool Bool :=
  .mk { name := "checkout", serial := true } []
    [.mk { name := "pays", afterAll := [false] } [{ name := "by card", fn := true }] [],
      .mk { name := "ships" } [{ name := "by post", fn := true }] []]

/-- Nothing notes that the hook failed: the body of the next block runs. -/
theorem afterAll_not_noted : (scriptedEnv.hook .afterAll false ()).1 = .error ∧
    ¬ (runFile scriptedEnv {} leakyCheckout ()).2.log.Pairwise fun e e' =>
      e = .afterAll [0] → e'.runsBody = false := by
  decide +kernel

end Tapsmith.Runner
