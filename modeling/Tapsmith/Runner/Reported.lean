import Tapsmith.Runner.Frame

namespace Tapsmith.Runner

open Lib
open Report (TestStatus)

/-!
# What is reported and what is returned

The reporter hears of results one by one while a file runs; the run returns all of them at its end.

* `finals` — the results that were reported for good;
* `Agrees` — the tests that the filters keep are returned, and the returned results reported;
* `silent` — the tests of describe blocks that a scope skips without a word;
* `reports_agree_iff` — whatever happens in the run, the two agree exactly if there are none.
-/

def finals (log : List Event) : List TestResult := log.filterMap Event.final

/-- What reporters and exit statuses tell results apart by. -/
def TestResult.key (r : TestResult) : String × TestStatus × Option String × Option String :=
  (r.fullName, r.status, r.project, r.filePath)

variable {W H F : Type}

/-- Every test that passes the filters is among the returned results, once; and these are the
    results that were reported. -/
def Agrees (opts : RunOptions) (ctx : SuiteContext H F) (out : SuiteResult × State W) : Prop :=
  ((collectResults out.1).map TestResult.fullName).Perm (selected opts.passesTestFilter "" ctx) ∧
    ((finals out.2.log).map TestResult.key).Perm ((collectResults out.1).map TestResult.key)

mutual

/-- The selected tests of blocks that `describe.skip`, or an `only` elsewhere, excludes from a
    scope that runs. -/
def silent (passes : String → Bool) (parentPrefix : String) : SuiteContext H F → List String
  | .mk scope tests suites =>
    silentAll passes parentPrefix scope.skipped (excluded tests suites) suites

def silentAll (passes : String → Bool) (parentPrefix : String) (skipped : Bool)
    (excluded : SuiteContext H F → Bool) : List (SuiteContext H F) → List String
  | [] => []
  | child :: rest =>
    (if excluded child then selected passes (joinName parentPrefix child.label.name) child
      else if skipped then []
      else silent passes (joinName parentPrefix child.label.name) child) ++
      silentAll passes parentPrefix skipped excluded rest

end

/-! ### Hooks and attempts report nothing for good -/

/-- Nothing was reported for good, and the serial group is what it was. -/
structure Quiet (s s' : State W) : Prop where
  finals : finals s'.log = finals s.log
  serial : s'.serial = s.serial

theorem quiet_frame : Frame (Quiet (W := W)) where
  refl _ := ⟨rfl, rfl⟩
  trans h h' := ⟨h'.finals.trans h.finals, h'.serial.trans h.serial⟩
  call _ _ := ⟨rfl, rfl⟩
  emit s e he := ⟨by simp [State.emit, finals, he], rfl⟩
  retry _ _ _ _ := ⟨rfl, rfl⟩

/-! ### When everything ends well -/

structure Calm (env : Env W H F) : Prop where
  hook : ∀ kind h w, (env.hook kind h w).1 = .ok
  reset : ∀ policy w, (env.reset policy w).1 = true
  prepare : ∀ w, (env.prepare w).1 = .ok
  body : ∀ fn w, (env.body fn w).1 = .ok
  unhandled : ∀ w, (env.unhandled w).1 = false
  softErrors : ∀ w, (env.softErrors w).1 = false

namespace Calm

variable {env : Env W H F}

theorem runHooks (calm : Calm env) (kind : HookKind) (hooks : List H) (s : State W) :
    (runHooks env kind hooks s).1 = .ok := by
  induction hooks generalizing s with
  | nil => rfl
  | cons hook rest ih => exact andThen_ok.mpr ⟨calm.hook kind hook _, ih _⟩

theorem runAppReset (calm : Calm env) (policy : AppResetPolicy) (s : State W) :
    (runAppReset env policy s).1 = .ok := by
  unfold Runner.runAppReset
  dsimp only
  have hreset : (s.call (env.reset policy)).1 = true := calm.reset policy s.world
  rw [if_pos hreset]

theorem settle (calm : Calm env) {r : HookOutcome × State W} (h : r.1 = .ok) :
    (settle env r).1 = .ok := by
  refine andThen_ok.mpr ⟨h, ?_⟩
  show (if (env.unhandled r.2.world).1 then HookOutcome.error else .ok) = .ok
  rw [calm.unhandled]
  rfl

theorem rebuildStep (calm : Calm env) (step : ScopeRetryStep H) (s : State W) :
    (rebuildStep env step s).1 = .ok := by
  refine andThen_ok.mpr ⟨?_, andThen_ok.mpr ⟨calm.runHooks _ _ _, rfl⟩⟩
  cases step.resetPolicy with
  | none => rfl
  | some policy => exact calm.runAppReset policy s

theorem runRetrySetup (calm : Calm env) (chain : List (ScopeRetryStep H)) (s : State W) :
    (runRetrySetup env chain s).1 = .ok := by
  have hsteps : ∀ s, (rebuildSteps env chain s).1 = .ok := by
    induction chain with
    | nil => exact fun _ => rfl
    | cons step rest ih => exact fun s => andThen_ok.mpr ⟨calm.rebuildStep step s, ih _⟩
  unfold Runner.runRetrySetup runRetryRebuild
  dsimp only
  rw [if_pos (hsteps _)]

theorem runScopeSetup (calm : Calm env) (scope : Scope H) (inherited : Inherited H)
    (fresh needsReset : Bool) (s : State W) :
    (runScopeSetup env scope inherited fresh needsReset s).1 = .ok := by
  refine andThen_ok.mpr ⟨?_, andThen_ok.mpr ⟨?_, andThen_ok.mpr ⟨calm.settle (calm.runHooks _ _ _), rfl⟩⟩⟩
  · split
    · exact calm.runRetrySetup _ s
    · rfl
  · split
    · exact calm.runAppReset _ _
    · rfl

theorem attemptBody (calm : Calm env) (run : ScopeRun H) (fn : F) (attempt : ℕ) (s : State W) :
    (attemptBody env run fn attempt s).1 = .ok := by
  refine andThen_ok.mpr ⟨?_, andThen_ok.mpr ⟨?_, andThen_ok.mpr ⟨calm.prepare _,
    andThen_ok.mpr ⟨calm.runHooks _ _ _, calm.body fn _⟩⟩⟩⟩
  · split
    · exact calm.runRetrySetup _ s
    · rfl
  · split
    · exact calm.runAppReset _ _
    · rfl

theorem runAfterEach (calm : Calm env) (hooks : List H) (status : TestStatus) (s : State W) :
    (runAfterEach env hooks status s).1 = status := by
  induction hooks generalizing s with
  | nil => rfl
  | cons hook rest ih =>
    show (Runner.runAfterEach env rest (afterEachStatus status (env.hook .afterEach hook s.world).1)
      _).1 = status
    rw [calm.hook]
    exact ih _

theorem runAttempt (calm : Calm env) (run : ScopeRun H) (fn : F) (attempt : ℕ) (s : State W) :
    (runAttempt env run fn attempt s).1 = .passed := by
  unfold Runner.runAttempt
  dsimp only [State.call]
  rw [calm.unhandled, calm.softErrors, calm.runAfterEach, calm.attemptBody]
  rfl

theorem runAttempts (calm : Calm env) (run : ScopeRun H) (fn : F) (provisional : TestResult)
    (retries attempt : ℕ) (failedBefore : Bool) (s : State W) :
    (runAttempts env run fn provisional retries attempt failedBefore s).1 =
      (.passed, failedBefore) := by
  cases retries with
  | zero =>
    show ((Runner.runAttempt env run fn attempt s).1, failedBefore) = _
    rw [calm.runAttempt]
  | succ retries =>
    unfold Runner.runAttempts
    dsimp only
    rw [calm.runAttempt]
    rfl

end Calm

/-! ### What a part of a run reports -/

/-- From `s` to `s'`: `results`, with these names, are returned, and reported but for as many as
    `silent` has at most; and for exactly as many if all is calm, in which case none fails. -/
structure Reports (calm : Prop) (names silent : List String) (s : State W)
    (results : List TestResult) (s' : State W) : Prop where
  names : results.map TestResult.fullName = names
  reported : ∃ lost, (finals s.log ++ results).Perm (finals s'.log ++ lost) ∧
    lost.length ≤ silent.length ∧ (calm → s.serial ≠ some true → lost.length = silent.length)
  passed : calm → s.serial ≠ some true →
    s'.serial ≠ some true ∧ ∀ r ∈ results, r.status ≠ .failed

namespace Reports

variable {calm : Prop} {names names' lost lost' : List String} {s s' s'' : State W}
  {results results' : List TestResult}

theorem append (h : Reports calm names lost s results s')
    (h' : Reports calm names' lost' s' results' s'') :
    Reports calm (names ++ names') (lost ++ lost') s (results ++ results') s'' where
  names := by rw [List.map_append, h.names, h'.names]
  reported := by
    obtain ⟨l, hperm, hle, heq⟩ := h.reported
    obtain ⟨l', hperm', hle', heq'⟩ := h'.reported
    refine ⟨l ++ l', ?_, ?_, fun hcalm hserial => ?_⟩
    · rw [List.perm_iff_count] at hperm hperm' ⊢
      intro r
      have hr := hperm r
      have hr' := hperm' r
      simp only [List.count_append] at hr hr' ⊢
      omega
    · rw [List.length_append, List.length_append]
      exact Nat.add_le_add hle hle'
    · rw [List.length_append, List.length_append, heq hcalm hserial,
        heq' hcalm (h.passed hcalm hserial).1]
  passed hcalm hserial := by
    obtain ⟨hserial', hpassed⟩ := h.passed hcalm hserial
    obtain ⟨hserial'', hpassed'⟩ := h'.passed hcalm hserial'
    refine ⟨hserial'', fun r hr => ?_⟩
    rcases List.mem_append.mp hr with hr | hr
    · exact hpassed r hr
    · exact hpassed' r hr

/-- All results are reported. -/
theorem of_finals (hnames : results.map TestResult.fullName = names)
    (hfinals : finals s'.log = finals s.log ++ results)
    (hcalm : calm → s.serial ≠ some true →
      lost = [] ∧ s'.serial ≠ some true ∧ ∀ r ∈ results, r.status ≠ .failed) :
    Reports calm names lost s results s' where
  names := hnames
  reported := by
    refine ⟨[], ?_, Nat.zero_le _, fun h hserial => ?_⟩
    · rw [hfinals, List.append_nil]
    · rw [(hcalm h hserial).1]
      rfl
  passed h hserial := (hcalm h hserial).2

/-- None of the results is reported. -/
theorem of_silent (hnames : results.map TestResult.fullName = names)
    (hpassed : ∀ r ∈ results, r.status ≠ .failed) : Reports calm names names s results s where
  names := hnames
  reported := by
    have hlength : results.length = names.length := by rw [← hnames, List.length_map]
    exact ⟨results, List.Perm.refl _, Nat.le_of_eq hlength, fun _ _ => hlength⟩
  passed _ hserial := ⟨hserial, hpassed⟩

/-- Where nothing is reported before. -/
theorem before (h : Reports calm [] [] s [] s') (h' : Reports calm names lost s' results s'') :
    Reports calm names lost s results s'' := h.append h'

/-- Where nothing is reported after. -/
theorem after (h : Reports calm names lost s results s') (h' : Reports calm [] [] s' [] s'') :
    Reports calm names lost s results s'' := by
  simpa using h.append h'

/-- A bound on what is silent may grow where not all is calm. -/
theorem of_calm (h : Reports calm names [] s results s')
    (hlost : calm → s.serial ≠ some true → lost = []) : Reports calm names lost s results s' where
  names := h.names
  reported := by
    obtain ⟨l, hperm, hle, heq⟩ := h.reported
    obtain rfl := List.eq_nil_of_length_eq_zero (Nat.le_zero.mp hle)
    refine ⟨[], hperm, Nat.zero_le _, fun hcalm hserial => ?_⟩
    rw [hlost hcalm hserial]
    rfl
  passed := h.passed

theorem weaken {calm' : Prop} (h : Reports calm names lost s results s') (hcalm : calm' → calm) :
    Reports calm' names lost s results s' where
  names := h.names
  reported := by
    obtain ⟨l, hperm, hle, heq⟩ := h.reported
    exact ⟨l, hperm, hle, fun h => heq (hcalm h)⟩
  passed h' := h.passed (hcalm h')

theorem of_quiet (h : Quiet s s') : Reports calm [] [] s [] s' :=
  of_finals rfl (by rw [h.finals, List.append_nil]) fun _ hserial =>
    ⟨rfl, h.serial ▸ hserial, nofun⟩

end Reports

/-! ### Tests -/

variable {env : Env W H F} {opts : RunOptions}

theorem finals_append_report (log : List Event) {results : List TestResult}
    (h : ∀ r ∈ results, r.willRetry = false) :
    finals (log ++ results.map Event.report) = finals log ++ results := by
  have hfinals : (results.map Event.report).filterMap Event.final = results := by
    rw [List.filterMap_map]
    refine (List.filterMap_congr fun r hr => ?_).trans List.filterMap_some
    exact if_neg (by rw [h r hr]; exact nofun)
  rw [finals, List.filterMap_append, hfinals]
  rfl

theorem runTest_reports (env : Env W H F) (opts : RunOptions) (run : ScopeRun H) (entry : TestEntry F) (s : State W) :
    Reports (Calm env) [joinName run.fullPrefix entry.name] [] s [(runTest env opts run entry s).1]
      (runTest env opts run entry s).2 := by
  let provisional := { testResult opts run entry .failed with willRetry := true }
  have hquiet : Quiet s (runAttempts env run entry.fn provisional run.scope.retries 0 false s).2 :=
    quiet_frame.runAttempts env run entry.fn rfl _ _ _ s
  have hfinals : ∀ status, finals ((runAttempts env run entry.fn provisional run.scope.retries 0
      false s).2.report [testResult opts run entry status]).log =
        finals s.log ++ [testResult opts run entry status] := by
    intro status
    rw [← hquiet.finals]
    exact finals_append_report _ fun r hr => by rw [List.mem_singleton.mp hr]; rfl
  refine .of_finals rfl ?_ fun calm hserial => ⟨rfl, ?_⟩
  · unfold runTest
    dsimp only
    split
    · exact hfinals _
    · exact hfinals _
  · have hattempts : (runAttempts env run entry.fn provisional run.scope.retries 0 false s).1 =
        (.passed, false) := calm.runAttempts run entry.fn provisional _ _ _ s
    have hpassed : (runTest env opts run entry s).1.status = .passed := by
      show finalStatus (runAttempts env run entry.fn provisional run.scope.retries 0 false s).1.1 _ =
        .passed
      rw [hattempts]
      rfl
    refine ⟨?_, fun r hr => ?_⟩
    · unfold runTest
      dsimp only
      rw [hattempts]
      exact fun h => hserial (hquiet.serial.symm.trans h)
    · rw [List.mem_singleton.mp hr, hpassed]
      exact nofun

theorem runTests_reports (env : Env W H F) (opts : RunOptions) (run : ScopeRun H) (tests : List (TestEntry F)) (s : State W) :
    Reports (Calm env)
      ((tests.map fun entry => joinName run.fullPrefix entry.name).filter opts.passesTestFilter) [] s
      (runTests env opts run tests s).1 (runTests env opts run tests s).2 := by
  induction tests generalizing s with
  | nil => exact .of_quiet (quiet_frame.refl s)
  | cons entry rest ih =>
    rw [List.map_cons, List.filter_cons]
    unfold runTests
    split
    case isTrue =>
      have hfirst : ∀ r : TestResult × State W,
          Reports (Calm env) [joinName run.fullPrefix entry.name] [] s [r.1] r.2 →
          Reports (Calm env) (joinName run.fullPrefix entry.name ::
            (rest.map fun entry => joinName run.fullPrefix entry.name).filter opts.passesTestFilter)
            [] s (r.1 :: (runTests env opts run rest r.2).1) (runTests env opts run rest r.2).2 :=
        fun r h => h.append (ih r.2)
      refine hfirst _ ?_
      split
      · refine .of_finals rfl ?_ fun _ hserial => ⟨rfl, hserial, fun r hr => ?_⟩
        · exact finals_append_report s.log fun r hr => by rw [List.mem_singleton.mp hr]; rfl
        · rw [List.mem_singleton.mp hr]
          exact nofun
      · exact runTest_reports env opts run entry s
    case isFalse => exact ih s

/-! ### Scopes -/

mutual

theorem forall_markAll {passes : String → Bool} {mark : String → String → TestResult}
    {p : TestResult → Prop} (hmark : ∀ name fullName, p (mark name fullName)) :
    ∀ (parentPrefix : String) (ctx : SuiteContext H F),
      ∀ r ∈ (markAll passes mark parentPrefix ctx).leaves, p r
  | parentPrefix, .mk _ tests suites, r, hr => by
    rcases List.mem_append.mp hr with hr | hr
    · obtain ⟨entry, -, rfl⟩ := List.mem_map.mp hr
      exact hmark _ _
    · exact forall_markSuites hmark parentPrefix suites r hr

theorem forall_markSuites {passes : String → Bool} {mark : String → String → TestResult}
    {p : TestResult → Prop} (hmark : ∀ name fullName, p (mark name fullName)) :
    ∀ (parentPrefix : String) (suites : List (SuiteContext H F)),
      ∀ r ∈ Group.leavesAll (markSuites passes mark parentPrefix suites), p r
  | _, [], r, hr => absurd hr List.not_mem_nil
  | parentPrefix, child :: rest, r, hr => by
    rcases List.mem_append.mp hr with hr | hr
    · exact forall_markAll hmark _ child r hr
    · exact forall_markSuites hmark parentPrefix rest r hr

end

theorem Reports.of_report {calm : Prop} {names lost : List String} {results : List TestResult}
    (s : State W) (hnames : results.map TestResult.fullName = names)
    (hretry : ∀ r ∈ results, r.willRetry = false)
    (hcalm : calm → lost = [] ∧ ∀ r ∈ results, r.status ≠ .failed) :
    Reports calm names lost s results (s.report results) :=
  .of_finals hnames (finals_append_report s.log hretry) fun h hserial =>
    ⟨(hcalm h).1, hserial, (hcalm h).2⟩

theorem enterGroup_reports {calm : Prop} (scope : Scope H) (s : State W) :
    Reports calm [] [] s [] (enterGroup scope s) := by
  unfold enterGroup
  split
  · exact .of_finals rfl (List.append_nil _).symm fun _ _ => ⟨rfl, nofun, nofun⟩
  · exact .of_quiet (quiet_frame.refl s)

theorem leaveGroup_reports {calm : Prop} (outer : Option Bool) (s : State W) :
    Reports calm [] [] s [] (leaveGroup outer s) := by
  unfold leaveGroup
  split
  · exact .of_finals rfl (List.append_nil _).symm fun _ _ => ⟨rfl, nofun, nofun⟩
  · exact .of_quiet (quiet_frame.refl s)

/-- A child that failed changes nothing but the group. -/
theorem noteChild_reports {calm : Prop} {names lost : List String} {s : State W}
    {out : SuiteResult × State W} (h : Reports calm names lost s (collectResults out.1) out.2) :
    Reports calm names lost s (collectResults (noteChild out).1) (noteChild out).2 := by
  unfold noteChild
  dsimp only
  split
  case isFalse => exact h
  case isTrue hfailed =>
    obtain ⟨r, hr, hstatus⟩ := List.any_eq_true.mp hfailed
    refine ⟨h.names, h.reported, fun hcalm hserial => ?_⟩
    exact absurd (of_decide_eq_true hstatus) ((h.passed hcalm hserial).2 r hr)

theorem skipAll_not_failed (parentPrefix : String) (ctx : SuiteContext H F) :
    ∀ r ∈ collectResults (skipAll opts parentPrefix ctx), r.status ≠ .failed :=
  forall_markAll (p := fun r => r.status ≠ .failed)
    (fun _ _ => show TestStatus.skipped ≠ .failed from nofun) parentPrefix ctx

theorem skipAll_reports {calm : Prop} (parentPrefix : String) (ctx : SuiteContext H F)
    (s : State W) : Reports calm (selected opts.passesTestFilter parentPrefix ctx)
      (selected opts.passesTestFilter parentPrefix ctx) s
      (collectResults (skipAll opts parentPrefix ctx)) s :=
  .of_silent (fullNames_markAll (fun _ _ => rfl) parentPrefix ctx)
    (skipAll_not_failed parentPrefix ctx)

/-- A block that is skipped with its group is reported. -/
theorem stampSkipped_reports {calm : Prop} (parentPrefix : String) (ctx : SuiteContext H F)
    (s : State W) : Reports calm (selected opts.passesTestFilter parentPrefix ctx) [] s
      (collectResults (stampSkipped opts (skipAll opts parentPrefix ctx)))
      (s.report (collectResults (stampSkipped opts (skipAll opts parentPrefix ctx)))) := by
  have hleaves : collectResults (stampSkipped opts (skipAll opts parentPrefix ctx)) =
      (collectResults (skipAll opts parentPrefix ctx)).map fun t =>
        { t with project := opts.projectName, filePath := opts.testFilePath } :=
    Group.leaves_map _ _
  rw [hleaves]
  refine .of_report s ?_ (fun r hr => ?_) fun _ => ⟨rfl, fun r hr => ?_⟩
  · rw [List.map_map]
    exact fullNames_markAll (fun _ _ => rfl) parentPrefix ctx
  · obtain ⟨t, ht, rfl⟩ := List.mem_map.mp hr
    exact forall_markAll (p := fun r => r.willRetry = false) (fun _ _ => rfl) parentPrefix ctx t ht
  · obtain ⟨t, ht, rfl⟩ := List.mem_map.mp hr
    exact skipAll_not_failed parentPrefix ctx t ht

theorem failScope_reports {calm : Prop} {lost : List String} (hcalm : ¬ calm)
    (inherited : Inherited H) (ctx : SuiteContext H F) (s : State W) :
    Reports calm (selected opts.passesTestFilter inherited.fullPrefix ctx) lost s
      (collectResults (failScope opts inherited ctx s).1) (failScope opts inherited ctx s).2 := by
  have hleaves : collectResults (failScope opts inherited ctx s).1 =
      collectResults (failAll opts inherited.fullPrefix ctx) := List.append_nil _
  rw [hleaves]
  refine .of_finals (fullNames_markAll (fun _ _ => rfl) _ ctx) ?_ fun h => absurd h hcalm
  exact finals_append_report s.log
    (forall_markAll (p := fun r => r.willRetry = false) (fun _ _ => rfl) _ ctx)

mutual

theorem runSuiteContext_reports (env : Env W H F) (opts : RunOptions) :
    ∀ (ctx : SuiteContext H F) (inherited : Inherited H) (s : State W),
      Reports (Calm env) (selected opts.passesTestFilter inherited.fullPrefix ctx)
      (silent opts.passesTestFilter inherited.fullPrefix ctx) s
      (collectResults (runSuiteContext env opts ctx inherited s).1)
      (runSuiteContext env opts ctx inherited s).2
  | .mk scope tests suites, inherited, s₀ => by
    have henter : Reports (Calm env) [] [] s₀ [] (enterGroup scope s₀) := enterGroup_reports scope s₀
    unfold runSuiteContext
    dsimp only
    generalize (firstRunnableTest opts.passesTestFilter inherited.fullPrefix
      (.mk scope tests suites)).isSome = runnable
    generalize freshStartAtEntry scope inherited runnable s₀.serial (enterGroup scope s₀) = fresh
    generalize needsScopeReset scope inherited runnable fresh (enterGroup scope s₀) = needsReset
    generalize hsetup : (if runnable then runScopeSetup env scope inherited fresh needsReset
      (enterGroup scope s₀) else (.ok, enterGroup scope s₀)) = setup
    have hquiet : Quiet (enterGroup scope s₀) setup.2 := by
      rw [← hsetup]
      split
      · exact quiet_frame.runScopeSetup env scope inherited fresh needsReset _
      · exact quiet_frame.refl _
    have hcalm : Calm env → setup.1 = .ok := by
      intro calm
      rw [← hsetup]
      split
      · exact calm.runScopeSetup scope inherited fresh needsReset _
      · rfl
    split
    case isTrue =>
      generalize hrun : scopeRun scope inherited (hasOnly tests suites) (setup.1 = .skip)
        (retryStep scope inherited runnable fresh needsReset) (enterGroup scope s₀).serial = run
      have hfull : run.fullPrefix = inherited.fullPrefix := by rw [← hrun]; rfl
      have hskipped : run.scope.skipped = scope.skipped := by rw [← hrun]; rfl
      have htests := runTests_reports env opts run tests setup.2
      have hnested := runSuites_reports env opts run (excluded tests suites) suites 0
        (runTests env opts run tests setup.2).2
      rw [hfull] at htests hnested
      rw [hskipped] at hnested
      have hafter : ∀ s : State W, Quiet s
          (if runnable then runAfterAll env inherited.path scope.afterAll s else s) := by
        intro s
        split
        · exact quiet_frame.runAfterAll env _ _ s
        · exact quiet_frame.refl s
      have hboth := htests.append (hnested.weaken fun calm => ⟨calm, by
        rw [← hrun]
        show decide (setup.1 = .skip) = false
        rw [hcalm calm]
        rfl⟩)
      exact henter.before ((Reports.of_quiet hquiet).before
        ((hboth.after (.of_quiet (hafter _))).after (leaveGroup_reports _ _)))
    case isFalse hfailed =>
      have hno : ¬ Calm env := fun calm => hfailed (.inl (hcalm calm))
      exact henter.before ((Reports.of_quiet hquiet).before
        ((failScope_reports hno inherited (.mk scope tests suites) setup.2).after
          (leaveGroup_reports _ _)))

theorem runSuites_reports (env : Env W H F) (opts : RunOptions) (run : ScopeRun H) (excluded : SuiteContext H F → Bool) :
    ∀ (suites : List (SuiteContext H F)) (i : ℕ) (s : State W),
      Reports (Calm env ∧ run.skippedByBeforeAll = false)
        (selectedAll opts.passesTestFilter run.fullPrefix suites)
        (silentAll opts.passesTestFilter run.fullPrefix run.scope.skipped excluded suites) s
        (Group.leavesAll (runSuites env opts run excluded suites i s).1)
        (runSuites env opts run excluded suites i s).2
  | [], _, s => .of_quiet (quiet_frame.refl s)
  | child :: rest, i, s => by
    unfold runSuites
    dsimp only
    refine Reports.append ?_ (runSuites_reports env opts run excluded rest (i + 1) _)
    split
    case isTrue => exact skipAll_reports _ child s
    split
    case isTrue hskipped =>
      rw [if_pos (by simp [hskipped])]
      exact stampSkipped_reports _ child s
    case isFalse hskipped =>
      split
      case isTrue hskips =>
        refine (stampSkipped_reports _ child s).of_calm fun calm hserial => ?_
        exact absurd hskips (by simp [calm.2, hserial, hskipped])
      case isFalse =>
        have hchild := runSuiteContext_reports env opts child (run.inherited i child.label.name) s
        exact noteChild_reports (hchild.weaken And.left)

end

/-! ### Files -/

/-- The environment in which nothing fails. -/
def calmEnv (H F : Type) : Env Unit H F where
  hook _ _ w := (.ok, w)
  reset _ w := (true, w)
  prepare w := (.ok, w)
  body _ w := (.ok, w)
  unhandled w := (false, w)
  softErrors w := (false, w)

theorem calm_calmEnv : Calm (calmEnv H F) where
  hook _ _ _ := rfl
  reset _ _ := rfl
  prepare _ := rfl
  body _ _ := rfl
  unhandled _ := rfl
  softErrors _ := rfl

/-- **What is reported is what is returned**, whatever happens in the run, exactly if every
    selected test of a block that is excluded is in a block that its scope reports. -/
theorem reports_agree_iff (opts : RunOptions) (ctx : SuiteContext H F) :
    (∀ (W : Type) (env : Env W H F) (world : W), Agrees opts ctx (runFile env opts ctx world)) ↔
      silent opts.passesTestFilter "" ctx = [] := by
  constructor
  · intro h
    obtain ⟨-, hkeys⟩ := h Unit (calmEnv H F) ()
    obtain ⟨lost, hperm, -, hlost⟩ := (runSuiteContext_reports (calmEnv H F) opts ctx {}
      { world := () }).reported
    have hreported : (finals (runFile (calmEnv H F) opts ctx ()).2.log).length =
        (collectResults (runFile (calmEnv H F) opts ctx ()).1).length := by
      simpa using hkeys.length_eq
    have hlength : (collectResults (runFile (calmEnv H F) opts ctx ()).1).length =
        (finals (runFile (calmEnv H F) opts ctx ()).2.log).length + lost.length := by
      have hlength := hperm.length_eq
      rw [List.length_append, List.length_append] at hlength
      exact (Nat.zero_add _).symm.trans hlength
    have hsilent : lost.length = (silent opts.passesTestFilter "" ctx).length :=
      hlost calm_calmEnv nofun
    refine List.eq_nil_of_length_eq_zero ?_
    omega
  · intro hsilent W env world
    have hreports := runSuiteContext_reports env opts ctx {} { world := world }
    obtain ⟨lost, hperm, hle, -⟩ := hreports.reported
    change lost.length ≤ (silent opts.passesTestFilter "" ctx).length at hle
    rw [hsilent] at hle
    obtain rfl := List.eq_nil_of_length_eq_zero (Nat.le_zero.mp hle)
    rw [List.append_nil] at hperm
    exact ⟨.of_eq hreports.names, (hperm.map _).symm⟩

/-- A file with one test, in a describe block that `describe.skip` excludes. -/
def skippedDescribe : SuiteContext Unit Unit :=
  .mk { name := "" } []
    [.mk { name := "cart", skip := true } [{ name := "opens", fn := () }] []]

/-- Its test is returned as skipped, and never reported. -/
theorem reports_disagree :
    ¬ Agrees {} skippedDescribe (runFile (calmEnv Unit Unit) {} skippedDescribe ()) := by
  intro ⟨_, hkeys⟩
  have hlength := hkeys.length_eq
  revert hlength
  decide +kernel

end Tapsmith.Runner
