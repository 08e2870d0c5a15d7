import Tapsmith.Runner.Rounds

namespace Tapsmith.Runner

open Lib
open Report (TestStatus)

/-!
# Paired hooks

The rounds of hooks in the run of a file, as long as no rebuild breaks part-way.

* `Ready` — a state between two calls: the log is legal, and every scope can be torn down;
* `runRetrySetup_ready` — a fresh start leaves the scopes of its chain where they were;
* `Keeps` — what attempts and tests do: the scopes around them stay set up;
* `Through`, `runSuiteContext_through` — what a describe block does to the scopes in it;
* `hooks_paired` — a run in which no rebuild breaks is paired.
-/

variable {W H F : Type}

/-- The log only grows. -/
theorem grows_frame : Frame fun s s' : State W => s.log <+: s'.log where
  refl _ := List.prefix_rfl
  trans h h' := h.trans h'
  call _ _ := List.prefix_rfl
  emit s e _ := List.prefix_append s.log [e]
  retry _ _ _ _ := List.prefix_rfl

def Alive (s : State W) : Prop := .rebuildBroken ∉ s.log

theorem Alive.of_grows {s s' : State W} (h : Alive s') (hgrows : s.log <+: s'.log) : Alive s :=
  fun hbroken => h (hgrows.subset hbroken)

/-- The log so far is legal, and no fresh start is half done. -/
structure Ready (s : State W) : Prop where
  legal : Legal s.log
  whole : s.setupBroken = false

/-! ### What logs nothing -/

/-- No event happens, and the retry state says the same of the setup. -/
structure Still (s s' : State W) : Prop where
  log : s'.log = s.log
  setupBroken : s'.setupBroken = s.setupBroken

namespace Still

variable {s s' s'' : State W}

theorem refl (s : State W) : Still s s := ⟨rfl, rfl⟩

theorem call {α : Type} (s : State W) (f : W → α × W) : Still s (s.call f).2 := ⟨rfl, rfl⟩

theorem trans (h : Still s s') (h' : Still s' s'') : Still s s'' :=
  ⟨h'.log.trans h.log, h'.setupBroken.trans h.setupBroken⟩

theorem andThen {r : HookOutcome × State W} {next : State W → HookOutcome × State W}
    (h : Still s r.2) (hnext : ∀ s', Still s' (next s').2) : Still s (andThen r next).2 := by
  unfold Runner.andThen
  split
  · exact h.trans (hnext r.2)
  · exact h

theorem ready (h : Still s s') (hready : Ready s) : Ready s' :=
  ⟨by rw [h.log]; exact hready.legal, h.setupBroken.trans hready.whole⟩

theorem stages (h : Still s s') : stages s'.log = stages s.log := by rw [h.log]

variable (env : Env W H F)

theorem runHooks (kind : HookKind) (hooks : List H) (s : State W) :
    Still s (runHooks env kind hooks s).2 := by
  induction hooks generalizing s with
  | nil => exact .refl s
  | cons hook rest ih => exact andThen (.call s _) ih

theorem runAppReset (policy : AppResetPolicy) (s : State W) :
    Still s (runAppReset env policy s).2 := by
  unfold Runner.runAppReset
  dsimp only
  split
  · exact ⟨rfl, rfl⟩
  · exact ⟨rfl, rfl⟩

theorem settle {r : HookOutcome × State W} (h : Still s r.2) : Still s (settle env r).2 :=
  h.andThen fun s' => .call s' _

theorem runAfterEach (hooks : List H) (status : TestStatus) (s : State W) :
    Still s (runAfterEach env hooks status s).2 := by
  induction hooks generalizing status s with
  | nil => exact .refl s
  | cons hook rest ih => exact (Still.call s _).trans (ih _ _)

theorem enterGroup (scope : Scope H) (s : State W) : Still s (enterGroup scope s) := by
  unfold Runner.enterGroup
  split
  · exact ⟨rfl, rfl⟩
  · exact .refl s

theorem leaveGroup (outer : Option Bool) (s : State W) : Still s (leaveGroup outer s) := by
  unfold Runner.leaveGroup
  split
  · exact ⟨rfl, rfl⟩
  · exact .refl s

theorem noteChild (out : SuiteResult × State W) : Still out.2 (noteChild out).2 := by
  unfold Runner.noteChild
  dsimp only
  split
  · exact ⟨rfl, rfl⟩
  · exact .refl out.2

end Still

/-! ### Events -/

section Events

variable {s : State W} {path : List ℕ}

theorem stages_emit (s : State W) (e : Event) :
    stages (s.emit e).log = track (stages s.log) e := stages_append s.log [e]

theorem Ready.emit {e : Event} (h : Ready s) (he : Allowed (stages s.log) e) :
    Ready (s.emit e) :=
  ⟨h.legal.snoc he, h.whole⟩

/-- Results change no stage. -/
theorem Legal.report {log : List Event} (h : Legal log) (results : List TestResult) :
    Legal (log ++ results.map Event.report) ∧
      stages (log ++ results.map Event.report) = stages log := by
  induction results generalizing log with
  | nil =>
    rw [List.map_nil, List.append_nil]
    exact ⟨h, rfl⟩
  | cons result rest ih =>
    obtain ⟨hlegal, hstages⟩ := ih (h.snoc (e := .report result) trivial)
    rw [List.map_cons, List.append_cons]
    exact ⟨hlegal, hstages.trans (stages_append log _)⟩

theorem Ready.report (h : Ready s) (results : List TestResult) :
    Ready (s.report results) ∧ stages (s.report results).log = stages s.log :=
  ⟨⟨(h.legal.report results).1, h.whole⟩, (h.legal.report results).2⟩

variable (env : Env W H F)

theorem runAfterAll_still (path : List ℕ) (hooks : List H) (s : State W) :
    Still (s.emit (.afterAll path)) (runAfterAll env path hooks s) := by
  unfold runAfterAll
  generalize s.emit (.afterAll path) = s'
  induction hooks generalizing s' with
  | nil => exact .refl s'
  | cons hook rest ih => exact (Still.call s' _).trans (ih _)

theorem stages_runAfterAll (path : List ℕ) (hooks : List H) (s : State W) :
    stages (runAfterAll env path hooks s).log = Function.update (stages s.log) path .down :=
  (runAfterAll_still env path hooks s).stages.trans (stages_emit s _)

end Events

/-! ### Fresh starts -/

/-- The scopes of the list take a stage, and all others keep theirs. -/
def Stages.set (m : Stages) (paths : List (List ℕ)) (stage : Stage) : Stages := fun q =>
  if q ∈ paths then stage else m q

theorem Stages.set_cons (m : Stages) (path : List ℕ) (paths : List (List ℕ)) (stage : Stage) :
    Stages.set (Function.update m path stage) paths stage = m.set (path :: paths) stage := by
  funext q
  unfold Stages.set
  by_cases hq : q = path
  · rw [hq, Function.update_self, if_pos List.mem_cons_self, ite_self]
  · rw [Function.update_of_ne hq]
    simp only [List.mem_cons, hq, false_or]

variable (env : Env W H F)

/-- The rounds of afterAll hooks of scopes that are set up. -/
theorem foldl_runAfterAll_legal (steps : List (ScopeRetryStep H)) :
    ∀ s : State W, Legal s.log → (∀ step ∈ steps, stages s.log step.path = .done) →
      (steps.map ScopeRetryStep.path).Nodup →
      Legal (steps.foldl (fun s step => runAfterAll env step.path step.afterAll s) s).log ∧
        stages (steps.foldl (fun s step => runAfterAll env step.path step.afterAll s) s).log =
          (stages s.log).set (steps.map ScopeRetryStep.path) .down := by
  induction steps with
  | nil => exact fun s hlegal _ _ => ⟨hlegal, rfl⟩
  | cons step rest ih =>
    intro s hlegal hdone hnodup
    obtain ⟨hhead, hrest⟩ := List.nodup_cons.mp hnodup
    have hbegun : Allowed (stages s.log) (.afterAll step.path) := by
      show (stages s.log step.path).begun = true
      rw [hdone step List.mem_cons_self]
      rfl
    have hstages := stages_runAfterAll env step.path step.afterAll s
    obtain ⟨hlegal', hstages'⟩ := ih (runAfterAll env step.path step.afterAll s)
      (by rw [(runAfterAll_still env step.path step.afterAll s).log]; exact hlegal.snoc hbegun)
      (fun other hother => by
        rw [hstages, Function.update_of_ne]
        · exact hdone other (List.mem_cons_of_mem _ hother)
        · intro heq
          exact hhead (heq ▸ List.mem_map_of_mem hother))
      hrest
    refine ⟨hlegal', hstages'.trans ?_⟩
    rw [hstages]
    exact Stages.set_cons _ _ _ _

/-- A round of beforeAll hooks that ends well, of a scope that is not set up. -/
theorem completeRound_legal {path : List ℕ} {s : State W} {r : HookOutcome × State W}
    (hlegal : Legal s.log) (hnot : stages s.log path ≠ .done)
    (hstill : Still (s.emit (.beforeAll path)) r.2) (hok : r.1 = .ok) :
    (completeRound path r).1 = .ok ∧ Legal (completeRound path r).2.log ∧
      stages (completeRound path r).2.log = Function.update (stages s.log) path .done ∧
      (completeRound path r).2.setupBroken = s.setupBroken := by
  have hcompleted : completeRound path r = (.ok, r.2.emit (.completed path)) := if_pos hok
  have hstages : stages r.2.log = track (stages s.log) (.beforeAll path) :=
    hstill.stages.trans (stages_emit s _)
  have hbegun : Allowed (stages r.2.log) (.completed path) := by
    show (stages r.2.log path).begun = true
    rw [hstages, track, Function.update_self]
    split
    · rfl
    · rfl
  rw [hcompleted]
  refine ⟨rfl, ?_, ?_, hstill.setupBroken⟩
  · refine Legal.snoc ?_ hbegun
    rw [hstill.log]
    exact hlegal.snoc hnot
  · show stages (r.2.emit (.completed path)).log = _
    rw [stages_emit, hstages]
    exact Function.update_idem _ _ _

theorem rebuildSteps_legal (steps : List (ScopeRetryStep H)) :
    ∀ s : State W, Legal s.log → (∀ step ∈ steps, stages s.log step.path ≠ .done) →
      (steps.map ScopeRetryStep.path).Nodup → (rebuildSteps env steps s).1 = .ok →
      Legal (rebuildSteps env steps s).2.log ∧
        stages (rebuildSteps env steps s).2.log =
          (stages s.log).set (steps.map ScopeRetryStep.path) .done := by
  induction steps with
  | nil => exact fun s hlegal _ _ _ => ⟨hlegal, rfl⟩
  | cons step rest ih =>
    intro s hlegal hnot hnodup hok
    obtain ⟨hhead, hrest⟩ := List.nodup_cons.mp hnodup
    obtain ⟨hstep, hok⟩ := andThen_ok.mp hok
    have hall : rebuildSteps env (step :: rest) s =
        rebuildSteps env rest (rebuildStep env step s).2 := if_pos hstep
    have hreset : Still s (step.resetPolicy.elim (.ok, s) (runAppReset env · s)).2 := by
      cases step.resetPolicy with
      | none => exact .refl s
      | some policy => exact .runAppReset env policy s
    obtain ⟨hresetOk, hround⟩ := andThen_ok.mp hstep
    generalize hs' : (step.resetPolicy.elim (.ok, s) (runAppReset env · s)) = reset at *
    obtain ⟨hhooks, -⟩ := andThen_ok.mp hround
    obtain ⟨-, hlegal', hstages', -⟩ := completeRound_legal
      (hreset.log ▸ hlegal) (hreset.stages ▸ hnot step List.mem_cons_self)
      (Still.runHooks env .beforeAll step.beforeAll _) hhooks
    have hafter : rebuildStep env step s = completeRound step.path
        (runHooks env .beforeAll step.beforeAll (reset.2.emit (.beforeAll step.path))) := by
      unfold rebuildStep
      rw [hs']
      exact if_pos hresetOk
    rw [hall]
    rw [← hafter] at hlegal' hstages'
    rw [hreset.stages] at hstages'
    obtain ⟨hlegal'', hstages''⟩ := ih _ hlegal' (fun other hother => by
        rw [hstages', Function.update_of_ne]
        · exact hnot other (List.mem_cons_of_mem _ hother)
        · intro heq
          exact hhead (heq ▸ List.mem_map_of_mem hother)) hrest hok
    refine ⟨hlegal'', hstages''.trans ?_⟩
    rw [hstages']
    exact Stages.set_cons _ _ _ _

/-- **A fresh start that does not break** leaves every scope where it was. -/
theorem runRetrySetup_ready {chain : List (ScopeRetryStep H)} {s : State W} (hready : Ready s)
    (hdone : ∀ step ∈ chain, stages s.log step.path = .done)
    (hnodup : (chain.map ScopeRetryStep.path).Nodup) (halive : Alive (runRetrySetup env chain s).2) :
    (runRetrySetup env chain s).1 = .ok ∧ Ready (runRetrySetup env chain s).2 ∧
      stages (runRetrySetup env chain s).2.log = stages s.log := by
  have hteardown : runRetryTeardown env chain s =
      chain.reverse.foldl (fun s step => runAfterAll env step.path step.afterAll s)
        { s with setupBroken := true, freshStartPending := false } := by
    unfold runRetryTeardown
    rw [hready.whole]
    rfl
  have hnodup' : (chain.reverse.map ScopeRetryStep.path).Nodup := by
    rw [List.map_reverse]
    exact List.nodup_reverse.mpr hnodup
  obtain ⟨hlegal, hstages⟩ := foldl_runAfterAll_legal env chain.reverse
    { s with setupBroken := true, freshStartPending := false } hready.legal
    (fun step hstep => hdone step (List.mem_reverse.mp hstep)) hnodup'
  rw [← hteardown] at hlegal hstages
  unfold runRetrySetup runRetryRebuild at halive ⊢
  dsimp only at halive ⊢
  split at halive
  case isFalse => exact absurd (List.mem_append_right _ (List.mem_singleton.mpr rfl)) halive
  case isTrue hok =>
    rw [if_pos hok]
    have hmem : ∀ q, q ∈ chain.reverse.map ScopeRetryStep.path ↔
        q ∈ chain.map ScopeRetryStep.path := by
      intro q
      rw [List.map_reverse, List.mem_reverse]
    obtain ⟨hlegal', hstages'⟩ := rebuildSteps_legal env chain _ hlegal (fun step hstep => by
      rw [hstages, Stages.set, if_pos ((hmem _).mpr (List.mem_map_of_mem hstep))]
      nofun) hnodup hok
    refine ⟨rfl, ⟨hlegal', rfl⟩, hstages'.trans ?_⟩
    rw [hstages]
    funext q
    unfold Stages.set
    split
    case isTrue hq =>
      obtain ⟨step, hstep, rfl⟩ := List.mem_map.mp hq
      exact (hdone step hstep).symm
    case isFalse hq =>
      rw [if_neg fun h => hq ((hmem q).mp h)]

/-! ### Tests -/

/-- All scopes around the tests at `path` are set up. -/
structure Standing (path : List ℕ) (s : State W) : Prop where
  ready : Ready s
  done : ∀ outer, outer <:+ path → stages s.log outer = .done

/-- Unless a rebuild breaks, what is set up around the tests at `path` stays so. -/
structure Keeps (path : List ℕ) (s s' : State W) : Prop where
  grows : s.log <+: s'.log
  standing : Alive s' → Standing path s → Standing path s' ∧ stages s'.log = stages s.log

namespace Keeps

variable {path : List ℕ} {s s' s'' : State W}

theorem refl (path : List ℕ) (s : State W) : Keeps path s s :=
  ⟨List.prefix_rfl, fun _ h => ⟨h, rfl⟩⟩

theorem trans (h : Keeps path s s') (h' : Keeps path s' s'') : Keeps path s s'' where
  grows := h.grows.trans h'.grows
  standing halive hstanding := by
    obtain ⟨hstanding', hstages⟩ := h.standing (halive.of_grows h'.grows) hstanding
    obtain ⟨hstanding'', hstages'⟩ := h'.standing halive hstanding'
    exact ⟨hstanding'', hstages'.trans hstages⟩

/-- What is ready again at the same stages. -/
theorem of_ready (hgrows : s.log <+: s'.log)
    (h : Alive s' → Standing path s → Ready s' ∧ stages s'.log = stages s.log) :
    Keeps path s s' where
  grows := hgrows
  standing halive hstanding := by
    obtain ⟨hready, hstages⟩ := h halive hstanding
    exact ⟨⟨hready, fun outer houter => by rw [hstages]; exact hstanding.done outer houter⟩, hstages⟩

theorem of_still (path : List ℕ) (h : Still s s') : Keeps path s s' :=
  .of_ready (h.log ▸ List.prefix_rfl) fun _ hstanding => ⟨h.ready hstanding.ready, h.stages⟩

theorem andThen {r : HookOutcome × State W} {next : State W → HookOutcome × State W}
    (h : Keeps path s r.2) (hnext : ∀ s', Keeps path s' (next s').2) :
    Keeps path s (andThen r next).2 := by
  unfold Runner.andThen
  split
  · exact h.trans (hnext r.2)
  · exact h

theorem report (path : List ℕ) (results : List TestResult) (s : State W) :
    Keeps path s (s.report results) :=
  .of_ready (List.prefix_append ..) fun _ hstanding => hstanding.ready.report results

theorem body (path : List ℕ) (s : State W) : Keeps path s (s.emit (.body path)) := by
  refine .of_ready (List.prefix_append ..) fun _ hstanding => ?_
  have hallowed : Allowed (stages s.log) (.body path) := by
    intro outer houter
    rw [hstanding.done outer houter]
    rfl
  exact ⟨hstanding.ready.emit hallowed, stages_emit s _⟩

end Keeps

/-- The chain of a scope: steps of different scopes around it. -/
structure Chained (chain : List (ScopeRetryStep H)) (path : List ℕ) : Prop where
  around : ∀ step ∈ chain, step.path <:+ path
  nodup : (chain.map ScopeRetryStep.path).Nodup

theorem runRetrySetup_keeps {path : List ℕ} {chain : List (ScopeRetryStep H)}
    (h : Chained chain path) (s : State W) : Keeps path s (runRetrySetup env chain s).2 :=
  .of_ready (grows_frame.runRetrySetup env chain s) fun halive hstanding =>
    (runRetrySetup_ready env hstanding.ready
      (fun step hstep => hstanding.done _ (h.around step hstep)) h.nodup halive).2

theorem attemptBody_keeps {run : ScopeRun H} (h : Chained run.retryChain run.path) (fn : F)
    (attempt : ℕ) (s : State W) : Keeps run.path s (attemptBody env run fn attempt s).2 := by
  refine Keeps.andThen ?_ fun s => Keeps.andThen ?_ fun s =>
    Keeps.andThen (.of_still _ (.call s _)) fun s =>
    Keeps.andThen (.of_still _ (.runHooks env .beforeEach _ s)) fun s =>
    (Keeps.body run.path s).trans (.of_still _ (.call _ _))
  · split
    · exact runRetrySetup_keeps env h s
    · exact .refl _ s
  · split
    · exact .of_still _ (.runAppReset env _ s)
    · exact .refl _ s

theorem runAttempt_keeps {run : ScopeRun H} (h : Chained run.retryChain run.path) (fn : F)
    (attempt : ℕ) (s : State W) : Keeps run.path s (runAttempt env run fn attempt s).2 :=
  (attemptBody_keeps env h fn attempt s).trans <|
    .of_still _ <| (Still.runAfterEach env run.allAfterEach _ _).trans <|
      (Still.call _ _).trans (.call _ _)

theorem runAttempts_keeps {run : ScopeRun H} (h : Chained run.retryChain run.path) (fn : F)
    (provisional : TestResult) (retries attempt : ℕ) (failedBefore : Bool) (s : State W) :
    Keeps run.path s (runAttempts env run fn provisional retries attempt failedBefore s).2 := by
  induction retries generalizing attempt failedBefore s with
  | zero => exact runAttempt_keeps env h fn attempt s
  | succ retries ih =>
    have hattempt := runAttempt_keeps env h fn attempt s
    unfold runAttempts
    dsimp only
    split
    · exact hattempt.trans ((Keeps.report run.path [provisional] _).trans (ih _ _ _))
    · exact hattempt

theorem runTest_keeps (opts : RunOptions) {run : ScopeRun H} (h : Chained run.retryChain run.path)
    (entry : TestEntry F) (s : State W) : Keeps run.path s (runTest env opts run entry s).2 := by
  have hattempts := runAttempts_keeps env h entry.fn
    { testResult opts run entry .failed with willRetry := true } run.scope.retries 0 false s
  unfold runTest
  dsimp only
  split
  · exact (hattempts.trans (.report _ _ _)).trans (.of_still _ ⟨rfl, rfl⟩)
  · exact hattempts.trans (.report _ _ _)

/-! ### Describe blocks -/

/-- From `s` to `s'`: the scopes that are not `inside` are at the stages they were at, and none
    that is remains set up. -/
structure Through (inside : List ℕ → Prop) (s s' : State W) : Prop where
  ready : Ready s'
  outside : ∀ q, ¬ inside q → stages s'.log q = stages s.log q
  settled : ∀ q, inside q → stages s'.log q ≠ .done

/-- If a scope has a test to run in it, all scopes around it are set up. -/
def Prepared (runnable : Prop) (path : List ℕ) (s : State W) : Prop :=
  runnable → ∀ outer, outer <:+ path → stages s.log outer = .done

theorem Prepared.of_stages {runnable : Prop} {path : List ℕ} {s s' : State W}
    (h : Prepared runnable path s) (hstages : ∀ q, q <:+ path → stages s'.log q = stages s.log q) :
    Prepared runnable path s' :=
  fun hrunnable outer houter => (hstages outer houter).trans (h hrunnable outer houter)

theorem runTests_grows (opts : RunOptions) (run : ScopeRun H) (tests : List (TestEntry F))
    (s : State W) : s.log <+: (runTests env opts run tests s).2.log := by
  induction tests generalizing s with
  | nil => exact List.prefix_rfl
  | cons entry rest ih =>
    have hattempts : s.log <+: (runAttempts env run entry.fn
        { testResult opts run entry .failed with willRetry := true }
        run.scope.retries 0 false s).2.log := grows_frame.runAttempts env run entry.fn rfl _ _ _ s
    unfold runTests
    dsimp only
    split
    case isFalse => exact ih s
    case isTrue =>
      refine List.IsPrefix.trans ?_ (ih _)
      split
      · exact List.prefix_append ..
      · unfold runTest
        dsimp only
        split
        · exact hattempts.trans (List.prefix_append ..)
        · exact hattempts.trans (List.prefix_append ..)

/-- The tests of a scope leave every scope where it was. -/
theorem runTests_ready (opts : RunOptions) {run : ScopeRun H}
    (hchain : Chained run.retryChain run.path) {runnable : Prop} (tests : List (TestEntry F)) :
    ∀ s : State W, (∀ entry ∈ tests, opts.passesTestFilter (joinName run.fullPrefix entry.name) →
        entry.included run.hasOnly → run.scope.skipped = false → run.skippedByBeforeAll = false →
        runnable) →
      Ready s → Prepared runnable run.path s → Alive (runTests env opts run tests s).2 →
      Ready (runTests env opts run tests s).2 ∧
        stages (runTests env opts run tests s).2.log = stages s.log := by
  induction tests with
  | nil => exact fun s _ hready _ _ => ⟨hready, rfl⟩
  | cons entry rest ih =>
    intro s hruns hready hprepared halive
    have hrest := fun other hother => hruns other (List.mem_cons_of_mem _ hother)
    unfold runTests at halive ⊢
    dsimp only at halive ⊢
    split at halive
    case isFalse hpasses =>
      rw [if_neg hpasses]
      exact ih s hrest hready hprepared halive
    case isTrue hpasses =>
      rw [if_pos hpasses]
      split at halive
      case isTrue hskips =>
        rw [if_pos hskips]
        obtain ⟨hready', hstages⟩ := hready.report [testResult opts run entry .skipped]
        obtain ⟨hready'', hstages'⟩ := ih _ hrest hready'
          (hprepared.of_stages fun q _ => by rw [hstages]) halive
        exact ⟨hready'', hstages'.trans hstages⟩
      case isFalse hskips =>
        rw [if_neg hskips]
        have hrunnable : runnable := by
          simp only [skipsTest, Bool.or_eq_true, not_or, Bool.not_eq_true', Bool.not_eq_true,
            Bool.not_eq_false] at hskips
          exact hruns entry List.mem_cons_self hpasses hskips.1.1.1 hskips.1.1.2 hskips.1.2
        obtain ⟨hstanding, hstages⟩ := (runTest_keeps env opts hchain entry s).standing
          (halive.of_grows (runTests_grows env opts run rest _)) ⟨hready, hprepared hrunnable⟩
        obtain ⟨hready'', hstages'⟩ := ih _ hrest hstanding.ready
          (hprepared.of_stages fun q _ => by rw [hstages]) halive
        exact ⟨hready'', hstages'.trans hstages⟩

/-! ### Entering a scope -/

theorem suffix_cases {path q : List ℕ} (h : path <:+ q) : q = path ∨ ∃ i, i :: path <:+ q := by
  obtain ⟨front, rfl⟩ := h
  rcases List.eq_nil_or_concat front with rfl | ⟨front, i, rfl⟩
  · exact .inl rfl
  · exact .inr ⟨i, front, by simp⟩

theorem eq_of_suffix {path q : List ℕ} {i j : ℕ} (hi : i :: path <:+ q) (hj : j :: path <:+ q) :
    i = j := by
  have h := List.suffix_of_suffix_length_le hi hj (Nat.le_refl _)
  exact (List.cons.inj (h.eq_of_length rfl)).1

theorem not_suffix_cons {path q : List ℕ} {i : ℕ} (h : q <:+ path) : ¬ i :: path <:+ q := by
  intro hcons
  have hlength := (hcons.trans h).length_le
  exact Nat.not_succ_le_self _ hlength

/-- What the setup of the scope at `path` comes to. -/
structure Entered (path : List ℕ) (s : State W) (r : HookOutcome × State W) : Prop where
  ready : Ready r.2
  outside : ∀ q, q ≠ path → stages r.2.log q = stages s.log q
  own : (r.1 = .ok ∧ stages r.2.log path = .done) ∨ (r.1 = .skip ∧ stages r.2.log path = .started) ∨
    ((r.1 ≠ .ok ∧ r.1 ≠ .skip) ∧ stages r.2.log path ≠ .done)

theorem runAppReset_error {policy : AppResetPolicy} {s : State W}
    (h : (runAppReset env policy s).1 ≠ .ok) : (runAppReset env policy s).1 = .error := by
  unfold runAppReset at h ⊢
  dsimp only at h ⊢
  split at h
  case isTrue => exact absurd rfl h
  case isFalse hreset => rw [if_neg hreset]

/-- The round of beforeAll hooks of a scope that was never set up. -/
theorem ownRound_entered {path : List ℕ} {s : State W} (hready : Ready s)
    (hidle : stages s.log path = .idle) {r : HookOutcome × State W}
    (hstill : Still (s.emit (.beforeAll path)) r.2) : Entered path s (completeRound path r) := by
  have hnot : stages s.log path ≠ .done := by
    rw [hidle]
    exact Stage.noConfusion
  by_cases hok : r.1 = .ok
  · obtain ⟨hcompleted, hlegal, hstages, hbroken⟩ :=
      completeRound_legal hready.legal hnot hstill hok
    refine ⟨⟨hlegal, hbroken.trans hready.whole⟩, fun q hq => ?_, .inl ⟨hcompleted, ?_⟩⟩
    · rw [hstages, Function.update_of_ne hq]
    · rw [hstages, Function.update_self]
  · have hsame : completeRound path r = r := if_neg hok
    have hstages : stages r.2.log = Function.update (stages s.log) path .started := by
      rw [hstill.stages, stages_emit, track, hidle]
      rfl
    rw [hsame]
    refine ⟨hstill.ready (hready.emit hnot), fun q hq => ?_, ?_⟩
    · rw [hstages, Function.update_of_ne hq]
    · rw [hstages, Function.update_self]
      by_cases hskip : r.1 = .skip
      · exact .inr (.inl ⟨hskip, rfl⟩)
      · exact .inr (.inr ⟨⟨hok, hskip⟩, Stage.noConfusion⟩)

theorem runScopeSetup_entered {scope : Scope H} {inherited : Inherited H} {fresh needsReset : Bool}
    {s : State W} (hready : Ready s) (hchain : Chained inherited.retryChain inherited.path)
    (hdone : fresh → ∀ step ∈ inherited.retryChain, stages s.log step.path = .done)
    (hidle : stages s.log inherited.path = .idle)
    (halive : Alive (runScopeSetup env scope inherited fresh needsReset s).2) :
    Entered inherited.path s (runScopeSetup env scope inherited fresh needsReset s) := by
  have hgrows : ∀ r : HookOutcome × State W, r.2.log <+: (andThen
      (if needsReset then runAppReset env scope.policy r.2 else (.ok, r.2)) fun s =>
        completeRound inherited.path (settle env
          (runHooks env .beforeAll scope.beforeAll (s.emit (.beforeAll inherited.path))))).2.log := by
    intro r
    refine grows_frame.andThen ?_ fun s => grows_frame.completeRound _ (grows_frame.settle env
      ((grows_frame.emit s rfl).trans (grows_frame.runHooks env .beforeAll _ _)))
    split
    · exact grows_frame.runAppReset env _ _
    · exact List.prefix_rfl
  -- the fresh start, if one is asked for, is gone through as a whole
  obtain ⟨hok, hready', hstages⟩ :
      (if fresh then runRetrySetup env inherited.retryChain s else (.ok, s)).1 = .ok ∧
      Ready (if fresh then runRetrySetup env inherited.retryChain s else (.ok, s)).2 ∧
      stages (if fresh then runRetrySetup env inherited.retryChain s else (.ok, s)).2.log =
        stages s.log := by
    unfold runScopeSetup at halive
    split
    case isFalse => exact ⟨rfl, hready, rfl⟩
    case isTrue hfresh =>
      refine runRetrySetup_ready env hready (hdone hfresh) hchain.nodup ?_
      rw [if_pos hfresh] at halive
      unfold andThen at halive
      split at halive
      · exact halive.of_grows (hgrows (runRetrySetup env inherited.retryChain s))
      · exact halive
  have hsetup : runScopeSetup env scope inherited fresh needsReset s = _ := if_pos hok
  rw [hsetup]
  generalize (if fresh then runRetrySetup env inherited.retryChain s else (.ok, s)).2 = s' at *
  rw [← hstages] at hidle
  have hentered : Entered inherited.path s' (andThen
      (if needsReset then runAppReset env scope.policy s' else (.ok, s')) fun s =>
        completeRound inherited.path (settle env
          (runHooks env .beforeAll scope.beforeAll (s.emit (.beforeAll inherited.path))))) := by
    have hreset : Still s' (if needsReset then runAppReset env scope.policy s' else (.ok, s')).2 ∧
        ((if needsReset then runAppReset env scope.policy s' else (.ok, s')).1 ≠ .ok →
          (if needsReset then runAppReset env scope.policy s' else (.ok, s')).1 = .error) := by
      split
      · exact ⟨.runAppReset env _ s', runAppReset_error env⟩
      · exact ⟨.refl s', fun h => absurd rfl h⟩
    generalize (if needsReset then runAppReset env scope.policy s' else (.ok, s')) = reset at *
    obtain ⟨hstill, herror⟩ := hreset
    unfold andThen
    split
    case isTrue =>
      have hround := ownRound_entered (hstill.ready hready') (hstill.stages ▸ hidle)
        ((Still.runHooks env .beforeAll scope.beforeAll
          (reset.2.emit (.beforeAll inherited.path))).settle env)
      rw [← hstill.stages] at hstages
      exact ⟨hround.ready, fun q hq => (hround.outside q hq).trans (by rw [hstill.stages]),
        hround.own⟩
    case isFalse hnot =>
      refine ⟨hstill.ready hready', fun q _ => by rw [hstill.stages], .inr (.inr ⟨?_, ?_⟩)⟩
      · rw [herror hnot]
        exact ⟨nofun, nofun⟩
      · rw [hstill.stages, hidle]
        nofun
  exact ⟨hentered.ready, fun q hq => (hentered.outside q hq).trans (by rw [hstages]), hentered.own⟩

/-! ### Blocks with nothing to run -/

section Runnable

variable {passes : String → Bool} {parentPrefix : String} {scope : Scope H}
  {tests : List (TestEntry F)} {suites : List (SuiteContext H F)}

theorem firstRunnableTest_of_test {entry : TestEntry F} (hscope : scope.skipped = false)
    (hentry : entry ∈ tests) (hincluded : entry.included (hasOnly tests suites))
    (hpasses : passes (joinName parentPrefix entry.name)) :
    (firstRunnableTest passes parentPrefix (.mk scope tests suites)).isSome := by
  unfold firstRunnableTest
  rw [if_neg (by rw [hscope]; exact Bool.false_ne_true)]
  split
  case h_1 => rfl
  case h_2 hnone =>
    have hno := List.find?_eq_none.mp hnone entry hentry
    rw [hincluded, hpasses] at hno
    exact absurd rfl hno

theorem firstRunnableSuite_of_mem {excluded : SuiteContext H F → Bool} {child : SuiteContext H F}
    (hchild : child ∈ suites) (hexcluded : excluded child = false)
    (hrunnable : (firstRunnableTest passes (joinName parentPrefix child.label.name) child).isSome) :
    (firstRunnableSuite passes parentPrefix excluded suites).isSome := by
  induction suites with
  | nil => exact absurd hchild List.not_mem_nil
  | cons other rest ih =>
    unfold firstRunnableSuite
    rcases List.mem_cons.mp hchild with rfl | hchild
    · rw [if_neg (by rw [hexcluded]; exact Bool.false_ne_true), Option.isSome_or, hrunnable,
        Bool.true_or]
    · split
      · exact ih hchild
      · rw [Option.isSome_or, ih hchild, Bool.or_true]

theorem firstRunnableTest_of_child {child : SuiteContext H F} (hscope : scope.skipped = false)
    (hchild : child ∈ suites) (hexcluded : excluded tests suites child = false)
    (hrunnable : (firstRunnableTest passes (joinName parentPrefix child.label.name) child).isSome) :
    (firstRunnableTest passes parentPrefix (.mk scope tests suites)).isSome := by
  unfold firstRunnableTest
  rw [if_neg (by rw [hscope]; exact Bool.false_ne_true)]
  split
  · rfl
  · exact firstRunnableSuite_of_mem hchild hexcluded hrunnable

end Runnable

/-! ### Runs of blocks -/

mutual

theorem runSuiteContext_grows (opts : RunOptions) :
    ∀ (ctx : SuiteContext H F) (inherited : Inherited H) (s : State W),
      s.log <+: (runSuiteContext env opts ctx inherited s).2.log
  | .mk scope tests suites, inherited, s₀ => by
    unfold runSuiteContext
    dsimp only
    rw [← (Still.enterGroup scope s₀).log]
    generalize (firstRunnableTest opts.passesTestFilter inherited.fullPrefix
      (.mk scope tests suites)).isSome = runnable
    generalize freshStartAtEntry scope inherited runnable s₀.serial (enterGroup scope s₀) = fresh
    generalize needsScopeReset scope inherited runnable fresh (enterGroup scope s₀) = needsReset
    generalize hsetup : (if runnable then runScopeSetup env scope inherited fresh needsReset
      (enterGroup scope s₀) else (.ok, enterGroup scope s₀)) = setup
    have hgrows : (enterGroup scope s₀).log <+: setup.2.log := by
      rw [← hsetup]
      split
      · exact grows_frame.runScopeSetup env scope inherited fresh needsReset _
      · exact List.prefix_rfl
    refine hgrows.trans ?_
    split
    · rw [(Still.leaveGroup _ _).log]
      generalize scopeRun scope inherited (hasOnly tests suites) (setup.1 = .skip)
        (retryStep scope inherited runnable fresh needsReset) (enterGroup scope s₀).serial = run
      refine (runTests_grows env opts run tests setup.2).trans
        ((runSuites_grows opts run (excluded tests suites) suites 0 _).trans ?_)
      split
      · exact grows_frame.runAfterAll env _ _ _
      · exact List.prefix_rfl
    · rw [(Still.leaveGroup _ _).log]
      exact List.prefix_append ..

theorem runSuites_grows (opts : RunOptions) (run : ScopeRun H)
    (excluded : SuiteContext H F → Bool) :
    ∀ (suites : List (SuiteContext H F)) (i : ℕ) (s : State W),
      s.log <+: (runSuites env opts run excluded suites i s).2.log
  | [], _, _ => List.prefix_rfl
  | child :: rest, i, s => by
    unfold runSuites
    dsimp only
    refine List.IsPrefix.trans ?_ (runSuites_grows opts run excluded rest (i + 1) _)
    split
    · exact List.prefix_rfl
    · split
      · exact List.prefix_append ..
      · rw [(Still.noteChild _).log]
        exact runSuiteContext_grows opts child _ s

end

namespace Through

variable {inside inside' : List ℕ → Prop} {s s' s'' : State W}

/-- Nothing happens to the scopes. -/
theorem of_stages (hready : Ready s') (hstages : stages s'.log = stages s.log)
    (hidle : ∀ q, inside q → stages s.log q = .idle) : Through inside s s' where
  ready := hready
  outside q _ := by rw [hstages]
  settled q hq := by
    rw [hstages, hidle q hq]
    nofun

theorem trans (h : Through inside s s') (h' : Through inside' s' s'')
    (hdisjoint : ∀ q, inside q → ¬ inside' q) : Through (fun q => inside q ∨ inside' q) s s'' where
  ready := h'.ready
  outside q hq := (h'.outside q fun hin => hq (.inr hin)).trans
    (h.outside q fun hin => hq (.inl hin))
  settled q hq := by
    rcases hq with hin | hin
    · rw [h'.outside q (hdisjoint q hin)]
      exact h.settled q hin
    · exact h'.settled q hin

theorem congr (h : Through inside s s') (hiff : ∀ q, inside q ↔ inside' q) :
    Through inside' s s' where
  ready := h.ready
  outside q hq := h.outside q fun hin => hq ((hiff q).mp hin)
  settled q hq := h.settled q ((hiff q).mpr hq)

theorem of_outside (hstages : ∀ q, stages s'.log q = stages s.log q)
    (h : Through inside s' s'') : Through inside s s'' :=
  ⟨h.ready, fun q hq => (h.outside q hq).trans (hstages q), h.settled⟩

theorem still (h : Through inside s s') (hstill : Still s' s'') : Through inside s s'' where
  ready := hstill.ready h.ready
  outside q hq := by
    rw [hstill.stages]
    exact h.outside q hq
  settled q hq := by
    rw [hstill.stages]
    exact h.settled q hq

end Through

/-- What a block is entered with. -/
structure Entry (ctx : SuiteContext H F) (opts : RunOptions) (inherited : Inherited H)
    (s : State W) : Prop where
  ready : Ready s
  chained : Chained inherited.retryChain inherited.path
  proper : ∀ step ∈ inherited.retryChain, step.path ≠ inherited.path
  around : (firstRunnableTest opts.passesTestFilter inherited.fullPrefix ctx).isSome →
    ∀ outer, outer <:+ inherited.path → outer ≠ inherited.path → stages s.log outer = .done
  idle : ∀ q, inherited.path <:+ q → stages s.log q = .idle

theorem scopeRun_chained {inherited : Inherited H}
    (hchain : Chained inherited.retryChain inherited.path)
    (hproper : ∀ step ∈ inherited.retryChain, step.path ≠ inherited.path) (scope : Scope H)
    (hasOnly skippedByBeforeAll runnable fresh needsReset : Bool) (serialGroup : Option Bool) :
    Chained (scopeRun scope inherited hasOnly skippedByBeforeAll
      (retryStep scope inherited runnable fresh needsReset) serialGroup).retryChain
      inherited.path := by
  have hown : ∀ step ∈ retryStep scope inherited runnable fresh needsReset,
      step.path = inherited.path := by
    intro step hstep
    unfold retryStep at hstep
    split at hstep
    · obtain rfl := List.mem_singleton.mp hstep
      rfl
    · exact absurd hstep List.not_mem_nil
  have hnodup : ((retryStep scope inherited runnable fresh needsReset).map
      ScopeRetryStep.path).Nodup := by
    unfold retryStep
    split
    · exact List.nodup_singleton _
    · exact List.nodup_nil
  refine ⟨fun step hstep => ?_, ?_⟩
  · rcases List.mem_append.mp hstep with hstep | hstep
    · exact hchain.around step hstep
    · exact hown step hstep ▸ List.suffix_rfl
  · show ((inherited.retryChain ++ retryStep scope inherited runnable fresh needsReset).map
      ScopeRetryStep.path).Nodup
    rw [List.map_append]
    refine List.nodup_append.mpr ⟨hchain.nodup, hnodup, fun a ha b hb hab => ?_⟩
    obtain ⟨step, hstep, rfl⟩ := List.mem_map.mp ha
    obtain ⟨own, hmem, rfl⟩ := List.mem_map.mp hb
    exact hproper step hstep (hab.trans (hown own hmem))

/-- A scope whose setup failed is left as it is. -/
theorem failScope_through {opts : RunOptions} {inherited : Inherited H} {ctx : SuiteContext H F}
    {s : State W} {setup : HookOutcome × State W} (h : Entered inherited.path s setup)
    (hfailed : ¬ (setup.1 = .ok ∨ setup.1 = .skip))
    (hidle : ∀ q, inherited.path <:+ q → stages s.log q = .idle) :
    Through (inherited.path <:+ ·) s (failScope opts inherited ctx setup.2).2 := by
  obtain ⟨hready, hstages⟩ :=
    h.ready.report (collectResults (failAll opts inherited.fullPrefix ctx))
  have hsame : ∀ q, stages (failScope opts inherited ctx setup.2).2.log q = stages setup.2.log q :=
    congrFun hstages
  refine ⟨⟨hready.legal, hready.whole⟩, fun q hq => ?_, fun q hq => ?_⟩
  · rw [hsame, h.outside q fun heq => hq (heq ▸ List.suffix_rfl)]
  · rw [hsame]
    by_cases heq : q = inherited.path
    · rcases h.own with ⟨hok, -⟩ | ⟨hskip, -⟩ | ⟨-, hnot⟩
      · exact absurd (.inl hok) hfailed
      · exact absurd (.inr hskip) hfailed
      · exact heq ▸ hnot
    · rw [h.outside q heq, hidle q hq]
      nofun

/-- The end of a scope, after the blocks in it. -/
theorem endScope_through {path : List ℕ} {s s' s'' : State W} {runnable : Bool} (hooks : List H)
    (hown : if runnable then (stages s'.log path).begun = true else stages s'.log path = .idle)
    (houtside : ∀ q, q ≠ path → stages s'.log q = stages s.log q)
    (hnested : Through (fun q => ∃ j, 0 ≤ j ∧ j :: path <:+ q) s' s'') :
    Through (path <:+ ·) s (if runnable then runAfterAll env path hooks s'' else s'') := by
  have hpath : stages s''.log path = stages s'.log path :=
    hnested.outside path fun ⟨_, _, hj⟩ => not_suffix_cons List.suffix_rfl hj
  have hbelow : ∀ q, ¬ path <:+ q → ¬ ∃ j, 0 ≤ j ∧ j :: path <:+ q :=
    fun q hq ⟨j, _, hj⟩ => hq ((List.suffix_cons j path).trans hj)
  have hchildren : ∀ q, path <:+ q → q ≠ path → stages s''.log q ≠ .done := by
    intro q hq hne
    rcases suffix_cases hq with heq | ⟨j, hj⟩
    · exact absurd heq hne
    · exact hnested.settled q ⟨j, Nat.zero_le j, hj⟩
  have hother : ∀ q, ¬ path <:+ q → stages s''.log q = stages s.log q := by
    intro q hq
    rw [hnested.outside q (hbelow q hq), houtside q fun heq => hq (heq.symm ▸ List.suffix_rfl)]
  cases runnable with
  | false =>
    refine ⟨hnested.ready, hother, fun q hq => ?_⟩
    by_cases heq : q = path
    · have hidle : stages s'.log path = .idle := hown
      show stages s''.log q ≠ .done
      rw [heq, hpath, hidle]
      nofun
    · exact hchildren q hq heq
  | true =>
    have hallowed : Allowed (stages s''.log) (.afterAll path) := by
      show (stages s''.log path).begun = true
      rw [hpath]
      exact hown
    have hstages := stages_runAfterAll env path hooks s''
    refine ⟨(runAfterAll_still env path hooks s'').ready (hnested.ready.emit hallowed),
      fun q hq => ?_, fun q hq => ?_⟩
    · show stages (runAfterAll env path hooks s'').log q = _
      rw [hstages, Function.update_of_ne fun heq : q = path => hq (heq ▸ List.suffix_rfl)]
      exact hother q hq
    · show stages (runAfterAll env path hooks s'').log q ≠ .done
      rw [hstages]
      by_cases heq : q = path
      · rw [heq, Function.update_self]
        nofun
      · rw [Function.update_of_ne heq]
        exact hchildren q hq heq

mutual

/-- **A block cleans up behind it**: what is set up around it stays so, and nothing in it. -/
theorem runSuiteContext_through (opts : RunOptions) :
    ∀ (ctx : SuiteContext H F) (inherited : Inherited H) (s : State W), Entry ctx opts inherited s →
      Alive (runSuiteContext env opts ctx inherited s).2 →
      Through (inherited.path <:+ ·) s (runSuiteContext env opts ctx inherited s).2
  | .mk scope tests suites, inherited, s₀, hentry, halive => by
    obtain ⟨hready, hchained, hproper, haround, hidle⟩ := hentry
    have henter := Still.enterGroup scope s₀
    unfold runSuiteContext at halive ⊢
    dsimp only at halive ⊢
    generalize hrunnable : (firstRunnableTest opts.passesTestFilter inherited.fullPrefix
      (.mk scope tests suites)).isSome = runnable at *
    generalize freshStartAtEntry scope inherited runnable s₀.serial (enterGroup scope s₀) =
      fresh at *
    generalize needsScopeReset scope inherited runnable fresh (enterGroup scope s₀) = needsReset at *
    rw [← henter.stages] at haround hidle
    have hstart := henter.ready hready
    refine Through.of_outside (fun q => by rw [henter.stages]) ?_
    generalize enterGroup scope s₀ = s at *
    -- what the setup of the scope comes to, if it has one
    generalize hsetup : (if runnable then runScopeSetup env scope inherited fresh needsReset s
      else (.ok, s)) = setup at *
    have hentered : Alive setup.2 → (runnable = true ∧ Entered inherited.path s setup) ∨
        (runnable = false ∧ setup = (.ok, s)) := by
      intro hsetupAlive
      cases runnable with
      | false => exact .inr ⟨rfl, hsetup.symm⟩
      | true =>
        rw [if_pos rfl] at hsetup
        rw [← hsetup] at hsetupAlive ⊢
        refine .inl ⟨rfl, runScopeSetup_entered env hstart hchained (fun _ step hstep => ?_)
          (hidle _ List.suffix_rfl) hsetupAlive⟩
        exact haround rfl _ (hchained.around step hstep) (hproper step hstep)
    split at halive
    case isFalse hfailed =>
      rw [if_neg hfailed]
      rw [Alive, (Still.leaveGroup _ _).log] at halive
      refine Through.still ?_ (Still.leaveGroup _ _)
      rcases hentered (Alive.of_grows halive (List.prefix_append ..)) with
        ⟨-, hentered⟩ | ⟨-, hskip⟩
      · exact failScope_through hentered hfailed hidle
      · exact absurd (.inl (by rw [hskip])) hfailed
    case isTrue hok =>
      rw [if_pos hok]
      rw [Alive, (Still.leaveGroup _ _).log] at halive
      refine Through.still ?_ (Still.leaveGroup _ _)
      have hrunChained := scopeRun_chained hchained hproper scope (hasOnly tests suites)
        (setup.1 = .skip) runnable fresh needsReset s.serial
      generalize hrun : scopeRun scope inherited (hasOnly tests suites) (setup.1 = .skip)
        (retryStep scope inherited runnable fresh needsReset) s.serial = run at *
      obtain rfl : scope = run.scope := by rw [← hrun]; rfl
      have hpath : inherited.path = run.path := by rw [← hrun]; rfl
      have hfull : inherited.fullPrefix = run.fullPrefix := by rw [← hrun]; rfl
      have hhasOnly : hasOnly tests suites = run.hasOnly := by rw [← hrun]; rfl
      have hby : run.skippedByBeforeAll = false → setup.1 ≠ .skip := by
        intro hby
        rw [← hrun] at hby
        exact of_decide_eq_false hby
      generalize inherited.path = path at *
      subst hpath
      rw [hfull] at hrunnable
      have hnestedAlive : Alive (runSuites env opts run (excluded tests suites) suites 0
          (runTests env opts run tests setup.2).2).2 := by
        refine Alive.of_grows halive ?_
        split
        · exact grows_frame.runAfterAll env _ _ _
        · exact List.prefix_rfl
      have htestsAlive := hnestedAlive.of_grows
        (runSuites_grows env opts run (excluded tests suites) suites 0 _)
      have hcases := hentered (htestsAlive.of_grows (runTests_grows env opts run tests _))
      have hown : if runnable then (stages setup.2.log run.path).begun = true
          else stages setup.2.log run.path = .idle := by
        rcases hcases with ⟨rfl, hround⟩ | ⟨rfl, rfl⟩
        · rcases hround.own with ⟨-, hstage⟩ | ⟨-, hstage⟩ | ⟨hnot, -⟩
          · exact congrArg Stage.begun hstage
          · exact congrArg Stage.begun hstage
          · exact absurd hok (by simp [hnot.1, hnot.2])
        · exact hidle _ List.suffix_rfl
      -- a test runs here only if the scope has been set up, as those around it are
      obtain ⟨hsetupReady, hprepared, houtside⟩ : Ready setup.2 ∧
          Prepared (runnable = true ∧ setup.1 ≠ .skip) run.path setup.2 ∧
          ∀ q, q ≠ run.path → stages setup.2.log q = stages s.log q := by
        rcases hcases with ⟨hrun, hentered⟩ | ⟨hnot, rfl⟩
        · refine ⟨hentered.ready, fun hprepared outer houter => ?_, hentered.outside⟩
          by_cases heq : outer = run.path
          · rcases hentered.own with ⟨-, hdone⟩ | ⟨hskip, -⟩ | ⟨hnot, -⟩
            · exact heq ▸ hdone
            · exact absurd hskip hprepared.2
            · exact absurd hok (by simp [hnot.1, hnot.2])
          · rw [hentered.outside outer heq]
            exact haround hrun outer houter heq
        · exact ⟨hstart, fun hprepared => absurd hprepared.1 (by simp [hnot]), fun _ _ => rfl⟩
      obtain ⟨htestsReady, htestsStages⟩ := runTests_ready env opts hrunChained tests setup.2
        (fun entry hmem hpasses hincluded hskipped hnot => by
          rw [← hhasOnly] at hincluded
          exact ⟨hrunnable ▸ firstRunnableTest_of_test hskipped hmem hincluded hpasses, hby hnot⟩)
        hsetupReady hprepared htestsAlive
      have hnested := runSuites_through opts run (excluded tests suites) hrunChained suites 0 _
        (fun child hmem hexcluded hskipped hnot hchild =>
          ⟨hrunnable ▸ firstRunnableTest_of_child hskipped hmem hexcluded hchild, hby hnot⟩)
        htestsReady (hprepared.of_stages fun q _ => by rw [htestsStages])
        (fun j _ q hq => by
          rw [htestsStages, houtside q fun heq => not_suffix_cons List.suffix_rfl (heq ▸ hq)]
          exact hidle q ((List.suffix_cons j run.path).trans hq)) hnestedAlive
      refine endScope_through env _ ?_ (fun q hq => ?_) hnested
      · rw [htestsStages]
        exact hown
      · rw [htestsStages]
        exact houtside q hq

theorem runSuites_through (opts : RunOptions) (run : ScopeRun H)
    (excluded : SuiteContext H F → Bool) (hchained : Chained run.retryChain run.path) :
    ∀ (suites : List (SuiteContext H F)) (i : ℕ) {runnable : Prop} (s : State W),
      (∀ child ∈ suites, excluded child = false → run.scope.skipped = false →
        run.skippedByBeforeAll = false →
        (firstRunnableTest opts.passesTestFilter (joinName run.fullPrefix child.label.name)
          child).isSome → runnable) →
      Ready s → Prepared runnable run.path s →
      (∀ j, i ≤ j → ∀ q, j :: run.path <:+ q → stages s.log q = .idle) →
      Alive (runSuites env opts run excluded suites i s).2 →
      Through (fun q => ∃ j, i ≤ j ∧ j :: run.path <:+ q) s
        (runSuites env opts run excluded suites i s).2
  | [], _, _, s, _, hready, _, hidle, _ =>
    .of_stages hready rfl fun q ⟨j, hj, hq⟩ => hidle j hj q hq
  | child :: rest, i, runnable, s, hruns, hready, hprepared, hidle, halive => by
    unfold runSuites at halive ⊢
    dsimp only at halive ⊢
    generalize hout : (if excluded child then
        (skipAll opts (joinName run.fullPrefix child.label.name) child, s)
      else _ : SuiteResult × State W) = out at *
    have houtAlive := Alive.of_grows halive
      (runSuites_grows env opts run excluded rest (i + 1) out.2)
    have hself : ∀ q, i :: run.path <:+ q → stages s.log q = .idle := hidle i (Nat.le_refl i)
    have hchild : Through (i :: run.path <:+ ·) s out.2 := by
      rw [← hout] at houtAlive ⊢
      split at houtAlive
      case isTrue hexcluded =>
        rw [if_pos hexcluded]
        exact .of_stages hready rfl hself
      case isFalse hexcluded =>
        rw [if_neg hexcluded]
        split at houtAlive
        case isTrue hskips =>
          rw [if_pos hskips]
          obtain ⟨hready', hstages⟩ := hready.report
            (collectResults (stampSkipped opts
              (skipAll opts (joinName run.fullPrefix child.label.name) child)))
          exact .of_stages hready' hstages hself
        case isFalse hskips =>
          rw [if_neg hskips]
          simp only [Bool.or_eq_true, not_or, Bool.not_eq_true] at hskips
          rw [Alive, (Still.noteChild _).log] at houtAlive
          refine Through.still (runSuiteContext_through opts child
            (run.inherited i child.label.name) s ?_ houtAlive) (Still.noteChild _)
          refine ⟨hready, ⟨fun step hstep => ?_, hchained.nodup⟩, fun step hstep heq => ?_,
            fun hchild outer houter hne => ?_, hself⟩
          · exact (hchained.around step hstep).trans (List.suffix_cons i run.path)
          · have hsuffix := hchained.around step hstep
            rw [heq] at hsuffix
            exact not_suffix_cons List.suffix_rfl hsuffix
          · have hrunnable := hruns child List.mem_cons_self (Bool.eq_false_iff.mpr hexcluded)
              hskips.1.2 hskips.2 hchild
            refine hprepared hrunnable outer ?_
            rcases List.suffix_cons_iff.mp houter with heq | hsuffix
            · exact absurd heq hne
            · exact hsuffix
    have hrest := runSuites_through opts run excluded hchained rest (i + 1) out.2
      (fun other hother => hruns other (List.mem_cons_of_mem _ hother)) hchild.ready
      (hprepared.of_stages fun q hq => hchild.outside q (not_suffix_cons hq))
      (fun j hj q hq => by
        rw [hchild.outside q fun hi => Nat.not_succ_le_self i (eq_of_suffix hi hq ▸ hj)]
        exact hidle j (Nat.le_of_succ_le hj) q hq) halive
    refine (hchild.trans hrest fun q hi ⟨j, hj, hq⟩ => ?_).congr fun q => ⟨?_, ?_⟩
    · exact Nat.not_succ_le_self i (eq_of_suffix hi hq ▸ hj)
    · rintro (hi | ⟨j, hj, hq⟩)
      · exact ⟨i, Nat.le_refl i, hi⟩
      · exact ⟨j, Nat.le_of_succ_le hj, hq⟩
    · rintro ⟨j, hj, hq⟩
      rcases Nat.eq_or_lt_of_le hj with rfl | hj
      · exact .inl hq
      · exact .inr ⟨j, hj, hq⟩

end

/-! ### Files -/

theorem root_entry (opts : RunOptions) (ctx : SuiteContext H F) (world : W) :
    Entry ctx opts {} ({ world := world } : State W) where
  ready := ⟨.nil, rfl⟩
  chained := ⟨nofun, List.nodup_nil⟩
  proper := nofun
  around _ _ houter hne := absurd (List.suffix_nil.mp houter) hne
  idle _ _ := rfl

/-- **Hooks stay paired.**  In a run that no fresh start leaves half set up, whatever else fails
    in it, every round of afterAll hooks ends one of beforeAll hooks, every one of these that is
    completed is ended, and tests only run in scopes that are set up. -/
theorem hooks_paired (opts : RunOptions) (ctx : SuiteContext H F) (world : W)
    (h : .rebuildBroken ∉ (runFile env opts ctx world).2.log) :
    Paired (runFile env opts ctx world).2.log := by
  have hthrough := runSuiteContext_through env opts ctx {} { world := world }
    (root_entry opts ctx world) h
  exact paired_of_legal hthrough.ready.legal fun scope => hthrough.settled scope List.nil_suffix

/-- The beforeAll hook that comes after `fails` others fails, and so does the first test body. -/
def countingEnv (fails : ℕ) : Env (ℕ × ℕ) Unit Unit where
  hook kind _ w :=
    if kind = .beforeAll then (if w.1 = fails then .error else .ok, (w.1 + 1, w.2)) else (.ok, w)
  reset _ w := (true, w)
  prepare w := (.ok, w)
  body _ w := (if w.2 = 0 then .error else .ok, (w.1, w.2 + 1))
  unhandled w := (false, w)
  softErrors w := (false, w)

/-- A test that is retried once, in a describe block with hooks in a file with hooks. -/
def nestedHooks : SuiteContext Unit Unit :=
  .mk { name := "", beforeAll := [()], afterAll := [()] } []
    [.mk { name := "cart", beforeAll := [()], afterAll := [()], retries := 1 }
      [{ name := "opens", fn := () }] []]

theorem hooks_paired_nestedHooks :
    .rebuildBroken ∉ (runFile (countingEnv 4) {} nestedHooks (0, 0)).2.log ∧
      Paired (runFile (countingEnv 4) {} nestedHooks (0, 0)).2.log :=
  ⟨by decide +kernel, hooks_paired (countingEnv 4) {} nestedHooks (0, 0) (by decide +kernel)⟩

theorem not_startedSince {scope : List ℕ} {log : List Event}
    (h : ∀ n < log.length, log[n]? = some (.beforeAll scope) →
      .afterAll scope ∈ log.drop (n + 1)) : ¬ StartedSince scope log := by
  rintro ⟨pre, post, rfl, hpost⟩
  have hdrop : (pre ++ .beforeAll scope :: post).drop (pre.length + 1) = post := by
    rw [List.drop_append]
    simp
  have hmem := h pre.length (by simp) (by simp)
  rw [hdrop] at hmem
  exact hpost hmem

/-- The retry tears both scopes down, and the hook of the file fails when they are set up again:
    the block ends with its afterAll hooks once more. -/
theorem hooks_unpaired : ¬ Paired (runFile (countingEnv 2) {} nestedHooks (0, 0)).2.log := by
  intro h
  have hlog : (runFile (countingEnv 2) {} nestedHooks (0, 0)).2.log =
      (runFile (countingEnv 2) {} nestedHooks (0, 0)).2.log.take 11 ++
        .afterAll [0] :: (runFile (countingEnv 2) {} nestedHooks (0, 0)).2.log.drop 12 := by
    decide +kernel
  exact not_startedSince (by decide +kernel) (h.started [0] _ _ hlog)

end Tapsmith.Runner
