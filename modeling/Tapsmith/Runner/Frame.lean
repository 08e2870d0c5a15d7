import Tapsmith.Runner.Run

namespace Tapsmith.Runner

open Lib
open Report (TestStatus)

/-!
# Frames

A relation between states that every call of the environment, every event and every change of the
retry state keeps is kept by hooks, resets, fresh starts and attempts.

* `Frame` — such a relation; the events may be any but a result that is reported for good;
* `Frame.runAttempts`, `Frame.runScopeSetup` — what keeps it.
-/

/-- The result that is reported for good, if one is. -/
def Event.final : Event → Option TestResult
  | .report result => if result.willRetry then none else some result
  | _ => none

variable {W H F : Type}

structure Frame (R : State W → State W → Prop) : Prop where
  refl : ∀ s, R s s
  trans : ∀ {s s' s''}, R s s' → R s' s'' → R s s''
  call : ∀ {α : Type} s (f : W → α × W), R s (s.call f).2
  emit : ∀ s {e : Event}, e.final = none → R s (s.emit e)
  retry : ∀ s setupBroken freshStartPending applied, R s
    { s with
      setupBroken := setupBroken
      freshStartPending := freshStartPending
      applied := applied }

namespace Frame

variable {R : State W → State W → Prop} {s : State W}

theorem andThen (frame : Frame R) {r : HookOutcome × State W}
    {next : State W → HookOutcome × State W} (h : R s r.2) (hnext : ∀ s', R s' (next s').2) :
    R s (andThen r next).2 := by
  unfold Runner.andThen
  split
  · exact frame.trans h (hnext r.2)
  · exact h

theorem foldl (frame : Frame R) {α : Type} {f : State W → α → State W}
    (hf : ∀ s a, R s (f s a)) (l : List α) (s : State W) : R s (l.foldl f s) := by
  induction l generalizing s with
  | nil => exact frame.refl s
  | cons a l ih => exact frame.trans (hf s a) (ih (f s a))

variable (frame : Frame R) (env : Env W H F)

include frame

theorem runHooks (kind : HookKind) (hooks : List H) (s : State W) :
    R s (runHooks env kind hooks s).2 := by
  induction hooks generalizing s with
  | nil => exact frame.refl s
  | cons hook rest ih => exact frame.andThen (frame.call s _) ih

theorem runAppReset (policy : AppResetPolicy) (s : State W) :
    R s (runAppReset env policy s).2 := by
  unfold Runner.runAppReset
  dsimp only
  split
  · exact frame.trans (frame.call s _) (frame.retry _ _ _ _)
  · exact frame.call s _

theorem settle {r : HookOutcome × State W} (h : R s r.2) : R s (settle env r).2 :=
  frame.andThen h fun s' => frame.call s' _

theorem completeRound (path : List ℕ) {r : HookOutcome × State W} (h : R s r.2) :
    R s (completeRound path r).2 :=
  frame.andThen h fun s' => frame.emit s' rfl

theorem runAfterAll (path : List ℕ) (hooks : List H) (s : State W) :
    R s (runAfterAll env path hooks s) :=
  frame.trans (frame.emit s rfl) (frame.foldl (fun s' _ => frame.call s' _) hooks _)

theorem runRetryTeardown (chain : List (ScopeRetryStep H)) (s : State W) :
    R s (runRetryTeardown env chain s) :=
  frame.trans (frame.retry s true false s.applied)
    (frame.foldl (fun s' (step : ScopeRetryStep H) =>
      frame.runAfterAll env step.path step.afterAll s') _ _)

theorem rebuildStep (step : ScopeRetryStep H) (s : State W) :
    R s (rebuildStep env step s).2 := by
  refine frame.andThen ?_ fun s' => frame.completeRound _
    (frame.trans (frame.emit s' rfl) (frame.runHooks env .beforeAll step.beforeAll _))
  cases step.resetPolicy with
  | none => exact frame.refl s
  | some policy => exact frame.runAppReset env policy s

theorem runRetryRebuild (chain : List (ScopeRetryStep H)) (s : State W) :
    R s (runRetryRebuild env chain s).2 := by
  have hsteps : R s (rebuildSteps env chain s).2 := by
    induction chain generalizing s with
    | nil => exact frame.refl s
    | cons step rest ih => exact frame.andThen (frame.rebuildStep env step s) ih
  unfold Runner.runRetryRebuild
  dsimp only
  split
  · exact frame.trans hsteps (frame.retry _ _ _ _)
  · exact frame.trans hsteps (frame.emit _ rfl)

theorem runRetrySetup (chain : List (ScopeRetryStep H)) (s : State W) :
    R s (runRetrySetup env chain s).2 :=
  frame.trans (frame.runRetryTeardown env chain s) (frame.runRetryRebuild env chain _)

theorem runAfterEach (hooks : List H) (status : TestStatus) (s : State W) :
    R s (runAfterEach env hooks status s).2 := by
  induction hooks generalizing status s with
  | nil => exact frame.refl s
  | cons hook rest ih => exact frame.trans (frame.call s _) (ih _ _)

theorem attemptBody (run : ScopeRun H) (fn : F) (attempt : ℕ) (s : State W) :
    R s (attemptBody env run fn attempt s).2 := by
  refine frame.andThen ?_ fun s => frame.andThen ?_ fun s => frame.andThen (frame.call s _)
    fun s => frame.andThen (frame.runHooks env .beforeEach _ s)
    fun s => frame.trans (frame.emit s rfl) (frame.call _ _)
  · split
    · exact frame.runRetrySetup env run.retryChain s
    · exact frame.refl s
  · split
    · exact frame.runAppReset env _ s
    · exact frame.refl s

theorem runAttempt (run : ScopeRun H) (fn : F) (attempt : ℕ) (s : State W) :
    R s (runAttempt env run fn attempt s).2 :=
  frame.trans (frame.attemptBody env run fn attempt s) <|
    frame.trans (frame.runAfterEach env run.allAfterEach _ _) <|
      frame.trans (frame.call _ _) (frame.call _ _)

theorem runAttempts (run : ScopeRun H) (fn : F) {provisional : TestResult}
    (h : provisional.willRetry = true) (retries attempt : ℕ) (failedBefore : Bool) (s : State W) :
    R s (runAttempts env run fn provisional retries attempt failedBefore s).2 := by
  induction retries generalizing attempt failedBefore s with
  | zero => exact frame.runAttempt env run fn attempt s
  | succ retries ih =>
    have hfinal : (Event.report provisional).final = none := if_pos h
    have hattempt := frame.runAttempt env run fn attempt s
    unfold Runner.runAttempts
    dsimp only
    split
    · exact frame.trans hattempt (frame.trans (frame.emit _ hfinal) (ih _ _ _))
    · exact hattempt

theorem runScopeSetup (scope : Scope H) (inherited : Inherited H) (fresh needsReset : Bool)
    (s : State W) : R s (runScopeSetup env scope inherited fresh needsReset s).2 := by
  refine frame.andThen ?_ fun s => frame.andThen ?_ fun s => frame.completeRound _
    (frame.settle env (frame.trans (frame.emit s rfl) (frame.runHooks env .beforeAll _ _)))
  · split
    · exact frame.runRetrySetup env _ s
    · exact frame.refl s
  · split
    · exact frame.runAppReset env _ s
    · exact frame.refl s

end Frame

end Tapsmith.Runner
