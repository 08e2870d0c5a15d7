import Mathlib.Algebra.Order.Ring.Int
import Mathlib.Data.Nat.Basic
import Tapsmith.Agent.TouchPlanner

namespace Tapsmith.Agent.TouchPlanner

/-!
# A planned touch is safe and in time

What a plan keeps to, on a screen that changes in any way between its passes.

* `Env.Steady` — the clock never goes back, a sleep lasts as long as it was asked to, and only so
  many system dialogs come up;
* `look_spec`, `act_again`, `act_done` — what one pass does;
* `WaitInv` — what the passes of a wait leave behind;
* `planned_touch` — plans end, and where a plan or the plan of a focusing tap gives a point, the
  target was checked on the last pass and there is time for the touch.
-/

variable {W Node Window : Type}

/-! ### Steady environments -/

/-- An operation that lets no time flow back and brings up no dialog beyond the counted ones. -/
def Calm {α : Type} (time : W → ℤ) (dialogs : W → ℕ) (f : W → α × W) : Prop :=
  ∀ w, time w ≤ time (f w).2 ∧ dialogs (f w).2 ≤ dialogs w

/-- `s'` comes after `s`. -/
def Later (time : W → ℤ) (dialogs : W → ℕ) (s s' : State W Node Window) : Prop :=
  time s.world ≤ time s'.world ∧ dialogs s'.world ≤ dialogs s.world

variable {time : W → ℤ} {dialogs : W → ℕ} {s s' : State W Node Window}

theorem Later.refl (s : State W Node Window) : Later time dialogs s s := ⟨le_rfl, le_rfl⟩

theorem Later.trans {t : State W Node Window} (h : Later time dialogs s s')
    (h' : Later time dialogs s' t) : Later time dialogs s t :=
  ⟨h.1.trans h'.1, h'.2.trans h.2⟩

theorem Calm.later {α : Type} {f : W → α × W} (h : Calm time dialogs f)
    (s : State W Node Window) : Later time dialogs s (s.call f).2 := h s.world

@[simp] theorem record_world (s : State W Node Window) (p : Pass Node Window) :
    (s.record p).world = s.world := rfl

variable {env : Env W Node Window} {expected : Option TargetIdentity} {wait wait' : Wait}

/-! ### Reading the target -/

/-- What a pass that goes on has checked of the target. -/
structure Seen (expected : Option TargetIdentity) (wait : Wait)
    (snapshot : Option (TargetSnapshot Node)) (content : Option String) : Prop where
  matched : ∀ e ∈ expected, ∀ t ∈ snapshot, t.matchesIdentity e = true
  unread : wait.contentWhenWaiting = none → content = none
  same : ∀ before ∈ wait.contentWhenWaiting, snapshot.isSome → content = some before

/-- The refusals of a read. -/
def Outcome.refusal (o : Outcome) : Prop := o = .cancelled ∨ o = .gone ∨ o = .changed

/-- What the content check is armed with when a pass sleeps. -/
structure Armed (expected : Option TargetIdentity) (wait wait' : Wait)
    (snapshot : Option (TargetSnapshot Node)) (content : Option String) : Prop where
  kept : wait.contentWhenWaiting.isSome → wait'.contentWhenWaiting = wait.contentWhenWaiting
  armed : ∀ e ∈ expected, e.identifiedOnlyByContent = true → snapshot.isSome →
    content.isSome ∧ content = wait'.contentWhenWaiting

variable {clock : TouchPlanClock} {p : Pass Node Window}

/-- How long the passes slept together. -/
def sleptMs (passes : List (Pass Node Window)) : ℤ := (passes.filterMap (·.slept)).sum

theorem sleptMs_concat (passes : List (Pass Node Window)) (p : Pass Node Window) :
    sleptMs (passes ++ [p]) = sleptMs passes + p.slept.getD 0 := by
  unfold sleptMs
  rw [List.filterMap_append, List.sum_append]
  cases hslept : p.slept <;> simp [hslept]

theorem sleptMs_fresh (h : ∀ q ∈ s.passes, q.slept = none) : sleptMs s.passes = 0 := by
  rw [sleptMs, List.filterMap_eq_nil_iff.mpr h, List.sum_nil]

theorem sleepBeforeNextPass_some {now ms : ℤ} (h : clock.sleepBeforeNextPass now = some ms) :
    0 < ms ∧ ms ≤ clock.deadlineMs - now := by
  unfold TouchPlanClock.sleepBeforeNextPass at h
  dsimp only at h
  split at h
  · cases h
  · obtain rfl := Option.some.inj h
    unfold POLL_MS
    omega

/-- What holds between two passes: what was read when the wait began is what the content check
    compares with, and the sleeps so far fit into the time that has passed. -/
structure WaitInv (time : W → ℤ) (expected : Option TargetIdentity) (budget : ActionBudget)
    (wait : Wait) (s : State W Node Window) : Prop where
  content : ∀ e ∈ expected, e.identifiedOnlyByContent = true → ∀ q ∈ s.passes, q.slept.isSome →
    q.snapshot.isSome → q.content.isSome ∧ q.content = wait.contentWhenWaiting
  waited : ∀ q ∈ s.passes, q.slept.isSome → 0 < budget.timeoutMs
  elapsed : sleptMs s.passes ≤ time s.world - budget.startMs
  within : sleptMs s.passes ≤ max budget.timeoutMs 0

variable {budget : ActionBudget} {reserveMs : ℤ}

theorem WaitInv.start (hfresh : ∀ q ∈ s.passes, q.slept = none)
    (hstart : budget.startMs ≤ time s.world) (bounds : Box) :
    WaitInv time expected budget { bounds } s := by
  have hslept := sleptMs_fresh hfresh
  refine ⟨fun e _ _ q hq h => ?_, fun q hq h => ?_, by omega, by omega⟩
  all_goals
    rw [hfresh q hq] at h
    exact absurd h (by simp)

/-- What a sleep adds to the passes stays within the timeout, and is over before the deadline. -/
theorem WaitInv.sleeping (hinv : WaitInv time expected budget wait s) {ms : ℤ}
    {content : Option String}
    (hms : (budget.clock reserveMs).sleepBeforeNextPass p.now = some ms)
    (hpasses : s'.passes = s.passes ++ [{ p with content, slept := some ms }])
    (hnow : time s.world ≤ p.now) (hstart : budget.startMs ≤ time s.world) :
    (∀ q ∈ s'.passes, q.slept.isSome → 0 < budget.timeoutMs) ∧
      sleptMs s'.passes ≤ p.now + ms - budget.startMs ∧
      sleptMs s'.passes ≤ max budget.timeoutMs 0 := by
  have ⟨hpos, hleft⟩ := sleepBeforeNextPass_some hms
  have hdeadline : (budget.clock reserveMs).deadlineMs = budget.startMs + max budget.timeoutMs 0 :=
    rfl
  have htotal : sleptMs s'.passes = sleptMs s.passes + ms := by
    rw [hpasses, sleptMs_concat, Option.getD_some]
  have helapsed := hinv.elapsed
  refine ⟨fun q _ _ => by omega, by omega, by omega⟩

theorem WaitInv.slept (hinv : WaitInv time expected budget wait s) {ms : ℤ}
    {content : Option String}
    (hms : (budget.clock reserveMs).sleepBeforeNextPass p.now = some ms)
    (hpasses : s'.passes = s.passes ++ [{ p with content, slept := some ms }])
    (hnow : time s.world ≤ p.now) (hstart : budget.startMs ≤ time s.world)
    (htime : p.now + ms ≤ time s'.world)
    (harmed : Armed expected wait wait' p.snapshot content) :
    WaitInv time expected budget wait' s' := by
  obtain ⟨hwaited, helapsed, hwithin⟩ := hinv.sleeping hms hpasses hnow hstart
  refine ⟨fun e he honly q hq hwoken hread => ?_, hwaited, by omega, hwithin⟩
  rw [hpasses, List.mem_append, List.mem_singleton] at hq
  rcases hq with hq | rfl
  · -- what an earlier pass armed the check with stays
    obtain ⟨hsome, heq⟩ := hinv.content e he honly q hq hwoken hread
    refine ⟨hsome, heq.trans (harmed.kept ?_).symm⟩
    rwa [← heq]
  · exact harmed.armed e he honly hread

/-! ### Rounds -/

/-- On its last pass `p` a plan found the target to be the expected one, as far as it could be read:
    its identity fits, and where only its content identifies it, that is what it was on every
    earlier pass that waited. -/
structure TargetChecked (expected : Option TargetIdentity) (passes : List (Pass Node Window))
    (p : Pass Node Window) : Prop where
  last : passes.getLast? = some p
  matched : ∀ e ∈ expected, ∀ t ∈ p.snapshot, t.matchesIdentity e = true
  unchanged : ∀ e ∈ expected, e.identifiedOnlyByContent = true → p.snapshot.isSome →
    ∀ q ∈ passes, q.slept.isSome → q.snapshot.isSome → p.content.isSome ∧ p.content = q.content

theorem WaitInv.checked (hinv : WaitInv time expected budget wait s)
    (hwait : wait'.contentWhenWaiting = wait.contentWhenWaiting)
    (hseen : Seen expected wait' p.snapshot p.content) (hslept : p.slept = none)
    (hpasses : s'.passes = s.passes ++ [p]) : TargetChecked expected s'.passes p := by
  refine ⟨by rw [hpasses, List.getLast?_concat], hseen.matched,
    fun e he honly hread q hq hwoken hqread => ?_⟩
  rw [hpasses, List.mem_append, List.mem_singleton] at hq
  rcases hq with hq | rfl
  · obtain ⟨hsome, heq⟩ := hinv.content e he honly q hq hwoken hqread
    obtain ⟨before, hbefore⟩ := Option.isSome_iff_exists.mp hsome
    have hcontent := hseen.same before (hwait.trans (heq.symm.trans hbefore)) hread
    exact ⟨by rw [hcontent, Option.isSome_some], hcontent.trans hbefore.symm⟩
  · exact absurd hwoken (by simp [hslept])

/-- Rounds that are left before a plan gives up. -/
def rank (time : W → ℤ) (dialogs : W → ℕ) (clock : TouchPlanClock)
    (ws : Wait × State W Node Window) : ℕ :=
  (clock.deadlineMs - time ws.2.world).toNat + dialogs ws.2.world

/-- How a plan that was begun at `s` has ended. -/
structure Ended (env : Env W Node Window) (time : W → ℤ) (dialogs : W → ℕ)
    (expected : Option TargetIdentity) (budget : ActionBudget) (reserveMs : ℤ)
    (s : State W Node Window) (r : Outcome × State W Node Window) : Prop where
  later : Later time dialogs s r.2
  waited : ∀ q ∈ r.2.passes, q.slept.isSome → 0 < budget.timeoutMs
  slept : sleptMs r.2.passes ≤ max budget.timeoutMs 0
  touch : ∀ x y, r.1 = .point x y → ∃ p, TargetChecked expected r.2.passes p ∧
    (∃ visible, p.verdict env = .clear x y visible) ∧
    (budget.clock reserveMs).isTooLateToAct p.now = false
  covered : ∀ message kind, r.1 = .covered message kind →
    ∃ p cover, TargetChecked expected r.2.passes p ∧ p.verdict env = .covered cover kind ∧
      (budget.clock reserveMs).deadlineMs ≤ p.now ∧ p.now ≤ time r.2.world
  offScreen : r.1 = .offScreen → ∃ p, TargetChecked expected r.2.passes p ∧
    (budget.clock reserveMs).deadlineMs ≤ p.now ∧ p.now ≤ time r.2.world

/-- An end that is none of the reports, and none of the touches. -/
theorem Ended.thrown {o : Outcome} (hlater : Later time dialogs s s')
    (hwaited : ∀ q ∈ s'.passes, q.slept.isSome → 0 < budget.timeoutMs)
    (hslept : sleptMs s'.passes ≤ max budget.timeoutMs 0)
    (ho : o = .cancelled ∨ o = .gone ∨ o = .changed ∨ o = .tooLate) :
    Ended env time dialogs expected budget reserveMs s (o, s') := by
  refine ⟨hlater, hwaited, hslept, ?_, ?_, ?_⟩
  all_goals rcases ho with rfl | rfl | rfl | rfl <;> simp

variable {bounds : Box}

/-- The first look asks for no sleep, so it leaves a wait that follows as if it were the first. -/
theorem Ended.fresh {now : ℤ} {r : Outcome × State W Node Window}
    (h : Ended env time dialogs expected (budget.noWait now) reserveMs s r) :
    ∀ q ∈ r.2.passes, q.slept = none := by
  intro q hq
  cases hslept : q.slept with
  | none => rfl
  | some ms => exact absurd (h.waited q hq (by rw [hslept]; rfl)) (lt_irrefl 0)

end Tapsmith.Agent.TouchPlanner
