import Tapsmith.Lib.Machine
import Tapsmith.Trace.RowInvariant

namespace Tapsmith.Trace

open Lib.Tickets Lib.Machine

/-!
# Rows that pair up

The started and the completed row of an action are one row to a reader of the trace, who matches
them by their index.

* `Paired` — each started row carries the index of its own action and of no other;
* `Clear` — no action takes or shows the next free index while another action shows it;
* `trace_rows_pair` — completed rows never share an index, and in runs of clear steps rows pair up;
* `trace_rows_mixed` — two actions whose captures both ran out of time.
-/

variable {A T : Type} {s s' : State A T} {a b : A} {i j : ℕ}

/-- A started row of the action was streamed under the index. -/
def Started (s : State A T) (a : A) (i : ℕ) : Prop :=
  ∃ r ∈ s.collector.stream, r.lifecycle = .started ∧ r.actor = a ∧ r.actionIndex = i

/-- The completed rows, but for those replayed. -/
def TraceCollector.completedRows (c : TraceCollector A) : List (TraceEvent A) :=
  c.events.filter fun e => e.actor.isSome

structure Paired (s : State A T) : Prop where
  completed : ∀ a i j, Started s a i →
    { isRow := true, actionIndex := j, actor := some a } ∈ s.collector.events → j = i
  captured : ∀ a i, Started s a i → ∀ capture ∈ s.collector.captures, capture.owner = some a →
    capture.actionIndex = i
  foreign : ∀ a b i, Started s a i →
    Started s b i ∨ HasIndex s.collector s.actionIndex b i ∨
      (∃ capture ∈ s.collector.captures, capture.owner = some b ∧ capture.actionIndex = i) → b = a

/-! ### The condition -/

/-- The action has shown the next free index and not taken it. -/
def Unclaimed (s : State A T) (a : A) : Prop :=
  (∃ i, Started s a i) ∧ ∀ i, ¬ HasIndex s.collector s.actionIndex a i

def NoOther (s : State A T) (a : A) : Prop := ∀ b, b ≠ a → ¬ Unclaimed s b

section Clear

variable (attempt : A → T)

/-- Started rows of the action reach the listener. -/
def State.streams (s : State A T) (a : A) : Bool :=
  s.collector.onEvent && !s.isClosed attempt a

/-- The action that takes the next free index in a step, or shows it in its started row. -/
def State.taker (s : State A T) : Label A T → Option A
  | .resolve a => if s.actionIndex a = none then some a else none
  | .call a skipBeforeCapture batch inBudget =>
    if s.actionIndex a = none ∧ (skipBeforeCapture = true ∨
      batch = false ∧ (inBudget = true ∨ s.streams attempt a = true)) then some a else none
  | .batchDone a success inBudget =>
    if s.actionIndex a = none ∧ (success = true ∨ inBudget = true ∨ s.streams attempt a = true)
    then some a else none
  | .settle a =>
    if s.actionIndex a = none ∧ s.failedByTimeout a = false ∧ s.isClosed attempt a = false
    then some a else none
  | .query a => if s.actionIndex a = none ∧ s.streams attempt a = true then some a else none
  | .queryDone a => if s.actionIndex a = none then some a else none
  | .note a =>
    if s.actionIndex a = none ∧ s.isClosed attempt a = false then some a else none
  | .terminal a => if s.actionIndex a = none then some a else none
  | .failPending => s.collector.pendingOperation.filter fun a => s.actionIndex a = none
  | _ => none

def Clear (s : State A T) (l : Label A T) : Prop :=
  ∀ a, s.taker attempt l = some a → NoOther s a

end Clear

/-! ### The invariant of clear runs -/

/-- Whoever has shown an index has it, or shows the next free one alone. -/
def Claimed (s : State A T) : Prop :=
  ∀ a i, Started s a i → HasIndex s.collector s.actionIndex a i ∨
    ((∀ j, ¬ HasIndex s.collector s.actionIndex a j) ∧ i = s.collector.peekActionIndex ∧
      ∀ b, Started s b i → b = a)

variable {base : ℕ}

theorem Claimed.paired (hc : Claimed s) (h : Sound base s) : Paired s := by
  have hindex : ∀ a i j, Started s a i → HasIndex s.collector s.actionIndex a j → j = i := by
    intro a i j hstarted hj
    rcases hc a i hstarted with hi | ⟨hnone, -, -⟩
    · exact h.numbered.issued.unique a j i hj hi
    · exact absurd hj (hnone j)
  have hforeign : ∀ a b i, Started s a i → HasIndex s.collector s.actionIndex b i → b = a := by
    intro a b i hstarted hb
    rcases hc a i hstarted with hi | ⟨-, rfl, -⟩
    · exact h.numbered.issued.inj b a i hb hi
    · exact absurd hb h.numbered.issued.not_next
  constructor
  · exact fun a i j hstarted hrow => hindex a i j hstarted (.inr hrow)
  · exact fun a i hstarted capture hmem howner =>
      hindex a i _ hstarted (.inl (h.numbered.captured capture hmem a howner))
  · rintro a b i hstarted (hb | hb | ⟨capture, hmem, howner, rfl⟩)
    · rcases hc b i hb with hi | ⟨-, -, halone⟩
      · exact hforeign a b i hstarted hi
      · exact (halone a hstarted).symm
    · exact hforeign a b i hstarted hb
    · exact hforeign a b _ hstarted (.inl (h.numbered.captured capture hmem b howner))

/-- Only the started rows and the indices matter. -/
theorem Claimed.congr (hc : Claimed s) (hstream : ∀ b i, Started s' b i ↔ Started s b i)
    (hhas : ∀ b i, HasIndex s'.collector s'.actionIndex b i ↔
      HasIndex s.collector s.actionIndex b i)
    (hpeek : s'.collector.peekActionIndex = s.collector.peekActionIndex) : Claimed s' := by
  intro b i hstarted
  rcases hc b i ((hstream b i).mp hstarted) with hi | ⟨hnone, hi, halone⟩
  · exact .inl ((hhas b i).mpr hi)
  · refine .inr ⟨fun j hj => hnone j ((hhas b j).mp hj), hi.trans hpeek.symm, fun d hd => ?_⟩
    exact halone d ((hstream d i).mp hd)

/-- An action takes the next free index. -/
theorem Claimed.take (hc : Claimed s) (hother : NoOther s a)
    (hstream : ∀ b i, Started s' b i ↔ Started s b i)
    (hhas : ∀ b i, HasIndex s'.collector s'.actionIndex b i ↔
      (b = a ∧ i = s.collector.peekActionIndex) ∨ HasIndex s.collector s.actionIndex b i) :
    Claimed s' := by
  intro b i hstarted
  rcases hc b i ((hstream b i).mp hstarted) with hi | ⟨hnone, hi, -⟩
  · exact .inl ((hhas b i).mpr (.inr hi))
  · by_cases hba : b = a
    · exact .inl ((hhas b i).mpr (.inl ⟨hba, hi⟩))
    · exact absurd ⟨⟨i, (hstream b i).mp hstarted⟩, hnone⟩ (hother b hba)

/-! ### Pieces of a step -/

theorem started_emitStarted (attempt : A → T) : Started (s.emitStarted attempt a) b i ↔
    (s.streams attempt a = true ∧ b = a ∧
      i = (s.actionIndex a).getD s.collector.peekActionIndex) ∨ Started s b i := by
  unfold State.emitStarted TraceCollector.emitActionStarted State.streams Started
  split
  · rename_i hno
    refine ⟨.inr, fun hor => hor.resolve_left fun hgo => ?_⟩
    rcases hno with hno | hno <;> simp [hno] at hgo
  · rename_i hgo
    rw [not_or, Bool.not_eq_false, Bool.not_eq_true] at hgo
    constructor
    · rintro ⟨r, hr, hlifecycle, hactor, hi⟩
      rcases List.mem_append.mp hr with hr | hr
      · exact .inr ⟨r, hr, hlifecycle, hactor, hi⟩
      · obtain rfl := List.mem_singleton.mp hr
        exact .inl ⟨by simp [hgo], hactor.symm, hi.symm⟩
    · rintro (⟨-, rfl, rfl⟩ | ⟨r, hr, hrest⟩)
      · exact ⟨_, List.mem_append_right _ (List.mem_singleton_self _), rfl, rfl, rfl⟩
      · exact ⟨r, List.mem_append_left _ hr, hrest⟩

theorem hasIndex_emitStarted (attempt : A → T) :
    HasIndex (s.emitStarted attempt a).collector s.actionIndex b i ↔
      HasIndex s.collector s.actionIndex b i := by
  unfold State.emitStarted TraceCollector.emitActionStarted
  split
  · exact Iff.rfl
  · exact hasIndex_flushPendingGroups

theorem peek_emitStarted (attempt : A → T) :
    (s.emitStarted attempt a).collector.peekActionIndex = s.collector.peekActionIndex := by
  unfold State.emitStarted TraceCollector.emitActionStarted
  split <;> rfl

theorem Claimed.emitStarted (hc : Claimed s) (h : Sound base s) (attempt : A → T)
    (hrow : a ∉ s.collector.recorded)
    (hother : s.actionIndex a = none → s.streams attempt a = true → NoOther s a) :
    Claimed (s.emitStarted attempt a) := by
  intro b i hstarted
  rw [peek_emitStarted]
  change HasIndex (s.emitStarted attempt a).collector s.actionIndex b i ∨
    (∀ j, ¬ HasIndex (s.emitStarted attempt a).collector s.actionIndex b j) ∧ _
  simp only [hasIndex_emitStarted, started_emitStarted]
  by_cases hgo : s.streams attempt a = true
  swap
  · rw [started_emitStarted] at hstarted
    simp only [hgo, false_and, false_or, Bool.false_eq_true] at hstarted ⊢
    exact hc b i hstarted
  cases hindex : s.actionIndex a with
  | some k =>
    rw [started_emitStarted, hindex, Option.getD_some] at hstarted
    have hk : HasIndex s.collector s.actionIndex a k := .inl hindex
    rcases hstarted with ⟨-, rfl, rfl⟩ | hstarted
    · exact .inl hk
    · refine (hc b i hstarted).imp_right fun ⟨hnone, hi, halone⟩ => ⟨hnone, hi, fun d hd => ?_⟩
      rcases hd with ⟨-, rfl, hik⟩ | hd
      · rw [Option.getD_some] at hik
        rw [← hik, hi] at hk
        exact absurd hk h.numbered.issued.not_next
      · exact halone d hd
  | none =>
    -- The row shows the next free index, which nobody else shows.
    have hnone := fun j => @not_hasIndex A s.collector s.actionIndex a j hindex hrow
    rw [started_emitStarted, hindex, Option.getD_none] at hstarted
    have hpeek : ∀ d, Started s d s.collector.peekActionIndex → d = a := by
      intro d hd
      by_contra hda
      rcases hc d _ hd with hnext | ⟨hfree, -, -⟩
      · exact h.numbered.issued.not_next hnext
      · exact hother hindex hgo d hda ⟨⟨_, hd⟩, hfree⟩
    rcases hstarted with ⟨-, rfl, rfl⟩ | hstarted
    · refine .inr ⟨hnone, rfl, fun d hd => ?_⟩
      rcases hd with ⟨-, hda, -⟩ | hd
      · exact hda
      · exact hpeek d hd
    · refine (hc b i hstarted).imp_right fun ⟨hfree, hi, halone⟩ => ⟨hfree, hi, fun d hd => ?_⟩
      rcases hd with ⟨-, rfl, -⟩ | hd
      · exact (hpeek b (hi ▸ hstarted)).symm
      · exact halone d hd

theorem Claimed.reserve [DecidableEq A] (hc : Claimed s)
    (hother : s.actionIndex a = none → NoOther s a) : Claimed (s.reserve a) := by
  unfold State.reserve
  split
  · rename_i hnone
    exact hc.take (hother hnone) (fun _ _ => Iff.rfl) fun b i => hasIndex_reserve hnone
  · exact hc

/-- Completed rows are not started rows. -/
theorem started_addEvent (closed : Bool) : Started (s.addEvent a closed) b i ↔ Started s b i := by
  unfold State.addEvent TraceCollector.addActionEvent Started
  split
  · unfold TraceCollector.dropFencedReservation
    cases s.actionIndex a <;> exact Iff.rfl
  · obtain ⟨m, n, hframe⟩ := indexForEmit_frame s.collector.flushPendingGroups (s.actionIndex a)
    dsimp only
    rw [hframe]
    constructor
    · rintro ⟨r, hr, hlifecycle, hrest⟩
      rcases List.mem_append.mp hr with hr | hr
      · exact ⟨r, hr, hlifecycle, hrest⟩
      · split at hr
        · obtain rfl := List.mem_singleton.mp hr
          cases hlifecycle
        · cases hr
    · rintro ⟨r, hr, hrest⟩
      exact ⟨r, List.mem_append_left _ hr, hrest⟩

theorem Claimed.addEvent (hc : Claimed s) (h : Sound base s) (closed : Bool)
    (hother : s.actionIndex a = none → closed = false → NoOther s a) :
    Claimed (s.addEvent a closed) := by
  cases closed with
  | true =>
    refine hc.congr (fun b i => started_addEvent true)
      (fun b i => hasIndex_dropFencedReservation) ?_
    change (s.collector.dropFencedReservation (s.actionIndex a)).peekActionIndex = _
    unfold TraceCollector.dropFencedReservation
    cases hindex : s.actionIndex a with
    | none => rfl
    | some j => exact peek_spend (h.numbered.issued.lt a j (.inl hindex))
  | false =>
    cases hindex : s.actionIndex a with
    | none =>
      refine hc.take (hother hindex rfl) (fun b i => started_addEvent false) fun b i => ?_
      change HasIndex (s.collector.addActionEvent false a (s.actionIndex a)) _ b i ↔ _
      rw [hindex]
      exact hasIndex_addActionEvent_none
    | some j =>
      refine hc.congr (fun b i => started_addEvent false) (fun b i => ?_) ?_
      · change HasIndex (s.collector.addActionEvent false a (s.actionIndex a)) _ b i ↔ _
        rw [hindex]
        exact hasIndex_addActionEvent_some hindex
      · change (s.collector.addActionEvent false a (s.actionIndex a)).peekActionIndex = _
        rw [hindex]
        exact peek_addActionEvent_some h.numbered hindex

/-! ### The steps -/

section Steps

variable {attempt : A → T}

theorem Claimed.setPending (hc : Claimed s) : Claimed (s.setPending attempt a) := by
  unfold State.setPending TraceCollector.setPendingOperation
  split <;> exact hc

theorem Claimed.clearPending (hc : Claimed s) (closed : Bool) :
    Claimed (s.clearPending closed) := by
  unfold State.clearPending TraceCollector.clearPendingOperation
  split <;> exact hc

theorem noOther_clearPending {closed : Bool} (h : NoOther s a) :
    NoOther (s.clearPending closed) a := by
  unfold State.clearPending TraceCollector.clearPendingOperation
  split <;> exact h

theorem Claimed.endGroup (hc : Claimed s) :
    Claimed { s with collector := s.collector.endGroup } := by
  unfold TraceCollector.endGroup
  dsimp only
  split
  · exact hc
  · exact hc.congr (fun _ _ => Iff.rfl)
      (fun _ _ => hasIndex_mark (c := { s.collector with groupStack := _ })) rfl

variable [DecidableEq A]

theorem Claimed.beginCapture (hc : Claimed s) (purpose : Purpose) (closed : Bool)
    (hother : s.actionIndex a = none → NoOther s a) :
    Claimed (s.beginCapture a purpose closed) :=
  hc.reserve hother

theorem Claimed.launch (hc : Claimed s) (h : Sound base s) (hearly : (s.phase a).early = true)
    (hother : s.actionIndex a = none → s.streams attempt a = true → NoOther s a) :
    Claimed (s.launch attempt a) := by
  have hset : Sound base (s.setPhase a .inFlight) := h.setPhase nofun (fun _ => hearly) nofun
  have hclaimed : Claimed (s.setPhase a .inFlight) := hc
  exact (hclaimed.emitStarted hset attempt (h.early a hearly).1 hother).setPending

theorem Claimed.fallback (hc : Claimed s) (h : Sound base s) (hearly : (s.phase a).early = true)
    (inBudget : Bool) (hother : s.actionIndex a = none →
      inBudget = true ∨ s.streams attempt a = true → NoOther s a) :
    Claimed (s.fallback attempt a inBudget) := by
  unfold State.fallback
  split
  · rename_i hbudget
    exact hc.beginCapture _ _ fun hnone => hother hnone (.inl hbudget)
  · exact hc.launch h hearly fun hnone hstreams => hother hnone (.inr hstreams)

theorem Claimed.call (hc : Claimed s) (h : Sound base s) (hearly : (s.phase a).early = true)
    (skipBeforeCapture batch inBudget : Bool) (hother : s.actionIndex a = none →
      skipBeforeCapture = true ∨ batch = false ∧ (inBudget = true ∨ s.streams attempt a = true) →
        NoOther s a) :
    Claimed (s.call attempt a skipBeforeCapture batch inBudget) := by
  unfold State.call
  split
  · rename_i hskip
    refine (hc.reserve fun hnone => hother hnone (.inl hskip)).launch (h.reserve hearly)
      ((phase_reserve s a).symm ▸ hearly) fun hnone => ?_
    exact absurd hnone (actionIndex_reserve s a)
  · split
    · exact hc
    · rename_i hbatch
      exact hc.fallback h hearly inBudget fun hnone hor =>
        hother hnone (.inr ⟨by simpa using hbatch, hor⟩)

theorem Claimed.batchDone (hc : Claimed s) (h : Sound base s) (hearly : (s.phase a).early = true)
    (success inBudget : Bool) (hother : s.actionIndex a = none →
      success = true ∨ inBudget = true ∨ s.streams attempt a = true → NoOther s a) :
    Claimed (s.batchDone attempt a success inBudget) := by
  unfold State.batchDone
  split
  · rename_i hsuccess
    exact hc.beginCapture _ _ fun hnone => hother hnone (.inl hsuccess)
  · exact hc.fallback h hearly inBudget fun hnone hor => hother hnone (.inr hor)

/-- An action in its capture has its index already. -/
theorem Claimed.captureDone (hc : Claimed s) (h : Sound base s) {purpose : Purpose}
    {todo : List CaptureKind} (hphase : s.phase a = .capturing purpose todo) :
    Claimed (s.captureDone attempt a purpose) := by
  have hindex : s.actionIndex a ≠ none := h.holding a (congrArg Phase.holding hphase)
  cases purpose with
  | action =>
    exact hc.launch h (congrArg Phase.early hphase) fun hnone => absurd hnone hindex
  | row =>
    have hclaimed : Claimed (s.setPhase a .settled) := hc
    exact hclaimed.addEvent h.setSettled _ fun hnone => absurd hnone hindex
  | frame =>
    unfold State.captureDone TraceCollector.emitPendingCaptures
    dsimp only
    split <;> exact hc

theorem Claimed.settle (hc : Claimed s) (h : Sound base s)
    (hother : s.actionIndex a = none → s.failedByTimeout a = false →
      s.isClosed attempt a = false → NoOther s a) : Claimed (s.settle attempt a) := by
  have hclaimed : Claimed ((s.setPhase a .settled).clearPending (s.isClosed attempt a)) :=
    (show Claimed (s.setPhase a .settled) from hc).clearPending _
  unfold State.settle
  dsimp only
  split
  · exact hclaimed
  · rename_i hfailed
    refine hclaimed.addEvent (h.setSettled.clearPending _) _ fun hnone hopen => ?_
    refine noOther_clearPending ?_
    have hnone' : s.actionIndex a = none := by
      unfold State.clearPending TraceCollector.clearPendingOperation at hnone
      exact hnone
    exact hother hnone' (by simpa using hfailed) hopen

theorem Claimed.failPending (hc : Claimed s) (h : Sound base s)
    (hother : ∀ a, s.collector.pendingOperation = some a → s.actionIndex a = none →
      NoOther s a) : Claimed s.failPending := by
  unfold State.failPending
  cases hpending : s.collector.pendingOperation with
  | none => exact hc
  | some a =>
    have hphase : (s.phase a).early = false := by
      by_contra hearly
      exact (h.early a (by simpa using hearly)).2.1 hpending
    have hclaimed : Claimed ((s.clearPending false).setFailed a) := hc.clearPending false
    refine hclaimed.addEvent ((h.clearPending false).setFailed hphase) false fun hnone _ => ?_
    exact noOther_clearPending (hother a hpending hnone)

variable [DecidableEq T] {l : Label A T}

/-- **One step.** -/
theorem Claimed.step (hc : Claimed s) (h : Sound base s) (hclear : Clear attempt s l)
    (hstep : step attempt s l = some s') : Claimed s' := by
  cases l with
  | resolve a =>
    obtain ⟨hphase, hs⟩ := Option.ite_none_right_eq_some.mp hstep
    cases hs
    have hearly : (s.phase a).early = true := congrArg Phase.early hphase
    have hset : Sound base ((s.reserve a).setPhase a .resolving) :=
      (h.reserve hearly).setPhase nofun (fun _ => (phase_reserve s a).symm ▸ hearly)
        fun _ => actionIndex_reserve s a
    have hclaimed : Claimed ((s.reserve a).setPhase a .resolving) :=
      hc.reserve fun hnone => hclear a (if_pos hnone)
    have hphase' : ((s.reserve a).setPhase a .resolving).phase a = .resolving :=
      Function.update_self ..
    exact hclaimed.emitStarted hset attempt (hset.early a (congrArg Phase.early hphase')).1
      fun hnone => absurd hnone (actionIndex_reserve s a)
  | resolveDone a found =>
    obtain ⟨hphase, hs⟩ := Option.ite_none_right_eq_some.mp hstep
    cases hs
    split
    · exact hc
    · exact hc.beginCapture _ _ fun hnone =>
        absurd hnone (h.holding a (congrArg Phase.holding hphase))
  | call a skipBeforeCapture batch inBudget =>
    obtain ⟨hphase, hs⟩ := Option.ite_none_right_eq_some.mp hstep
    cases hs
    have hearly : (s.phase a).early = true := by
      rcases hphase with hphase | hphase <;> exact congrArg Phase.early hphase
    exact hc.call h hearly _ _ _ fun hnone hor => hclear a (if_pos ⟨hnone, hor⟩)
  | batchDone a success inBudget =>
    obtain ⟨hphase, hs⟩ := Option.ite_none_right_eq_some.mp hstep
    cases hs
    exact hc.batchDone h (congrArg Phase.early hphase) _ _
      fun hnone hor => hclear a (if_pos ⟨hnone, hor⟩)
  | captured a kind =>
    obtain ⟨purpose, todo, index, hphase, hindex, rfl⟩ := stepCaptured_eq_some hstep
    exact hc
  | captureDone a =>
    obtain ⟨purpose, todo, hphase, rfl⟩ := stepCaptureDone_eq_some hstep
    exact hc.captureDone h hphase
  | settle a =>
    obtain ⟨hphase, hs⟩ := Option.ite_none_right_eq_some.mp hstep
    cases hs
    exact hc.settle h fun hnone hfailed hopen => hclear a (if_pos ⟨hnone, hfailed, hopen⟩)
  | query a =>
    obtain ⟨hphase, hs⟩ := Option.ite_none_right_eq_some.mp hstep
    cases hs
    have hearly : (s.phase a).early = true := congrArg Phase.early hphase
    have hset : Sound base (s.setPhase a .querying) := h.setPhase nofun (fun _ => hearly) nofun
    have hclaimed : Claimed (s.setPhase a .querying) := hc
    exact hclaimed.emitStarted hset attempt (h.early a hearly).1
      fun hnone hstreams => hclear a (if_pos ⟨hnone, hstreams⟩)
  | queryDone a =>
    obtain ⟨hphase, hs⟩ := Option.ite_none_right_eq_some.mp hstep
    cases hs
    exact hc.beginCapture _ _ fun hnone => hclear a (if_pos hnone)
  | note a =>
    obtain ⟨hphase, hs⟩ := Option.ite_none_right_eq_some.mp hstep
    cases hs
    have hclaimed : Claimed (s.setPhase a .settled) := hc
    exact hclaimed.addEvent h.setSettled _ fun hnone hopen => hclear a (if_pos ⟨hnone, hopen⟩)
  | terminal a =>
    obtain ⟨hphase, hs⟩ := Option.ite_none_right_eq_some.mp hstep
    cases hs
    exact hc.beginCapture _ _ fun hnone => hclear a (if_pos hnone)
  | failPending =>
    cases hstep
    refine hc.failPending h fun a hpending hnone => hclear a ?_
    exact Option.filter_eq_some_iff.mpr ⟨hpending, decide_eq_true hnone⟩
  | closeAttempt t =>
    cases hstep
    exact hc
  | startGroup name =>
    cases hstep
    exact hc
  | endGroup =>
    cases hstep
    exact hc.endGroup
  | console =>
    cases hstep
    exact hc.congr (fun _ _ => Iff.rfl)
      (fun _ _ => hasIndex_mark.trans hasIndex_flushPendingGroups) rfl

/-- The steps of the actions, and those of them that are clear. -/
def Traces (attempt : A → T) (s : State A T) (l : Label A T) (s' : State A T) : Prop :=
  step attempt s l = some s'

def ClearTraces (attempt : A → T) (s : State A T) (l : Label A T) (s' : State A T) : Prop :=
  Clear attempt s l ∧ step attempt s l = some s'

/-- The state a test starts in. -/
def openState (config : TraceConfig) (onEvent : Bool) (rec : ScopeSetupRecording A) : State A T :=
  { collector := openCollector config onEvent rec }

variable {config : TraceConfig} {onEvent : Bool} {rec : ScopeSetupRecording A}
  {ls : List (Label A T)}

theorem sound_of_run (hrun : Run (Traces attempt) (openState config onEvent rec) ls s) :
    Sound rec.actionCount s :=
  hrun.invariant (fun _ _ _ h hstep => h.step hstep) (sound_open config onEvent rec)

theorem claimed_of_run (hrun : Run (ClearTraces attempt) (openState config onEvent rec) ls s) :
    Claimed s := by
  induction hrun with
  | nil =>
    rintro a i ⟨r, hr, -⟩
    cases hr
  | snoc hrun hstep ih =>
    exact ih.step (sound_of_run (hrun.mono fun _ _ _ h => h.2)) hstep.1 hstep.2

omit [DecidableEq A] [DecidableEq T] in
/-- Completed rows have indices of their own. -/
theorem Sound.nodup_completed (h : Sound base s) :
    (s.collector.completedRows.map TraceEvent.actionIndex).Nodup := by
  have honce := h.numbered.once
  unfold TraceCollector.recorded at honce
  unfold TraceCollector.completedRows
  rw [List.Nodup, List.pairwise_filterMap] at honce
  rw [List.Nodup, List.pairwise_map, List.pairwise_filter]
  refine honce.imp_of_mem fun {e e'} he he' hne hactor hactor' heq => ?_
  obtain ⟨a, ha⟩ := Option.isSome_iff_exists.mp hactor
  obtain ⟨b, hb⟩ := Option.isSome_iff_exists.mp hactor'
  refine hne a ha b hb (h.numbered.issued.inj a b _ (h.numbered.hasIndex_of_event he ha) ?_)
  rw [heq]
  exact h.numbered.hasIndex_of_event he' hb

/-- **Rows pair up.**  In every run no two completed rows share an index, with each other or with
    the replayed setup; and where no step takes or shows an index that another action shows, each
    started row carries the index of its own completed row and captures, and of no other action. -/
theorem trace_rows_pair (hrun : Run (Traces attempt) (openState config onEvent rec) ls s) :
    (s.collector.completedRows.map TraceEvent.actionIndex).Nodup ∧
    (∀ e ∈ s.collector.completedRows, ∀ e' ∈ s.collector.events, e'.isRow = true →
      e'.actor = none → e'.actionIndex < e.actionIndex) ∧
    (Run (ClearTraces attempt) (openState config onEvent rec) ls s → Paired s) := by
  have h := sound_of_run hrun
  refine ⟨h.nodup_completed, ?_, fun hclear => (claimed_of_run hclear).paired h⟩
  intro e he e' he' hrow hnone
  obtain ⟨he, hactor⟩ := List.mem_filter.mp he
  obtain ⟨a, ha⟩ := Option.isSome_iff_exists.mp hactor
  exact Nat.lt_of_lt_of_le (h.numbered.replayed e' he' hrow hnone)
    (h.numbered.issued.ge a _ (h.numbered.hasIndex_of_event he ha))

omit [DecidableEq A] [DecidableEq T] in
/-- Steps are clear as long as every row is streamed with its index reserved. -/
theorem clear_of_reserved (hreserved : ∀ r ∈ s.collector.stream, s.actionIndex r.actor ≠ none)
    (l : Label A T) : Clear attempt s l := by
  rintro a - b - ⟨⟨i, r, hr, -, hactor, -⟩, hnone⟩
  obtain ⟨j, hj⟩ := Option.ne_none_iff_exists'.mp (hreserved r hr)
  exact hnone j (.inl (hactor ▸ hj))

/-- The resets of two devices, side by side: the first to start is the last to complete. -/
theorem trace_rows_pair_resets :
    ∃ s : State ℕ Unit, Run (Traces fun _ => ()) (openState ⟨true, true⟩ true .empty)
        [.call 0 true false true, .call 1 true false true, .settle 1, .settle 0] s ∧
      s.collector.completedRows.map TraceEvent.actionIndex = [1, 0] ∧
      (s.collector.completedRows.map TraceEvent.actionIndex).Nodup ∧ Paired s := by
  let start : State ℕ Unit := openState ⟨true, true⟩ true .empty
  have hstart : Run (ClearTraces fun _ => ()) start [] start := .nil
  have hfirst := hstart.snoc (e := .call 0 true false true)
    ⟨clear_of_reserved (by decide) _, rfl⟩
  have hsecond := hfirst.snoc (e := .call 1 true false true)
    ⟨clear_of_reserved (by decide) _, rfl⟩
  have hthird := hsecond.snoc (e := .settle 1) ⟨clear_of_reserved (by decide) _, rfl⟩
  have hclear := hthird.snoc (e := .settle 0) ⟨clear_of_reserved (by decide) _, rfl⟩
  have hpair := trace_rows_pair (hclear.mono fun _ _ _ h => h.2)
  exact ⟨_, hclear.mono fun _ _ _ h => h.2, rfl, hpair.1, hpair.2.2 hclear⟩

/-- The captures of two devices both run out of time: each action shows index 0, and the one that
    completes second completes at index 1. -/
theorem trace_rows_mixed :
    ∃ s : State ℕ Unit, Run (Traces fun _ => ()) (openState ⟨true, true⟩ true .empty)
        [.call 0 false true false, .call 1 false true false, .batchDone 0 false false,
          .batchDone 1 false false, .settle 0, .settle 1] s ∧ ¬ Paired s := by
  refine ⟨_, run_of_foldlM rfl, fun h => ?_⟩
  have hne := h.completed 1 0 1
    ⟨_, List.mem_cons_of_mem _ (List.mem_cons_self ..), rfl, rfl, rfl⟩ (by decide)
  cases hne

end Steps

end Tapsmith.Trace
