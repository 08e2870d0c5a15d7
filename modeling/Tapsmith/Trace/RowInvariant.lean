import Tapsmith.Trace.Numbering

namespace Tapsmith.Trace

open Lib.Tickets

/-!
# The invariant of traced actions

What holds between the phase an action is in, its row and its index, in every run.

* `Sound` — the invariant, with one lemma for each piece of a step;
* `Sound.step` — every step keeps it.
-/

variable {A T : Type}

/-- The action has not begun to run. -/
def Phase.early : Phase → Bool
  | .inFlight => false
  | .settled => false
  | _ => true

/-- The action has reserved its index. -/
def Phase.holding : Phase → Bool
  | .resolving => true
  | .resolved => true
  | .capturing _ _ => true
  | _ => false

structure Sound (base : ℕ) (s : State A T) : Prop where
  numbered : Numbered base s.collector s.actionIndex
  early : ∀ a, (s.phase a).early = true → a ∉ s.collector.recorded ∧
    s.collector.pendingOperation ≠ some a ∧ s.failedByTimeout a = false
  inFlight : ∀ a, s.phase a = .inFlight → a ∈ s.collector.recorded → s.failedByTimeout a = true
  /-- A handler that is still registered has a row to write. -/
  pending : ∀ a, s.collector.pendingOperation = some a → a ∉ s.collector.recorded
  holding : ∀ a, (s.phase a).holding = true → s.actionIndex a ≠ none
  idle : ∀ a, s.phase a = .idle → ∀ r ∈ s.collector.stream, r.actor ≠ a
  buffered : ∀ capture ∈ s.collector.pendingCaptures,
    capture ∈ s.collector.captures ∧ capture.owner ≠ none
  completed : ∀ r ∈ s.collector.stream, r.lifecycle = .completed →
    { isRow := true, actionIndex := r.actionIndex, actor := some r.actor } ∈ s.collector.events
  /-- A streamed row shows nothing but captures of its own action. -/
  shown : ∀ r ∈ s.collector.stream, ∀ capture ∈ r.captures, capture.owner = some r.actor

variable {base : ℕ} {s : State A T} {a b : A} {p : Phase}

/-! ### The operation in flight -/

theorem Sound.setPending (h : Sound base s) (attempt : A → T)
    (hphase : (s.phase a).early = false) (hrow : a ∉ s.collector.recorded) :
    Sound base (s.setPending attempt a) := by
  unfold State.setPending TraceCollector.setPendingOperation
  split
  · exact h
  · constructor
    · exact h.numbered.congr rfl (Nat.le_refl _) rfl rfl
    · intro b hb
      obtain ⟨hrowb, -, hfailed⟩ := h.early b hb
      refine ⟨hrowb, fun hpending => ?_, hfailed⟩
      obtain rfl := Option.some.inj hpending
      exact absurd (hphase.symm.trans hb) Bool.false_ne_true
    · exact h.inFlight
    · intro b hb
      obtain rfl := Option.some.inj hb
      exact hrow
    · exact h.holding
    · exact h.idle
    · exact h.buffered
    · exact h.completed
    · exact h.shown

theorem Sound.clearPending (h : Sound base s) (closed : Bool) :
    Sound base (s.clearPending closed) := by
  unfold State.clearPending TraceCollector.clearPendingOperation
  split
  · exact h
  · constructor
    · exact h.numbered.congr rfl (Nat.le_refl _) rfl rfl
    · exact fun b hb => ⟨(h.early b hb).1, nofun, (h.early b hb).2.2⟩
    · exact h.inFlight
    · exact nofun
    · exact h.holding
    · exact h.idle
    · exact h.buffered
    · exact h.completed
    · exact h.shown

/-! ### Captures -/

/-- What is buffered under the index of an action is its own. -/
theorem Sound.owner_of_pendingAt (h : Sound base s) {i : ℕ} {capture : Capture A}
    (hmem : capture ∈ s.collector.pendingAt i) (hi : s.actionIndex a = some i) :
    capture.owner = some a := by
  obtain ⟨hmem, hindex⟩ := List.mem_filter.mp hmem
  obtain ⟨hcapture, howner⟩ := h.buffered capture hmem
  obtain ⟨b, hb⟩ := Option.ne_none_iff_exists'.mp howner
  have hhas := h.numbered.captured capture hcapture b hb
  rw [of_decide_eq_true hindex] at hhas
  rw [hb, h.numbered.issued.inj b a i (.inl hhas) (.inl hi)]

/-- Nothing is buffered under the next free index. -/
theorem Sound.pendingAt_next (h : Sound base s) :
    s.collector.pendingAt s.collector.peekActionIndex = [] := by
  refine List.filter_eq_nil_iff.mpr fun capture hmem hindex => ?_
  have hlt := h.numbered.captured_lt capture (h.buffered capture hmem).1
  exact absurd (of_decide_eq_true hindex) (Nat.ne_of_lt hlt)

theorem Sound.recordBefore (h : Sound base s) (kind : CaptureKind) {i : ℕ}
    (hi : s.actionIndex a = some i) :
    Sound base { s with collector := s.collector.recordBefore a kind i } := by
  constructor
  · exact h.numbered.recordBefore hi kind
  · exact h.early
  · exact h.inFlight
  · exact h.pending
  · exact h.holding
  · exact h.idle
  · intro capture hmem
    rcases List.mem_append.mp hmem with hmem | hmem
    · obtain ⟨hcapture, howner⟩ := h.buffered capture hmem
      exact ⟨List.mem_append_left _ hcapture, howner⟩
    · split at hmem
      · obtain rfl := List.mem_singleton.mp hmem
        exact ⟨List.mem_append_right _ (List.mem_singleton_self _), nofun⟩
      · cases hmem
  · exact h.completed
  · exact h.shown

theorem Sound.emitPendingCaptures (h : Sound base s) (i : ℕ) :
    Sound base { s with collector := s.collector.emitPendingCaptures i } := by
  unfold TraceCollector.emitPendingCaptures
  split
  · constructor
    · exact h.numbered.congr rfl (Nat.le_refl _) rfl rfl
    · exact h.early
    · exact h.inFlight
    · exact h.pending
    · exact h.holding
    · exact h.idle
    · exact fun capture hmem => h.buffered capture (List.mem_filter.mp hmem).1
    · exact h.completed
    · exact h.shown
  · exact h

/-! ### Rows -/

/-- Events between the rows change nothing else. -/
theorem Sound.withCollector (h : Sound base s) {c : TraceCollector A}
    (hnumbered : Numbered base c s.actionIndex) (hrecorded : c.recorded = s.collector.recorded)
    (hpending : c.pendingOperation = s.collector.pendingOperation)
    (hstream : c.stream = s.collector.stream) (hcaptures : c.captures = s.collector.captures)
    (hbuffered : c.pendingCaptures = s.collector.pendingCaptures)
    (hevents : s.collector.events ⊆ c.events) : Sound base { s with collector := c } := by
  constructor
  · exact hnumbered
  · intro b hb
    dsimp only
    rw [hrecorded, hpending]
    exact h.early b hb
  · intro b hb hrow
    exact h.inFlight b hb (hrecorded ▸ hrow)
  · intro b hb
    dsimp only at hb ⊢
    rw [hpending] at hb
    rw [hrecorded]
    exact h.pending b hb
  · exact h.holding
  · exact hstream ▸ h.idle
  · exact hcaptures ▸ hbuffered ▸ h.buffered
  · exact fun r hr hlifecycle => hevents (h.completed r (hstream ▸ hr) hlifecycle)
  · exact hstream ▸ h.shown

theorem Sound.flushPendingGroups (h : Sound base s) :
    Sound base { s with collector := s.collector.flushPendingGroups } :=
  h.withCollector h.numbered.flushPendingGroups recorded_flushPendingGroups rfl rfl rfl rfl
    (List.subset_append_left _ _)

/-- An event between two rows. -/
theorem Sound.mark (h : Sound base s) (i : ℕ) :
    Sound base { s with collector := { s.collector with
      events := s.collector.events ++ [{ isRow := false, actionIndex := i }] } } := by
  refine h.withCollector h.numbered.mark ?_ rfl rfl rfl rfl (List.subset_append_left _ _)
  unfold TraceCollector.recorded
  rw [List.filterMap_append]
  exact List.append_nil _

theorem Sound.endGroup (h : Sound base s) :
    Sound base { s with collector := s.collector.endGroup } := by
  have hpop : Sound base { s with collector :=
      { s.collector with groupStack := s.collector.groupStack.dropLast } } :=
    h.withCollector (h.numbered.congr rfl (Nat.le_refl _) rfl rfl) rfl rfl rfl rfl rfl fun _ => id
  unfold TraceCollector.endGroup
  dsimp only
  split
  · exact h.withCollector (h.numbered.congr rfl (Nat.le_refl _) rfl rfl) rfl rfl rfl rfl rfl fun _ => id
  · exact hpop.mark _

theorem Sound.emitStarted (h : Sound base s) (attempt : A → T) (hphase : s.phase a ≠ .idle) :
    Sound base (s.emitStarted attempt a) := by
  unfold State.emitStarted
  have hnumbered := h.numbered.emitActionStarted (s.isClosed attempt a) a (s.actionIndex a)
  unfold TraceCollector.emitActionStarted at hnumbered ⊢
  split at hnumbered
  · rename_i hno
    rw [if_pos hno]
    exact h
  · rename_i hgo
    rw [if_neg hgo]
    have hf := h.flushPendingGroups
    constructor
    · exact hnumbered
    · exact hf.early
    · exact hf.inFlight
    · exact hf.pending
    · exact hf.holding
    · intro b hb r hr
      rcases List.mem_append.mp hr with hr | hr
      · exact h.idle b hb r hr
      · obtain rfl := List.mem_singleton.mp hr
        rintro rfl
        exact hphase hb
    · exact hf.buffered
    · intro r hr hlifecycle
      rcases List.mem_append.mp hr with hr | hr
      · exact hf.completed r hr hlifecycle
      · obtain rfl := List.mem_singleton.mp hr
        cases hlifecycle
    · intro r hr capture hmem
      rcases List.mem_append.mp hr with hr | hr
      · exact h.shown r hr capture hmem
      · obtain rfl := List.mem_singleton.mp hr
        cases hindex : s.actionIndex a with
        | none =>
          -- A row that shows the next free index shows no capture.
          simp only [hindex, Option.getD_none] at hmem
          have hnil := hf.pendingAt_next
          rw [hnil] at hmem
          cases hmem
        | some i =>
          simp only [hindex, Option.getD_some] at hmem
          exact hf.owner_of_pendingAt hmem hindex

/-- The first row of an action, from its own code or from the timeout handler. -/
theorem Sound.addEvent (h : Sound base s) (closed : Bool) (hrow : a ∉ s.collector.recorded)
    (hphase : (s.phase a).early = false)
    (hflight : s.phase a = .inFlight → s.failedByTimeout a = true)
    (hpending : closed = false → s.collector.pendingOperation ≠ some a) :
    Sound base (s.addEvent a closed) := by
  have hnumbered := h.numbered.addActionEvent hrow closed
  unfold State.addEvent TraceCollector.addActionEvent at *
  split at hnumbered
  · rename_i hclosed
    rw [if_pos hclosed]
    have hsame : (s.collector.dropFencedReservation (s.actionIndex a)) =
      { s.collector with actionIndex :=
          (s.collector.dropFencedReservation (s.actionIndex a)).actionIndex } := by
      unfold TraceCollector.dropFencedReservation
      cases s.actionIndex a <;> rfl
    rw [hsame] at hnumbered ⊢
    exact h.withCollector hnumbered rfl rfl rfl rfl rfl fun _ => id
  · rename_i hopen
    rw [if_neg hopen]
    have hf := h.flushPendingGroups
    obtain ⟨m, n, hframe⟩ := indexForEmit_frame s.collector.flushPendingGroups (s.actionIndex a)
    have hindex := indexForEmit_fst s.collector.flushPendingGroups (s.actionIndex a)
    generalize s.collector.flushPendingGroups.indexForEmit (s.actionIndex a) = r at *
    obtain ⟨i, c⟩ := r
    dsimp only at hframe hindex
    subst hframe
    have hrecorded : ∀ b, b ∈ TraceCollector.recorded
        { s.collector.flushPendingGroups with events := s.collector.flushPendingGroups.events ++
            [{ isRow := true, actionIndex := i, actor := some a }] } ↔
        b ∈ s.collector.recorded ∨ b = a := by
      intro b
      rw [← @recorded_flushPendingGroups A s.collector]
      unfold TraceCollector.recorded
      rw [List.filterMap_append, List.mem_append]
      exact or_congr_right List.mem_singleton
    constructor
    · exact hnumbered
    · intro b hb
      obtain ⟨hrowb, hpend, hfailed⟩ := h.early b hb
      refine ⟨fun hmem => ?_, hpend, hfailed⟩
      rcases (hrecorded b).mp hmem with hmem | rfl
      · exact hrowb hmem
      · exact absurd (hphase.symm.trans hb) Bool.false_ne_true
    · intro b hb hmem
      rcases (hrecorded b).mp hmem with hmem | rfl
      · exact h.inFlight b hb hmem
      · exact hflight hb
    · intro b hb hmem
      rcases (hrecorded b).mp hmem with hmem | rfl
      · exact h.pending b hb hmem
      · exact hpending (by simpa using hopen) hb
    · exact h.holding
    · intro b hb r hr
      rcases List.mem_append.mp hr with hr | hr
      · exact h.idle b hb r hr
      · split at hr
        · obtain rfl := List.mem_singleton.mp hr
          rintro rfl
          rw [hb] at hphase
          cases hphase
        · cases hr
    · exact fun capture hmem => hf.buffered capture (List.mem_filter.mp hmem).1
    · intro r hr hlifecycle
      rcases List.mem_append.mp hr with hr | hr
      · exact List.mem_append_left _ (hf.completed r hr hlifecycle)
      · split at hr
        · obtain rfl := List.mem_singleton.mp hr
          exact List.mem_append_right _ (List.mem_singleton_self _)
        · cases hr
    · intro r hr capture hmem
      rcases List.mem_append.mp hr with hr | hr
      · exact h.shown r hr capture hmem
      · split at hr
        · obtain rfl := List.mem_singleton.mp hr
          cases hreserved : s.actionIndex a with
          | none =>
            rw [hreserved, Option.getD_none] at hindex
            subst hindex
            have hnil := hf.pendingAt_next
            exact absurd (hnil ▸ hmem) List.not_mem_nil
          | some j =>
            rw [hreserved, Option.getD_some] at hindex
            subst hindex
            exact hf.owner_of_pendingAt hmem hreserved
        · cases hr

section Phases

variable [DecidableEq A]

/-! ### Phases -/

theorem Sound.setPhase (h : Sound base s) (hidle : p ≠ .idle)
    (hearly : p ≠ .settled → (s.phase a).early = true)
    (hholding : p.holding = true → s.actionIndex a ≠ none) : Sound base (s.setPhase a p) := by
  have hself : (s.setPhase a p).phase a = p := Function.update_self ..
  have hne : ∀ b, b ≠ a → (s.setPhase a p).phase b = s.phase b :=
    fun b hb => Function.update_of_ne hb ..
  constructor
  · exact h.numbered
  · intro b hb
    by_cases hba : b = a
    · subst hba
      refine h.early b (hearly ?_)
      rintro rfl
      rw [hself] at hb
      cases hb
    · rw [hne b hba] at hb
      exact h.early b hb
  · intro b hb hrow
    by_cases hba : b = a
    · subst hba
      rw [hself] at hb
      exact absurd hrow (h.early b (hearly (by rw [hb]; nofun))).1
    · rw [hne b hba] at hb
      exact h.inFlight b hb hrow
  · exact h.pending
  · intro b hb
    by_cases hba : b = a
    · subst hba
      rw [hself] at hb
      exact hholding hb
    · rw [hne b hba] at hb
      exact h.holding b hb
  · intro b hb
    by_cases hba : b = a
    · subst hba
      exact absurd (hself.symm.trans hb) hidle
    · rw [hne b hba] at hb
      exact h.idle b hb
  · exact h.buffered
  · exact h.completed
  · exact h.shown

/-- An index is reserved where there is none. -/
theorem Sound.reserve (h : Sound base s) (hearly : (s.phase a).early = true) :
    Sound base (s.reserve a) := by
  unfold State.reserve
  split
  · rename_i hnone
    constructor
    · exact h.numbered.reserve hnone (h.early a hearly).1
    · exact h.early
    · exact h.inFlight
    · exact h.pending
    · intro b hb
      dsimp only
      by_cases hba : b = a
      · subst hba
        rw [Function.update_self]
        nofun
      · rw [Function.update_of_ne hba]
        exact h.holding b hb
    · exact h.idle
    · exact h.buffered
    · exact h.completed
    · exact h.shown
  · exact h

theorem actionIndex_reserve (s : State A T) (a : A) : (s.reserve a).actionIndex a ≠ none := by
  unfold State.reserve
  split
  · dsimp only
    rw [Function.update_self]
    nofun
  · assumption

@[simp] theorem phase_reserve (s : State A T) (a : A) : (s.reserve a).phase = s.phase := by
  unfold State.reserve
  split <;> rfl

theorem Sound.setFailed (h : Sound base s) (hphase : (s.phase a).early = false) :
    Sound base (s.setFailed a) := by
  constructor
  · exact h.numbered
  · intro b hb
    have hba : b ≠ a := by
      rintro rfl
      exact absurd (hphase.symm.trans hb) Bool.false_ne_true
    obtain ⟨hrow, hpending, hfailed⟩ := h.early b hb
    exact ⟨hrow, hpending, (Function.update_of_ne hba ..).trans hfailed⟩
  · intro b hb hrow
    by_cases hba : b = a
    · subst hba
      exact Function.update_self ..
    · exact (Function.update_of_ne hba ..).trans (h.inFlight b hb hrow)
  · exact h.pending
  · exact h.holding
  · exact h.idle
  · exact h.buffered
  · exact h.completed
  · exact h.shown

/-! ### The steps -/

variable {attempt : A → T} {s' : State A T}

omit [DecidableEq A] in
theorem recorded_emitStarted :
    (s.emitStarted attempt a).collector.recorded = s.collector.recorded := by
  unfold State.emitStarted TraceCollector.emitActionStarted
  split
  · rfl
  · exact recorded_flushPendingGroups

theorem Sound.beginCapture (h : Sound base s) (purpose : Purpose) (closed : Bool)
    (hearly : (s.phase a).early = true) : Sound base (s.beginCapture a purpose closed) := by
  refine (h.reserve hearly).setPhase nofun (fun _ => ?_) fun _ => actionIndex_reserve s a
  rw [phase_reserve]
  exact hearly

theorem Sound.launch (h : Sound base s) (hearly : (s.phase a).early = true) :
    Sound base (s.launch attempt a) := by
  have hphase : (s.setPhase a .inFlight).phase a = .inFlight := Function.update_self ..
  have hset : Sound base (s.setPhase a .inFlight) := h.setPhase nofun (fun _ => hearly) nofun
  have hstarted := hset.emitStarted attempt (a := a) (by rw [hphase]; nofun)
  refine hstarted.setPending attempt ?_ ?_
  · exact congrArg Phase.early hphase
  · rw [recorded_emitStarted]
    exact (h.early a hearly).1

theorem Sound.fallback (h : Sound base s) (inBudget : Bool) (hearly : (s.phase a).early = true) :
    Sound base (s.fallback attempt a inBudget) := by
  unfold State.fallback
  split
  · exact h.beginCapture _ _ hearly
  · exact h.launch hearly

theorem Sound.call (h : Sound base s) (skipBeforeCapture batch inBudget : Bool)
    (hearly : (s.phase a).early = true) :
    Sound base (s.call attempt a skipBeforeCapture batch inBudget) := by
  unfold State.call
  split
  · exact (h.reserve hearly).launch ((phase_reserve s a).symm ▸ hearly)
  · split
    · exact h.setPhase nofun (fun _ => hearly) nofun
    · exact h.fallback inBudget hearly

theorem Sound.batchDone (h : Sound base s) (success inBudget : Bool)
    (hearly : (s.phase a).early = true) :
    Sound base (s.batchDone attempt a success inBudget) := by
  unfold State.batchDone
  split
  · exact h.beginCapture _ _ hearly
  · exact h.fallback inBudget hearly

theorem Sound.setSettled (h : Sound base s) : Sound base (s.setPhase a .settled) :=
  h.setPhase nofun (fun hne => absurd rfl hne) nofun

/-- An action that has no row yet settles with its first one. -/
theorem Sound.settleWith (h : Sound base s) (closed : Bool) (hrow : a ∉ s.collector.recorded)
    (hpending : closed = false → s.collector.pendingOperation ≠ some a) :
    Sound base ((s.setPhase a .settled).addEvent a closed) := by
  have hphase : (s.setPhase a .settled).phase a = .settled := Function.update_self ..
  refine h.setSettled.addEvent closed hrow (congrArg Phase.early hphase) (fun hflight => ?_) hpending
  rw [hphase] at hflight
  cases hflight

theorem Sound.captureDone (h : Sound base s) (purpose : Purpose)
    (hearly : (s.phase a).early = true) : Sound base (s.captureDone attempt a purpose) := by
  obtain ⟨hrow, hpending, -⟩ := h.early a hearly
  cases purpose with
  | action => exact h.launch hearly
  | row => exact h.settleWith _ hrow fun _ => hpending
  | frame => exact h.setSettled.emitPendingCaptures _

theorem Sound.settle (h : Sound base s) (hphase : s.phase a = .inFlight) :
    Sound base (s.settle attempt a) := by
  have hclear := h.clearPending (s.isClosed attempt a)
  unfold State.settle
  dsimp only
  split
  · exact h.setSettled.clearPending _
  · rename_i hfailed
    have hrecorded : (s.clearPending (s.isClosed attempt a)).collector.recorded =
        s.collector.recorded := by
      unfold State.clearPending TraceCollector.clearPendingOperation
      split <;> rfl
    refine hclear.settleWith (s.isClosed attempt a) ?_ fun hopen => ?_
    · rw [hrecorded]
      exact fun hrow => hfailed (h.inFlight a hphase hrow)
    · unfold State.clearPending TraceCollector.clearPendingOperation
      rw [hopen]
      nofun

/-- The handler of the action in flight writes its first row. -/
theorem Sound.failPending (h : Sound base s) : Sound base s.failPending := by
  unfold State.failPending
  cases hpending : s.collector.pendingOperation with
  | none => exact h
  | some a =>
    have hrow := h.pending a hpending
    have hphase : (s.phase a).early = false := by
      by_contra hearly
      exact (h.early a (by simpa using hearly)).2.1 hpending
    have hclear := h.clearPending false
    refine (hclear.setFailed hphase).addEvent false hrow hphase (fun _ => ?_) nofun
    exact Function.update_self ..

/-- What it takes for a capture to arrive. -/
theorem stepCaptured_eq_some {kind : CaptureKind} (h : s.stepCaptured a kind = some s') :
    ∃ purpose todo index, s.phase a = .capturing purpose todo ∧ s.actionIndex a = some index ∧
      s' = s.captured a purpose todo kind index := by
  unfold State.stepCaptured at h
  split at h
  · rename_i purpose todo index hphase hindex
    obtain ⟨-, hs⟩ := Option.ite_none_right_eq_some.mp h
    cases hs
    exact ⟨purpose, todo, index, hphase, hindex, rfl⟩
  · cases h

theorem stepCaptureDone_eq_some (h : s.stepCaptureDone attempt a = some s') :
    ∃ purpose todo, s.phase a = .capturing purpose todo ∧
      s' = s.captureDone attempt a purpose := by
  unfold State.stepCaptureDone at h
  split at h
  · rename_i purpose todo hphase
    cases h
    exact ⟨purpose, todo, hphase, rfl⟩
  · cases h

variable [DecidableEq T] {l : Label A T}

/-- **One step.** -/
theorem Sound.step (h : Sound base s) (hstep : step attempt s l = some s') : Sound base s' := by
  cases l with
  | resolve a =>
    obtain ⟨hphase, hs⟩ := Option.ite_none_right_eq_some.mp hstep
    cases hs
    have hearly : (s.phase a).early = true := congrArg Phase.early hphase
    have hset : Sound base ((s.reserve a).setPhase a .resolving) := by
      refine (h.reserve hearly).setPhase nofun (fun _ => ?_) fun _ => actionIndex_reserve s a
      rw [phase_reserve]
      exact hearly
    refine hset.emitStarted attempt fun hidle => ?_
    exact absurd ((Function.update_self ..).symm.trans hidle) nofun
  | resolveDone a found =>
    obtain ⟨hphase, hs⟩ := Option.ite_none_right_eq_some.mp hstep
    cases hs
    split
    · exact h.setPhase nofun (fun _ => congrArg Phase.early hphase)
        fun _ => h.holding a (congrArg Phase.holding hphase)
    · exact h.beginCapture _ _ (congrArg Phase.early hphase)
  | call a skipBeforeCapture batch inBudget =>
    obtain ⟨hphase, hs⟩ := Option.ite_none_right_eq_some.mp hstep
    cases hs
    refine h.call _ _ _ ?_
    rcases hphase with hphase | hphase <;> exact congrArg Phase.early hphase
  | batchDone a success inBudget =>
    obtain ⟨hphase, hs⟩ := Option.ite_none_right_eq_some.mp hstep
    cases hs
    exact h.batchDone _ _ (congrArg Phase.early hphase)
  | captured a kind =>
    obtain ⟨purpose, todo, index, hphase, hindex, rfl⟩ := stepCaptured_eq_some hstep
    have hearly : (s.phase a).early = true := congrArg Phase.early hphase
    have hset : Sound base (s.setPhase a (.capturing purpose (todo.erase kind))) := by
      refine h.setPhase nofun (fun _ => hearly) fun _ => ?_
      rw [hindex]
      nofun
    exact hset.recordBefore kind hindex
  | captureDone a =>
    obtain ⟨purpose, todo, hphase, rfl⟩ := stepCaptureDone_eq_some hstep
    exact h.captureDone purpose (congrArg Phase.early hphase)
  | settle a =>
    obtain ⟨hphase, hs⟩ := Option.ite_none_right_eq_some.mp hstep
    cases hs
    exact h.settle hphase
  | query a =>
    obtain ⟨hphase, hs⟩ := Option.ite_none_right_eq_some.mp hstep
    cases hs
    have hset : Sound base (s.setPhase a .querying) :=
      h.setPhase nofun (fun _ => congrArg Phase.early hphase) nofun
    refine hset.emitStarted attempt fun hidle => ?_
    exact absurd ((Function.update_self ..).symm.trans hidle) nofun
  | queryDone a =>
    obtain ⟨hphase, hs⟩ := Option.ite_none_right_eq_some.mp hstep
    cases hs
    exact h.beginCapture _ _ (congrArg Phase.early hphase)
  | note a =>
    obtain ⟨hphase, hs⟩ := Option.ite_none_right_eq_some.mp hstep
    cases hs
    obtain ⟨hrow, hpending, -⟩ := h.early a (congrArg Phase.early hphase)
    exact h.settleWith _ hrow fun _ => hpending
  | terminal a =>
    obtain ⟨hphase, hs⟩ := Option.ite_none_right_eq_some.mp hstep
    cases hs
    exact h.beginCapture _ _ (congrArg Phase.early hphase.1)
  | failPending =>
    cases hstep
    exact h.failPending
  | closeAttempt t =>
    cases hstep
    exact ⟨h.numbered, h.early, h.inFlight, h.pending, h.holding, h.idle, h.buffered, h.completed,
      h.shown⟩
  | startGroup name =>
    cases hstep
    exact h.withCollector (h.numbered.congr rfl (Nat.le_refl _) rfl rfl) rfl rfl rfl rfl rfl fun _ => id
  | endGroup =>
    cases hstep
    exact h.endGroup
  | console =>
    cases hstep
    exact h.flushPendingGroups.mark _

end Phases

/-! ### Recordings -/

/-- `setupRecording`: what a collector has recorded, for replay.  Captures are looked up by the
    index of a row. -/
def setupRecording (s : State A T) (h : Sound base s) : ScopeSetupRecording A where
  events := s.collector.events
  captures := s.collector.captures.filter fun capture =>
    s.collector.events.any fun e => e.isRow && e.actionIndex = capture.actionIndex
  actionCount := s.collector.actionIndex
  events_lt := h.numbered.spent
  captures_lt := by
    intro capture hmem
    obtain ⟨e, he, hrow⟩ := List.any_eq_true.mp (List.mem_filter.mp hmem).2
    rw [Bool.and_eq_true, decide_eq_true_eq] at hrow
    rw [← hrow.2]
    exact h.numbered.spent e he hrow.1

/-- The invariant holds in the collector of a test before any action. -/
theorem sound_open (config : TraceConfig) (onEvent : Bool) (rec : ScopeSetupRecording A) :
    Sound rec.actionCount
      ({ collector := openCollector config onEvent rec } : State A T) := by
  have hactor : ∀ e ∈ (openCollector config onEvent rec).events, e.actor = none := by
    intro e he
    obtain ⟨e', -, rfl⟩ := List.mem_map.mp he
    rfl
  have howner : ∀ capture ∈ (openCollector config onEvent rec).captures, capture.owner = none := by
    intro capture hmem
    obtain ⟨capture', -, rfl⟩ := List.mem_map.mp hmem
    rfl
  have hnone : (openCollector config onEvent rec).recorded = [] :=
    List.filterMap_eq_nil_iff.mpr hactor
  have hhas : ∀ a i, ¬ HasIndex (openCollector config onEvent rec) (fun _ => none) a i :=
    fun a i => not_hasIndex rfl (hnone ▸ List.not_mem_nil)
  have hpeek : (openCollector config onEvent rec).peekActionIndex = rec.actionCount :=
    Nat.max_self _
  constructor
  · constructor
    · rw [hpeek]
      constructor
      · exact Nat.le_refl _
      · exact fun a i ha => absurd ha (hhas a i)
      · exact fun a i ha => absurd ha (hhas a i)
      · exact fun a b i ha => absurd ha (hhas a i)
      · exact fun a i j ha => absurd ha (hhas a i)
    · rw [hnone]
      exact List.nodup_nil
    · intro e he a ha
      rw [hactor e he] at ha
      cases ha
    · intro e he hrow _
      obtain ⟨e', he', rfl⟩ := List.mem_map.mp he
      exact rec.events_lt e' he' hrow
    · intro capture hmem a ha
      rw [howner capture hmem] at ha
      cases ha
    · intro capture hmem
      obtain ⟨capture', hmem', rfl⟩ := List.mem_map.mp hmem
      rw [hpeek]
      exact rec.captures_lt capture' hmem'
    · intro capture hmem _
      obtain ⟨capture', hmem', rfl⟩ := List.mem_map.mp hmem
      exact rec.captures_lt capture' hmem'
    · intro e he hrow
      obtain ⟨e', he', rfl⟩ := List.mem_map.mp he
      exact rec.events_lt e' he' hrow
  · intro a ha
    refine ⟨?_, nofun, rfl⟩
    rw [hnone]
    exact List.not_mem_nil
  · exact nofun
  · exact nofun
  · exact nofun
  · exact nofun
  · exact nofun
  · exact nofun
  · exact nofun

end Tapsmith.Trace
