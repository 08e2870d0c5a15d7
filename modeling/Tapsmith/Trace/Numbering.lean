import Mathlib.Data.List.Nodup
import Tapsmith.Lib.Tickets
import Tapsmith.Trace.TracedAction

namespace Tapsmith.Trace

open Lib.Tickets

/-!
# The numbering of rows

What the two counters of a collector guarantee, whatever the actions do.  An action has an index
once it has reserved one or its row is on record.

* `Numbered` — indices are issued like tickets, each capture is filed under the index of its action,
  and no action has two rows;
* one lemma for each operation of the collector.
-/

variable {A : Type}

/-- The action has the index: reserved, or in its recorded row. -/
def HasIndex (c : TraceCollector A) (index : A → Option ℕ) (a : A) (i : ℕ) : Prop :=
  index a = some i ∨ { isRow := true, actionIndex := i, actor := some a } ∈ c.events

/-- The actions whose rows are on record. -/
def TraceCollector.recorded (c : TraceCollector A) : List A := c.events.filterMap TraceEvent.actor

/-- The indices below `base` are those of the replayed setup. -/
structure Numbered (base : ℕ) (c : TraceCollector A) (index : A → Option ℕ) : Prop where
  issued : Issued base c.peekActionIndex (HasIndex c index)
  once : c.recorded.Nodup
  isRow : ∀ e ∈ c.events, ∀ a, e.actor = some a → e.isRow = true
  replayed : ∀ e ∈ c.events, e.isRow = true → e.actor = none → e.actionIndex < base
  captured : ∀ capture ∈ c.captures, ∀ a, capture.owner = some a →
    index a = some capture.actionIndex
  captured_lt : ∀ capture ∈ c.captures, capture.actionIndex < c.peekActionIndex
  captured_replayed : ∀ capture ∈ c.captures, capture.owner = none → capture.actionIndex < base
  spent : ∀ e ∈ c.events, e.isRow = true → e.actionIndex < c.actionIndex

variable {base : ℕ} {c c' : TraceCollector A} {index : A → Option ℕ} {a b : A} {i j : ℕ}

theorem mem_recorded : a ∈ c.recorded ↔ ∃ e ∈ c.events, e.actor = some a :=
  List.mem_filterMap

theorem mem_recorded_of_row (h : { isRow := true, actionIndex := i, actor := some a } ∈ c.events) :
    a ∈ c.recorded :=
  mem_recorded.mpr ⟨_, h, rfl⟩

theorem not_hasIndex (hnone : index a = none) (hrow : a ∉ c.recorded) :
    ¬ HasIndex c index a i := by
  rintro (hi | hi)
  · rw [hnone] at hi
    cases hi
  · exact hrow (mem_recorded_of_row hi)

/-- Every recorded row of an action gives it an index. -/
theorem Numbered.hasIndex_of_event (h : Numbered base c index) {e : TraceEvent A}
    (he : e ∈ c.events) (ha : e.actor = some a) : HasIndex c index a e.actionIndex := by
  have hrow := h.isRow e he a ha
  obtain ⟨isRow, i, actor⟩ := e
  cases hrow
  cases ha
  exact .inr he

theorem Numbered.row_lt (h : Numbered base c index) {e : TraceEvent A} (he : e ∈ c.events)
    (hrow : e.isRow = true) : e.actionIndex < c.peekActionIndex := by
  cases hactor : e.actor with
  | none => exact Nat.lt_of_lt_of_le (h.replayed e he hrow hactor) h.issued.base_le
  | some a => exact h.issued.lt a _ (h.hasIndex_of_event he hactor)

/-! ### Operations that number nothing -/

/-- Only the counters, the events and the captures matter. -/
theorem Numbered.congr (h : Numbered base c index) (hpeek : c'.peekActionIndex = c.peekActionIndex)
    (hle : c.actionIndex ≤ c'.actionIndex) (hevents : c'.events = c.events)
    (hcaptures : c'.captures = c.captures) : Numbered base c' index := by
  have hhas : HasIndex c' index = HasIndex c index := by
    unfold HasIndex
    rw [hevents]
  have hrecorded : c'.recorded = c.recorded := by
    unfold TraceCollector.recorded
    rw [hevents]
  constructor
  · rw [hpeek, hhas]
    exact h.issued
  · exact hrecorded ▸ h.once
  · exact hevents ▸ h.isRow
  · exact hevents ▸ h.replayed
  · exact hcaptures ▸ h.captured
  · exact hpeek ▸ hcaptures ▸ h.captured_lt
  · exact hcaptures ▸ h.captured_replayed
  · exact fun e he hrow => Nat.lt_of_lt_of_le (h.spent e (hevents ▸ he) hrow) hle

/-- Events between the rows give nobody an index. -/
theorem hasIndex_append_marks {marks : List (TraceEvent A)}
    (hmarks : ∀ e ∈ marks, e.isRow = false ∧ e.actor = none)
    (hevents : c'.events = c.events ++ marks) :
    HasIndex c' index b i ↔ HasIndex c index b i := by
  unfold HasIndex
  rw [hevents, List.mem_append]
  refine or_congr_right ⟨fun hor => hor.resolve_right fun hmem => ?_, .inl⟩
  exact absurd (hmarks _ hmem).1 nofun

theorem hasIndex_mark : HasIndex
    { c with events := c.events ++ [{ isRow := false, actionIndex := j }] } index b i ↔
      HasIndex c index b i := by
  refine hasIndex_append_marks (fun e he => ?_) rfl
  obtain rfl := List.mem_singleton.mp he
  exact ⟨rfl, rfl⟩

theorem hasIndex_flushPendingGroups :
    HasIndex c.flushPendingGroups index b i ↔ HasIndex c index b i := by
  refine hasIndex_append_marks (fun e he => ?_) rfl
  obtain ⟨g, -, rfl⟩ := List.mem_map.mp he
  exact ⟨rfl, rfl⟩

theorem Numbered.append_marks (h : Numbered base c index) {marks : List (TraceEvent A)}
    (hmarks : ∀ e ∈ marks, e.isRow = false ∧ e.actor = none) :
    Numbered base { c with events := c.events ++ marks } index := by
  constructor
  · exact h.issued.congr fun a i => hasIndex_append_marks hmarks rfl
  · have hnone : marks.filterMap TraceEvent.actor = [] :=
      List.filterMap_eq_nil_iff.mpr fun e he => (hmarks e he).2
    unfold TraceCollector.recorded
    rw [List.filterMap_append, hnone, List.append_nil]
    exact h.once
  · intro e he a ha
    rcases List.mem_append.mp he with he | he
    · exact h.isRow e he a ha
    · rw [(hmarks e he).2] at ha
      cases ha
  · intro e he hrow
    rcases List.mem_append.mp he with he | he
    · exact h.replayed e he hrow
    · rw [(hmarks e he).1] at hrow
      cases hrow
  · exact h.captured
  · exact h.captured_lt
  · exact h.captured_replayed
  · intro e he hrow
    rcases List.mem_append.mp he with he | he
    · exact h.spent e he hrow
    · rw [(hmarks e he).1] at hrow
      cases hrow

theorem Numbered.flushPendingGroups (h : Numbered base c index) :
    Numbered base c.flushPendingGroups index := by
  have hmarks : ∀ e ∈ c.pendingGroupStarts.map (PendingGroup.event (A := A)),
      e.isRow = false ∧ e.actor = none := by
    intro e he
    obtain ⟨g, -, rfl⟩ := List.mem_map.mp he
    exact ⟨rfl, rfl⟩
  exact (h.append_marks hmarks).congr rfl (Nat.le_refl _) rfl rfl

theorem recorded_flushPendingGroups : c.flushPendingGroups.recorded = c.recorded := by
  have hnone : (c.pendingGroupStarts.map PendingGroup.event).filterMap TraceEvent.actor =
      ([] : List A) := by
    refine List.filterMap_eq_nil_iff.mpr fun e he => ?_
    obtain ⟨g, -, rfl⟩ := List.mem_map.mp he
    rfl
  unfold TraceCollector.recorded TraceCollector.flushPendingGroups
  rw [List.filterMap_append, hnone, List.append_nil]

theorem Numbered.mark (h : Numbered base c index) :
    Numbered base { c with events := c.events ++ [{ isRow := false, actionIndex := i }] } index := by
  refine h.append_marks fun e he => ?_
  obtain rfl := List.mem_singleton.mp he
  exact ⟨rfl, rfl⟩

theorem Numbered.addConsoleEvent (h : Numbered base c index) :
    Numbered base c.addConsoleEvent index :=
  h.flushPendingGroups.mark

theorem Numbered.endGroup (h : Numbered base c index) : Numbered base c.endGroup index := by
  unfold TraceCollector.endGroup
  dsimp only
  split
  · exact h.congr rfl (Nat.le_refl _) rfl rfl
  · exact h.mark.congr rfl (Nat.le_refl _) rfl rfl

theorem Numbered.emitActionStarted (h : Numbered base c index) (closed : Bool) (a : A)
    (reserved : Option ℕ) : Numbered base (c.emitActionStarted closed a reserved) index := by
  unfold TraceCollector.emitActionStarted
  split
  · exact h
  · exact h.flushPendingGroups.congr rfl (Nat.le_refl _) rfl rfl

/-! ### Operations that number -/

theorem peek_reserve : c.reserveActionIndex.2.peekActionIndex = c.peekActionIndex + 1 := by
  unfold TraceCollector.reserveActionIndex TraceCollector.peekActionIndex
  dsimp only
  omega

/-- An index that is spent was handed out before. -/
theorem peek_spend (hi : i < c.peekActionIndex) :
    ({ c with actionIndex := max c.actionIndex (i + 1) } : TraceCollector A).peekActionIndex =
      c.peekActionIndex := by
  unfold TraceCollector.peekActionIndex at *
  dsimp only
  omega

/-- An action without an index takes the next one. -/
theorem hasIndex_reserve [DecidableEq A] (hnone : index a = none) :
    HasIndex c.reserveActionIndex.2 (Function.update index a (some c.peekActionIndex)) b i ↔
      (b = a ∧ i = c.peekActionIndex) ∨ HasIndex c index b i := by
  unfold HasIndex
  by_cases hba : b = a
  · subst hba
    rw [Function.update_self, Option.some.injEq, hnone]
    constructor
    · rintro (rfl | hi)
      · exact .inl ⟨rfl, rfl⟩
      · exact .inr (.inr hi)
    · rintro (⟨-, rfl⟩ | hi | hi)
      · exact .inl rfl
      · cases hi
      · exact .inr hi
  · rw [Function.update_of_ne hba]
    exact ⟨.inr, fun hor => hor.resolve_left fun heq => hba heq.1⟩

theorem Numbered.reserve [DecidableEq A] (h : Numbered base c index) (hnone : index a = none)
    (hrow : a ∉ c.recorded) :
    Numbered base c.reserveActionIndex.2 (Function.update index a (some c.peekActionIndex)) := by
  constructor
  · rw [peek_reserve]
    exact h.issued.issue (fun i => not_hasIndex hnone hrow) fun b i => hasIndex_reserve hnone
  · exact h.once
  · exact h.isRow
  · exact h.replayed
  · intro capture hmem b hb
    have hindex := h.captured capture hmem b hb
    have hba : b ≠ a := by
      rintro rfl
      rw [hnone] at hindex
      cases hindex
    rw [Function.update_of_ne hba, hindex]
  · intro capture hmem
    rw [peek_reserve]
    exact Nat.lt_succ_of_lt (h.captured_lt capture hmem)
  · exact h.captured_replayed
  · exact h.spent

theorem Numbered.dropFencedReservation (h : Numbered base c index) :
    Numbered base (c.dropFencedReservation (index a)) index := by
  unfold TraceCollector.dropFencedReservation
  cases hindex : index a with
  | none => exact h
  | some i => exact h.congr (peek_spend (h.issued.lt a i (.inl hindex))) (Nat.le_max_left ..) rfl rfl

/-- A capture goes under the index of its action. -/
theorem Numbered.recordBefore (h : Numbered base c index) (hindex : index a = some i)
    (kind : CaptureKind) : Numbered base (c.recordBefore a kind i) index := by
  constructor
  · exact h.issued
  · exact h.once
  · exact h.isRow
  · exact h.replayed
  · intro capture hmem b hb
    rcases List.mem_append.mp hmem with hmem | hmem
    · exact h.captured capture hmem b hb
    · obtain rfl := List.mem_singleton.mp hmem
      cases hb
      exact hindex
  · intro capture hmem
    rcases List.mem_append.mp hmem with hmem | hmem
    · exact h.captured_lt capture hmem
    · obtain rfl := List.mem_singleton.mp hmem
      exact h.issued.lt a i (.inl hindex)
  · intro capture hmem howner
    rcases List.mem_append.mp hmem with hmem | hmem
    · exact h.captured_replayed capture hmem howner
    · obtain rfl := List.mem_singleton.mp hmem
      cases howner
  · exact h.spent

/-- The first row of an action goes on record. -/
theorem Numbered.append_row (h : Numbered base c index) (hrow : a ∉ c.recorded)
    (hissued : Issued base c'.peekActionIndex (HasIndex c' index))
    (hevents : c'.events = c.events ++ [{ isRow := true, actionIndex := i, actor := some a }])
    (hpeek : c.peekActionIndex ≤ c'.peekActionIndex)
    (hspent : max c.actionIndex (i + 1) ≤ c'.actionIndex) (hcaptures : c'.captures = c.captures) :
    Numbered base c' index := by
  constructor
  · exact hissued
  · unfold TraceCollector.recorded
    rw [hevents, List.filterMap_append]
    refine List.nodup_append.mpr ⟨h.once, List.nodup_singleton a, ?_⟩
    rintro b hb d hd rfl
    obtain rfl := List.mem_singleton.mp hd
    exact hrow hb
  · rw [hevents]
    intro e he b hb
    rcases List.mem_append.mp he with he | he
    · exact h.isRow e he b hb
    · obtain rfl := List.mem_singleton.mp he
      rfl
  · rw [hevents]
    intro e he hisRow hactor
    rcases List.mem_append.mp he with he | he
    · exact h.replayed e he hisRow hactor
    · obtain rfl := List.mem_singleton.mp he
      cases hactor
  · exact hcaptures ▸ h.captured
  · intro capture hmem
    exact Nat.lt_of_lt_of_le (h.captured_lt capture (hcaptures ▸ hmem)) hpeek
  · exact hcaptures ▸ h.captured_replayed
  · rw [hevents]
    intro e he hisRow
    rcases List.mem_append.mp he with he | he
    · exact Nat.lt_of_lt_of_le (h.spent e he hisRow) (Nat.le_trans (Nat.le_max_left ..) hspent)
    · obtain rfl := List.mem_singleton.mp he
      exact Nat.le_trans (Nat.le_max_right ..) hspent

theorem indexForEmit_fst (c : TraceCollector A) (reserved : Option ℕ) :
    (c.indexForEmit reserved).1 = reserved.getD c.peekActionIndex := by
  cases reserved <;> rfl

/-- An emit moves the counters only. -/
theorem indexForEmit_frame (c : TraceCollector A) (reserved : Option ℕ) :
    ∃ m n, (c.indexForEmit reserved).2 = { c with actionIndex := m, nextReservable := n } := by
  cases reserved <;> exact ⟨_, _, rfl⟩

/-- The next index after an emit. -/
theorem peek_indexForEmit_none : (c.indexForEmit none).2.peekActionIndex =
    c.peekActionIndex + 1 := by
  unfold TraceCollector.indexForEmit TraceCollector.reserveActionIndex
    TraceCollector.peekActionIndex
  dsimp only [Option.elim_none]
  omega

theorem hasIndex_dropFencedReservation :
    HasIndex (c.dropFencedReservation (index a)) index b i ↔ HasIndex c index b i := by
  unfold TraceCollector.dropFencedReservation
  cases index a <;> exact Iff.rfl

/-- The indices after a row is appended. -/
theorem hasIndex_append_row
    (hevents : c'.events = c.events ++ [{ isRow := true, actionIndex := j, actor := some a }]) :
    HasIndex c' index b i ↔ (b = a ∧ i = j) ∨ HasIndex c index b i := by
  unfold HasIndex
  rw [hevents, List.mem_append, List.mem_singleton, TraceEvent.mk.injEq]
  constructor
  · rintro (hi | hi | ⟨-, hi, hb⟩)
    · exact .inr (.inl hi)
    · exact .inr (.inr hi)
    · exact .inl ⟨Option.some.inj hb, hi⟩
  · rintro (⟨rfl, rfl⟩ | hi | hi)
    · exact .inr (.inr ⟨rfl, rfl, rfl⟩)
    · exact .inl hi
    · exact .inr (.inl hi)

/-- An emit without a reserved index takes the next one, for its row. -/
theorem hasIndex_addActionEvent_none :
    HasIndex (c.addActionEvent false a none) index b i ↔
      (b = a ∧ i = c.peekActionIndex) ∨ HasIndex c index b i := by
  refine (hasIndex_append_row (c := c.flushPendingGroups) rfl).trans ?_
  exact or_congr_right hasIndex_flushPendingGroups

/-- An emit with a reserved index keeps all indices as they are. -/
theorem hasIndex_addActionEvent_some (hindex : index a = some j) :
    HasIndex (c.addActionEvent false a (some j)) index b i ↔ HasIndex c index b i := by
  refine ((hasIndex_append_row (c := c.flushPendingGroups) rfl).trans
    (or_congr_right hasIndex_flushPendingGroups)).trans ⟨?_, .inr⟩
  rintro (⟨rfl, rfl⟩ | hi)
  · exact .inl hindex
  · exact hi

theorem peek_addActionEvent_some (h : Numbered base c index) (hindex : index a = some j) :
    (c.addActionEvent false a (some j)).peekActionIndex = c.peekActionIndex :=
  peek_spend (c := c.flushPendingGroups) (h.issued.lt a j (.inl hindex))

/-- `addActionEvent` records the row under the index reserved for it, or under the next one. -/
theorem Numbered.addActionEvent (h : Numbered base c index) (hrow : a ∉ c.recorded)
    (closed : Bool) : Numbered base (c.addActionEvent closed a (index a)) index := by
  have hf := h.flushPendingGroups
  have hrow' : a ∉ c.flushPendingGroups.recorded := by
    rw [recorded_flushPendingGroups]
    exact hrow
  cases closed with
  | true => exact h.dropFencedReservation
  | false =>
    cases hindex : index a with
    | none =>
      -- The fresh index goes to the action through its row.
      have hpeek : (c.addActionEvent false a none).peekActionIndex = c.peekActionIndex + 1 :=
        @peek_indexForEmit_none A c.flushPendingGroups
      refine hf.append_row hrow' ?_ rfl (hpeek ▸ Nat.le_succ _) (Nat.le_refl _) rfl
      exact hpeek ▸ h.issued.issue (fun i => not_hasIndex hindex hrow)
        fun b i => hasIndex_addActionEvent_none
    | some i =>
      have hpeek := peek_addActionEvent_some h hindex
      refine hf.append_row hrow' ?_ rfl (Nat.le_of_eq hpeek.symm) (Nat.le_refl _) rfl
      exact hpeek ▸ h.issued.congr fun b j => hasIndex_addActionEvent_some hindex

end Tapsmith.Trace
