import Tapsmith.Trace.Packager
import Tapsmith.Trace.Rows

namespace Tapsmith.Trace

open Lib.Tickets Lib.Machine

/-!
# Late amendments

Once the body of a test is over, the runner takes a terminal screenshot of every device, packages
the trace, and appends to it what the afterAll hooks of each enclosing scope recorded.

* `Amends` — one amendment, by a collector of its own in any state it can reach;
* `Fresh` — an amendment uses no index and no name that the archive has;
* `late_amendments_fresh` — every amendment is fresh, where no index was reserved and not spent
  beyond the terminal screenshots;
* `late_amendment_overwrites` — a test that failed while the other device was still waiting.
-/

variable {A T : Type} {devices : ℕ} {archive archive' : Archive A} {c : TraceCollector A}
  {onDisk : Capture A → Bool}

/-! ### What is in an archive -/

/-- All rows and captures of the archive have an index below the bound. -/
structure Archive.Below (archive : Archive A) (bound : ℕ) : Prop where
  rows : ∀ e ∈ archive.events, e.isRow = true → e.actionIndex < bound
  members : ∀ path capture, archive.members path = some capture →
    ∃ kind position i, path = archivePath kind position i ∧ i < bound

theorem Archive.Below.mono {bound bound' : ℕ} (h : archive.Below bound) (hle : bound ≤ bound') :
    archive.Below bound' := by
  constructor
  · exact fun e he hrow => Nat.lt_of_lt_of_le (h.rows e he hrow) hle
  · intro path capture hmem
    obtain ⟨kind, position, i, hpath, hi⟩ := h.members path capture hmem
    exact ⟨kind, position, i, hpath, Nat.lt_of_lt_of_le hi hle⟩

/-- What an amendment adds meets nothing in the archive, by index or by name. -/
structure Fresh (archive : Archive A) (c : TraceCollector A) (onDisk : Capture A → Bool)
    (offset : ℕ) : Prop where
  rows : ∀ e ∈ c.events, e.isRow = true → ∀ e' ∈ archive.events, e'.isRow = true →
    e'.actionIndex ≠ (e.shift offset).actionIndex
  rows_members : ∀ e ∈ c.events, e.isRow = true → ∀ kind position,
    archive.members (archivePath kind position (e.shift offset).actionIndex) = none
  captures : ∀ capture ∈ c.captures,
    archive.members (shiftArchivePath offset capture.path) = none
  captures_rows : ∀ capture ∈ c.captures, ∀ e' ∈ archive.events, e'.isRow = true →
    ∀ kind position, archivePath kind position e'.actionIndex ≠
      shiftArchivePath offset capture.path
  kept : ∀ path capture, archive.members path = some capture →
    (appendEventsToTrace archive c onDisk offset).members path = some capture

theorem Archive.Below.members_none {bound i : ℕ} (h : archive.Below bound) (hi : bound ≤ i)
    (kind : CaptureKind) (position : Position) :
    archive.members (archivePath kind position i) = none := by
  cases hmem : archive.members (archivePath kind position i) with
  | none => rfl
  | some capture =>
    obtain ⟨kind', position', j, hpath, hj⟩ := h.members _ capture hmem
    obtain rfl := archivePath_inj hpath
    exact absurd hj (Nat.not_lt.mpr hi)

/-- From the bound on everything is fresh. -/
theorem Archive.Below.fresh {offset : ℕ} (h : archive.Below offset) :
    Fresh archive c onDisk offset := by
  have hcapture : ∀ capture : Capture A, shiftArchivePath offset capture.path =
      archivePath capture.kind capture.position (capture.actionIndex + offset) :=
    fun capture => shiftArchivePath_archivePath ..
  have hnone : ∀ capture : Capture A,
      archive.members (shiftArchivePath offset capture.path) = none := by
    intro capture
    rw [hcapture]
    exact h.members_none (Nat.le_add_left ..) ..
  constructor
  · intro e _ _ e' he' hrow' heq
    have hlt := h.rows e' he' hrow'
    rw [heq] at hlt
    exact absurd hlt (Nat.not_lt.mpr (Nat.le_add_left ..))
  · exact fun e _ _ kind position => h.members_none (Nat.le_add_left ..) ..
  · exact fun capture _ => hnone capture
  · intro capture _ e' he' hrow' kind position heq
    rw [hcapture] at heq
    have hlt := h.rows e' he' hrow'
    rw [archivePath_inj heq] at hlt
    exact absurd hlt (Nat.not_lt.mpr (Nat.le_add_left ..))
  · intro path capture hmem
    unfold appendEventsToTrace
    split
    · exact hmem
    · refine (writeMembers_of_fresh fun other _ hpath => ?_).trans hmem
      have hfree := hnone other
      rw [hpath, hmem] at hfree
      cases hfree

/-! ### Packaging and amending -/

variable {base : ℕ} {index : A → Option ℕ}

/-- The archive of a test, below the next free index of its collector. -/
theorem Numbered.below_package (h : Numbered base c index) :
    (packageTrace c onDisk).Below c.peekActionIndex := by
  constructor
  · exact fun e he hrow => h.row_lt he hrow
  · intro path capture hmem
    rcases mem_of_writeMembers hmem with hold | ⟨hin, rfl⟩
    · cases hold
    · exact ⟨_, _, _, rfl, h.captured_lt capture (List.mem_filter.mp hin).1⟩

theorem Numbered.below_append (h : Numbered base c index) {offset : ℕ}
    (harchive : archive.Below offset) :
    (appendEventsToTrace archive c onDisk offset).Below (offset + c.peekActionIndex) := by
  unfold appendEventsToTrace
  split
  · exact harchive.mono (Nat.le_add_right ..)
  · constructor
    · intro e he hrow
      rcases List.mem_append.mp he with he | he
      · exact Nat.lt_of_lt_of_le (harchive.rows e he hrow) (Nat.le_add_right ..)
      · obtain ⟨e', he', rfl⟩ := List.mem_map.mp he
        have hlt := h.row_lt he' hrow
        change e'.actionIndex + offset < offset + c.peekActionIndex
        omega
    · intro path capture hmem
      rcases mem_of_writeMembers hmem with hold | ⟨hin, rfl⟩
      · obtain ⟨kind, position, i, hpath, hi⟩ := harchive.members path capture hold
        exact ⟨kind, position, i, hpath, Nat.lt_of_lt_of_le hi (Nat.le_add_right ..)⟩
      · have hlt := h.captured_lt capture (List.mem_filter.mp hin).1
        refine ⟨_, _, _, shiftArchivePath_archivePath .., ?_⟩
        omega

/-! ### Runs -/

/-- No index is reserved and not spent. -/
def TraceCollector.Spent (c : TraceCollector A) : Prop := c.nextReservable ≤ c.actionIndex

/-- A packaged archive ends before the offset, as long as no more indices are reserved and not
    spent than there are devices. -/
theorem Numbered.below_offset_package (h : Numbered base c index)
    (hspent : c.nextReservable ≤ c.actionIndex + max 1 devices) :
    (packageTrace c onDisk).Below (afterAllOffset devices (packageTrace c onDisk)) := by
  refine h.below_package.mono ?_
  change max c.actionIndex c.nextReservable ≤ c.actionIndex + max 1 devices
  omega

/-- An amendment with all its indices spent ends before the next offset. -/
theorem Numbered.below_offset_append (h : Numbered base c index) (hspent : c.Spent)
    (harchive : archive.Below (afterAllOffset devices archive)) :
    (appendAfterAll devices archive c onDisk).Below
      (afterAllOffset devices (appendAfterAll devices archive c onDisk)) := by
  have hbelow := (h.below_append harchive : (appendAfterAll devices archive c onDisk).Below _)
  have hpeek : c.peekActionIndex = c.actionIndex := Nat.max_eq_left hspent
  by_cases hevents : c.events = []
  · have hsame : appendAfterAll devices archive c onDisk = archive := if_pos hevents
    rw [hsame]
    exact harchive
  · refine hbelow.mono ?_
    rw [hpeek]
    unfold appendAfterAll appendEventsToTrace afterAllOffset
    rw [if_neg hevents]
    dsimp only
    -- An amendment without actions leaves the action count, and the offset, as they are.
    split <;> omega

/-- What the source counts on: the index that an action reserved is its own. -/
theorem Numbered.reserved_alone (h : Numbered base c index) {a : A} {i : ℕ}
    (hindex : index a = some i) (hrow : a ∉ c.recorded) :
    (∀ e ∈ c.events, e.isRow = true → e.actionIndex ≠ i) ∧
      ∀ capture ∈ c.captures, capture.actionIndex = i → capture.owner = some a := by
  have hge := h.issued.ge a i (.inl hindex)
  constructor
  · rintro e he hisRow rfl
    cases hactor : e.actor with
    | none => exact absurd (h.replayed e he hisRow hactor) (Nat.not_lt.mpr hge)
    | some b =>
      obtain rfl := h.issued.inj a b _ (.inl hindex) (h.hasIndex_of_event he hactor)
      exact hrow (mem_recorded.mpr ⟨e, he, hactor⟩)
  · rintro capture hmem rfl
    cases howner : capture.owner with
    | none => exact absurd (h.captured_replayed capture hmem howner) (Nat.not_lt.mpr hge)
    | some b =>
      rw [h.issued.inj a b _ (.inl hindex) (.inl (h.captured capture hmem b howner))]

section Runs

variable [DecidableEq A] [DecidableEq T] {attempt : A → T} {s s' : State A T}
  {config : TraceConfig} {onEvent : Bool} {rec : ScopeSetupRecording A} {ls : List (Label A T)}

/-- What the afterAll hooks of a scope recorded, in any order of steps, and which of its
    screenshots are still on disk. -/
structure HookRecording (attempt : A → T) where
  state : State A T
  onDisk : Capture A → Bool
  reached : ∃ config onEvent ls, Run (Traces attempt) (openState config onEvent .empty) ls state

/-- One amendment of an archive. -/
def Amends (attempt : A → T) (devices : ℕ) (archive : Archive A) (hooks : HookRecording attempt)
    (archive' : Archive A) : Prop :=
  archive' = appendAfterAll devices archive hooks.state.collector hooks.onDisk

theorem HookRecording.numbered (hooks : HookRecording attempt) :
    Numbered 0 hooks.state.collector hooks.state.actionIndex := by
  obtain ⟨config, onEvent, ls, hrun⟩ := hooks.reached
  exact (sound_of_run hrun).numbered

/-- **Amendments never collide.**  In every run of a test, an index that an action reserved without
    recording a row (a terminal screenshot) is that of no row, and of no capture but its own; and
    every amendment is fresh, where the archive was packaged with no more indices reserved and not
    spent than there are devices, and amended so far with none. -/
theorem late_amendments_fresh (hbody : Run (Traces attempt) (openState config onEvent rec) ls s) :
    (∀ a i, s.actionIndex a = some i → a ∉ s.collector.recorded →
      (∀ e ∈ s.collector.events, e.isRow = true → e.actionIndex ≠ i) ∧
      ∀ capture ∈ s.collector.captures, capture.actionIndex = i → capture.owner = some a) ∧
    ∀ hookss archive, s.collector.nextReservable ≤ s.collector.actionIndex + max 1 devices →
      Run (fun archive hooks archive' => hooks.state.collector.Spent ∧
        Amends attempt devices archive hooks archive') (packageTrace s.collector onDisk)
        hookss archive →
      ∀ hooks : HookRecording attempt,
        Fresh archive hooks.state.collector hooks.onDisk (afterAllOffset devices archive) ∧
        (hooks.state.collector.completedRows.map fun e =>
          (e.shift (afterAllOffset devices archive)).actionIndex).Nodup := by
  have hnumbered := (sound_of_run hbody).numbered
  refine ⟨fun a i hindex hrow => hnumbered.reserved_alone hindex hrow, ?_⟩
  intro hookss archive hspent hamend hooks
  have hbelow : archive.Below (afterAllOffset devices archive) := by
    induction hamend with
    | nil => exact hnumbered.below_offset_package hspent
    | snoc _ hstep ih =>
      obtain ⟨hall, rfl⟩ := hstep
      exact (HookRecording.numbered _).below_offset_append hall ih
  refine ⟨hbelow.fresh, ?_⟩
  obtain ⟨config, onEvent, ls, hrun⟩ := hooks.reached
  have hnodup := (sound_of_run hrun).nodup_completed
  rw [List.Nodup, List.pairwise_map] at hnodup ⊢
  exact hnodup.imp fun hne heq => hne (Nat.add_right_cancel heq)

end Runs

/-! ### Two tests -/

/-- A tap, and the terminal screenshot after it. -/
def onePassed : List (Label ℕ Unit) :=
  [.resolve 0, .resolveDone 0 true, .call 0 false false true, .captureDone 0, .settle 0,
    .terminal 2, .captured 2 .screenshot, .captureDone 2]

/-- An afterAll hook takes one action. -/
def oneHook : List (Label ℕ Unit) :=
  [.call 0 false false true, .captured 0 .screenshot, .captureDone 0, .settle 0]

theorem late_amendments_fresh_hook :
    ∃ (s : State ℕ Unit) (hooks : HookRecording fun _ : ℕ => ()),
      Run (Traces fun _ => ()) (openState ⟨true, false⟩ false .empty) onePassed s ∧
      Run (Traces fun _ => ()) (openState ⟨true, false⟩ false .empty) oneHook hooks.state ∧
      Fresh (packageTrace s.collector fun _ => true) hooks.state.collector hooks.onDisk
        (afterAllOffset 1 (packageTrace s.collector fun _ => true)) := by
  have hbody : ∃ s : State ℕ Unit,
      Run (Traces fun _ => ()) (openState ⟨true, false⟩ false .empty) onePassed s ∧
        s.collector.nextReservable ≤ s.collector.actionIndex + max 1 1 :=
    ⟨_, run_of_foldlM rfl, by decide⟩
  have hhook : ∃ s : State ℕ Unit,
      Run (Traces fun _ => ()) (openState ⟨true, false⟩ false .empty) oneHook s :=
    ⟨_, run_of_foldlM rfl⟩
  obtain ⟨s, hrun, hspent⟩ := hbody
  obtain ⟨t, hhook⟩ := hhook
  let hooks : HookRecording fun _ : ℕ => () := ⟨t, fun _ => true, _, _, _, hhook⟩
  exact ⟨s, hooks, hrun, hhook, ((late_amendments_fresh hrun).2 [] _ hspent .nil hooks).1⟩

/-- Two devices tap side by side and one tap fails while the other device still waits for its
    element.  Both terminal screenshots are taken. -/
def failedPair : List (Label ℕ Unit) :=
  [.resolve 0, .resolve 1, .resolveDone 0 true, .call 0 false false true, .captureDone 0,
    .settle 0, .terminal 2, .captured 2 .screenshot, .captureDone 2, .terminal 3,
    .captured 3 .screenshot, .captureDone 3]

/-- The screenshot of the hook goes under the name of the second terminal screenshot. -/
theorem late_amendment_overwrites :
    ∃ (s : State ℕ Unit) (hooks : HookRecording fun _ : ℕ => ()),
      Run (Traces fun _ => ()) (openState ⟨true, false⟩ false .empty) failedPair s ∧
      Run (Traces fun _ => ()) (openState ⟨true, false⟩ false .empty) oneHook hooks.state ∧
      ∃ path, (packageTrace s.collector fun _ => true).members path =
          some { kind := .screenshot, actionIndex := 3, owner := some 3 } ∧
        (appendAfterAll 2 (packageTrace s.collector fun _ => true) hooks.state.collector
          hooks.onDisk).members path =
          some { kind := .screenshot, actionIndex := 0, owner := some 0 } := by
  refine ⟨_, ⟨_, fun _ => true, ⟨true, false⟩, false, oneHook, run_of_foldlM rfl⟩,
    run_of_foldlM rfl, run_of_foldlM rfl, archivePath .screenshot .before 3, ?_, ?_⟩
  · decide +kernel
  · decide +kernel

end Tapsmith.Trace
