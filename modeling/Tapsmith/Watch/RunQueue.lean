import Tapsmith.Lib.Machine
import Tapsmith.Lib.OrderedSet

namespace Tapsmith.Watch

open Lib.Machine Lib.OrderedSet

/-!
# Watch mode — the run queue

`RunQueue` of `watch-queue.ts` collects the files of saved edits behind a debounce timer, keeps
what is scheduled during a run in a pending set, and asks for a run through `onRun`.  The queue
is driven by the watcher, the keyboard, the timer and the runs themselves, in any order.

* `World.step` — one call of the queue or one expiry of its timer;
* `World.Keeps` — the steps that neither drop a scheduled file nor misread which run is active;
* `Owed.held` — in a run of such steps, what was scheduled and not yet requested is still in
  the timer's set or in the pending set;
* `scheduled_files_requested` — hence nothing scheduled is lost;
* `immediate_drops_debounced` — a saved edit that a re-run from the keyboard loses.
-/

/-! ### The queue -/

/-- `RunRequest`: some files, or all of them. -/
inductive RunRequest
  | files (files : List String)
  | all
deriving DecidableEq

/-- What `_debounceTimer` holds: nothing, the handle of a timer that is going to fire, or the
    handle of one that was cleared. -/
inductive Timer
  | null
  | armed
  | cleared
deriving DecidableEq

/-- The fields of `RunQueue`.  A `Set` is the list of its elements in insertion order. -/
structure RunQueue where
  debounceFiles : List String
  debounceTimer : Timer
  pendingFiles : Option RunRequest
  isRunning : Bool
deriving DecidableEq

/-- `clearTimeout(this._debounceTimer)`: the field keeps its handle. -/
def Timer.clear : Timer → Timer
  | .null => .null
  | _ => .cleared

namespace RunQueue

def new : RunQueue :=
  { debounceFiles := [], debounceTimer := .null, pendingFiles := none, isRunning := false }

def scheduleFiles (q : RunQueue) (files : List String) : RunQueue :=
  if q.isRunning then
    match q.pendingFiles with
    | some .all => { q with debounceTimer := q.debounceTimer.clear }
    | some (.files pending) =>
      { q with
        debounceTimer := q.debounceTimer.clear
        pendingFiles := some (.files (addAll pending files)) }
    | none =>
      { q with
        debounceTimer := q.debounceTimer.clear
        pendingFiles := some (.files (addAll [] files)) }
  else
    { q with debounceFiles := addAll q.debounceFiles files, debounceTimer := .armed }

/-- The callback of the timer.  It does not look at `_isRunning`. -/
def expire (q : RunQueue) : RunQueue × Option RunRequest :=
  ({ q with debounceTimer := .null, debounceFiles := [] }, some (.files q.debounceFiles))

def scheduleAll (q : RunQueue) : RunQueue × Option RunRequest :=
  if q.isRunning then ({ q with pendingFiles := some .all }, none)
  else ({ q with debounceTimer := .null }, some .all)

def scheduleImmediate (q : RunQueue) (files : List String) : RunQueue × Option RunRequest :=
  if q.isRunning then ({ q with pendingFiles := some (.files (addAll [] files)) }, none)
  -- the debounced files stay in their set, without a timer
  else ({ q with debounceTimer := .null }, some (.files files))

def notifyRunStarted (q : RunQueue) : RunQueue :=
  { q with isRunning := true }

def notifyRunFinished (q : RunQueue) : RunQueue × Option RunRequest :=
  ({ q with isRunning := false, pendingFiles := none }, q.pendingFiles)

end RunQueue

/-! ### The queue and its surroundings -/

/-- What happens to the queue. -/
inductive Op
  | scheduleFiles (files : List String)
  | scheduleAll
  | scheduleImmediate (files : List String)
  | expire
  | runStarted
  | runFinished
deriving DecidableEq

/-- The queue, and the number of runs that are active: started and not finished. -/
structure World where
  queue : RunQueue
  active : ℕ
deriving DecidableEq

def World.init : World :=
  { queue := RunQueue.new, active := 0 }

/-- A step shows what happened, the call of `onRun` it made, and the number of runs active
    at that call. -/
structure Event where
  op : Op
  request : Option RunRequest
  active : ℕ
deriving DecidableEq

/-- One step.  Only an armed timer expires.  Runs start and finish whenever they like: the run
    that answers a request may start late, and the first run of a session answers none. -/
def World.step (w : World) (op : Op) : Option (World × Event) :=
  match op with
  | .scheduleFiles files =>
    some ({ w with queue := w.queue.scheduleFiles files }, ⟨op, none, w.active⟩)
  | .scheduleAll =>
    let r := w.queue.scheduleAll
    some ({ w with queue := r.1 }, ⟨op, r.2, w.active⟩)
  | .scheduleImmediate files =>
    let r := w.queue.scheduleImmediate files
    some ({ w with queue := r.1 }, ⟨op, r.2, w.active⟩)
  | .expire =>
    let r := w.queue.expire
    if w.queue.debounceTimer = .armed then some ({ w with queue := r.1 }, ⟨op, r.2, w.active⟩)
    else none
  | .runStarted =>
    some ({ queue := w.queue.notifyRunStarted, active := w.active + 1 }, ⟨op, none, w.active⟩)
  | .runFinished =>
    let r := w.queue.notifyRunFinished
    some ({ queue := r.1, active := w.active - 1 }, ⟨op, r.2, w.active - 1⟩)

/-- No timer is pending and no run is active. -/
def World.Quiet (w : World) : Prop :=
  w.queue.debounceTimer ≠ .armed ∧ w.active = 0

/-! ### What is scheduled and what is requested -/

/-- What a caller can ask the queue for: a file, or everything. -/
inductive Item
  | file (f : String)
  | all

/-- A run of all files contains every file; only such a run contains everything. -/
def RunRequest.Contains : RunRequest → Item → Prop
  | .all, _ => True
  | .files names, .file f => f ∈ names
  | .files _, .all => False

def Op.Schedules : Op → Item → Prop
  | .scheduleFiles files, .file f => f ∈ files
  | .scheduleImmediate files, .file f => f ∈ files
  | .scheduleAll, .all => True
  | _, _ => False

/-- The step asked for a run that contains the item. -/
def Event.Requests (e : Event) (i : Item) : Prop :=
  ∃ r, e.request = some r ∧ r.Contains i

/-- The item was scheduled in a run, and no run requested since contains it. -/
def Owed (es : List Event) (i : Item) : Prop :=
  ∃ before call after, es = before ++ call :: after ∧ call.op.Schedules i ∧
    ∀ e ∈ call :: after, ¬ e.Requests i

/-- Where an item waits: in the debounce set behind an armed timer, or in the pending set. -/
def RunQueue.Holds (q : RunQueue) (i : Item) : Prop :=
  (q.debounceTimer = .armed ∧ ∃ f ∈ q.debounceFiles, i = .file f) ∨
    ∃ r, q.pendingFiles = some r ∧ r.Contains i

/-! ### Steps that keep what waits -/

/-- The steps after which everything that waits is still waiting or requested, and `_isRunning`
    still says whether a run is active:

    * `scheduleFiles` during a run clears an armed timer, so what the timer was for has to be
      scheduled with it or be pending already;
    * `scheduleImmediate` replaces the pending set during a run and clears the timer otherwise,
      so it has to bring what was in them;
    * the timer does not expire during a run;
    * a run does not finish while another one is active. -/
def World.Keeps (w : World) : Op → Prop
  | .scheduleFiles files =>
    w.queue.isRunning = true → w.queue.debounceTimer = .armed → ∀ f ∈ w.queue.debounceFiles,
      f ∈ files ∨ ∃ r, w.queue.pendingFiles = some r ∧ r.Contains (.file f)
  | .scheduleAll => True
  | .scheduleImmediate files =>
    if w.queue.isRunning then
      ∀ r, w.queue.pendingFiles = some r → ∀ i, r.Contains i → (RunRequest.files files).Contains i
    else w.queue.debounceTimer = .armed → ∀ f ∈ w.queue.debounceFiles, f ∈ files
  | .expire => w.active = 0
  | .runStarted => True
  | .runFinished => w.active ≤ 1

/-- The steps of `World.step` that meet `World.Keeps`. -/
def KeepingStep (w : World) (e : Event) (w' : World) : Prop :=
  w.step e.op = some (w', e) ∧ w.Keeps e.op

/-! ### What each call does to what waits -/

namespace RunQueue

variable {files : List String} {i : Item} (q : RunQueue)

theorem holds_scheduleFiles (hidle : q.isRunning = false → q.pendingFiles = none)
    (hkeeps : q.isRunning = true → q.debounceTimer = .armed → ∀ f ∈ q.debounceFiles,
      f ∈ files ∨ ∃ r, q.pendingFiles = some r ∧ r.Contains (.file f))
    (hwas : q.Holds i ∨ (Op.scheduleFiles files).Schedules i) :
    (q.scheduleFiles files).Holds i := by
  unfold scheduleFiles
  by_cases hr : q.isRunning = true
  · -- during a run everything has to be in the pending set afterwards
    have hwaits : (∃ f ∈ files, i = .file f) ∨ ∃ r, q.pendingFiles = some r ∧ r.Contains i := by
      rcases hwas with (⟨harmed, f, hf, rfl⟩ | hpend) | hsched
      · exact (hkeeps hr harmed f hf).imp_left fun hmem => ⟨f, hmem, rfl⟩
      · exact .inr hpend
      · cases i with
        | file f => exact .inl ⟨f, hsched, rfl⟩
        | all => exact hsched.elim
    rw [if_pos hr]
    right
    split
    case h_1 hpend => exact ⟨.all, hpend, trivial⟩
    case h_2 pending hpend =>
      refine ⟨_, rfl, ?_⟩
      rcases hwaits with ⟨f, hf, rfl⟩ | ⟨r, hr', hcont⟩
      · exact mem_addAll.mpr (.inr hf)
      · obtain rfl := Option.some.inj (hpend.symm.trans hr')
        cases i with
        | file f => exact mem_addAll.mpr (.inl hcont)
        | all => exact hcont.elim
    case h_3 hpend =>
      refine ⟨_, rfl, ?_⟩
      rcases hwaits with ⟨f, hf, rfl⟩ | ⟨r, hr', hcont⟩
      · exact mem_addAll.mpr (.inr hf)
      · rw [hpend] at hr'
        cases hr'
  · rw [if_neg hr]
    left
    refine ⟨rfl, ?_⟩
    rcases hwas with (⟨-, f, hf, rfl⟩ | ⟨r, hpend, -⟩) | hsched
    · exact ⟨f, mem_addAll.mpr (.inl hf), rfl⟩
    · rw [hidle (Bool.eq_false_iff.mpr hr)] at hpend
      cases hpend
    · cases i with
      | file f => exact ⟨f, mem_addAll.mpr (.inr hsched), rfl⟩
      | all => exact hsched.elim

/-- A run of everything covers whatever waited. -/
theorem requests_scheduleAll :
    q.scheduleAll.2 = some .all ∨ q.scheduleAll.1.Holds i := by
  unfold scheduleAll
  by_cases hr : q.isRunning = true
  · rw [if_pos hr]
    exact .inr (.inr ⟨.all, rfl, trivial⟩)
  · rw [if_neg hr]
    exact .inl rfl

theorem requests_scheduleImmediate (hidle : q.isRunning = false → q.pendingFiles = none)
    (hkeeps : if q.isRunning then
        ∀ r, q.pendingFiles = some r → ∀ i, r.Contains i → (RunRequest.files files).Contains i
      else q.debounceTimer = .armed → ∀ f ∈ q.debounceFiles, f ∈ files)
    (hwas : q.Holds i ∨ (Op.scheduleImmediate files).Schedules i) :
    (q.scheduleImmediate files).2 = some (.files files) ∧ (RunRequest.files files).Contains i ∨
      (q.scheduleImmediate files).1.Holds i := by
  have hcalled : (Op.scheduleImmediate files).Schedules i → (RunRequest.files files).Contains i := by
    cases i with
    | file f => exact id
    | all => exact id
  unfold scheduleImmediate
  by_cases hr : q.isRunning = true
  · rw [if_pos hr] at hkeeps ⊢
    right
    rcases hwas with (htimer | ⟨r, hpend, hcont⟩) | hsched
    · exact .inl htimer
    · refine .inr ⟨_, rfl, ?_⟩
      have := hkeeps r hpend i hcont
      cases i with
      | file f => exact mem_addAll.mpr (.inr this)
      | all => exact this.elim
    · refine .inr ⟨_, rfl, ?_⟩
      have := hcalled hsched
      cases i with
      | file f => exact mem_addAll.mpr (.inr this)
      | all => exact this.elim
  · rw [if_neg hr] at hkeeps ⊢
    left
    refine ⟨rfl, ?_⟩
    rcases hwas with (⟨harmed, f, hf, rfl⟩ | ⟨r, hpend, -⟩) | hsched
    · exact hkeeps harmed f hf
    · rw [hidle (Bool.eq_false_iff.mpr hr)] at hpend
      cases hpend
    · exact hcalled hsched

end RunQueue

/-! ### One step -/

section Step

variable {w w' : World} {e : Event} {i : Item}

/-- What holds between the steps: `_isRunning` says whether a run is active, and the pending
    set is only in use during a run. -/
structure World.Inv (w : World) : Prop where
  running : w.queue.isRunning = true ↔ 0 < w.active
  idle : w.queue.isRunning = false → w.queue.pendingFiles = none

theorem World.Inv.step (hinv : w.Inv) (h : KeepingStep w e w') : w'.Inv := by
  obtain ⟨hstep, hkeeps⟩ := h
  obtain ⟨hrunning, hidle⟩ := hinv
  cases hop : e.op with
  | scheduleFiles files =>
    rw [hop] at hstep
    cases hstep
    simp only [RunQueue.scheduleFiles]
    by_cases hr : w.queue.isRunning = true
    · rw [if_pos hr]
      split <;> exact ⟨hrunning, fun hf => absurd hr (by simp_all)⟩
    · rw [if_neg hr]
      exact ⟨hrunning, hidle⟩
  | scheduleAll =>
    rw [hop] at hstep
    cases hstep
    simp only [RunQueue.scheduleAll]
    by_cases hr : w.queue.isRunning = true
    · rw [if_pos hr]
      exact ⟨hrunning, fun hf => absurd hr (by simp_all)⟩
    · rw [if_neg hr]
      exact ⟨hrunning, hidle⟩
  | scheduleImmediate files =>
    rw [hop] at hstep
    cases hstep
    simp only [RunQueue.scheduleImmediate]
    by_cases hr : w.queue.isRunning = true
    · rw [if_pos hr]
      exact ⟨hrunning, fun hf => absurd hr (by simp_all)⟩
    · rw [if_neg hr]
      exact ⟨hrunning, hidle⟩
  | expire =>
    rw [hop] at hstep
    simp only [World.step] at hstep
    split at hstep
    · cases hstep
      exact ⟨hrunning, hidle⟩
    · cases hstep
  | runStarted =>
    rw [hop] at hstep
    cases hstep
    exact ⟨by simp [RunQueue.notifyRunStarted], by simp [RunQueue.notifyRunStarted]⟩
  | runFinished =>
    rw [hop] at hstep hkeeps
    cases hstep
    have hlast : w.active ≤ 1 := hkeeps
    refine ⟨?_, fun _ => rfl⟩
    simp only [RunQueue.notifyRunFinished]
    constructor
    · intro hf
      cases hf
    · intro hpos
      omega

/-- `onRun` is only called while no run is active. -/
theorem KeepingStep.request_idle (hinv : w.Inv) (h : KeepingStep w e w') (hreq : e.request ≠ none) :
    e.active = 0 := by
  obtain ⟨hstep, hkeeps⟩ := h
  have hzero : w.queue.isRunning ≠ true → w.active = 0 := by
    intro hr
    have := mt hinv.running.mpr hr
    omega
  cases hop : e.op with
  | scheduleFiles files =>
    rw [hop] at hstep
    cases hstep
    exact absurd rfl hreq
  | scheduleAll =>
    rw [hop] at hstep
    cases hstep
    apply hzero
    intro hr
    exact hreq (by simp [RunQueue.scheduleAll, hr])
  | scheduleImmediate files =>
    rw [hop] at hstep
    cases hstep
    apply hzero
    intro hr
    exact hreq (by simp [RunQueue.scheduleImmediate, hr])
  | expire =>
    rw [hop] at hstep hkeeps
    simp only [World.step] at hstep
    split at hstep
    · cases hstep
      exact hkeeps
    · cases hstep
  | runStarted =>
    rw [hop] at hstep
    cases hstep
    exact absurd rfl hreq
  | runFinished =>
    rw [hop] at hstep hkeeps
    cases hstep
    have hlast : w.active ≤ 1 := hkeeps
    change w.active - 1 = 0
    omega

/-- What waits, or is scheduled by the step, is requested by it or waits after it. -/
theorem KeepingStep.holds (hinv : w.Inv) (h : KeepingStep w e w')
    (hwas : w.queue.Holds i ∨ e.op.Schedules i) : e.Requests i ∨ w'.queue.Holds i := by
  obtain ⟨hstep, hkeeps⟩ := h
  cases hop : e.op with
  | scheduleFiles files =>
    rw [hop] at hstep hkeeps hwas
    cases hstep
    exact .inr (w.queue.holds_scheduleFiles hinv.idle hkeeps hwas)
  | scheduleAll =>
    rw [hop] at hstep
    cases hstep
    rcases w.queue.requests_scheduleAll with hr | hr
    · exact .inl ⟨.all, hr, trivial⟩
    · exact .inr hr
  | scheduleImmediate files =>
    rw [hop] at hstep hkeeps hwas
    cases hstep
    rcases w.queue.requests_scheduleImmediate hinv.idle hkeeps hwas with ⟨hr, hmem⟩ | hr
    · exact .inl ⟨.files files, hr, hmem⟩
    · exact .inr hr
  | expire =>
    rw [hop] at hstep hwas
    simp only [World.step] at hstep
    split at hstep
    · cases hstep
      rcases hwas with (⟨-, f, hf, rfl⟩ | hpend) | hsched
      · exact .inl ⟨.files w.queue.debounceFiles, rfl, hf⟩
      · exact .inr (.inr hpend)
      · exact hsched.elim
    · cases hstep
  | runStarted =>
    rw [hop] at hstep hwas
    cases hstep
    rcases hwas with hheld | hsched
    · exact .inr hheld
    · exact hsched.elim
  | runFinished =>
    rw [hop] at hstep hwas
    cases hstep
    rcases hwas with (htimer | hpend) | hsched
    · exact .inr (.inl htimer)
    · exact .inl hpend
    · exact hsched.elim

end Step

/-! ### A whole run -/

theorem owed_nil {i : Item} : ¬ Owed [] i := by
  rintro ⟨before, call, after, hes, -⟩
  exact absurd hes (by simp)

/-- What is owed after one more step was owed before it or scheduled by it. -/
theorem owed_snoc {es : List Event} {e : Event} {i : Item} (h : Owed (es ++ [e]) i) :
    ¬ e.Requests i ∧ (Owed es i ∨ e.op.Schedules i) := by
  obtain ⟨before, call, after, hes, hsched, hnone⟩ := h
  rcases List.eq_nil_or_concat after with rfl | ⟨front, last, rfl⟩
  · obtain ⟨-, hlast⟩ := List.append_inj' hes rfl
    obtain rfl := List.singleton_inj.mp hlast
    exact ⟨hnone _ (List.mem_singleton_self e), .inr hsched⟩
  · rw [List.concat_eq_append, ← List.cons_append, ← List.append_assoc] at hes
    obtain ⟨hfront, hlast⟩ := List.append_inj' hes rfl
    obtain rfl := List.singleton_inj.mp hlast
    refine ⟨hnone _ (by simp), .inl ⟨before, call, front, hfront, hsched, ?_⟩⟩
    intro e' he'
    apply hnone
    rw [List.concat_eq_append, ← List.cons_append]
    exact List.mem_append_left _ he'

/-- In a run of keeping steps, everything owed waits for the timer or for the run to finish. -/
theorem Owed.held {es : List Event} {w : World} {i : Item}
    (h : Run KeepingStep World.init es w) : w.Inv ∧ (Owed es i → w.queue.Holds i) := by
  induction h with
  | nil =>
    refine ⟨⟨by simp [World.init, RunQueue.new], fun _ => rfl⟩, ?_⟩
    intro howed
    exact absurd howed owed_nil
  | snoc _ hstep ih =>
    obtain ⟨hinv, hheld⟩ := ih
    refine ⟨hinv.step hstep, ?_⟩
    intro howed
    obtain ⟨hnone, hwas⟩ := owed_snoc howed
    rcases hstep.holds hinv (hwas.imp_left hheld) with hreq | hholds
    · exact absurd hreq hnone
    · exact hholds

/-- Nothing waits where no timer is pending and no run is active. -/
theorem World.Inv.not_holds {w : World} {i : Item} (hinv : w.Inv) (hquiet : w.Quiet) :
    ¬ w.queue.Holds i := by
  rintro (⟨harmed, -⟩ | ⟨r, hpend, -⟩)
  · exact hquiet.1 harmed
  · have hidle : w.queue.isRunning = false := by
      rw [Bool.eq_false_iff]
      intro hr
      have := hinv.running.mp hr
      have := hquiet.2
      omega
    rw [hinv.idle hidle] at hpend
    cases hpend

/-- **Nothing scheduled is lost.**  In every run of keeping steps, `onRun` is only called while
    no run is active, and where no timer is pending and no run is active, each file and each
    run of everything that was scheduled is contained in a run requested since. -/
theorem scheduled_files_requested {es : List Event} {w : World}
    (h : Run KeepingStep World.init es w) :
    (∀ e ∈ es, e.request ≠ none → e.active = 0) ∧
    (w.Quiet → ∀ before call after i, es = before ++ call :: after → call.op.Schedules i →
      ∃ e ∈ call :: after, e.Requests i) := by
  constructor
  · have hpres : ∀ (w : World) (e : Event) (w' : World), w.Inv → KeepingStep w e w' →
        w'.Inv ∧ (e.request ≠ none → e.active = 0) :=
      fun w e w' hinv hstep => ⟨hinv.step hstep, hstep.request_idle hinv⟩
    exact h.always hpres (Owed.held (i := .all) .nil).1
  · intro hquiet before call after i hes hsched
    by_contra hnone
    have howed : Owed es i := by
      refine ⟨before, call, after, hes, hsched, ?_⟩
      intro e he hreq
      exact hnone ⟨e, he, hreq⟩
    obtain ⟨hinv, hheld⟩ := Owed.held h (i := i)
    exact hinv.not_holds hquiet (hheld howed)

/-- Two edits within the debounce time come in one run. -/
theorem scheduled_files_requested_edits :
    let es : List Event :=
      [⟨.scheduleFiles ["a.test.ts"], none, 0⟩, ⟨.scheduleFiles ["b.test.ts"], none, 0⟩,
        ⟨.expire, some (.files ["a.test.ts", "b.test.ts"]), 0⟩, ⟨.runStarted, none, 0⟩,
        ⟨.runFinished, none, 0⟩]
    ∃ w, Run KeepingStep World.init es w ∧ w.Quiet ∧
      ∃ e ∈ es, e.Requests (.file "a.test.ts") := by
  intro es
  have hrun : Run KeepingStep World.init es World.init := by
    apply Run.cons ⟨rfl, fun hr => nomatch hr⟩
    apply Run.cons ⟨rfl, fun hr => nomatch hr⟩
    apply Run.cons ⟨rfl, rfl⟩
    apply Run.cons ⟨rfl, trivial⟩
    apply Run.cons ⟨rfl, Nat.le_refl 1⟩
    exact .nil
  have hquiet : World.init.Quiet := ⟨by decide, rfl⟩
  exact ⟨_, hrun, hquiet,
    (scheduled_files_requested hrun).2 hquiet [] _ _ (.file "a.test.ts") rfl (by simp [Op.Schedules])⟩

/-- A re-run from the keyboard within the debounce time of a saved edit clears the timer and
    leaves the edit in the debounce set: no run for it is ever requested.  A run that starts
    while the timer is armed is interrupted by the next request. -/
theorem immediate_drops_debounced :
    (∃ es w, Run (Steps World.step) World.init es w ∧ w.Quiet ∧ Owed es (.file "a.test.ts")) ∧
    ∃ es w, Run (Steps World.step) World.init es w ∧
      ∃ e ∈ es, e.request ≠ none ∧ 0 < e.active := by
  constructor
  · let es : List Event :=
      [⟨.scheduleFiles ["a.test.ts"], none, 0⟩,
        ⟨.scheduleImmediate ["b.test.ts"], some (.files ["b.test.ts"]), 0⟩,
        ⟨.runStarted, none, 0⟩, ⟨.runFinished, none, 0⟩]
    let ops : List Op :=
      [.scheduleFiles ["a.test.ts"], .scheduleImmediate ["b.test.ts"], .runStarted, .runFinished]
    have hexec : exec World.step World.init ops =
        some (⟨⟨["a.test.ts"], .null, none, false⟩, 0⟩, es) := by decide
    refine ⟨es, _, exec_run hexec, ⟨by decide, rfl⟩, [], _, _, rfl, List.mem_singleton_self _, ?_⟩
    intro e he
    rintro ⟨r, hr, hcont⟩
    simp only [List.mem_cons, List.not_mem_nil, or_false] at he
    rcases he with rfl | rfl | rfl | rfl
    · cases hr
    · cases hr
      exact absurd (List.mem_singleton.mp hcont) (by decide)
    · cases hr
    · cases hr
  · let es : List Event :=
      [⟨.scheduleAll, some .all, 0⟩, ⟨.scheduleFiles ["a.test.ts"], none, 0⟩,
        ⟨.runStarted, none, 0⟩, ⟨.expire, some (.files ["a.test.ts"]), 1⟩]
    have hexec : (exec World.step World.init
        [.scheduleAll, .scheduleFiles ["a.test.ts"], .runStarted, .expire]).map Prod.snd =
          some es := by decide
    obtain ⟨w, hrun⟩ := exists_run_of_exec hexec
    exact ⟨es, w, hrun, _, List.mem_of_getElem? (i := 3) rfl, by decide, by decide⟩

end Tapsmith.Watch
