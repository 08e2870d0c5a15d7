import Mathlib.Data.List.MinMax
import Tapsmith.Agent.Gesture

namespace Tapsmith.Agent

/-!
# Pointers that stay down

Which pointers a gesture leaves down, whatever events the input system refuses and wherever the
command is cancelled.

* `Ended` — every pointer that went down was ended;
* `held`, `ended_iff` — the pointers that are down after some events, and that there are none;
* `lost` — the pointers whose release was refused and that nothing has cancelled since;
* `gesture_ended_iff` — what a gesture leaves down are just those, if it does not cancel them.
-/

/-! ### Events that press and release -/

namespace TouchEvent

/-- The pointer that the event is about. -/
def subject (e : TouchEvent) : Option ℕ := e.pointers[e.actionIndex]?.map PointerState.id

def presses (e : TouchEvent) : Bool := e.action = .down || e.action = .pointerDown

def releases (e : TouchEvent) : Bool := e.action = .up || e.action = .pointerUp

/-- The event ends the pointer: it cancels the gesture, or is a release that was accepted. -/
def ends (i : ℕ) (e : TouchEvent) (accepted : Bool) : Bool :=
  e.action = .cancel || accepted && e.releases && e.subject = some i

end TouchEvent

/-- Every pointer that a press was sent for has been ended since. -/
def Ended (log : List (TouchEvent × Bool)) : Prop :=
  ∀ i pre x post, log = pre ++ x :: post → x.1.presses = true → x.1.subject = some i →
    ∃ y ∈ post, y.1.ends i y.2 = true

/-- What an event does to the pointers that are down. -/
def after (held : List ℕ) (x : TouchEvent × Bool) : List ℕ :=
  if x.1.presses then held ++ x.1.subject.toList
  else held.filter fun i => !x.1.ends i x.2

def held (log : List (TouchEvent × Bool)) : List ℕ := log.foldl after []

/-- The pointers whose release was refused. -/
def lostAfter (lost : List ℕ) (x : TouchEvent × Bool) : List ℕ :=
  if x.1.action = .cancel then []
  else if x.1.releases && !x.2 then lost ++ x.1.subject.toList
  else lost

/-- The pointers whose release was refused, with no cancel since. -/
def lost (log : List (TouchEvent × Bool)) : List ℕ := log.foldl lostAfter []

theorem held_snoc (log : List (TouchEvent × Bool)) (x : TouchEvent × Bool) :
    held (log ++ [x]) = after (held log) x := by
  rw [held, List.foldl_append]
  rfl

theorem lost_snoc (log : List (TouchEvent × Bool)) (x : TouchEvent × Bool) :
    lost (log ++ [x]) = lostAfter (lost log) x := by
  rw [lost, List.foldl_append]
  rfl

/-- A pointer is down if a press of it was sent that nothing has ended since. -/
theorem mem_held {log : List (TouchEvent × Bool)} {i : ℕ} :
    i ∈ held log ↔ ∃ pre x post, log = pre ++ x :: post ∧ x.1.presses = true ∧
      x.1.subject = some i ∧ ∀ y ∈ post, y.1.ends i y.2 = false := by
  induction log using List.reverseRecOn with
  | nil =>
    constructor
    · nofun
    · rintro ⟨pre, x, post, hlog, -⟩
      exact absurd hlog (by simp)
  | append_singleton log z ih =>
    have hpressed : z.1.presses = true → z.1.ends i z.2 = false := by
      intro hz
      unfold TouchEvent.presses at hz
      unfold TouchEvent.ends TouchEvent.releases
      cases haction : z.1.action <;> rw [haction] at hz <;> simp at hz ⊢
    rw [held_snoc, after]
    constructor
    · intro hi
      split at hi
      case isTrue hz =>
        rcases List.mem_append.mp hi with hi | hi
        · obtain ⟨pre, x, post, rfl, hx, hsubject, hpost⟩ := ih.mp hi
          refine ⟨pre, x, post ++ [z], by simp, hx, hsubject, fun y hy => ?_⟩
          rcases List.mem_append.mp hy with hy | hy
          · exact hpost y hy
          · rw [List.mem_singleton.mp hy]
            exact hpressed hz
        · exact ⟨log, z, [], rfl, hz, Option.mem_toList.mp hi, nofun⟩
      case isFalse hz =>
        obtain ⟨hi, hends⟩ := List.mem_filter.mp hi
        obtain ⟨pre, x, post, rfl, hx, hsubject, hpost⟩ := ih.mp hi
        refine ⟨pre, x, post ++ [z], by simp, hx, hsubject, fun y hy => ?_⟩
        rcases List.mem_append.mp hy with hy | hy
        · exact hpost y hy
        · rw [List.mem_singleton.mp hy]
          exact Bool.not_eq_eq_eq_not.mp hends
    · rintro ⟨pre, x, post, hlog, hx, hsubject, hpost⟩
      rcases List.eq_nil_or_concat post with rfl | ⟨front, last, rfl⟩
      · obtain ⟨rfl, hlast⟩ := List.append_inj' hlog rfl
        obtain rfl := List.singleton_inj.mp hlast
        rw [if_pos hx]
        exact List.mem_append_right _ (Option.mem_toList.mpr hsubject)
      · rw [List.concat_eq_append, ← List.cons_append, ← List.append_assoc] at hlog
        obtain ⟨rfl, hlast⟩ := List.append_inj' hlog rfl
        obtain rfl := List.singleton_inj.mp hlast
        have hbefore : i ∈ held (pre ++ x :: front) := by
          refine ih.mpr ⟨pre, x, front, rfl, hx, hsubject, fun y hy => hpost y ?_⟩
          rw [List.concat_eq_append]
          exact List.mem_append_left _ hy
        have hend : z.1.ends i z.2 = false := hpost z (by simp)
        split
        · exact List.mem_append_left _ hbefore
        · exact List.mem_filter.mpr ⟨hbefore, Bool.not_eq_eq_eq_not.mpr hend⟩

theorem ended_iff {log : List (TouchEvent × Bool)} : Ended log ↔ held log = [] := by
  rw [List.eq_nil_iff_forall_not_mem]
  constructor
  · intro h i hi
    obtain ⟨pre, x, post, hlog, hx, hsubject, hpost⟩ := mem_held.mp hi
    obtain ⟨y, hy, hends⟩ := h i pre x post hlog hx hsubject
    exact Bool.false_ne_true ((hpost y hy).symm.trans hends)
  · intro h i pre x post hlog hx hsubject
    by_contra hnot
    refine h i (mem_held.mpr ⟨pre, x, post, hlog, hx, hsubject, fun y hy => ?_⟩)
    exact Bool.eq_false_iff.mpr fun hends => hnot ⟨y, hy, hends⟩

/-! ### One pointer -/

variable {W : Type} (dev : Device W)

section Single

variable {s : State W} {downTime : ℤ} {p : ScreenPoint}

theorem log_single (s : State W) (action : TouchAction) (downTime : ℤ) (p : ScreenPoint) :
    (s.single dev action downTime p).2.log = s.log ++
      [({ action, downTime, pointers := [{ id := 0, point := p }], sync := true },
        (s.single dev action downTime p).1)] := rfl

theorem held_press (h : held s.log = []) :
    held (s.single dev .down downTime p).2.log = [0] := by
  rw [log_single, held_snoc, h]
  rfl

theorem held_move (h : held s.log = [0]) :
    held (s.single dev .move downTime p).2.log = [0] := by
  rw [log_single, held_snoc, h]
  generalize (s.single dev .move downTime p).1 = accepted
  cases accepted <;> rfl

theorem held_cancel (s : State W) : held (s.single dev .cancel downTime p).2.log = [] := by
  rw [log_single, held_snoc]
  generalize held s.log = before
  show before.filter (fun _ => false) = []
  exact List.filter_false before

theorem held_release (h : held s.log = [0]) :
    held (s.single dev .up downTime p).2.log =
      if (s.single dev .up downTime p).1 then [] else [0] := by
  rw [log_single, held_snoc, h]
  generalize (s.single dev .up downTime p).1 = accepted
  cases accepted <;> rfl

theorem held_releaseOrCancel (h : held s.log = [0]) :
    held (releaseOrCancel dev s downTime p).2.log = [] := by
  unfold releaseOrCancel
  dsimp only
  split
  case isTrue hup => rw [held_release dev h, if_pos hup]
  case isFalse => exact held_cancel dev _

theorem lost_single_of_not_release {action : TouchAction} (hlost : lost s.log = [])
    (haction : action = .down ∨ action = .move) :
    lost (s.single dev action downTime p).2.log = [] := by
  rw [log_single, lost_snoc, hlost]
  rcases haction with rfl | rfl
  · rfl
  · rfl

theorem lost_release (h : lost s.log = []) :
    lost (s.single dev .up downTime p).2.log =
      if (s.single dev .up downTime p).1 then [] else [0] := by
  rw [log_single, lost_snoc, h]
  generalize (s.single dev .up downTime p).1 = accepted
  cases accepted <;> rfl

end Single

/-! ### Clicks -/

theorem hold_log {since ms : ℤ} {fuel : ℕ} {s : State W} {r : Bool × State W}
    (h : hold dev since ms fuel s = some r) : r.2.log = s.log := by
  induction fuel generalizing s with
  | zero => cases h
  | succ fuel ih =>
    unfold hold at h
    dsimp only at h
    split at h
    · cases h
      rfl
    · split at h
      · cases h
        rfl
      · exact (ih h).trans rfl

theorem click_held {p : ScreenPoint} {pressMs : ℤ} {fuel : ℕ} {s : State W}
    {r : Outcome × State W} (hstart : s.log = []) (h : click dev p pressMs fuel s = some r) :
    held r.2.log = [] := by
  obtain ⟨waited, hwaited, rfl⟩ := Option.map_eq_some_iff.mp h
  have hlog := hold_log dev hwaited
  have hdown : held waited.2.log = [0] := by
    rw [hlog]
    exact held_press dev (by
      show held s.log = []
      rw [hstart]
      rfl)
  split
  · exact held_cancel dev _
  · exact held_releaseOrCancel dev hdown

/-! ### Swipes -/

theorem swipeMoves_held {downTime : ℤ} {start dest : ScreenPoint} {n : ℕ} (is : List ℕ) :
    ∀ {ok : Bool} {s : State W}, held s.log = [0] → lost s.log = [] →
      held (swipeMoves dev downTime start dest n is ok s).2.log = [0] ∧
        lost (swipeMoves dev downTime start dest n is ok s).2.log = [] := by
  induction is with
  | nil => exact fun hheld hlost => ⟨hheld, hlost⟩
  | cons i rest ih =>
    intro ok s hheld hlost
    unfold swipeMoves
    split
    · exact ih (held_move dev hheld) (lost_single_of_not_release dev hlost (.inr rfl))
    · exact ⟨hheld, hlost⟩

/-- A swipe by steps leaves its pointer down exactly if the release is refused. -/
theorem stepSwipe_held_iff {start dest : ScreenPoint} {steps : ℤ} {s : State W}
    (hstart : s.log = []) : held (stepSwipe dev start dest steps s).2.log = [] ↔
      lost (stepSwipe dev start dest steps s).2.log = [] := by
  have hlog : ∀ downTime : ℤ × State W, downTime.2.log = s.log →
      held (downTime.2.single dev .down downTime.1 start).2.log = [0] ∧
        lost (downTime.2.single dev .down downTime.1 start).2.log = [] := by
    intro downTime hsame
    rw [hstart] at hsame
    exact ⟨held_press dev (by rw [hsame]; rfl),
      lost_single_of_not_release dev (by rw [hsame]; rfl) (.inl rfl)⟩
  obtain ⟨hheld, hlost⟩ := hlog (s.call dev.now) rfl
  unfold stepSwipe
  dsimp only
  obtain ⟨hheld', hlost'⟩ := @swipeMoves_held W dev (s.call dev.now).1 start dest
    (max steps 1).toNat (List.range' 1 ((max steps 1).toNat - 1))
    ((s.call dev.now).2.single dev .down (s.call dev.now).1 start).1
    (((s.call dev.now).2.single dev .down (s.call dev.now).1 start).2.wait dev.waitForNextFrame)
    hheld hlost
  rw [held_release dev hheld', lost_release dev hlost']

/-! ### Drags -/

section Drags

variable {downTime frameMs : ℤ} {drag : Drag} {s : State W}

theorem dragCheckpoint_held (downTime : ℤ) (p : ScreenPoint) (h : held s.log = [0]) :
    held (dragCheckpoint dev downTime p s).2.log =
      if (dragCheckpoint dev downTime p s).1 then [] else [0] := by
  unfold dragCheckpoint
  dsimp only
  split
  · exact held_cancel dev _
  · exact h

theorem dragMove_log (drag : Drag) (s : State W) :
    (dragMove dev downTime frameMs drag s).2.log =
      ((s.call dev.now).2.single dev .move downTime drag.point).2.log := by
  unfold dragMove
  dsimp only
  split
  · rfl
  · split
    · rfl
    · rfl

theorem dragMove_held (drag : Drag) (h : held s.log = [0]) :
    held (dragMove dev downTime frameMs drag s).2.log = [0] := by
  rw [dragMove_log]
  exact held_move dev h

theorem dragMoves_held {start dest : ScreenPoint} {n : ℕ} (is : List ℕ) :
    ∀ {drag : Drag} {s : State W}, held s.log = [0] →
      held (dragMoves dev downTime frameMs start dest n is drag s).2.2.log =
        if (dragMoves dev downTime frameMs start dest n is drag s).1 then [] else [0] := by
  induction is with
  | nil => exact fun h => h
  | cons i rest ih =>
    intro drag s h
    have hcheck := dragCheckpoint_held dev downTime drag.point h
    unfold dragMoves
    dsimp only
    split
    · split
      case isTrue hcancelled => rw [hcheck, if_pos hcancelled, if_pos rfl]
      case isFalse hgo =>
        rw [if_neg hgo] at hcheck
        refine ih ?_
        split
        · exact dragMove_held dev _ hcheck
        · exact dragMove_held dev _ hcheck
    · exact h

theorem dragRest_held {fuel : ℕ} : ∀ {drag : Drag} {s : State W} {r : Bool × Drag × State W},
    held s.log = [0] → dragRest dev downTime frameMs fuel drag s = some r →
      held r.2.2.log = if r.1 then [] else [0] := by
  induction fuel with
  | zero => nofun
  | succ fuel ih =>
    intro drag s r h hr
    have hcheck : held (dragCheckpoint dev downTime drag.point (s.call dev.now).2).2.log =
        if (dragCheckpoint dev downTime drag.point (s.call dev.now).2).1 then [] else [0] :=
      dragCheckpoint_held dev downTime drag.point h
    unfold dragRest at hr
    dsimp only at hr
    split at hr
    · split at hr
      · split at hr
        case isTrue hcancelled =>
          cases hr
          rw [hcheck, if_pos hcancelled, if_pos rfl]
        case isFalse hgo =>
          rw [if_neg hgo] at hcheck
          exact ih (dragMove_held dev drag hcheck) hr
      · cases hr
        exact h
    · cases hr
      exact h

theorem dragEnd_held (drag : Drag) (h : held s.log = [0]) :
    held (dragEnd dev downTime drag s).2.log = [] := by
  have hcheck := dragCheckpoint_held dev downTime drag.point h
  unfold dragEnd
  dsimp only
  split
  case isTrue hcancelled => rw [hcheck, if_pos hcancelled]
  case isFalse hgo =>
    rw [if_neg hgo] at hcheck
    exact held_releaseOrCancel dev hcheck

theorem stepDrag_held {start dest : ScreenPoint} {steps : ℤ} {fuel : ℕ} {s : State W}
    {r : Outcome × State W} (hstart : s.log = [])
    (h : stepDrag dev start dest steps fuel s = some r) : held r.2.log = [] := by
  have hdown : ∀ (downTime : ℤ) (s' : State W), s'.log = s.log →
      held (s'.single dev .down downTime start).2.log = [0] := by
    intro downTime s' hsame
    exact held_press dev (by rw [hsame, hstart]; rfl)
  unfold stepDrag at h
  dsimp only at h
  have hmoved := @dragMoves_held W dev (s.call dev.now).1
    (2 * max ((s.call dev.now).2.call dev.tickMs).1 1) start dest (max steps 1).toNat
    (List.range' 1 (max steps 1).toNat)
    { point := start
      ok := (((s.call dev.now).2.call dev.tickMs).2.single dev .down (s.call dev.now).1 start).1 }
    ((((s.call dev.now).2.call dev.tickMs).2.single dev .down (s.call dev.now).1 start).2.wait
      dev.waitForNextFrame) (hdown _ _ rfl)
  split at h
  case isTrue hcancelled =>
    cases h
    rw [hmoved, if_pos hcancelled]
  case isFalse hgo =>
    rw [if_neg hgo] at hmoved
    obtain ⟨rested, hrested, rfl⟩ := Option.map_eq_some_iff.mp h
    have hrest := dragRest_held dev hmoved hrested
    split
    case isTrue hcancelled => rw [hrest, if_pos hcancelled]
    case isFalse hgo =>
      rw [if_neg hgo] at hrest
      exact dragEnd_held dev _ hrest

end Drags

/-! ### Several pointers -/

section Perform

variable {paths : ℕ → PointerPath} {startTime elapsed : ℤ} {play : Playing} {s : State W}

/-- What is down are the pointers that `perform` takes to be down, and those whose release was
    refused; these it does not know of any more, and the ones to come were never down. -/
structure Accounted (play : Playing) (log : List (TouchEvent × Bool)) : Prop where
  held : ∀ i, i ∈ held log ↔ i ∈ play.down ∨ i ∈ lost log
  down : play.down.Nodup
  pending : play.pending.Nodup
  apart : ∀ i ∈ play.down, i ∉ lost log
  fresh : ∀ i ∈ play.pending, i ∉ play.down ∧ i ∉ lost log

/-- The event that `inject` sends. -/
def injected (startTime : ℤ) (action : TouchAction) (index : ℕ) (play : Playing) : TouchEvent where
  action := action
  downTime := startTime
  pointers := play.down.map fun i => { id := i, point := play.position i }
  actionIndex := index
  sync := false

theorem log_inject (startTime : ℤ) (action : TouchAction) (index : ℕ) (play : Playing) (s : State W) :
    ∃ accepted, (inject dev startTime action index play s).log =
      s.log ++ [(injected startTime action index play, accepted)] := ⟨_, rfl⟩

theorem injected_subject (action : TouchAction) (index : ℕ) (play : Playing) :
    (injected startTime action index play).subject = play.down[index]? := by
  unfold TouchEvent.subject injected
  dsimp only
  rw [List.getElem?_map, Option.map_map]
  cases play.down[index]? with
  | none => rfl
  | some i => rfl

/-- A move changes nothing of what is down. -/
theorem Accounted.move (startTime : ℤ) (h : Accounted play s.log) (index : ℕ) :
    Accounted play (inject dev startTime .move index play s).log := by
  obtain ⟨accepted, hlog⟩ := log_inject dev startTime .move index play s
  have hheld : Agent.held (inject dev startTime .move index play s).log = Agent.held s.log := by
    rw [hlog, held_snoc]
    show (Agent.held s.log).filter (fun i => !(false || accepted && false && _)) = _
    simp
  have hlost : lost (inject dev startTime .move index play s).log = lost s.log := by
    rw [hlog, lost_snoc]
    rfl
  exact ⟨fun i => by rw [hheld, hlost]; exact h.held i, h.down, h.pending,
    fun i hi => by rw [hlost]; exact h.apart i hi, fun i hi => by rw [hlost]; exact h.fresh i hi⟩

/-- The release of a pointer that is down. -/
theorem Accounted.released (h : Accounted play s.log) {done : ℕ} (hdone : done ∈ play.down)
    {action : TouchAction} (haction : action = .up ∨ action = .pointerUp) :
    Accounted { play with down := play.down.eraseIdx (play.down.idxOf done) }
      (inject dev startTime action (play.down.idxOf done) play s).log := by
  obtain ⟨accepted, hlog⟩ := log_inject dev startTime action
    (play.down.idxOf done) play s
  have hsubject : (injected startTime action (play.down.idxOf done) play).subject = some done := by
    rw [injected_subject, List.getElem?_eq_getElem (List.idxOf_lt_length_of_mem hdone),
      List.getElem_idxOf]
  have hrelease : (injected startTime action (play.down.idxOf done) play).releases = true ∧
      (injected startTime action (play.down.idxOf done) play).presses = false ∧
      (injected startTime action (play.down.idxOf done) play).action ≠ .cancel := by
    rcases haction with rfl | rfl
    · exact ⟨rfl, rfl, nofun⟩
    · exact ⟨rfl, rfl, nofun⟩
  obtain ⟨hreleases, hpresses, hcancel⟩ := hrelease
  have hends : ∀ i, (injected startTime action (play.down.idxOf done) play).ends i accepted =
      (accepted && decide (done = i)) := by
    intro i
    rw [TouchEvent.ends, decide_eq_false hcancel, hreleases, hsubject, Bool.false_or,
      Bool.and_true]
    simp only [Option.some.injEq]
  have hheld : ∀ i, i ∈ Agent.held (inject dev startTime action (play.down.idxOf done) play s).log ↔
      i ∈ Agent.held s.log ∧ ¬ (accepted = true ∧ done = i) := by
    intro i
    rw [hlog, held_snoc, after, hpresses, if_neg Bool.false_ne_true, List.mem_filter, hends]
    cases accepted <;> simp
  have hlost : ∀ i, i ∈ lost (inject dev startTime action (play.down.idxOf done) play s).log ↔
      i ∈ lost s.log ∨ accepted = false ∧ i = done := by
    intro i
    rw [hlog, lost_snoc, lostAfter, if_neg hcancel, hreleases, hsubject]
    cases accepted <;> simp
  rw [List.eraseIdx_idxOf_eq_erase]
  have hmem : ∀ i, i ∈ play.down.erase done ↔ i ≠ done ∧ i ∈ play.down := fun i =>
    h.down.mem_erase_iff
  refine ⟨fun i => ?_, h.down.erase done, h.pending, fun i hi => ?_, fun i hi => ⟨?_, ?_⟩⟩
  · rw [hheld, hlost]
    show _ ↔ i ∈ play.down.erase done ∨ _
    rw [hmem, h.held i]
    by_cases heq : i = done
    · subst heq
      have hapart := h.apart i hdone
      cases accepted <;> simp [hdone, hapart]
    · have hne : ¬ done = i := fun hsame => heq hsame.symm
      simp [heq, hne]
  · rw [hlost]
    obtain ⟨hne, hi⟩ := (hmem i).mp hi
    rintro (hi' | ⟨-, heq⟩)
    · exact h.apart i hi hi'
    · exact hne heq
  · exact fun hi' => (h.fresh i hi).1 ((hmem i).mp hi').2
  · rw [hlost]
    rintro (hi' | ⟨-, rfl⟩)
    · exact (h.fresh i hi).2 hi'
    · exact (h.fresh i hi).1 hdone

/-- The press of a pointer that comes next. -/
theorem Accounted.pressed {p : ℕ} {rest : List ℕ}
    (h : Accounted { play with pending := p :: rest } s.log) {action : TouchAction}
    (haction : action = .down ∨ action = .pointerDown) :
    Accounted { play with down := play.down ++ [p], pending := rest }
      (inject dev startTime action ((play.down ++ [p]).length - 1)
        { play with down := play.down ++ [p] } s).log := by
  obtain ⟨accepted, hlog⟩ := log_inject dev startTime action
    ((play.down ++ [p]).length - 1) { play with down := play.down ++ [p] } s
  have hsubject : (injected startTime action ((play.down ++ [p]).length - 1)
      { play with down := play.down ++ [p] }).subject = some p := by
    rw [injected_subject]
    simp
  have hpress : (injected startTime action ((play.down ++ [p]).length - 1)
        { play with down := play.down ++ [p] }).presses = true ∧
      (injected startTime action ((play.down ++ [p]).length - 1)
        { play with down := play.down ++ [p] }).releases = false ∧
      (injected startTime action ((play.down ++ [p]).length - 1)
        { play with down := play.down ++ [p] }).action ≠ .cancel := by
    rcases haction with rfl | rfl
    · exact ⟨rfl, rfl, nofun⟩
    · exact ⟨rfl, rfl, nofun⟩
  have hheld : Agent.held (inject dev startTime action ((play.down ++ [p]).length - 1)
      { play with down := play.down ++ [p] } s).log = Agent.held s.log ++ [p] := by
    rw [hlog, held_snoc, after, if_pos hpress.1, hsubject]
    rfl
  have hlost : lost (inject dev startTime action ((play.down ++ [p]).length - 1)
      { play with down := play.down ++ [p] } s).log = lost s.log := by
    rw [hlog, lost_snoc, lostAfter, if_neg hpress.2.2, hpress.2.1]
    rfl
  rw [hlog] at hheld hlost ⊢
  obtain ⟨hp, hrest⟩ := List.nodup_cons.mp h.pending
  have hfresh := h.fresh p List.mem_cons_self
  refine ⟨fun i => ?_, ?_, hrest, fun i hi => ?_, fun i hi => ⟨?_, ?_⟩⟩
  · rw [hheld, hlost, List.mem_append, List.mem_append, h.held i]
    tauto
  · exact List.nodup_append.mpr ⟨h.down, List.nodup_cons.mpr ⟨List.not_mem_nil, List.nodup_nil⟩, fun a ha b hb hab =>
      hfresh.1 (List.mem_singleton.mp hb ▸ hab ▸ ha)⟩
  · rw [hlost]
    rcases List.mem_append.mp hi with hi | hi
    · exact h.apart i hi
    · rw [List.mem_singleton.mp hi]
      exact hfresh.2
  · intro hi'
    rcases List.mem_append.mp hi' with hi' | hi'
    · exact (h.fresh i (List.mem_cons_of_mem _ hi)).1 hi'
    · exact hp (List.mem_singleton.mp hi' ▸ hi)
  · rw [hlost]
    exact (h.fresh i (List.mem_cons_of_mem _ hi)).2

theorem Accounted.injectMove (h : Accounted play s.log) :
    Accounted (injectMove dev startTime play s).1 (injectMove dev startTime play s).2.log := by
  have hmoved := h.move dev startTime 0
  exact ⟨hmoved.held, hmoved.down, hmoved.pending, hmoved.apart, hmoved.fresh⟩

theorem release_accounted (h : Accounted play s.log) {done : ℕ} (hdone : done ∈ play.down) :
    Accounted (release dev paths startTime elapsed done play s).1
      (release dev paths startTime elapsed done play s).2.log := by
  unfold release
  dsimp only
  generalize hposition : (fun i => if i = done then (paths i).stop
    else if i ∈ play.down then (paths i).pointAt dev elapsed else play.position i) = position
  have hplay : Accounted { play with position := position } s.log :=
    ⟨h.held, h.down, h.pending, h.apart, h.fresh⟩
  generalize hmoved : (if (play.sent done).getD (paths done).start ≠ (paths done).stop then
    injectMove dev startTime { play with position := position } s
    else ({ play with position := position }, s)) = moved
  have haccounted : Accounted moved.1 moved.2.log ∧ done ∈ moved.1.down := by
    rw [← hmoved]
    split
    · exact ⟨hplay.injectMove dev, hdone⟩
    · exact ⟨hplay, hdone⟩
  refine haccounted.1.released dev haccounted.2 ?_
  split
  · exact .inr rfl
  · exact .inl rfl

theorem releaseDone_accounted (n : ℕ) : ∀ {play : Playing} {s : State W},
    Accounted play s.log →
      Accounted (releaseDone dev paths startTime elapsed n play s).1
        (releaseDone dev paths startTime elapsed n play s).2.log := by
  induction n with
  | zero => exact fun h => h
  | succ n ih =>
    intro play s h
    unfold releaseDone
    split
    · exact h
    case h_2 done hdone =>
      split
      · exact h
      · exact ih (release_accounted dev h (List.minOn?_mem hdone))

theorem moveOn_accounted (h : Accounted play s.log) :
    Accounted (moveOn dev paths startTime elapsed play s).1
      (moveOn dev paths startTime elapsed play s).2.log := by
  unfold moveOn
  dsimp only
  generalize (fun i => if i ∈ play.down then (paths i).pointAt dev elapsed else play.position i) =
    position
  have hplay : Accounted { play with position := position } s.log :=
    ⟨h.held, h.down, h.pending, h.apart, h.fresh⟩
  split
  · exact hplay
  · exact hplay.injectMove dev

theorem pressPending_accounted (pending : List ℕ) : ∀ {play : Playing} {s : State W},
    Accounted { play with pending := pending } s.log →
      Accounted (pressPending dev paths startTime elapsed pending play s).1
        (pressPending dev paths startTime elapsed pending play s).2.log := by
  induction pending with
  | nil => exact fun h => h
  | cons p rest ih =>
    intro play s h
    unfold pressPending
    dsimp only
    split
    case isFalse => exact h
    case isTrue =>
      refine ih (h.pressed dev ?_)
      split
      · exact .inr rfl
      · exact .inl rfl

theorem playTick_accounted (h : Accounted play s.log) :
    Accounted (playTick dev paths startTime elapsed play s).1
      (playTick dev paths startTime elapsed play s).2.log :=
  pressPending_accounted dev _ (moveOn_accounted dev (releaseDone_accounted dev _ h))

theorem Accounted.held_iff (h : Accounted play s.log) (hdown : play.down = []) :
    Agent.held s.log = [] ↔ lost s.log = [] := by
  have hsame : ∀ i, i ∈ Agent.held s.log ↔ i ∈ lost s.log := by
    intro i
    rw [h.held i, hdown]
    exact ⟨fun hi => hi.resolve_left List.not_mem_nil, .inr⟩
  rw [List.eq_nil_iff_forall_not_mem, List.eq_nil_iff_forall_not_mem]
  exact forall_congr' fun i => not_congr (hsame i)

/-- **Pointers played together** are left down if their release was refused, and only then. -/
theorem playTicks_held_iff {tick : ℤ} {pacedByClock : Bool} {fuel : ℕ} :
    ∀ {elapsed : ℤ} {play : Playing} {s : State W} {r : Outcome × State W},
      Accounted play s.log →
      playTicks dev paths startTime tick pacedByClock fuel elapsed play s = some r →
      (Agent.held r.2.log = [] ↔ lost r.2.log = []) := by
  induction fuel with
  | zero => nofun
  | succ fuel ih =>
    intro elapsed play s r h hr
    unfold playTicks at hr
    dsimp only at hr
    split at hr
    case isTrue hend =>
      cases hr
      exact h.held_iff (List.isEmpty_iff.mp (Bool.and_eq_true_iff.mp hend).2)
    case isFalse =>
      split at hr
      case isTrue =>
        cases hr
        split
        case isTrue hdown => exact h.held_iff (List.isEmpty_iff.mp hdown)
        case isFalse =>
          -- the cancel ends all pointers
          obtain ⟨accepted, hlog⟩ := log_inject dev startTime .cancel 0 play (s.call dev.cancelled).2
          dsimp only
          rw [hlog, held_snoc, lost_snoc]
          exact ⟨fun _ => rfl, fun _ => List.filter_false _⟩
      case isFalse =>
        have hplayed := @playTick_accounted W dev paths startTime elapsed play
          (s.call dev.cancelled).2 h
        split at hr
        · refine ih ?_ hr
          exact hplayed
        · refine ih ?_ hr
          exact hplayed

end Perform

theorem perform_held_iff {paths : List PointerPath} {pacedByClock : Bool} {fuel : ℕ} {s : State W}
    {r : Outcome × State W} (hstart : s.log = [])
    (h : perform dev paths pacedByClock fuel s = some r) : held r.2.log = [] ↔ lost r.2.log = [] := by
  unfold perform at h
  split at h
  case isTrue =>
    cases h
    rw [hstart]
    exact ⟨fun _ => rfl, fun _ => rfl⟩
  case isFalse =>
    refine playTicks_held_iff dev ?_ h
    show Accounted _ s.log
    rw [hstart]
    refine ⟨fun i => ⟨nofun, fun hi => ?_⟩, List.nodup_nil, ?_, nofun, fun i _ => ⟨nofun, nofun⟩⟩
    · rcases hi with hi | hi
      · exact absurd hi List.not_mem_nil
      · exact hi
    · exact (List.mergeSort_perm _ _).nodup_iff.mpr List.nodup_range

/-! ### Gestures -/

/-- Whether a refused release is followed by a cancel. -/
def Gesture.cancelsRefused : Gesture → Bool
  | .click _ _ | .longPress _ _ | .stepDrag _ _ _ => true
  | .timedSwipe _ _ _ | .stepSwipe _ _ _ | .perform _ _ => false

/-- **Pointers that stay down.**  Whatever is refused and wherever the command is cancelled, a
    gesture ends every pointer that it presses, if it cancels refused releases or if none is left
    behind; otherwise it does not. -/
theorem gesture_ended_iff (g : Gesture) (fuel : ℕ) (world : W) {r : Outcome × State W}
    (h : g.run dev fuel { world := world } = some r) :
    Ended r.2.log ↔ g.cancelsRefused = true ∨ lost r.2.log = [] := by
  rw [ended_iff]
  have hcancels : g.cancelsRefused = true → held r.2.log = [] →
      (held r.2.log = [] ↔ g.cancelsRefused = true ∨ lost r.2.log = []) :=
    fun hg hheld => ⟨fun _ => .inl hg, fun _ => hheld⟩
  have hleaves : g.cancelsRefused = false → (held r.2.log = [] ↔ lost r.2.log = []) →
      (held r.2.log = [] ↔ g.cancelsRefused = true ∨ lost r.2.log = []) := by
    intro hg hiff
    rw [hg, hiff]
    exact ⟨.inr, fun hlost => hlost.resolve_left Bool.false_ne_true⟩
  cases g with
  | click p pressMs => exact hcancels rfl (click_held dev rfl h)
  | longPress p holdMs => exact hcancels rfl (click_held dev rfl h)
  | stepDrag start dest steps => exact hcancels rfl (stepDrag_held dev rfl h)
  | stepSwipe start dest steps =>
    obtain rfl := Option.some.inj h
    exact hleaves rfl (stepSwipe_held_iff dev rfl)
  | perform paths pacedByClock => exact hleaves rfl (perform_held_iff dev rfl h)
  | timedSwipe start dest durationMs =>
    refine hleaves rfl ?_
    change timedSwipe dev start dest durationMs fuel { world := world } = some r at h
    unfold timedSwipe at h
    split at h
    case isTrue =>
      cases h
      exact ⟨fun _ => rfl, fun _ => rfl⟩
    case isFalse => exact perform_held_iff dev rfl h

/-- A device whose clock is its state, and which refuses what it is told to. -/
def testDevice (refuses : TouchEvent → Bool) : Device ℤ where
  touch e w := (!refuses e, w)
  now w := (w, w)
  sleep ms w := w + ms
  waitForNextFrame w := w + 16
  cancelled w := (false, w)
  tickMs w := (8, w)
  along start dest i n :=
    { x := start.x + (dest.x - start.x) * i / n, y := start.y + (dest.y - start.y) * i / n }
  between start dest t duration :=
    { x := start.x + (dest.x - start.x) * t / duration
      y := start.y + (dest.y - start.y) * t / duration }

def scrollUp : Gesture := .stepSwipe { x := 540, y := 1500 } { x := 540, y := 500 } 2

theorem gesture_ended_iff_scrollUp : ∃ r,
    scrollUp.run (testDevice fun _ => false) 0 { world := 0 } = some r ∧
      (Ended r.2.log ↔ scrollUp.cancelsRefused = true ∨ lost r.2.log = []) ∧
        lost r.2.log = [] :=
  ⟨_, rfl, gesture_ended_iff _ scrollUp 0 0 rfl, by decide +kernel⟩

/-- A swipe whose release is refused leaves its pointer down. -/
theorem gesture_left_down : ∃ r,
    scrollUp.run (testDevice TouchEvent.releases) 0 { world := 0 } = some r ∧
      ¬ Ended r.2.log := by
  refine ⟨_, rfl, fun h => ?_⟩
  rw [ended_iff] at h
  revert h
  decide +kernel

end Tapsmith.Agent
