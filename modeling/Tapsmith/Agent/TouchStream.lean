import Mathlib.Algebra.Order.BigOperators.Group.List
import Mathlib.Algebra.Order.Ring.Int
import Tapsmith.Agent.Pointers

namespace Tapsmith.Agent

/-!
# The touch stream of pointer paths

What the events that `perform` sends are, for an app that gets them.

* `Stream` — a sequence of events that is one of touches: who is down, and who an event is about;
* `Touching`, `Lifted` — how far the events have got with one path;
* `Follows` — what the loop keeps true of the events sent so far, with their times;
* `perform_stream` — the stream of a gesture is one of touches, with each path in it once.
-/

/-! ### Streams of touches -/

namespace TouchEvent

def ids (e : TouchEvent) : List ℕ := e.pointers.map PointerState.id

/-- Where the event says a pointer is. -/
def listed (e : TouchEvent) (i : ℕ) : Option ScreenPoint :=
  (e.pointers.find? fun p => p.id = i).map PointerState.point

/-- The event presses or releases the pointer. -/
def regards (e : TouchEvent) (i : ℕ) : Bool := (e.presses || e.releases) && e.subject = some i

end TouchEvent

/-- What an event may be while some pointers are down, and which are down after it. -/
inductive Sends : List ℕ → TouchEvent → List ℕ → Prop
  | down {e p} : e.action = .down → e.ids = [p] → e.actionIndex = 0 → Sends [] e [p]
  | pointerDown {held e p} : held ≠ [] → p ∉ held → e.action = .pointerDown →
      e.ids = held ++ [p] → e.actionIndex = held.length → Sends held e (held ++ [p])
  | move {held e} : held ≠ [] → e.action = .move → e.ids = held → Sends held e held
  | pointerUp {held e} : 1 < held.length → e.action = .pointerUp → e.ids = held →
      e.actionIndex < held.length → Sends held e (held.eraseIdx e.actionIndex)
  | up {e p} : e.action = .up → e.ids = [p] → e.actionIndex = 0 → Sends [p] e []
  | cancel {held e} : held ≠ [] → e.action = .cancel → e.ids = held → Sends held e []

/-- A sequence of touch events after which the given pointers are down. -/
inductive Stream : List TouchEvent → List ℕ → Prop
  | nil : Stream [] []
  | snoc {es e held held'} : Stream es held → Sends held e held' → Stream (es ++ [e]) held'

/-! ### One path in a stream -/

/-- The pointer of the path has been pressed, at the start of the path and not before its delay,
    and was last said to be at `last`. -/
def Touching (path : PointerPath) (i : ℕ) (history : List (ℤ × TouchEvent)) (last : ScreenPoint) :
    Prop :=
  ∃ pre t e mid, history = pre ++ (t, e) :: mid ∧ (∀ x ∈ pre, x.2.listed i = none) ∧
    path.delayMs ≤ t ∧ e.presses = true ∧ e.subject = some i ∧ e.listed i = some path.start ∧
    (∀ x ∈ mid, x.2.regards i = false) ∧
    (((t, e) :: mid).filterMap fun x => x.2.listed i).getLast? = some last

/-- The pointer of the path has been released, after the end of the path and at its end. -/
def Lifted (path : PointerPath) (i : ℕ) (history : List (ℤ × TouchEvent)) : Prop :=
  ∃ before u e post, history = before ++ (u, e) :: post ∧ Touching path i before path.stop ∧
    path.endMs < u ∧ e.releases = true ∧ e.subject = some i ∧ e.listed i = some path.stop ∧
    ∀ x ∈ post, x.2.listed i = none

variable {path : PointerPath} {i : ℕ} {history : List (ℤ × TouchEvent)} {last : ScreenPoint}
  {x : ℤ × TouchEvent}

/-- An event that does not press or release the pointer may say where it is. -/
theorem Touching.snoc (h : Touching path i history last) (hx : x.2.regards i = false) :
    Touching path i (history ++ [x]) ((x.2.listed i).getD last) := by
  obtain ⟨pre, t, e, mid, rfl, hpre, hdelay, hpress, hsubject, hstart, hmid, hlast⟩ := h
  refine ⟨pre, t, e, mid ++ [x], by simp, hpre, hdelay, hpress, hsubject, hstart, ?_, ?_⟩
  · intro y hy
    rcases List.mem_append.mp hy with hy | hy
    · exact hmid y hy
    · rw [List.mem_singleton.mp hy]
      exact hx
  · rw [← List.cons_append, List.filterMap_append, List.getLast?_append, hlast]
    cases hl : x.2.listed i with
    | none => simp [hl]
    | some p => simp [hl]

theorem Lifted.snoc (h : Lifted path i history) (hx : x.2.listed i = none) :
    Lifted path i (history ++ [x]) := by
  obtain ⟨before, u, e, post, rfl, htouching, hend, hrelease, hsubject, hstop, hpost⟩ := h
  refine ⟨before, u, e, post ++ [x], by simp, htouching, hend, hrelease, hsubject, hstop, ?_⟩
  intro y hy
  rcases List.mem_append.mp hy with hy | hy
  · exact hpost y hy
  · rw [List.mem_singleton.mp hy]
    exact hx

theorem Touching.lift (h : Touching path i history path.stop) (hend : path.endMs < x.1)
    (hrelease : x.2.releases = true) (hsubject : x.2.subject = some i)
    (hstop : x.2.listed i = some path.stop) : Lifted path i (history ++ [x]) :=
  ⟨history, x.1, x.2, [], rfl, h, hend, hrelease, hsubject, hstop,
    fun _ hy => absurd hy List.not_mem_nil⟩

theorem Touching.press (hfresh : ∀ y ∈ history, y.2.listed i = none) (hdelay : path.delayMs ≤ x.1)
    (hpress : x.2.presses = true) (hsubject : x.2.subject = some i)
    (hstart : x.2.listed i = some path.start) : Touching path i (history ++ [x]) path.start :=
  ⟨history, x.1, x.2, [], rfl, hfresh, hdelay, hpress, hsubject, hstart,
    fun _ hy => absurd hy List.not_mem_nil, by simp [hstart]⟩

/-! ### Paths -/

/-- What the constructor and the builders of a path require. -/
structure PointerPath.Legal (path : PointerPath) : Prop where
  delay : 0 ≤ path.delayMs
  segments : ∀ s ∈ path.segments, 0 ≤ s.durationMs

theorem PointerPath.Legal.travelTo (h : path.Legal) {dest : ScreenPoint} {ms : ℤ} (hms : 0 ≤ ms) :
    (path.travelTo dest ms).Legal := by
  refine ⟨h.delay, fun s hs => ?_⟩
  rcases List.mem_append.mp hs with hs | hs
  · exact h.segments s hs
  · rw [List.mem_singleton.mp hs]
    exact hms

theorem PointerPath.Legal.delay_le (h : path.Legal) : path.delayMs ≤ path.endMs := by
  have hsum : 0 ≤ path.durationMs := by
    refine List.sum_nonneg fun d hd => ?_
    obtain ⟨s, hs, rfl⟩ := List.mem_map.mp hd
    exact h.segments s hs
  unfold endMs
  omega

variable {W : Type} (dev : Device W)

/-- After the last segment a pointer is at the end. -/
theorem pointOn_eq {segments : List Segment} (h : ∀ s ∈ segments, 0 ≤ s.durationMs)
    {t : ℤ} (ht : (segments.map Segment.durationMs).sum < t) :
    pointOn dev last segments t = last := by
  induction segments generalizing t with
  | nil => rfl
  | cons s rest ih =>
    rw [List.map_cons, List.sum_cons] at ht
    have hrest : 0 ≤ (rest.map Segment.durationMs).sum := by
      refine List.sum_nonneg fun d hd => ?_
      obtain ⟨s', hs', rfl⟩ := List.mem_map.mp hd
      exact h s' (List.mem_cons_of_mem _ hs')
    rw [pointOn, if_neg (by omega)]
    exact ih (fun s' hs' => h s' (List.mem_cons_of_mem _ hs')) (by omega)

theorem PointerPath.Legal.pointAt_eq (h : path.Legal) {elapsed : ℤ} (ht : path.endMs < elapsed) :
    path.pointAt dev elapsed = path.stop := by
  unfold pointAt
  unfold endMs durationMs at ht
  refine pointOn_eq dev (fun s hs => ?_) ?_
  · rcases List.mem_cons.mp hs with rfl | hs
    · exact le_rfl
    · exact h.segments s hs
  · rw [List.map_cons, List.sum_cons]
    dsimp only
    omega

/-! ### What the loop keeps -/

section Loop

variable {n : ℕ} {paths : ℕ → PointerPath} {startTime elapsed : ℤ} {play : Playing}

theorem injected_ids (action : TouchAction) (index : ℕ) (play : Playing) :
    (injected startTime action index play).ids = play.down := by
  show (play.down.map _).map PointerState.id = play.down
  rw [List.map_map]
  exact List.map_id' play.down

theorem injected_listed (action : TouchAction) (index : ℕ) (play : Playing) (i : ℕ) :
    (injected startTime action index play).listed i =
      if i ∈ play.down then some (play.position i) else none := by
  unfold TouchEvent.listed injected
  dsimp only
  rw [List.find?_map, Option.map_map]
  cases hfind : play.down.find? ((fun p : PointerState => decide (p.id = i)) ∘
      fun i => { id := i, point := play.position i }) with
  | none =>
    rw [if_neg]
    · rfl
    · exact fun hi => List.find?_eq_none.mp hfind i hi (decide_eq_true rfl)
  | some j =>
    have hj := List.find?_some hfind
    obtain rfl : j = i := of_decide_eq_true hj
    rw [if_pos (List.mem_of_find?_eq_some hfind)]
    rfl

/-- The events sent so far, with the time of their tick, and the variables of `perform`. What is
    known of the last point of a pointer that is down is `good`. -/
structure Follows (n : ℕ) (paths : ℕ → PointerPath) (play : Playing)
    (history : List (ℤ × TouchEvent)) (good : ℕ → ScreenPoint → Prop) : Prop where
  stream : Stream (history.map Prod.snd) play.down
  down_nodup : play.down.Nodup
  pending_nodup : play.pending.Nodup
  pending : ∀ i ∈ play.pending, i < n ∧ i ∉ play.down ∧ play.position i = (paths i).start ∧
    play.sent i = none ∧ ∀ x ∈ history, x.2.listed i = none
  down : ∀ i ∈ play.down, i < n ∧ ∃ last, Touching (paths i) i history last ∧ good i last
  rest : ∀ i < n, i ∉ play.pending → i ∉ play.down → Lifted (paths i) i history

/-- Between two phases of a tick the last point sent is the one that is kept. -/
def Settled (paths : ℕ → PointerPath) (play : Playing) (i : ℕ) (last : ScreenPoint) : Prop :=
  last = play.position i ∧ last = (play.sent i).getD (paths i).start

/-- While pointers are released the others are listed where they are. -/
def Releasing (paths : ℕ → PointerPath) (elapsed : ℤ) (play : Playing) (i : ℕ) (last : ScreenPoint) :
    Prop :=
  last = (play.sent i).getD (paths i).start ∨ last = (paths i).pointAt dev elapsed

variable {good good' : ℕ → ScreenPoint → Prop} (startTime elapsed)

/-- A move of all pointers that are down. -/
theorem Follows.move (h : Follows n paths play history good) (hdown : play.down ≠ [])
    {position : ℕ → ScreenPoint} (hposition : ∀ i, i ∉ play.down → position i = play.position i)
    {sent : ℕ → Option ScreenPoint}
    (hsent : ∀ i, sent i = if i ∈ play.down then some (position i) else play.sent i) :
    Follows n paths { play with position, sent }
      (history ++ [(elapsed, injected startTime .move 0 { play with position })])
      (Settled paths { play with position, sent }) where
  stream := by
    rw [List.map_append]
    exact h.stream.snoc (.move hdown rfl (injected_ids ..))
  down_nodup := h.down_nodup
  pending_nodup := h.pending_nodup
  pending i hi := by
    obtain ⟨hn, hnot, hstart, hnone, hfresh⟩ := h.pending i hi
    refine ⟨hn, hnot, (hposition i hnot).trans hstart, ?_, fun x hx => ?_⟩
    · show sent i = none
      rw [hsent, if_neg hnot]
      exact hnone
    · rcases List.mem_append.mp hx with hx | hx
      · exact hfresh x hx
      · rw [List.mem_singleton.mp hx]
        exact (injected_listed ..).trans (if_neg hnot)
  down i hi := by
    obtain ⟨hn, last, htouching, -⟩ := h.down i hi
    refine ⟨hn, position i, ?_, rfl, ?_⟩
    · have hsnoc := htouching.snoc (x := (elapsed, injected startTime .move 0 { play with position }))
        rfl
      rw [show (injected startTime .move 0 { play with position }).listed i = some (position i) from
        (injected_listed ..).trans (if_pos hi)] at hsnoc
      exact hsnoc
    · show position i = (sent i).getD _
      rw [hsent, if_pos hi]
      rfl
  rest i hn hpending hdown := by
    exact (h.rest i hn hpending hdown).snoc ((injected_listed ..).trans (if_neg hdown))

/-- The release of a pointer that has got to the end of its path. -/
theorem Follows.release (h : Follows n paths play history good) {done : ℕ}
    (hdone : done ∈ play.down) (hend : (paths done).endMs < elapsed)
    (hstop : play.position done = (paths done).stop)
    (hlast : ∀ last, good done last → last = (paths done).stop)
    (hgood : ∀ i ∈ play.down, i ≠ done → good' i (play.position i)) :
    Follows n paths { play with down := play.down.eraseIdx (play.down.idxOf done) }
      (history ++ [(elapsed, injected startTime (if 1 < play.down.length then .pointerUp else .up)
        (play.down.idxOf done) play)]) good' := by
  have hlt := List.idxOf_lt_length_of_mem hdone
  have hsubject : ∀ action, (injected startTime action (play.down.idxOf done) play).subject =
      some done := by
    intro action
    rw [injected_subject, List.getElem?_eq_getElem hlt, List.getElem_idxOf]
  have hsends : Sends play.down (injected startTime
      (if 1 < play.down.length then .pointerUp else .up) (play.down.idxOf done) play)
      (play.down.eraseIdx (play.down.idxOf done)) := by
    split_ifs with hmany
    · exact .pointerUp hmany rfl (injected_ids ..) hlt
    · obtain ⟨p, hp⟩ : ∃ p, play.down = [p] :=
        List.length_eq_one_iff.mp (le_antisymm (not_lt.mp hmany) (Nat.zero_lt_of_lt hlt))
      have hzero : play.down.idxOf done = 0 := by
        rw [hp] at hlt ⊢
        exact Nat.lt_one_iff.mp hlt
      rw [hzero, hp]
      exact .up rfl ((injected_ids ..).trans hp) rfl
  have hreleases : (injected startTime (if 1 < play.down.length then .pointerUp else .up)
      (play.down.idxOf done) play).releases = true := by
    split_ifs <;> rfl
  generalize haction : (if 1 < play.down.length then TouchAction.pointerUp else .up) = action
    at hsends hreleases ⊢
  have hmem : ∀ i, i ∈ play.down.eraseIdx (play.down.idxOf done) ↔ i ≠ done ∧ i ∈ play.down := by
    intro i
    rw [List.eraseIdx_idxOf_eq_erase]
    exact h.down_nodup.mem_erase_iff
  refine ⟨?_, ?_, h.pending_nodup, fun i hi => ?_, fun i hi => ?_, fun i hn hpending hdown => ?_⟩
  · rw [List.map_append]
    exact h.stream.snoc hsends
  · rw [List.eraseIdx_idxOf_eq_erase]
    exact h.down_nodup.erase done
  · obtain ⟨hn, hnot, hstart, hnone, hfresh⟩ := h.pending i hi
    refine ⟨hn, fun hi' => hnot ((hmem i).mp hi').2, hstart, hnone, fun x hx => ?_⟩
    rcases List.mem_append.mp hx with hx | hx
    · exact hfresh x hx
    · rw [List.mem_singleton.mp hx]
      exact (injected_listed ..).trans (if_neg hnot)
  · obtain ⟨hne, hi⟩ := (hmem i).mp hi
    obtain ⟨hn, last, htouching, -⟩ := h.down i hi
    refine ⟨hn, play.position i, ?_, hgood i hi hne⟩
    have hregards : (injected startTime action (play.down.idxOf done) play).regards i = false := by
      unfold TouchEvent.regards
      rw [hsubject, Bool.and_eq_false_iff]
      exact .inr (decide_eq_false fun heq => hne (Option.some.inj heq).symm)
    have hsnoc := htouching.snoc
      (x := (elapsed, injected startTime action (play.down.idxOf done) play)) hregards
    rw [show (injected startTime action (play.down.idxOf done) play).listed i =
      some (play.position i) from (injected_listed ..).trans (if_pos hi)] at hsnoc
    exact hsnoc
  · by_cases heq : i = done
    · subst heq
      obtain ⟨-, last, htouching, hlast'⟩ := h.down i hdone
      rw [hlast last hlast'] at htouching
      refine htouching.lift hend hreleases (hsubject action) ?_
      rw [← hstop]
      exact (injected_listed ..).trans (if_pos hdone)
    · have hnot : i ∉ play.down := fun hi => hdown ((hmem i).mpr ⟨heq, hi⟩)
      exact (h.rest i hn hpending hnot).snoc ((injected_listed ..).trans (if_neg hnot))

/-- The press of the pointer that comes next. -/
theorem Follows.pressed {p : ℕ} {rest : List ℕ}
    (h : Follows n paths { play with pending := p :: rest } history (Settled paths play))
    (hdelay : (paths p).delayMs ≤ elapsed) :
    Follows n paths { play with down := play.down ++ [p], pending := rest }
      (history ++ [(elapsed, injected startTime
        (if 1 < (play.down ++ [p]).length then .pointerDown else .down)
        ((play.down ++ [p]).length - 1) { play with down := play.down ++ [p] })])
      (Settled paths play) := by
  obtain ⟨hn, hnot, hstart, hnone, hfresh⟩ := h.pending p List.mem_cons_self
  obtain ⟨hp, hrest⟩ := List.nodup_cons.mp h.pending_nodup
  have hlength : (play.down ++ [p]).length - 1 = play.down.length := by simp
  rw [hlength]
  have hsubject : ∀ action, (injected startTime action play.down.length
      { play with down := play.down ++ [p] }).subject = some p := by
    intro action
    rw [injected_subject]
    exact List.getElem?_concat_length
  have hsends : Sends play.down (injected startTime
      (if 1 < (play.down ++ [p]).length then .pointerDown else .down) play.down.length
      { play with down := play.down ++ [p] }) (play.down ++ [p]) := by
    cases hdown : play.down with
    | nil => exact .down rfl (injected_ids ..) rfl
    | cons q others =>
      rw [if_pos (by simp)]
      exact .pointerDown (List.cons_ne_nil _ _) (hdown ▸ hnot) rfl (injected_ids ..) rfl
  have hpresses : (injected startTime
      (if 1 < (play.down ++ [p]).length then .pointerDown else .down) play.down.length
      { play with down := play.down ++ [p] }).presses = true := by
    split_ifs <;> rfl
  generalize (if 1 < (play.down ++ [p]).length then TouchAction.pointerDown else .down) = action
    at hsends hpresses ⊢
  have hlisted : ∀ i, (injected startTime action play.down.length
      { play with down := play.down ++ [p] }).listed i =
      if i ∈ play.down ++ [p] then some (play.position i) else none :=
    fun i => injected_listed ..
  refine ⟨?_, ?_, hrest, fun i hi => ?_, fun i hi => ?_, fun i hi hpending hdown => ?_⟩
  · rw [List.map_append]
    exact h.stream.snoc hsends
  · exact List.nodup_append.mpr ⟨h.down_nodup, List.nodup_cons.mpr ⟨List.not_mem_nil, List.nodup_nil⟩, fun a ha b hb hab =>
      hnot (List.mem_singleton.mp hb ▸ hab ▸ ha)⟩
  · obtain ⟨hn', hnot', hstart', hnone', hfresh'⟩ := h.pending i (List.mem_cons_of_mem _ hi)
    have hnew : i ∉ play.down ++ [p] := by
      intro hi'
      rcases List.mem_append.mp hi' with hi' | hi'
      · exact hnot' hi'
      · exact hp (List.mem_singleton.mp hi' ▸ hi)
    refine ⟨hn', hnew, hstart', hnone', fun x hx => ?_⟩
    rcases List.mem_append.mp hx with hx | hx
    · exact hfresh' x hx
    · rw [List.mem_singleton.mp hx]
      exact (hlisted i).trans (if_neg hnew)
  · rcases List.mem_append.mp hi with hi' | hi'
    · obtain ⟨hn', last, htouching, hposition, hsent⟩ := h.down i hi'
      refine ⟨hn', last, ?_, hposition, hsent⟩
      have hne : p ≠ i := fun heq => hnot (heq ▸ hi')
      have hregards : (injected startTime action play.down.length
          { play with down := play.down ++ [p] }).regards i = false := by
        unfold TouchEvent.regards
        rw [hsubject, Bool.and_eq_false_iff]
        exact .inr (decide_eq_false fun heq => hne (Option.some.inj heq))
      have hsnoc := htouching.snoc (x := (elapsed, injected startTime action play.down.length
        { play with down := play.down ++ [p] })) hregards
      rw [(hlisted i).trans (if_pos hi), Option.getD_some, ← hposition] at hsnoc
      exact hsnoc
    · obtain rfl := List.mem_singleton.mp hi'
      refine ⟨hn, (paths i).start, .press hfresh hdelay hpresses (hsubject action) ?_,
        hstart.symm, ?_⟩
      · rw [← hstart]
        exact (hlisted i).trans (if_pos hi)
      · show _ = (play.sent i).getD _
        rw [show play.sent i = none from hnone]
        rfl
  · have hold : i ∉ play.down := fun hi' => hdown (List.mem_append_left _ hi')
    have hnew : i ≠ p := fun heq => hdown (heq ▸ List.mem_append_right _ (List.mem_singleton_self _))
    refine (h.rest i hi (fun hi' => ?_) hold).snoc ((hlisted i).trans (if_neg hdown))
    rcases List.mem_cons.mp hi' with heq | hi'
    · exact hnew heq
    · exact hpending hi'

/-! ### Phases of a tick -/

/-- The events sent between two states extend the history, with the time of the tick. -/
def Extends (elapsed : ℤ) (s s' : State W) (history history' : List (ℤ × TouchEvent)) : Prop :=
  ∃ sent, s'.log.map Prod.fst = s.log.map Prod.fst ++ sent ∧
    history' = history ++ sent.map fun e => (elapsed, e)

variable {s s' s'' : State W} {history' history'' : List (ℤ × TouchEvent)} {elapsed}

theorem Extends.refl (s : State W) (history : List (ℤ × TouchEvent)) :
    Extends elapsed s s history history :=
  ⟨[], (List.append_nil _).symm, (List.append_nil _).symm⟩

theorem Extends.trans (h : Extends elapsed s s' history history')
    (h' : Extends elapsed s' s'' history' history'') :
    Extends elapsed s s'' history history'' := by
  obtain ⟨sent, hlog, rfl⟩ := h
  obtain ⟨sent', hlog', rfl⟩ := h'
  refine ⟨sent ++ sent', ?_, ?_⟩
  · rw [hlog', hlog, List.append_assoc]
  · rw [List.map_append, List.append_assoc]

theorem extends_inject (action : TouchAction) (index : ℕ) (play : Playing) (s : State W) :
    Extends elapsed s (inject dev startTime action index play s) history
      (history ++ [(elapsed, injected startTime action index play)]) := by
  obtain ⟨accepted, hlog⟩ := log_inject dev startTime action index play s
  refine ⟨[injected startTime action index play], ?_, rfl⟩
  rw [hlog, List.map_append]
  rfl

variable (elapsed) (hlegal : ∀ i, (paths i).Legal)
include hlegal

theorem release_follows (h : Follows n paths play history (Releasing dev paths elapsed play))
    {done : ℕ} (hdone : done ∈ play.down) (hend : (paths done).endMs < elapsed) :
    ∃ history', Extends elapsed s (release dev paths startTime elapsed done play s).2
        history history' ∧
      Follows n paths (release dev paths startTime elapsed done play s).1 history'
        (Releasing dev paths elapsed (release dev paths startTime elapsed done play s).1) := by
  unfold Agent.release
  dsimp only
  have hat := (hlegal done).pointAt_eq dev hend
  obtain ⟨position, hposition⟩ : ∃ position : ℕ → ScreenPoint, (fun i =>
    if i = done then (paths i).stop
    else if i ∈ play.down then (paths i).pointAt dev elapsed else play.position i) = position :=
    ⟨_, rfl⟩
  rw [hposition]
  have hstop : position done = (paths done).stop := by
    rw [← hposition]
    exact if_pos rfl
  have hother : ∀ i ∈ play.down, i ≠ done → position i = (paths i).pointAt dev elapsed := by
    intro i hi hne
    rw [← hposition]
    exact (if_neg hne).trans (if_pos hi)
  have hkept : ∀ i, i ∉ play.down → position i = play.position i := by
    intro i hi
    rw [← hposition]
    have hne : i ≠ done := fun heq => hi (heq ▸ hdone)
    exact (if_neg hne).trans (if_neg hi)
  have hgood : ∀ i ∈ play.down, i ≠ done → ∀ sent : ℕ → Option ScreenPoint,
      position i = (sent i).getD (paths i).start ∨ position i = (paths i).pointAt dev elapsed :=
    fun i hi hne _ => .inr (hother i hi hne)
  by_cases hmove : (play.sent done).getD (paths done).start ≠ (paths done).stop
  · rw [if_pos hmove]
    -- the pointer is moved to its end first
    have hmoved := h.move startTime elapsed (List.ne_nil_of_mem hdone) hkept (fun i => rfl)
    refine ⟨_, (extends_inject dev ..).trans (extends_inject dev ..),
      hmoved.release startTime elapsed hdone hend hstop (fun last hlast => hlast.1.trans hstop) ?_⟩
    exact fun i hi hne => hgood i hi hne _
  · rw [if_neg hmove]
    rw [not_not] at hmove
    have hplay : Follows n paths { play with position } history
        (Releasing dev paths elapsed { play with position }) := by
      refine ⟨h.stream, h.down_nodup, h.pending_nodup, fun i hi => ?_, h.down, h.rest⟩
      obtain ⟨hn, hnot, hstart, hrest⟩ := h.pending i hi
      exact ⟨hn, hnot, (hkept i hnot).trans hstart, hrest⟩
    refine ⟨_, extends_inject dev .., hplay.release startTime elapsed hdone hend hstop (fun last hlast => ?_) ?_⟩
    · -- where it was moved last, or is at this time, is its end
      rcases hlast with rfl | rfl
      · exact hmove
      · exact hat
    · exact fun i hi hne => hgood i hi hne _

theorem releaseDone_follows (k : ℕ) (h : Follows n paths play history
    (Releasing dev paths elapsed play)) :
    ∃ history', Extends elapsed s (releaseDone dev paths startTime elapsed k play s).2
        history history' ∧
      Follows n paths (releaseDone dev paths startTime elapsed k play s).1 history'
        (Releasing dev paths elapsed (releaseDone dev paths startTime elapsed k play s).1) := by
  induction k generalizing play s history with
  | zero => exact ⟨history, .refl .., h⟩
  | succ k ih =>
    unfold releaseDone
    split
    · exact ⟨history, .refl .., h⟩
    case h_2 done hdone =>
      split_ifs with hrunning
      · exact ⟨history, .refl .., h⟩
      · obtain ⟨history', hextends, hreleased⟩ := release_follows dev startTime elapsed hlegal
          (s := s) h (List.minOn?_mem hdone) (not_le.mp hrunning)
        obtain ⟨history'', hextends', hfollows⟩ := ih hreleased
          (s := (release dev paths startTime elapsed done play s).2)
        exact ⟨history'', hextends.trans hextends', hfollows⟩

omit hlegal in
theorem moveOn_follows (h : Follows n paths play history good) :
    ∃ history', Extends elapsed s (moveOn dev paths startTime elapsed play s).2 history history' ∧
      Follows n paths (moveOn dev paths startTime elapsed play s).1 history'
        (Settled paths (moveOn dev paths startTime elapsed play s).1) := by
  unfold moveOn
  dsimp only
  obtain ⟨position, hposition⟩ : ∃ position : ℕ → ScreenPoint, (fun i =>
    if i ∈ play.down then (paths i).pointAt dev elapsed else play.position i) = position :=
    ⟨_, rfl⟩
  rw [hposition]
  have hkept : ∀ i, i ∉ play.down → position i = play.position i := by
    intro i hi
    rw [← hposition]
    exact if_neg hi
  split_ifs with hdown
  · have hempty := List.isEmpty_iff.mp hdown
    refine ⟨history, .refl .., h.stream, h.down_nodup, h.pending_nodup, fun i hi => ?_,
      fun i hi => ?_, h.rest⟩
    · obtain ⟨hn, hnot, hstart, hrest⟩ := h.pending i hi
      exact ⟨hn, hnot, (hkept i hnot).trans hstart, hrest⟩
    · rw [hempty] at hi
      exact absurd hi List.not_mem_nil
  · refine ⟨_, extends_inject dev .., h.move startTime elapsed (fun hempty => hdown ?_) hkept fun i => rfl⟩
    rw [hempty]
    rfl

omit hlegal in
theorem pressPending_follows (pending : List ℕ)
    (h : Follows n paths { play with pending } history (Settled paths play)) :
    ∃ history', Extends elapsed s (pressPending dev paths startTime elapsed pending play s).2
        history history' ∧
      Follows n paths (pressPending dev paths startTime elapsed pending play s).1 history'
        (Settled paths (pressPending dev paths startTime elapsed pending play s).1) := by
  induction pending generalizing play s history with
  | nil => exact ⟨history, .refl .., h⟩
  | cons p rest ih =>
    unfold pressPending
    dsimp only
    split_ifs with hdelay hmany
    · have hpressed := h.pressed startTime elapsed hdelay
      rw [if_pos hmany] at hpressed
      obtain ⟨history', hextends, hfollows⟩ := @ih _ { play with down := play.down ++ [p] } _ hpressed
      exact ⟨history', (extends_inject dev ..).trans hextends, hfollows⟩
    · have hpressed := h.pressed startTime elapsed hdelay
      rw [if_neg hmany] at hpressed
      obtain ⟨history', hextends, hfollows⟩ := @ih _ { play with down := play.down ++ [p] } _ hpressed
      exact ⟨history', (extends_inject dev ..).trans hextends, hfollows⟩
    · exact ⟨history, .refl .., h⟩

/-- **One tick** keeps the stream one of touches. -/
theorem playTick_follows (h : Follows n paths play history (Settled paths play)) :
    ∃ history', Extends elapsed s (playTick dev paths startTime elapsed play s).2
        history history' ∧
      Follows n paths (playTick dev paths startTime elapsed play s).1 history'
        (Settled paths (playTick dev paths startTime elapsed play s).1) := by
  have hstart : Follows n paths play history (Releasing dev paths elapsed play) := by
    refine ⟨h.stream, h.down_nodup, h.pending_nodup, h.pending, fun i hi => ?_, h.rest⟩
    obtain ⟨hn, last, htouching, -, hsent⟩ := h.down i hi
    exact ⟨hn, last, htouching, .inl hsent⟩
  obtain ⟨_, hextends, hreleased⟩ :=
    releaseDone_follows dev startTime elapsed (s := s) hlegal play.down.length hstart
  obtain ⟨_, hextends', hmoved⟩ := moveOn_follows dev startTime elapsed
    (s := (releaseDone dev paths startTime elapsed play.down.length play s).2) hreleased
  obtain ⟨history', hextends'', hpressed⟩ := pressPending_follows dev startTime elapsed _ hmoved
    (s := (moveOn dev paths startTime elapsed
      (releaseDone dev paths startTime elapsed play.down.length play s).1
      (releaseDone dev paths startTime elapsed play.down.length play s).2).2)
  exact ⟨history', (hextends.trans hextends').trans hextends'', hpressed⟩

end Loop

/-! ### Runs -/

section Run

variable (paths : ℕ → PointerPath) (startTime tick : ℤ) (pacedByClock : Bool)

/-- The events sent between two states, with the time of their tick. -/
def stamped (elapsed : ℤ) (s s' : State W) : List (ℤ × TouchEvent) :=
  (s'.log.drop s.log.length).map fun x => (elapsed, x.1)

/-- The wait at the end of a tick, and the time of the next one. -/
def nextTick (elapsed : ℤ) (s : State W) : ℤ × State W :=
  let slept := s.wait (dev.sleep tick)
  if pacedByClock then
    let now := slept.call dev.now
    (now.1 - startTime, now.2)
  else (elapsed + tick, slept)

/-- What `playTicks` sends, with the time of each tick. -/
def playHistory : ℕ → ℤ → Playing → State W → List (ℤ × TouchEvent)
  | 0, _, _, _ => []
  | fuel + 1, elapsed, play, s =>
    if play.pending.isEmpty && play.down.isEmpty then []
    else
      let check := s.call dev.cancelled
      if check.1 then
        stamped elapsed check.2
          (if play.down.isEmpty then check.2 else inject dev startTime .cancel 0 play check.2)
      else
        let played := playTick dev paths startTime elapsed play check.2
        let next := nextTick dev startTime tick pacedByClock elapsed played.2
        stamped elapsed check.2 played.2 ++ playHistory fuel next.1 played.1 next.2

variable {paths startTime tick pacedByClock} {n fuel : ℕ} {elapsed : ℤ} {play : Playing}
  {s : State W}

/-- One iteration of the loop that is not its last. -/
theorem playTicks_succ (hmore : (play.pending.isEmpty && play.down.isEmpty) = false)
    (hcancelled : (s.call dev.cancelled).1 = false) :
    playTicks dev paths startTime tick pacedByClock (fuel + 1) elapsed play s =
      playTicks dev paths startTime tick pacedByClock fuel
        (nextTick dev startTime tick pacedByClock elapsed
          (playTick dev paths startTime elapsed play (s.call dev.cancelled).2).2).1
        (playTick dev paths startTime elapsed play (s.call dev.cancelled).2).1
        (nextTick dev startTime tick pacedByClock elapsed
          (playTick dev paths startTime elapsed play (s.call dev.cancelled).2).2).2 := by
  rw [playTicks, hmore, if_neg Bool.false_ne_true]
  dsimp only
  rw [hcancelled, if_neg Bool.false_ne_true]
  cases pacedByClock <;> rfl

theorem Extends.eq_append {s' : State W} {history' : List (ℤ × TouchEvent)}
    (h : Extends elapsed s s' history history') : history' = history ++ stamped elapsed s s' := by
  obtain ⟨sent, hlog, rfl⟩ := h
  have hlength : (s.log.map Prod.fst).length = s.log.length := List.length_map _
  have hsent : (s'.log.drop s.log.length).map Prod.fst = sent := by
    rw [List.map_drop, hlog, ← hlength, List.drop_left]
  rw [← hsent, List.map_map]
  rfl

theorem Extends.log_eq {s' : State W} {history' : List (ℤ × TouchEvent)}
    (h : Extends elapsed s s' history history') :
    s'.log.map Prod.fst = s.log.map Prod.fst ++ (stamped elapsed s s').map Prod.snd := by
  have heq := h.eq_append
  obtain ⟨sent, hlog, rfl⟩ := h
  rw [← List.append_cancel_left heq, List.map_map, hlog]
  congr 1
  exact (List.map_id' sent).symm

theorem nextTick_log (elapsed : ℤ) (s : State W) :
    (nextTick dev startTime tick pacedByClock elapsed s).2.log = s.log := by
  cases pacedByClock <;> rfl

/-- **A run** sends a stream of touches after which no pointer is down; unless it is cancelled,
    each path has been followed. -/
theorem playTicks_stream (hlegal : ∀ i, (paths i).Legal)
    (h : Follows n paths play history (Settled paths play)) {r : Outcome × State W}
    (hr : playTicks dev paths startTime tick pacedByClock fuel elapsed play s = some r) :
    r.2.log.map Prod.fst = s.log.map Prod.fst ++
        (playHistory dev paths startTime tick pacedByClock fuel elapsed play s).map Prod.snd ∧
      Stream ((history ++
        playHistory dev paths startTime tick pacedByClock fuel elapsed play s).map Prod.snd) [] ∧
      (r.1 = .cancelled ∨ r.1 = .returned true ∧ ∀ i < n, Lifted (paths i) i
        (history ++ playHistory dev paths startTime tick pacedByClock fuel elapsed play s)) := by
  induction fuel generalizing elapsed play s history with
  | zero => cases hr
  | succ fuel ih =>
    cases hend : play.pending.isEmpty && play.down.isEmpty with
    | true =>
      rw [playTicks, hend, if_pos rfl] at hr
      obtain rfl := Option.some.inj hr
      obtain ⟨hpending, hdown⟩ := (Bool.and_eq_true_iff.mp hend).imp List.isEmpty_iff.mp
        List.isEmpty_iff.mp
      rw [playHistory, hend, if_pos rfl, List.append_nil]
      refine ⟨(List.append_nil _).symm, hdown ▸ h.stream, .inr ⟨rfl, fun i hi => ?_⟩⟩
      refine h.rest i hi ?_ ?_
      · rw [hpending]
        exact List.not_mem_nil
      · rw [hdown]
        exact List.not_mem_nil
    | false =>
      cases hcancelled : (s.call dev.cancelled).1 with
      | true =>
        rw [playTicks, hend, if_neg Bool.false_ne_true] at hr
        dsimp only at hr
        rw [hcancelled, if_pos rfl] at hr
        obtain rfl := Option.some.inj hr
        rw [playHistory, hend, if_neg Bool.false_ne_true]
        dsimp only
        rw [hcancelled, if_pos rfl]
        split_ifs with hdown
        · have hnone : Extends elapsed (s.call dev.cancelled).2 (s.call dev.cancelled).2
              history history := .refl ..
          refine ⟨hnone.log_eq, ?_, .inl rfl⟩
          rw [← hnone.eq_append, ← List.isEmpty_iff.mp hdown]
          exact h.stream
        · -- the last event cancels the pointers that are down
          have hcancel : Extends elapsed (s.call dev.cancelled).2 _ history _ :=
            extends_inject dev startTime .cancel 0 play (s.call dev.cancelled).2
          refine ⟨hcancel.log_eq, ?_, .inl rfl⟩
          rw [← hcancel.eq_append, List.map_append]
          refine h.stream.snoc (.cancel (fun hempty => hdown ?_) rfl (injected_ids ..))
          rw [hempty]
          rfl
      | false =>
        rw [playTicks_succ dev hend hcancelled] at hr
        rw [playHistory, hend, if_neg Bool.false_ne_true]
        dsimp only
        rw [hcancelled, if_neg Bool.false_ne_true]
        obtain ⟨history', hextends, hfollows⟩ := playTick_follows dev startTime elapsed hlegal
          (s := (s.call dev.cancelled).2) h
        obtain ⟨hlog, hstream, hlifted⟩ := ih hfollows hr
        rw [hextends.eq_append, List.append_assoc] at hstream hlifted
        refine ⟨?_, hstream, hlifted⟩
        rw [hlog, nextTick_log, hextends.log_eq, List.map_append, List.append_assoc]
        rfl

/-! ### The end of a run -/

theorem releaseDone_down (k : ℕ) (hk : play.down.length = k)
    (h : ∀ i ∈ play.down, (paths i).endMs < elapsed) :
    (releaseDone dev paths startTime elapsed k play s).1.down = [] ∧
      (releaseDone dev paths startTime elapsed k play s).1.pending = play.pending := by
  induction k generalizing play s with
  | zero => exact ⟨List.length_eq_zero_iff.mp hk, rfl⟩
  | succ k ih =>
    unfold releaseDone
    split
    case h_1 hnone =>
      refine ⟨?_, rfl⟩
      by_contra hne
      rw [firstDone, List.minOn?_eq_some_minOn hne] at hnone
      cases hnone
    case h_2 done hdone =>
      have hmem := List.minOn?_mem hdone
      rw [if_neg (not_le.mpr (h done hmem))]
      have hreleased : (release dev paths startTime elapsed done play s).1.down =
          play.down.eraseIdx (play.down.idxOf done) ∧
          (release dev paths startTime elapsed done play s).1.pending = play.pending := by
        unfold release
        dsimp only
        split <;> exact ⟨rfl, rfl⟩
      obtain ⟨hdown, hpending⟩ := hreleased
      have hidx := List.idxOf_lt_length_of_mem hmem
      rw [← hpending]
      refine ih ?_ ?_
      · rw [hdown, List.length_eraseIdx_of_lt hidx, hk]
        rfl
      · intro i hi
        rw [hdown] at hi
        exact h i (List.mem_of_mem_eraseIdx hi)

theorem pressPending_down (pending : List ℕ) (h : ∀ i ∈ pending, (paths i).delayMs ≤ elapsed) :
    (pressPending dev paths startTime elapsed pending play s).1.pending = [] ∧
      (pressPending dev paths startTime elapsed pending play s).1.down = play.down ++ pending := by
  induction pending generalizing play s with
  | nil => exact ⟨rfl, (List.append_nil _).symm⟩
  | cons p rest ih =>
    unfold pressPending
    rw [if_pos (h p List.mem_cons_self)]
    obtain ⟨hpending, hdown⟩ := @ih { play with down := play.down ++ [p] }
      (inject dev startTime (if 1 < (play.down ++ [p]).length then .pointerDown else .down)
        ((play.down ++ [p]).length - 1) { play with down := play.down ++ [p] } s)
      fun i hi => h i (List.mem_cons_of_mem _ hi)
    exact ⟨hpending, hdown.trans (List.append_assoc ..)⟩

/-- A tick after the ends of all paths. -/
theorem playTick_late (hdown : ∀ i ∈ play.down, (paths i).endMs < elapsed)
    (hpending : ∀ i ∈ play.pending, (paths i).delayMs ≤ elapsed) :
    (playTick dev paths startTime elapsed play s).1.pending = [] ∧
      (playTick dev paths startTime elapsed play s).1.down = play.pending := by
  obtain ⟨released, hrun⟩ :
    ∃ r, releaseDone dev paths startTime elapsed play.down.length play s = r := ⟨_, rfl⟩
  obtain ⟨hreleased, hkept⟩ : released.1.down = [] ∧ released.1.pending = play.pending := by
    rw [← hrun]
    exact releaseDone_down dev play.down.length rfl hdown
  have hmoved : ∀ (p : Playing) (t : State W),
      (moveOn dev paths startTime elapsed p t).1.down = p.down ∧
        (moveOn dev paths startTime elapsed p t).1.pending = p.pending := by
    intro p t
    unfold moveOn
    dsimp only
    split <;> exact ⟨rfl, rfl⟩
  unfold playTick
  dsimp only
  rw [hrun, (hmoved _ _).2, hkept]
  obtain ⟨hnone, hpressed⟩ := @pressPending_down W dev paths startTime elapsed
    (moveOn dev paths startTime elapsed released.1 released.2).1
    (moveOn dev paths startTime elapsed released.1 released.2).2 play.pending hpending
  refine ⟨hnone, hpressed.trans ?_⟩
  rw [(hmoved _ _).1, hreleased]
  rfl

variable (paths startTime tick pacedByClock)

/-- An iteration of the loop: the time of the tick, its variables and the state before it. -/
def runTick (c : ℤ × Playing × State W) : ℤ × Playing × State W :=
  let played := playTick dev paths startTime c.1 c.2.1 (c.2.2.call dev.cancelled).2
  let next := nextTick dev startTime tick pacedByClock c.1 played.2
  (next.1, played.1, next.2)

variable {paths startTime tick pacedByClock}

/-- The loop has ended two ticks after one that is past the ends of all paths. -/
theorem playTicks_terminates (hlegal : ∀ i, (paths i).Legal) (k : ℕ) (c : ℤ × Playing × State W)
    (h : Follows n paths c.2.1 history (Settled paths c.2.1))
    (hpast : ∀ j, j = k ∨ j = k + 1 → ∀ i < n,
      (paths i).endMs < ((runTick dev paths startTime tick pacedByClock)^[j] c).1) :
    ∃ r, playTicks dev paths startTime tick pacedByClock (k + 3) c.1 c.2.1 c.2.2 = some r := by
  have hnext : ∀ (fuel : ℕ) (c : ℤ × Playing × State W),
      (∃ r, playTicks dev paths startTime tick pacedByClock fuel
        (runTick dev paths startTime tick pacedByClock c).1
        (runTick dev paths startTime tick pacedByClock c).2.1
        (runTick dev paths startTime tick pacedByClock c).2.2 = some r) →
      ∃ r, playTicks dev paths startTime tick pacedByClock (fuel + 1) c.1 c.2.1 c.2.2 = some r := by
    rintro fuel c hr
    cases hend : c.2.1.pending.isEmpty && c.2.1.down.isEmpty with
    | true =>
      rw [playTicks, hend, if_pos rfl]
      exact ⟨_, rfl⟩
    | false =>
      cases hcancelled : (c.2.2.call dev.cancelled).1 with
      | true =>
        rw [playTicks, hend, if_neg Bool.false_ne_true]
        dsimp only
        rw [hcancelled, if_pos rfl]
        exact ⟨_, rfl⟩
      | false =>
        rw [playTicks_succ dev hend hcancelled]
        exact hr
  induction k generalizing c history with
  | zero =>
    have hfirst : ∀ i < n, (paths i).endMs < c.1 := hpast 0 (.inl rfl)
    obtain ⟨d, hd⟩ : ∃ d, runTick dev paths startTime tick pacedByClock c = d := ⟨_, rfl⟩
    have hsecond : ∀ i < n, (paths i).endMs < d.1 := hd ▸ hpast 1 (.inr rfl)
    obtain ⟨hpending, hdown⟩ : d.2.1.pending = [] ∧ d.2.1.down = c.2.1.pending := by
      rw [← hd]
      exact playTick_late dev (fun i hi => hfirst i (h.down i hi).1)
        (fun i hi => (hlegal i).delay_le.trans (hfirst i (h.pending i hi).1).le)
    obtain ⟨hempty, hlifted⟩ :
        (playTick dev paths startTime d.1 d.2.1 (d.2.2.call dev.cancelled).2).1.pending = [] ∧
          (playTick dev paths startTime d.1 d.2.1 (d.2.2.call dev.cancelled).2).1.down =
            d.2.1.pending := by
      refine playTick_late dev (fun i hi => ?_) (fun i hi => ?_)
      · rw [hdown] at hi
        exact hsecond i (h.pending i hi).1
      · rw [hpending] at hi
        cases hi
    refine hnext 2 c ?_
    rw [hd]
    refine hnext 1 d ⟨(.returned true, (runTick dev paths startTime tick pacedByClock d).2.2), ?_⟩
    rw [playTicks, if_pos]
    show ((playTick dev paths startTime d.1 d.2.1 (d.2.2.call dev.cancelled).2).1.pending.isEmpty &&
      (playTick dev paths startTime d.1 d.2.1 (d.2.2.call dev.cancelled).2).1.down.isEmpty) = true
    rw [hempty, hlifted, hpending]
    rfl
  | succ k ih =>
    refine hnext (k + 3) c ?_
    obtain ⟨history', -, hfollows⟩ := playTick_follows dev startTime c.1 hlegal
      (s := (c.2.2.call dev.cancelled).2) h
    refine ih (runTick dev paths startTime tick pacedByClock c) hfollows fun j hj i hi => ?_
    have hpast' := hpast (j + 1) (by omega) i hi
    rw [Function.iterate_succ_apply] at hpast'
    exact hpast'

end Run

/-! ### Gestures -/

section Perform

variable (paths : List PointerPath) (pacedByClock : Bool) (s : State W)

/-- The path with an index; the others go nowhere. -/
def pathAt (i : ℕ) : PointerPath := paths.getD i { start := { x := 0, y := 0 } }

/-- The variables of `perform` before its first tick. -/
def firstPlaying : Playing where
  pending := (List.range paths.length).mergeSort fun i j =>
    (pathAt paths i).delayMs ≤ (pathAt paths j).delayMs
  position i := (pathAt paths i).start

/-- What `perform` sends, with the time of each tick. -/
def performHistory (fuel : ℕ) : List (ℤ × TouchEvent) :=
  let startTime := s.call dev.now
  let tick := startTime.2.call dev.tickMs
  playHistory dev (pathAt paths) startTime.1 (max tick.1 1) pacedByClock fuel 0 (firstPlaying paths)
    tick.2

/-- The time of a tick of `perform`, if nothing ends it before. -/
def tickTime (k : ℕ) : ℤ :=
  let startTime := s.call dev.now
  let tick := startTime.2.call dev.tickMs
  ((runTick dev (pathAt paths) startTime.1 (max tick.1 1) pacedByClock)^[k]
    (0, firstPlaying paths, tick.2)).1

/-- Times that go by: the clock never goes back, and passes the end of every path. -/
def GoesBy : Prop :=
  (∀ k, tickTime dev paths pacedByClock s k ≤ tickTime dev paths pacedByClock s (k + 1)) ∧
    ∃ k, ∀ path ∈ paths, path.endMs < tickTime dev paths pacedByClock s k

variable {paths pacedByClock s}

theorem perform_eq (hpaths : paths ≠ []) (fuel : ℕ) :
    perform dev paths pacedByClock fuel s =
      playTicks dev (pathAt paths) (s.call dev.now).1
        (max ((s.call dev.now).2.call dev.tickMs).1 1) pacedByClock fuel 0 (firstPlaying paths)
        ((s.call dev.now).2.call dev.tickMs).2 := by
  unfold perform
  rw [if_neg]
  · rfl
  · exact fun h => hpaths (List.isEmpty_iff.mp h)

theorem pathAt_legal (hlegal : ∀ path ∈ paths, path.Legal) (i : ℕ) : (pathAt paths i).Legal := by
  unfold pathAt
  rw [List.getD_eq_getElem?_getD]
  cases hpath : paths[i]? with
  | none => exact ⟨le_rfl, fun s hs => absurd hs List.not_mem_nil⟩
  | some path => exact hlegal path (List.mem_of_getElem? hpath)

theorem pathAt_eq {i : ℕ} (hi : i < paths.length) : pathAt paths i = paths[i] := by
  unfold pathAt
  rw [List.getD_eq_getElem?_getD, List.getElem?_eq_getElem hi]
  rfl

/-- Nothing has been sent yet, and all paths are pending. -/
theorem firstPlaying_follows :
    Follows paths.length (pathAt paths) (firstPlaying paths) []
      (Settled (pathAt paths) (firstPlaying paths)) := by
  have hmem : ∀ i, i ∈ (firstPlaying paths).pending ↔ i < paths.length := by
    intro i
    rw [firstPlaying, (List.mergeSort_perm _ _).mem_iff, List.mem_range]
  refine ⟨.nil, List.nodup_nil, (List.mergeSort_perm _ _).nodup_iff.mpr List.nodup_range,
    fun i hi => ⟨(hmem i).mp hi, List.not_mem_nil, rfl, rfl, fun x hx => absurd hx List.not_mem_nil⟩,
    fun i hi => absurd hi List.not_mem_nil, fun i hi hpending => ?_⟩
  exact absurd ((hmem i).mpr hi) hpending

theorem exists_end (paths : List PointerPath) :
    ∃ bound : ℕ, ∀ path ∈ paths, path.endMs < bound := by
  induction paths with
  | nil => exact ⟨0, fun path hpath => absurd hpath List.not_mem_nil⟩
  | cons path rest ih =>
    obtain ⟨bound, hbound⟩ := ih
    refine ⟨max bound (path.endMs.toNat + 1), fun other hother => ?_⟩
    rcases List.mem_cons.mp hother with rfl | hother
    · omega
    · have := hbound other hother
      omega

/-- Each tick of a gesture that is not paced by the clock takes its time. -/
theorem goesBy_of_not_paced : GoesBy dev paths false s := by
  obtain ⟨tick, htick⟩ : ∃ tick, max ((s.call dev.now).2.call dev.tickMs).1 1 = tick := ⟨_, rfl⟩
  have htick' : 1 ≤ tick := htick ▸ le_max_right _ _
  have htime : ∀ k, tickTime dev paths false s (k + 1) = tickTime dev paths false s k + tick := by
    intro k
    unfold tickTime
    dsimp only
    rw [htick, Function.iterate_succ_apply']
    rfl
  have hzero : tickTime dev paths false s 0 = 0 := rfl
  have hle : ∀ k : ℕ, (k : ℤ) ≤ tickTime dev paths false s k := by
    intro k
    induction k with
    | zero => rw [hzero]; exact le_rfl
    | succ k ih =>
      rw [htime]
      push_cast
      omega
  refine ⟨fun k => by rw [htime]; omega, ?_⟩
  obtain ⟨bound, hbound⟩ := exists_end paths
  exact ⟨bound, fun path hpath => (hbound path hpath).trans_le (hle bound)⟩

/-- **The touch stream of a gesture.** It ends once time has gone by; its events are a stream of
    touches that leaves no pointer down; and unless it is cancelled each path is in it, pressed and
    released once. -/
theorem perform_stream (hpaths : paths ≠ []) (hlegal : ∀ path ∈ paths, path.Legal) :
    ((pacedByClock = true → GoesBy dev paths pacedByClock s) →
      ∃ fuel r, perform dev paths pacedByClock fuel s = some r) ∧
    ∀ fuel r, perform dev paths pacedByClock fuel s = some r →
      r.2.log.map Prod.fst = s.log.map Prod.fst ++
        (performHistory dev paths pacedByClock s fuel).map Prod.snd ∧
      Stream ((performHistory dev paths pacedByClock s fuel).map Prod.snd) [] ∧
      (r.1 = .cancelled ∨ r.1 = .returned true ∧ ∀ i (hi : i < paths.length),
        Lifted paths[i] i (performHistory dev paths pacedByClock s fuel)) := by
  constructor
  · intro hclock
    obtain ⟨hmono, k, hk⟩ : GoesBy dev paths pacedByClock s := by
      cases hpaced : pacedByClock with
      | true =>
        rw [← hpaced]
        exact hclock hpaced
      | false => exact goesBy_of_not_paced dev
    have hpast : ∀ j, j = k ∨ j = k + 1 → ∀ i < paths.length,
        (pathAt paths i).endMs < tickTime dev paths pacedByClock s j := by
      intro j hj i hi
      have hend := hk _ (List.getElem_mem hi)
      rw [pathAt_eq hi]
      rcases hj with rfl | rfl
      · exact hend
      · exact hend.trans_le (hmono k)
    obtain ⟨r, hr⟩ := playTicks_terminates dev (pathAt_legal hlegal) k _ firstPlaying_follows hpast
    exact ⟨k + 3, r, (perform_eq dev hpaths (k + 3)).trans hr⟩
  · intro fuel r hr
    rw [perform_eq dev hpaths] at hr
    obtain ⟨hlog, hstream, hlifted⟩ :=
      playTicks_stream dev (pathAt_legal hlegal) firstPlaying_follows hr
    refine ⟨hlog, hstream, hlifted.imp_right fun h => ⟨h.1, fun i hi => ?_⟩⟩
    rw [← pathAt_eq hi]
    exact h.2 i hi

end Perform

/-- Two fingers that move apart, one of them later. -/
def spread : List PointerPath :=
  [({ start := { x := 400, y := 800 } } : PointerPath).travelTo { x := 200, y := 800 } 40,
   ({ start := { x := 600, y := 800 }, delayMs := 10 } : PointerPath).travelTo
     { x := 800, y := 800 } 20]

theorem spread_legal : ∀ path ∈ spread, path.Legal := by
  intro path hpath
  simp only [spread, List.mem_cons, List.not_mem_nil, or_false] at hpath
  rcases hpath with rfl | rfl
  · exact PointerPath.Legal.travelTo ⟨by decide, fun s hs => absurd hs List.not_mem_nil⟩ (by decide)
  · exact PointerPath.Legal.travelTo ⟨by decide, fun s hs => absurd hs List.not_mem_nil⟩ (by decide)

theorem perform_stream_spread : ∃ fuel r,
    perform (testDevice fun _ => false) spread false fuel { world := 0 } = some r :=
  (perform_stream (testDevice fun _ => false) (by decide) spread_legal).1 fun h => by cases h

end Tapsmith.Agent
