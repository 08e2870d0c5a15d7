import Mathlib.Algebra.BigOperators.Group.List.Basic
import Mathlib.Algebra.Order.Group.Abs
import Mathlib.Algebra.Order.Ring.Int
import Mathlib.Data.Int.Notation

namespace Tapsmith.Trace

/-!
# Wall durations

How the collector of a trace gives every action and assertion its part of the wall clock.  `T` is
the type of the times and durations, in milliseconds.

* `addEvent`, `finalizeTimeline` — an event that is completed, and the time behind the last one;
* `Tiles` — the wall durations so far add up to the time since the origin;
* `wallDuration_tiles` — whatever the clock shows.
-/

variable {T : Type} [AddCommGroup T] [LinearOrder T]

/-- What an action or assertion tells of its time. -/
structure EventTiming (T : Type) where
  duration : Option T
  startTime : Option T
  endTime : Option T
  trailingTime : Option T

/-- An event that `_applyTimelineTiming` has been at. -/
structure TimedEvent (T : Type) where
  duration : Option T
  startTime : T
  endTime : T
  gapBefore : T
  wallDuration : T
  trailingTime : Option T

/-- The part of a collector that times its events.  The last timed event stands apart from those
    before it. -/
structure Timeline (T : Type) where
  timelineOrigin : T
  lastTimelineTimestamp : T
  earlierEvents : List (TimedEvent T)
  lastTimedEvent : Option (TimedEvent T)

namespace Timeline

/-- The constructor. -/
def start (timelineOrigin : T) : Timeline T where
  timelineOrigin := timelineOrigin
  lastTimelineTimestamp := timelineOrigin
  earlierEvents := []
  lastTimedEvent := none

variable (c : Timeline T)

def timedEvents : List (TimedEvent T) := c.earlierEvents ++ c.lastTimedEvent.toList

/-- `_applyTimelineTiming`, on the event it is given and on the boundary. -/
def applyTimelineTiming (event : EventTiming T) (completedAt : T) : TimedEvent T :=
  let ownDuration := max 0 (event.duration.getD 0)
  let startedAt := event.startTime.getD (max c.timelineOrigin (completedAt - ownDuration))
  { duration := event.duration
    startTime := startedAt
    endTime := event.endTime.getD completedAt
    gapBefore := max 0 (startedAt - c.lastTimelineTimestamp)
    wallDuration := max 0 (completedAt - c.lastTimelineTimestamp)
    trailingTime := event.trailingTime }

/-- `addActionEvent` and `addAssertionEvent`, at the reading of the clock. -/
def addEvent (event : EventTiming T) (now : T) : Timeline T :=
  { c with
    lastTimelineTimestamp := max c.lastTimelineTimestamp now
    earlierEvents := c.timedEvents
    lastTimedEvent := some (c.applyTimelineTiming event now) }

def finalizeTimeline (endTime : T) : Timeline T :=
  let trailing := max 0 (endTime - c.lastTimelineTimestamp)
  c.lastTimedEvent.elim c fun last =>
    if trailing = 0 then c
    else
      { c with
        lastTimelineTimestamp := endTime
        lastTimedEvent := some
          { last with
            wallDuration := last.wallDuration + trailing
            trailingTime := some (last.trailingTime.getD 0 + trailing) } }

end Timeline

/-! ### The invariant -/

/-- The wall durations and the origin add up to the boundary, and none of them is negative. -/
structure Tiles (c : Timeline T) : Prop where
  sum : (c.timedEvents.map (·.wallDuration)).sum + c.timelineOrigin = c.lastTimelineTimestamp
  wallDuration_nonneg : ∀ e ∈ c.timedEvents, 0 ≤ e.wallDuration
  gapBefore_nonneg : ∀ e ∈ c.timedEvents, 0 ≤ e.gapBefore

variable {c : Timeline T} {event : EventTiming T} {now endTime : T}

theorem tiles_start (timelineOrigin : T) : Tiles (Timeline.start timelineOrigin) where
  sum := zero_add _
  wallDuration_nonneg _ he := absurd he List.not_mem_nil
  gapBefore_nonneg _ he := absurd he List.not_mem_nil

theorem timedEvents_addEvent :
    (c.addEvent event now).timedEvents = c.timedEvents ++ [c.applyTimelineTiming event now] := rfl

variable [IsOrderedAddMonoid T]

/-- The way from the boundary to a later time, and to no earlier one. -/
theorem boundary_add {a b : T} : a + max 0 (b - a) = max a b := by
  rw [add_max, add_zero, add_sub_cancel]

theorem Tiles.addEvent (h : Tiles c) (event : EventTiming T) (now : T) : Tiles (c.addEvent event now) where
  sum := by
    have hsum : (c.timedEvents.map (·.wallDuration)).sum + c.timelineOrigin =
        c.lastTimelineTimestamp := h.sum
    rw [timedEvents_addEvent, List.map_append, List.sum_append, List.map_singleton,
      List.sum_singleton, add_right_comm]
    change (c.timedEvents.map (·.wallDuration)).sum + c.timelineOrigin +
      max 0 (now - c.lastTimelineTimestamp) = max c.lastTimelineTimestamp now
    rw [hsum, boundary_add]
  wallDuration_nonneg e he := by
    rw [timedEvents_addEvent] at he
    rcases List.mem_append.mp he with he | he
    · exact h.wallDuration_nonneg e he
    · obtain rfl := List.mem_singleton.mp he
      exact le_max_left _ _
  gapBefore_nonneg e he := by
    rw [timedEvents_addEvent] at he
    rcases List.mem_append.mp he with he | he
    · exact h.gapBefore_nonneg e he
    · obtain rfl := List.mem_singleton.mp he
      exact le_max_left _ _

/-- What `finalizeTimeline` does once there is an event: the time behind the boundary, if any, goes
    to the last one. -/
theorem finalizeTimeline_cases (endTime : T) {last : TimedEvent T} (hlast : c.lastTimedEvent = some last) :
    (endTime ≤ c.lastTimelineTimestamp ∧ c.finalizeTimeline endTime = c) ∨
      (c.lastTimelineTimestamp ≤ endTime ∧ ∃ trailingTime, c.finalizeTimeline endTime =
        { c with
          lastTimelineTimestamp := endTime
          lastTimedEvent := some
            { last with
              wallDuration := last.wallDuration + (endTime - c.lastTimelineTimestamp)
              trailingTime := trailingTime } }) := by
  unfold Timeline.finalizeTimeline
  rw [hlast]
  dsimp only [Option.elim_some]
  rcases le_total endTime c.lastTimelineTimestamp with hle | hle
  · rw [max_eq_left (sub_nonpos.mpr hle), if_pos rfl]
    exact Or.inl ⟨hle, rfl⟩
  · rw [max_eq_right (sub_nonneg.mpr hle)]
    split
    case isTrue hzero =>
      exact Or.inl ⟨(sub_eq_zero.mp hzero).le, rfl⟩
    case isFalse hne => exact Or.inr ⟨hle, _, rfl⟩

theorem Tiles.finalizeTimeline (h : Tiles c) (endTime : T) : Tiles (c.finalizeTimeline endTime) := by
  cases hlast : c.lastTimedEvent with
  | none =>
    unfold Timeline.finalizeTimeline
    rw [hlast]
    exact h
  | some last =>
    rcases finalizeTimeline_cases endTime hlast with
      ⟨-, heq⟩ | ⟨hle, trailingTime, heq⟩
    · rw [heq]
      exact h
    rw [heq]
    have hevents : c.timedEvents = c.earlierEvents ++ [last] := by
      rw [Timeline.timedEvents, hlast]
      rfl
    have hmem : last ∈ c.timedEvents := by
      rw [hevents]
      exact List.mem_append_right _ List.mem_cons_self
    have hearlier : ∀ e ∈ c.earlierEvents, e ∈ c.timedEvents := by
      intro e he
      rw [hevents]
      exact List.mem_append_left _ he
    constructor
    case sum =>
      have hsum := h.sum
      rw [hevents, List.map_append, List.sum_append, List.map_singleton,
        List.sum_singleton] at hsum
      change ((c.earlierEvents ++ [_]).map TimedEvent.wallDuration).sum + c.timelineOrigin = endTime
      rw [List.map_append, List.sum_append, List.map_singleton, List.sum_singleton, ← add_assoc,
        add_right_comm, hsum, add_sub_cancel]
    case wallDuration_nonneg =>
      intro e he
      rcases List.mem_append.mp he with he | he
      · exact h.wallDuration_nonneg e (hearlier e he)
      · obtain rfl := List.mem_singleton.mp he
        exact add_nonneg (h.wallDuration_nonneg last hmem) (sub_nonneg.mpr hle)
    case gapBefore_nonneg =>
      intro e he
      rcases List.mem_append.mp he with he | he
      · exact h.gapBefore_nonneg e (hearlier e he)
      · obtain rfl := List.mem_singleton.mp he
        exact h.gapBefore_nonneg last hmem

/-! ### Whatever the clock shows -/

/-- The events as they are completed, each at a reading of the clock. -/
def addEvents (c : Timeline T) (completions : List (EventTiming T × T)) : Timeline T :=
  completions.foldl (fun c r => c.addEvent r.1 r.2) c

def finalizeAll (c : Timeline T) (ends : List T) : Timeline T :=
  ends.foldl Timeline.finalizeTimeline c

theorem addEvents_spec (completions : List (EventTiming T × T)) (h : Tiles c) :
    Tiles (addEvents c completions) ∧
      (addEvents c completions).timelineOrigin = c.timelineOrigin ∧
      (addEvents c completions).lastTimelineTimestamp =
        (completions.map Prod.snd).foldl max c.lastTimelineTimestamp ∧
      ((addEvents c completions).lastTimedEvent = none → completions = []) := by
  induction completions generalizing c with
  | nil => exact ⟨h, rfl, rfl, fun _ => rfl⟩
  | cons r completions ih =>
    obtain ⟨htiles, horigin, hboundary, hnone⟩ := ih (h.addEvent r.1 r.2)
    refine ⟨htiles, horigin, hboundary, fun hlast => ?_⟩
    obtain rfl := hnone hlast
    cases hlast

theorem finalizeAll_spec (ends : List T) (h : Tiles c) (hlast : c.lastTimedEvent ≠ none) :
    Tiles (finalizeAll c ends) ∧ (finalizeAll c ends).timelineOrigin = c.timelineOrigin ∧
      (finalizeAll c ends).lastTimelineTimestamp = ends.foldl max c.lastTimelineTimestamp := by
  induction ends generalizing c with
  | nil => exact ⟨h, rfl, rfl⟩
  | cons endTime ends ih =>
    obtain ⟨last, hsome⟩ := Option.ne_none_iff_exists'.mp hlast
    have hstep : (c.finalizeTimeline endTime).timelineOrigin = c.timelineOrigin ∧
        (c.finalizeTimeline endTime).lastTimelineTimestamp =
          max c.lastTimelineTimestamp endTime ∧
        (c.finalizeTimeline endTime).lastTimedEvent ≠ none := by
      rcases finalizeTimeline_cases endTime hsome with
        ⟨hle, heq⟩ | ⟨hle, trailingTime, heq⟩
      · rw [heq]
        exact ⟨rfl, (max_eq_left hle).symm, hlast⟩
      · rw [heq]
        exact ⟨rfl, (max_eq_right hle).symm, Option.some_ne_none _⟩
    obtain ⟨htiles, horigin, hboundary⟩ :=
      ih (h.finalizeTimeline endTime) hstep.2.2
    rw [hstep.1] at horigin
    rw [hstep.2.1] at hboundary
    exact ⟨htiles, horigin, hboundary⟩

/-- **The wall durations tile the timeline.**  They add up to the time from the origin to the
    latest completion or end, however the clock and the reported times go, and nothing is
    negative. -/
theorem wallDuration_tiles (timelineOrigin : T) (completions : List (EventTiming T × T))
    (hne : completions ≠ []) (ends : List T) :
    let c := finalizeAll (addEvents (Timeline.start timelineOrigin) completions) ends
    (c.timedEvents.map (·.wallDuration)).sum =
        (completions.map Prod.snd ++ ends).foldl max timelineOrigin - timelineOrigin ∧
      ∀ e ∈ c.timedEvents, 0 ≤ e.wallDuration ∧ 0 ≤ e.gapBefore := by
  intro c
  obtain ⟨htiles, horigin, hboundary, hnone⟩ :=
    addEvents_spec completions (tiles_start timelineOrigin)
  obtain ⟨htiles', horigin', hboundary'⟩ :=
    finalizeAll_spec ends htiles fun hlast => hne (hnone hlast)
  refine ⟨?_, fun e he => ⟨htiles'.wallDuration_nonneg e he, htiles'.gapBefore_nonneg e he⟩⟩
  have hsum := htiles'.sum
  rw [horigin', horigin, hboundary', hboundary] at hsum
  rw [List.foldl_append, eq_sub_iff_add_eq]
  exact hsum

/-- The clock steps back between two taps, and the trace is packaged twice. -/
theorem wallDuration_tiles_back :
    ((finalizeAll (addEvents (Timeline.start (2000 : ℤ))
      [(⟨some 50, none, none, none⟩, 2100), (⟨some (-5), some 2090, none, none⟩, 2050)])
      [2250, 2200]).timedEvents.map (·.wallDuration)).sum = 250 :=
  (wallDuration_tiles (2000 : ℤ)
    [(⟨some 50, none, none, none⟩, 2100), (⟨some (-5), some 2090, none, none⟩, 2050)] (by simp)
    [2250, 2200]).1.trans (by decide)

end Tapsmith.Trace
