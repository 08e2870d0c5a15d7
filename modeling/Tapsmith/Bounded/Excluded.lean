import Tapsmith.Bounded.RunBounded

namespace Tapsmith.Bounded

open Lib.Machine

/-!
# What the budget excludes

The listener of a bounded run counts how deep it is in actions, whosever they are; the budget is
about the actions that started since the run began.

* `spanned_snoc` — the union of the intervals grows by what is in flight behind the last event;
* `Meets` — no action from before the run ends while one of the run is in flight;
* `Tracks` — while that is so, the count is that of the run's own actions;
* `budget_exact` — and the budget excludes exactly the union of their intervals.
-/

variable {R : Type} {trace : List (ℤ × Act R)} {o : BoundedRunOptions} {s s' s₀ : State R}
  {start now t x y : ℤ} {a : Act R}

/-! ### Unions of intervals -/

/-- An action of the run is in flight behind the trace. -/
def OpenAction (trace : List (ℤ × Act R)) : Prop :=
  ∃ id since, (since, Act.start id) ∈ trace ∧ ∀ until', (until', Act.finish id) ∉ trace

theorem spanned_split (hxy : start ≤ x) (hyz : x ≤ y) :
    spanned trace start y = spanned trace start x + spanned trace x y := by
  classical
  unfold spanned
  rw [← Finset.Ico_union_Ico_eq_Ico hxy hyz, Finset.filter_union, Finset.card_union_of_disjoint]
  exact Finset.disjoint_filter_filter (Finset.Ico_disjoint_Ico_consecutive start x y)

theorem spanned_congr {trace' : List (ℤ × Act R)}
    (h : ∀ z, start ≤ z → z < x → (inFlightAt trace z ↔ inFlightAt trace' z)) :
    spanned trace start x = spanned trace' start x := by
  classical
  unfold spanned
  congr 1
  refine Finset.filter_congr fun z hz => ?_
  obtain ⟨hstart, hx⟩ := Finset.mem_Ico.mp hz
  exact h z hstart hx

open scoped Classical in
/-- Where it is the same throughout. -/
theorem spanned_const {p : Prop} (hx : start ≤ x)
    (h : ∀ z, start ≤ z → z < x → (inFlightAt trace z ↔ p)) :
    (spanned trace start x : ℤ) = if p then x - start else 0 := by
  unfold spanned
  by_cases hp : p
  · rw [if_pos hp, Finset.filter_true_of_mem, Int.card_Ico, Int.toNat_of_nonneg (by omega)]
    intro z hz
    obtain ⟨hstart, hx⟩ := Finset.mem_Ico.mp hz
    exact (h z hstart hx).mpr hp
  · rw [if_neg hp, Finset.filter_false_of_mem, Finset.card_empty, Nat.cast_zero]
    intro z hz hflight
    obtain ⟨hstart, hx⟩ := Finset.mem_Ico.mp hz
    exact hp ((h z hstart hx).mp hflight)

/-- Behind the last event everything stays as it is. -/
theorem inFlightAt_behind (htimes : ∀ e ∈ trace, e.1 ≤ x) : inFlightAt trace x ↔ OpenAction trace := by
  constructor
  · rintro ⟨id, since, hstart, -, hfinish⟩
    exact ⟨id, since, hstart, fun until' hmem =>
      absurd (hfinish until' hmem) (not_lt.mpr (htimes _ hmem))⟩
  · rintro ⟨id, since, hstart, hfinish⟩
    exact ⟨id, since, hstart, htimes _ hstart, fun until' hmem => absurd hmem (hfinish until')⟩

/-- An event changes nothing about the time before it. -/
theorem inFlightAt_snoc (hx : x < t) : inFlightAt (trace ++ [(t, a)]) x ↔ inFlightAt trace x := by
  constructor
  · rintro ⟨id, since, hstart, hsince, hfinish⟩
    refine ⟨id, since, ?_, hsince, fun until' hmem => hfinish until' (List.mem_append_left _ hmem)⟩
    rcases List.mem_append.mp hstart with hmem | hmem
    · exact hmem
    · rw [List.mem_singleton, Prod.mk.injEq] at hmem
      omega
  · rintro ⟨id, since, hstart, hsince, hfinish⟩
    refine ⟨id, since, List.mem_append_left _ hstart, hsince, fun until' hmem => ?_⟩
    rcases List.mem_append.mp hmem with hmem | hmem
    · exact hfinish until' hmem
    · rw [List.mem_singleton, Prod.mk.injEq] at hmem
      omega

open scoped Classical in
theorem spanned_snoc (htimes : ∀ e ∈ trace, e.1 ≤ t) (hstart : start ≤ t) (hx : t ≤ x) :
    (spanned (trace ++ [(t, a)]) start x : ℤ) =
      spanned trace start t + if OpenAction (trace ++ [(t, a)]) then x - t else 0 := by
  have hbefore : spanned (trace ++ [(t, a)]) start t = spanned trace start t :=
    spanned_congr fun z _ hz => inFlightAt_snoc hz
  have hafter : (spanned (trace ++ [(t, a)]) t x : ℤ) =
      if OpenAction (trace ++ [(t, a)]) then x - t else 0 := by
    refine spanned_const hx fun z hz _ => inFlightAt_behind fun e he => ?_
    rcases List.mem_append.mp he with he | he
    · exact (htimes e he).trans hz
    · rw [List.mem_singleton.mp he]
      exact hz
  rw [spanned_split hstart hx, Nat.cast_add, hbefore, hafter]

/-! ### The excluded time of one event -/

namespace Excluded

variable (e : Excluded)

theorem inFlightMs_later (x y : ℤ) :
    e.inFlightMs y = e.inFlightMs x + if e.depth > 0 then y - x else 0 := by
  unfold inFlightMs
  split <;> omega

theorem onStart_ms (x y : ℤ) : (e.onStart x).totalMs + (e.onStart x).inFlightMs y =
    e.totalMs + e.inFlightMs x + (y - x) := by
  unfold onStart inFlightMs
  dsimp only
  by_cases hdepth : e.depth = 0
  · rw [if_pos (by omega), if_pos hdepth, if_neg (by omega)]
    omega
  · rw [if_pos (by omega), if_neg hdepth, if_pos (by omega)]
    omega

theorem onEnd_ms (h : e.depth > 0) (x y : ℤ) : (e.onEnd x).totalMs + (e.onEnd x).inFlightMs y =
    e.totalMs + e.inFlightMs x + if e.depth - 1 > 0 then y - x else 0 := by
  unfold onEnd inFlightMs
  rw [if_pos h, if_pos h]
  dsimp only
  by_cases hlast : e.depth - 1 = 0
  · rw [if_pos hlast, if_neg (by omega), if_neg (by omega)]
  · rw [if_neg hlast, if_pos (by omega), if_pos (by omega)]
    omega

theorem onEnd_of_depth_zero (h : e.depth = 0) (x : ℤ) : e.onEnd x = e :=
  if_neg (by omega)

end Excluded

/-! ### The count is that of the run's own actions -/

/-- The actions of the run in flight, where `first` is the id of its first. -/
def own (first : ℕ) (c : Channel) : List ℕ := c.inFlight.filter fun id => first ≤ id

/-- No action from before the run ends while one of the run is in flight. -/
def Meets (first : ℕ) (s : State R) (e : ℤ × Act R) : Prop :=
  ∀ id, e.2 = .finish id → first ≤ id ∨ own first s.channel = []

structure Tracks (first : ℕ) (trace : List (ℤ × Act R)) (s : State R) : Prop where
  start_le : s.start ≤ s.now
  times : ∀ e ∈ trace, e.1 ≤ s.now
  first_le : first ≤ s.channel.nextId
  started : ∀ since id, (since, Act.start id) ∈ trace → first ≤ id ∧ id < s.channel.nextId ∧
    (id ∈ s.channel.inFlight ∨ ∃ until', (until', Act.finish id) ∈ trace)
  finished : ∀ until' id, (until', Act.finish id) ∈ trace →
    id < s.channel.nextId ∧ id ∉ s.channel.inFlight
  inFlight : ∀ id ∈ own first s.channel, ∃ since, (since, Act.start id) ∈ trace
  depth : s.excluded.depth = (own first s.channel).length
  spanned : ∀ x, s.now ≤ x →
    (spanned trace s.start x : ℤ) = s.excluded.totalMs + s.excluded.inFlightMs x

variable {first : ℕ}

theorem mem_own {c : Channel} {id : ℕ} : id ∈ own first c ↔ id ∈ c.inFlight ∧ first ≤ id := by
  rw [own, List.mem_filter, decide_eq_true_eq]

/-- What the channel tells of the trace. -/
theorem openAction_iff {c : Channel}
    (hstarted : ∀ since id, (since, Act.start id) ∈ trace → first ≤ id ∧ id < c.nextId ∧
      (id ∈ c.inFlight ∨ ∃ until', (until', Act.finish id) ∈ trace))
    (hfinished : ∀ until' id, (until', Act.finish id) ∈ trace → id < c.nextId ∧ id ∉ c.inFlight)
    (hinFlight : ∀ id ∈ own first c, ∃ since, (since, Act.start id) ∈ trace) :
    OpenAction trace ↔ 0 < (own first c).length := by
  rw [List.length_pos_iff_exists_mem]
  constructor
  · rintro ⟨id, since, hstart, hfinish⟩
    obtain ⟨hfirst, -, hopen | ⟨until', hended⟩⟩ := hstarted since id hstart
    · exact ⟨id, mem_own.mpr ⟨hopen, hfirst⟩⟩
    · exact absurd hended (hfinish until')
  · rintro ⟨id, hid⟩
    obtain ⟨since, hstart⟩ := hinFlight id hid
    exact ⟨id, since, hstart, fun until' hended => (hfinished until' id hended).2 (mem_own.mp hid).1⟩

/-- The trace and the channel grow by one event; the excluded time has to follow. -/
theorem Tracks.snoc {s' : State R} {t : ℤ} {a : Act R} (h : Tracks first trace s)
    (hnow : s.now ≤ t) (hnow' : t ≤ s'.now) (hstart : s'.start = s.start)
    (hfirst : first ≤ s'.channel.nextId)
    (hstarted : ∀ since id, (since, Act.start id) ∈ trace ++ [(t, a)] → first ≤ id ∧
      id < s'.channel.nextId ∧
        (id ∈ s'.channel.inFlight ∨ ∃ until', (until', Act.finish id) ∈ trace ++ [(t, a)]))
    (hfinished : ∀ until' id, (until', Act.finish id) ∈ trace ++ [(t, a)] →
      id < s'.channel.nextId ∧ id ∉ s'.channel.inFlight)
    (hinFlight : ∀ id ∈ own first s'.channel, ∃ since, (since, Act.start id) ∈ trace ++ [(t, a)])
    (hdepth : s'.excluded.depth = (own first s'.channel).length)
    (hms : ∀ x, s'.excluded.totalMs + s'.excluded.inFlightMs x =
      s.excluded.totalMs + s.excluded.inFlightMs t + if s'.excluded.depth > 0 then x - t else 0) :
    Tracks first (trace ++ [(t, a)]) s' where
  start_le := by rw [hstart]; exact h.start_le.trans (hnow.trans hnow')
  times e he := by
    rcases List.mem_append.mp he with he | he
    · exact (h.times e he).trans (hnow.trans hnow')
    · rw [List.mem_singleton.mp he]
      exact hnow'
  first_le := hfirst
  started := hstarted
  finished := hfinished
  inFlight := hinFlight
  depth := hdepth
  spanned x hx := by
    classical
    rw [hstart, spanned_snoc (fun e he => (h.times e he).trans hnow) (h.start_le.trans hnow)
      (hnow'.trans hx), h.spanned t hnow, hms]
    congr 1
    refine if_congr ?_ rfl rfl
    rw [openAction_iff hstarted hfinished hinFlight, hdepth]

/-! ### One event -/

theorem Tracks.of_start {s' : State R} (h : Tracks first trace s) (hnow : s.now ≤ t)
    (hs' : s' = { s with now := t, channel := s.channel.start, excluded := s.excluded.onStart t }) :
    Tracks first (trace ++ [(t, .start s.channel.nextId)]) s' := by
  subst hs'
  have hfirst := h.first_le
  have hown : own first s.channel.start = s.channel.nextId :: own first s.channel :=
    List.filter_cons_of_pos (decide_eq_true hfirst)
  refine h.snoc hnow le_rfl rfl (Nat.le_succ_of_le hfirst) (fun since id hmem => ?_)
    (fun until' id hmem => ?_) (fun id hid => ?_) ?_ fun x => ?_
  · rcases List.mem_append.mp hmem with hmem | hmem
    · obtain ⟨hid, hlt, hor⟩ := h.started since id hmem
      refine ⟨hid, Nat.lt_succ_of_lt hlt, hor.imp (List.mem_cons_of_mem _) ?_⟩
      exact fun ⟨until', hended⟩ => ⟨until', List.mem_append_left _ hended⟩
    · obtain ⟨-, hact⟩ := Prod.mk.inj (List.mem_singleton.mp hmem)
      obtain rfl := Act.start.inj hact
      exact ⟨hfirst, Nat.lt_succ_self _, .inl List.mem_cons_self⟩
  · rcases List.mem_append.mp hmem with hmem | hmem
    · obtain ⟨hlt, hnot⟩ := h.finished until' id hmem
      refine ⟨Nat.lt_succ_of_lt hlt, fun hin => ?_⟩
      rcases List.mem_cons.mp hin with rfl | hin
      · exact Nat.lt_irrefl _ hlt
      · exact hnot hin
    · exact absurd (Prod.mk.inj (List.mem_singleton.mp hmem)).2 nofun
  · rw [hown] at hid
    rcases List.mem_cons.mp hid with rfl | hid
    · exact ⟨t, List.mem_append_right _ (List.mem_singleton_self _)⟩
    · obtain ⟨since, hmem⟩ := h.inFlight id hid
      exact ⟨since, List.mem_append_left _ hmem⟩
  · show s.excluded.depth + 1 = _
    rw [hown, h.depth]
    rfl
  · show (s.excluded.onStart t).totalMs + (s.excluded.onStart t).inFlightMs x =
      s.excluded.totalMs + s.excluded.inFlightMs t +
        if (s.excluded.onStart t).depth > 0 then x - t else 0
    rw [if_pos (show (s.excluded.onStart t).depth > 0 from Nat.succ_pos _)]
    exact s.excluded.onStart_ms t x

theorem Tracks.of_finish {s' : State R} {id : ℕ} (h : Tracks first trace s) (hnow : s.now ≤ t)
    (hid : id ∈ s.channel.inFlight) (hmeets : first ≤ id ∨ own first s.channel = [])
    (hs' : s' = { s with
      now := t, channel := s.channel.finish id, excluded := s.excluded.onEnd t }) :
    Tracks first (trace ++ [(t, .finish id)]) s' := by
  subst hs'
  have hnot : id ∉ (s.channel.finish id).inFlight := s.channel.nodup.not_mem_erase
  have hmem_finish : ∀ id', id' ∈ (s.channel.finish id).inFlight → id' ∈ s.channel.inFlight :=
    fun id' => List.mem_of_mem_erase
  have hown_finish : own first (s.channel.finish id) = (own first s.channel).erase id :=
    List.erase_filter.symm
  have hcases : id ∈ own first s.channel ∨ own first s.channel = [] :=
    hmeets.imp_left fun hfirst => mem_own.mpr ⟨hid, hfirst⟩
  have hpos : id ∈ own first s.channel → s.excluded.depth > 0 := fun hin => by
    rw [h.depth]
    exact List.length_pos_of_mem hin
  have hzero : own first s.channel = [] → s.excluded.depth = 0 := fun hnil => by
    rw [h.depth, hnil]
    rfl
  refine h.snoc hnow le_rfl rfl h.first_le (fun since id' hmem => ?_) (fun until' id' hmem => ?_)
    (fun id' hown => ?_) ?_ fun x => ?_
  · rcases List.mem_append.mp hmem with hmem | hmem
    · obtain ⟨hfirst, hlt, hor⟩ := h.started since id' hmem
      refine ⟨hfirst, hlt, ?_⟩
      by_cases heq : id' = id
      · exact .inr ⟨t, by rw [heq]; exact List.mem_append_right _ (List.mem_singleton_self _)⟩
      · refine hor.imp (List.mem_erase_of_ne heq).mpr ?_
        exact fun ⟨until', hended⟩ => ⟨until', List.mem_append_left _ hended⟩
    · exact absurd (Prod.mk.inj (List.mem_singleton.mp hmem)).2 nofun
  · rcases List.mem_append.mp hmem with hmem | hmem
    · obtain ⟨hlt, hout⟩ := h.finished until' id' hmem
      exact ⟨hlt, fun hin => hout (hmem_finish id' hin)⟩
    · obtain ⟨-, hact⟩ := Prod.mk.inj (List.mem_singleton.mp hmem)
      obtain rfl := Act.finish.inj hact
      exact ⟨s.channel.bound _ hid, hnot⟩
  · obtain ⟨hin, hfirst⟩ := mem_own.mp hown
    obtain ⟨since, hmem⟩ := h.inFlight id' (mem_own.mpr ⟨hmem_finish id' hin, hfirst⟩)
    exact ⟨since, List.mem_append_left _ hmem⟩
  · show (s.excluded.onEnd t).depth = (own first (s.channel.finish id)).length
    rw [hown_finish]
    rcases hcases with hin | hnil
    · rw [List.length_erase_of_mem hin, ← h.depth, Excluded.onEnd, if_pos (hpos hin)]
    · rw [s.excluded.onEnd_of_depth_zero (hzero hnil), hzero hnil, hnil]
      rfl
  · show (s.excluded.onEnd t).totalMs + (s.excluded.onEnd t).inFlightMs x =
      s.excluded.totalMs + s.excluded.inFlightMs t +
        if (s.excluded.onEnd t).depth > 0 then x - t else 0
    rcases hcases with hin | hnil
    · rw [s.excluded.onEnd_ms (hpos hin), show (s.excluded.onEnd t).depth = s.excluded.depth - 1 by
        rw [Excluded.onEnd, if_pos (hpos hin)]]
    · rw [s.excluded.onEnd_of_depth_zero (hzero hnil), s.excluded.inFlightMs_later t x, add_assoc]

/-- An event that is no progress event leaves the channel and the count alone. -/
theorem Tracks.of_other {s' : State R} (h : Tracks first trace s) (hnow : s.now ≤ t)
    (hnow' : t ≤ s'.now) (hstartAct : ∀ id, a ≠ .start id) (hfinishAct : ∀ id, a ≠ .finish id)
    (hstart : s'.start = s.start) (hchannel : s'.channel = s.channel)
    (hexcluded : s'.excluded = s.excluded) : Tracks first (trace ++ [(t, a)]) s' := by
  have hstarts : ∀ since id, (since, Act.start id) ∈ trace ++ [(t, a)] →
      (since, Act.start id) ∈ trace := by
    intro since id hmem
    rcases List.mem_append.mp hmem with hmem | hmem
    · exact hmem
    · exact absurd (Prod.mk.inj (List.mem_singleton.mp hmem)).2.symm (hstartAct id)
  have hfinishes : ∀ until' id, (until', Act.finish id) ∈ trace ++ [(t, a)] →
      (until', Act.finish id) ∈ trace := by
    intro until' id hmem
    rcases List.mem_append.mp hmem with hmem | hmem
    · exact hmem
    · exact absurd (Prod.mk.inj (List.mem_singleton.mp hmem)).2.symm (hfinishAct id)
  refine h.snoc hnow hnow' hstart ?_ ?_ ?_ ?_ ?_ fun x => ?_
  · rw [hchannel]
    exact h.first_le
  · intro since id hmem
    rw [hchannel]
    obtain ⟨hfirst, hlt, hor⟩ := h.started since id (hstarts since id hmem)
    exact ⟨hfirst, hlt, hor.imp_right fun ⟨until', hended⟩ =>
      ⟨until', List.mem_append_left _ hended⟩⟩
  · intro until' id hmem
    rw [hchannel]
    exact h.finished until' id (hfinishes until' id hmem)
  · intro id hid
    rw [hchannel] at hid
    obtain ⟨since, hmem⟩ := h.inFlight id hid
    exact ⟨since, List.mem_append_left _ hmem⟩
  · rw [hexcluded, hchannel]
    exact h.depth
  · rw [hexcluded, s.excluded.inFlightMs_later t x, add_assoc]

theorem step_guard (h : step o s (t, a) = some s') :
    s.now ≤ t ∧ s.returned = false ∧ { s with now := t }.act o t a = some s' := by
  unfold step at h
  split at h
  case isTrue hguard => exact ⟨hguard.1, hguard.2, h⟩
  case isFalse => cases h

theorem Tracks.step (h : Tracks first trace s) (hstep : step o s (t, a) = some s')
    (hmeets : Meets first s (t, a)) : Tracks first (trace ++ [(t, a)]) s' := by
  obtain ⟨hnow, -, hact⟩ := step_guard hstep
  cases a with
  | start id =>
    obtain ⟨rfl, hs'⟩ := Option.ite_none_right_eq_some.mp hact
    exact h.of_start hnow (Option.some.inj hs').symm
  | finish id =>
    obtain ⟨hid, hs'⟩ := Option.ite_none_right_eq_some.mp hact
    exact h.of_finish hnow hid (hmeets id rfl) (Option.some.inj hs').symm
  | settle result =>
    obtain ⟨-, hs'⟩ := Option.ite_none_right_eq_some.mp hact
    obtain rfl := Option.some.inj hs'
    exact h.of_other hnow le_rfl nofun nofun rfl rfl rfl
  | race =>
    obtain ⟨-, hs'⟩ := Option.ite_none_left_eq_some.mp hact
    obtain rfl := Option.some.inj hs'
    exact h.of_other hnow le_rfl nofun nofun rfl rfl rfl
  | abort =>
    obtain ⟨-, hs'⟩ := Option.ite_none_right_eq_some.mp hact
    obtain rfl := Option.some.inj hs'
    unfold State.abort
    split
    · exact h.of_other hnow le_rfl nofun nofun rfl rfl rfl
    · exact h.of_other hnow le_rfl nofun nofun rfl rfl rfl
  | check again =>
    obtain ⟨hguard, hs'⟩ := Option.ite_none_right_eq_some.mp hact
    obtain rfl := Option.some.inj hs'
    have hagain : t ≤ again := by simpa using (Bool.and_eq_true_iff.mp hguard).2
    unfold State.check
    split
    · exact h.of_other hnow hagain nofun nofun rfl rfl rfl
    split
    · exact h.of_other hnow hagain nofun nofun rfl rfl rfl
    · exact h.of_other hnow hagain nofun nofun rfl rfl rfl
  | leave =>
    obtain ⟨-, hs'⟩ := Option.ite_none_right_eq_some.mp hact
    obtain rfl := Option.some.inj hs'
    exact h.of_other hnow le_rfl nofun nofun rfl rfl rfl

theorem Tracks.begin (start : ℤ) (channel : Channel) (aborted : Bool) :
    Tracks channel.nextId [] (State.begin (R := R) start channel aborted) := by
  have hown : own channel.nextId channel = [] :=
    List.filter_eq_nil_iff.mpr fun id hid => by
      simpa using channel.bound id hid
  refine ⟨le_rfl, nofun, le_rfl, nofun, nofun, ?_, ?_, fun x hx => ?_⟩
  · intro id hid
    rw [State.begin, hown] at hid
    cases hid
  · rw [State.begin, hown]
    rfl
  · classical
    have hnone : ∀ z, ¬ inFlightAt ([] : List (ℤ × Act R)) z :=
      fun z ⟨_, _, hmem, _⟩ => absurd hmem List.not_mem_nil
    have hzero : (Bounded.spanned ([] : List (ℤ × Act R)) start x : ℤ) = 0 := by
      rw [spanned_const (p := False) (show start ≤ x from hx) fun z _ _ => iff_false_intro (hnone z), if_neg not_false]
    exact hzero

/-! ### How the race ends -/

/-- The event is a check that finds the budget used up. -/
def UsedUpAt (o : BoundedRunOptions) (start : ℤ) (before : List (ℤ × Act R)) (e : ℤ × Act R) : Prop :=
  ∃ again, e.2 = .check again ∧
    (o.timeoutMs ≤ e.1 - start - spanned before start again ∨
      o.timeoutMs * WALL_CAP_MULTIPLIER ≤ e.1 - start)

/-- What the race has come to, and what becomes of the token. -/
structure Ending (o : BoundedRunOptions) (s : State R) : Prop where
  idle : s.racing = false →
    s.outcome = none ∧ s.abandoned = false ∧ s.listening = false ∧ s.timer = none
  listening : s.racing = true → s.returned = false → s.listening = (o.abortSignal && !s.aborted)
  abandoned : s.racing = true →
    s.abandoned = (s.outcome.any Outcome.isTimeout || (o.abortSignal && s.aborted))
  returned : s.returned = true → s.racing = true
  token : s.tokenClosed = (s.returned && (o.closeOnSettle || s.abandoned))

theorem Ending.begin (o : BoundedRunOptions) (start : ℤ) (channel : Channel) (aborted : Bool) :
    Ending o (State.begin (R := R) start channel aborted) :=
  ⟨fun _ => ⟨rfl, rfl, rfl, rfl⟩, nofun, nofun, nofun, rfl⟩

theorem isTimeout_or_ran (outcome : Option (Outcome R)) {other : Outcome R}
    (h : other.isTimeout = false) :
    (outcome.or (some other)).any Outcome.isTimeout = outcome.any Outcome.isTimeout := by
  cases outcome with
  | none => exact h
  | some outcome => rfl

theorem Ending.act (h : Ending o s) (hreturned : s.returned = false)
    (hact : s.act o t a = some s') : Ending o s' := by
  have htoken : s.tokenClosed = false := by
    rw [h.token, hreturned]
    rfl
  cases a with
  | start id =>
    obtain ⟨-, hs'⟩ := Option.ite_none_right_eq_some.mp hact
    obtain rfl := Option.some.inj hs'
    exact ⟨h.idle, h.listening, h.abandoned, h.returned, h.token⟩
  | finish id =>
    obtain ⟨-, hs'⟩ := Option.ite_none_right_eq_some.mp hact
    obtain rfl := Option.some.inj hs'
    exact ⟨h.idle, h.listening, h.abandoned, h.returned, h.token⟩
  | settle result =>
    obtain ⟨-, hs'⟩ := Option.ite_none_right_eq_some.mp hact
    obtain rfl := Option.some.inj hs'
    refine ⟨fun (hidle : s.racing = false) => ?_, h.listening,
      fun (hracing : s.racing = true) => ?_, h.returned, h.token⟩
    · obtain ⟨hnone, hrest⟩ := h.idle hidle
      refine ⟨?_, hrest⟩
      show (if s.racing then s.outcome.or (some (.ran result)) else s.outcome) = none
      rw [if_neg (Bool.eq_false_iff.mp hidle), hnone]
    · show s.abandoned = ((if s.racing then s.outcome.or (some (.ran result)) else s.outcome).any
        Outcome.isTimeout || _)
      rw [if_pos hracing, isTimeout_or_ran s.outcome rfl]
      exact h.abandoned hracing
  | race =>
    obtain ⟨-, hs'⟩ := Option.ite_none_left_eq_some.mp hact
    obtain rfl := Option.some.inj hs'
    have hnot : ((s.settled.map Outcome.ran).or
        (if o.abortSignal && s.aborted then some .stopped else none)).any
          Outcome.isTimeout = false := by
      cases s.settled with
      | some result => rfl
      | none =>
        show (if o.abortSignal && s.aborted then some .stopped else none : Option (Outcome R)).any
          Outcome.isTimeout = false
        split <;> rfl
    refine ⟨nofun, fun _ _ => rfl, fun _ => ?_, fun _ => rfl, ?_⟩
    · show (o.abortSignal && s.aborted) = (((s.settled.map Outcome.ran).or
        (if o.abortSignal && s.aborted then some .stopped else none)).any Outcome.isTimeout ||
          (o.abortSignal && s.aborted))
      rw [hnot, Bool.false_or]
    · show s.tokenClosed = (s.returned && _)
      rw [htoken, hreturned]
      rfl
  | abort =>
    obtain ⟨habort, hs'⟩ := Option.ite_none_right_eq_some.mp hact
    obtain rfl := Option.some.inj hs'
    obtain ⟨hsignal, -⟩ := Bool.and_eq_true_iff.mp habort
    unfold State.abort
    split
    case isTrue hlistening =>
      refine ⟨fun hidle => ?_, fun _ _ => ?_, fun _ => ?_, h.returned, ?_⟩
      · rw [(h.idle hidle).2.2.1] at hlistening
        cases hlistening
      · show false = (o.abortSignal && !true)
        rw [Bool.not_true, Bool.and_false]
      · show true = (_ || (o.abortSignal && true))
        rw [hsignal, Bool.and_true, Bool.or_true]
      · show s.tokenClosed = (s.returned && _)
        rw [htoken, hreturned]
        rfl
    case isFalse hlistening =>
      have hidle : s.racing ≠ true := fun hracing =>
        hlistening ((h.listening hracing hreturned).trans habort)
      exact ⟨h.idle, fun hracing => absurd hracing hidle, fun hracing => absurd hracing hidle,
        h.returned, h.token⟩
  | check again =>
    obtain ⟨hguard, hs'⟩ := Option.ite_none_right_eq_some.mp hact
    obtain rfl := Option.some.inj hs'
    obtain ⟨hrun, -⟩ := Bool.and_eq_true_iff.mp hguard
    obtain ⟨harmed, hnone⟩ := Bool.and_eq_true_iff.mp hrun
    have hracing : s.racing = true := by
      cases hidle : s.racing with
      | true => rfl
      | false => rw [(h.idle hidle).2.2.2] at harmed; cases harmed
    have hout : ∀ message, Ending o { s.timeOut message with now := again } := fun message =>
      ⟨fun hidle => absurd (hidle.symm.trans hracing) nofun, h.listening, fun _ => rfl, h.returned, by
        show s.tokenClosed = (s.returned && _)
        rw [htoken, hreturned]
        rfl⟩
    unfold State.check
    split
    · exact hout _
    split
    · exact hout _
    · exact ⟨fun hidle => absurd (hidle.symm.trans hracing) nofun, h.listening, h.abandoned,
        h.returned, h.token⟩
  | leave =>
    obtain ⟨hsome, hs'⟩ := Option.ite_none_right_eq_some.mp hact
    obtain rfl := Option.some.inj hs'
    have hracing : s.racing = true := by
      cases hidle : s.racing with
      | true => rfl
      | false => rw [(h.idle hidle).1] at hsome; cases hsome
    refine ⟨fun hidle => absurd (hidle.symm.trans hracing) nofun, nofun, h.abandoned,
      fun _ => hracing, ?_⟩
    show (s.tokenClosed || (o.closeOnSettle || s.abandoned)) = (true && _)
    rw [htoken]
    rfl

/-! ### The first check that finds the budget used up -/

/-- An element of a list with one more: one of the list before, or the last. -/
theorem exists_split_snoc {α : Type} {P : List α → α → Prop} {l : List α} {b : α} :
    (∃ before e after, l ++ [b] = before ++ e :: after ∧ P before e) ↔
      (∃ before e after, l = before ++ e :: after ∧ P before e) ∨ P l b := by
  constructor
  · rintro ⟨before, e, after, heq, hp⟩
    rcases List.eq_nil_or_concat after with rfl | ⟨after, last, rfl⟩
    · obtain ⟨rfl, hb⟩ := List.append_inj' heq rfl
      obtain rfl := List.singleton_inj.mp hb
      exact .inr hp
    · rw [List.concat_eq_append, ← List.cons_append, ← List.append_assoc] at heq
      obtain ⟨rfl, -⟩ := List.append_inj' heq rfl
      exact .inl ⟨before, e, after, rfl, hp⟩
  · rintro (⟨before, e, after, rfl, hp⟩ | hp)
    · exact ⟨before, e, after ++ [b], by simp, hp⟩
    · exact ⟨l, b, [], rfl, hp⟩

/-- Some check of the trace found the budget used up. -/
def UsedUp (o : BoundedRunOptions) (start : ℤ) (trace : List (ℤ × Act R)) : Prop :=
  ∃ before e after, trace = before ++ e :: after ∧ UsedUpAt o start before e

theorem Tracks.countedMs (h : Tracks first trace s) {again : ℤ} (hagain : s.now ≤ again) :
    s.countedMs now again = now - s.start - Bounded.spanned trace s.start again := by
  rw [h.spanned again hagain, State.countedMs, State.wallMs]
  omega

/-- No event but a check changes whether the run has timed out. -/
theorem isTimeout_act (hact : s.act o t a = some s') (ha : ∀ again, a ≠ .check again)
    (hend : Ending o s) :
    s'.outcome.any Outcome.isTimeout = s.outcome.any Outcome.isTimeout := by
  cases a with
  | start id =>
    obtain ⟨-, hs'⟩ := Option.ite_none_right_eq_some.mp hact
    obtain rfl := Option.some.inj hs'
    rfl
  | finish id =>
    obtain ⟨-, hs'⟩ := Option.ite_none_right_eq_some.mp hact
    obtain rfl := Option.some.inj hs'
    rfl
  | settle result =>
    obtain ⟨-, hs'⟩ := Option.ite_none_right_eq_some.mp hact
    obtain rfl := Option.some.inj hs'
    unfold State.settle
    dsimp only
    split
    · exact isTimeout_or_ran s.outcome rfl
    · rfl
  | race =>
    obtain ⟨hidle, hs'⟩ := Option.ite_none_left_eq_some.mp hact
    obtain rfl := Option.some.inj hs'
    rw [(hend.idle (Bool.eq_false_iff.mpr hidle)).1]
    show ((s.settled.map Outcome.ran).or
      (if o.abortSignal && s.aborted then some .stopped else none)).any Outcome.isTimeout = false
    cases s.settled with
    | some result => rfl
    | none =>
      show (if o.abortSignal && s.aborted then some .stopped else none : Option (Outcome R)).any
        Outcome.isTimeout = false
      split <;> rfl
  | abort =>
    obtain ⟨-, hs'⟩ := Option.ite_none_right_eq_some.mp hact
    obtain rfl := Option.some.inj hs'
    unfold State.abort
    split
    · exact isTimeout_or_ran s.outcome rfl
    · rfl
  | check again => exact absurd rfl (ha again)
  | leave =>
    obtain ⟨-, hs'⟩ := Option.ite_none_right_eq_some.mp hact
    obtain rfl := Option.some.inj hs'
    rfl

/-- The run has timed out if a check found the budget used up, which no check follows. -/
structure TimesOut (o : BoundedRunOptions) (trace : List (ℤ × Act R)) (s : State R) : Prop where
  timedOut : s.outcome.any Outcome.isTimeout = true ↔ UsedUp o s.start trace
  last : ∀ before e after, trace = before ++ e :: after → UsedUpAt o s.start before e →
    ∀ e' ∈ after, ∀ again, e'.2 ≠ .check again

theorem isTimeout_check {again : ℤ} (hnone : s.outcome = none) :
    (s.check o now again).outcome.any Outcome.isTimeout = true ↔
      o.timeoutMs ≤ s.countedMs now again ∨ o.timeoutMs * WALL_CAP_MULTIPLIER ≤ s.wallMs now := by
  unfold State.check
  split
  case isTrue hcounted => exact iff_of_true rfl (.inl hcounted)
  case isFalse hcounted =>
    split
    case isTrue hwall => exact iff_of_true rfl (.inr hwall)
    case isFalse hwall =>
      refine iff_of_false ?_ (not_or.mpr ⟨hcounted, hwall⟩)
      show s.outcome.any Outcome.isTimeout ≠ true
      rw [hnone]
      exact nofun

theorem start_act (hact : s.act o t a = some s') : s'.start = s.start := by
  cases a with
  | start id =>
    obtain ⟨-, hs'⟩ := Option.ite_none_right_eq_some.mp hact
    rw [← Option.some.inj hs']
  | finish id =>
    obtain ⟨-, hs'⟩ := Option.ite_none_right_eq_some.mp hact
    rw [← Option.some.inj hs']
  | settle result =>
    obtain ⟨-, hs'⟩ := Option.ite_none_right_eq_some.mp hact
    rw [← Option.some.inj hs']
    rfl
  | race =>
    obtain ⟨-, hs'⟩ := Option.ite_none_left_eq_some.mp hact
    rw [← Option.some.inj hs']
    rfl
  | abort =>
    obtain ⟨-, hs'⟩ := Option.ite_none_right_eq_some.mp hact
    rw [← Option.some.inj hs']
    unfold State.abort
    split <;> rfl
  | check again =>
    obtain ⟨-, hs'⟩ := Option.ite_none_right_eq_some.mp hact
    rw [← Option.some.inj hs']
    unfold State.check
    split
    · rfl
    · split <;> rfl
  | leave =>
    obtain ⟨-, hs'⟩ := Option.ite_none_right_eq_some.mp hact
    rw [← Option.some.inj hs']
    rfl

theorem TimesOut.step (h : TimesOut o trace s) (htracks : Tracks first trace s)
    (hend : Ending o s) (hstep : Bounded.step o s (t, a) = some s') :
    TimesOut o (trace ++ [(t, a)]) s' := by
  obtain ⟨hnow, hreturned, hact⟩ := step_guard hstep
  have hstart : s'.start = s.start := start_act (s := { s with now := t }) hact
  have hsplit : UsedUp o s.start (trace ++ [(t, a)]) ↔
      UsedUp o s.start trace ∨ UsedUpAt o s.start trace (t, a) := exists_split_snoc
  have hlast : (∀ again, a ≠ .check again) ∨ ¬ UsedUp o s.start trace →
      ∀ before e after, trace ++ [(t, a)] = before ++ e :: after → UsedUpAt o s.start before e →
        ∀ e' ∈ after, ∀ again, e'.2 ≠ .check again := by
    intro hcheck before e after heq hused
    rcases List.eq_nil_or_concat after with rfl | ⟨after, last, rfl⟩
    · exact nofun
    · rw [List.concat_eq_append, ← List.cons_append, ← List.append_assoc] at heq
      obtain ⟨hbefore, hb⟩ := List.append_inj' heq rfl
      obtain rfl := List.singleton_inj.mp hb
      intro e' he'
      rw [List.concat_eq_append] at he'
      rcases List.mem_append.mp he' with he' | he'
      · exact h.last before e after hbefore hused e' he'
      · rw [List.mem_singleton.mp he']
        rcases hcheck with hcheck | hnot
        · exact hcheck
        · exact absurd ⟨before, e, after, hbefore, hused⟩ hnot
  by_cases hcheck : ∃ again, a = .check again
  · obtain ⟨again, rfl⟩ := hcheck
    obtain ⟨hguard, hs'⟩ := Option.ite_none_right_eq_some.mp hact
    obtain ⟨hrun, hagain⟩ := Bool.and_eq_true_iff.mp hguard
    have hnone : s.outcome = none :=
      Option.isNone_iff_eq_none.mp (Bool.and_eq_true_iff.mp hrun).2
    have hnot : ¬ UsedUp o s.start trace := by
      rw [← h.timedOut, hnone]
      exact nofun
    have hcounted : s.countedMs t again = t - s.start - spanned trace s.start again :=
      htracks.countedMs (hnow.trans (of_decide_eq_true hagain))
    refine ⟨?_, hstart ▸ hlast (.inr hnot)⟩
    have htimeout : s'.outcome.any Outcome.isTimeout = true ↔
        o.timeoutMs ≤ s.countedMs t again ∨ o.timeoutMs * WALL_CAP_MULTIPLIER ≤ s.wallMs t := by
      rw [← Option.some.inj hs']
      exact isTimeout_check (s := { s with now := t }) hnone
    rw [hstart, hsplit, htimeout, hcounted, or_iff_right hnot]
    constructor
    · exact fun hused => ⟨again, rfl, hused⟩
    · rintro ⟨again', heq, hused⟩
      obtain rfl := Act.check.inj heq
      exact hused
  · have hother : ∀ again, a ≠ .check again := fun again heq => hcheck ⟨again, heq⟩
    have hend' : Ending o { s with now := t } :=
      ⟨hend.idle, hend.listening, hend.abandoned, hend.returned, hend.token⟩
    refine ⟨?_, hstart ▸ hlast (.inl hother)⟩
    rw [isTimeout_act hact hother hend', hstart, hsplit]
    refine h.timedOut.trans (or_iff_left ?_).symm
    exact fun ⟨again, heq, _⟩ => hother again heq

/-! ### Every run -/

/-- The checks count the time but for the union of the intervals in which an action of the run is in
    flight; the run times out at the first check that finds the budget used up so; and the token is
    closed in the end if that was asked for, or the run was abandoned for a timeout or a stop. -/
structure BudgetExact (o : BoundedRunOptions) (start : ℤ) (trace : List (ℤ × Act R))
    (s : State R) : Prop where
  counted : ∀ now again, s.now ≤ now → now ≤ again →
    s.countedMs now again = now - start - spanned trace start again
  timedOut : s.outcome.any Outcome.isTimeout = true ↔ UsedUp o start trace
  last : ∀ before e after, trace = before ++ e :: after → UsedUpAt o start before e →
    ∀ e' ∈ after, ∀ again, e'.2 ≠ .check again
  token : s.returned = true → (s.tokenClosed = true ↔ o.closeOnSettle = true ∨
    s.outcome.any Outcome.isTimeout = true ∨ (o.abortSignal = true ∧ s.aborted = true))

/-- **The budget excludes exactly the run's own actions** in every run in which no earlier action
    ends while one of the run is in flight. -/
theorem budget_exact (o : BoundedRunOptions) (start : ℤ) (channel : Channel) (aborted : Bool)
    {trace : List (ℤ × Act R)} {s : State R}
    (hrun : Run (fun s e s' => step o s e = some s' ∧ Meets channel.nextId s e)
      (State.begin start channel aborted) trace s) : BudgetExact o start trace s := by
  have hall : Tracks channel.nextId trace s ∧ Ending o s ∧ TimesOut o trace s ∧
      s.start = start := by
    induction hrun with
    | nil =>
      refine ⟨.begin start channel aborted, .begin o start channel aborted, ⟨?_, ?_⟩, rfl⟩
      · refine iff_of_false nofun ?_
        rintro ⟨before, e, after, heq, -⟩
        exact absurd heq.symm (by simp)
      · intro before e after heq
        exact absurd heq.symm (by simp)
    | @snoc trace s s' e _ hstep ih =>
      obtain ⟨htracks, hend, htimes, hstart⟩ := ih
      obtain ⟨t, a⟩ := e
      obtain ⟨hstep, hmeets⟩ := hstep
      obtain ⟨-, hreturned, hact⟩ := step_guard hstep
      have hend' : Ending o { s with now := t } :=
        ⟨hend.idle, hend.listening, hend.abandoned, hend.returned, hend.token⟩
      exact ⟨htracks.step hstep hmeets, hend'.act hreturned hact, htimes.step htracks hend hstep,
        (start_act (s := { s with now := t }) hact).trans hstart⟩
  obtain ⟨htracks, hend, htimes, rfl⟩ := hall
  refine ⟨fun now again hnow hagain => htracks.countedMs (hnow.trans hagain), htimes.timedOut,
    htimes.last, fun hreturned => ?_⟩
  rw [hend.token, hreturned, hend.abandoned (hend.returned hreturned)]
  simp

/-- A run of ten milliseconds at most, while an earlier action is in flight. -/
def shortRun : BoundedRunOptions where
  subject := "Test"
  timeoutMs := 10
  closeOnSettle := false

def earlierAction : Channel where
  nextId := 1
  inFlight := [0]
  nodup := by decide
  bound := by decide

/-- An action of the run is in flight from the start, and a check comes after 20 milliseconds. -/
def longAction (earlier : List (ℤ × Act Unit)) : List (ℤ × Act Unit) :=
  [(0, .start 1), (0, .race)] ++ earlier ++ [(20, .check 20)]

/-- While the action of the run is in flight, nothing of the budget is used up. -/
theorem budget_exact_longAction :
    ∃ s : State Unit, s.outcome = none ∧ BudgetExact shortRun 0 (longAction []) s := by
  refine ⟨_, ?_, budget_exact shortRun 0 earlierAction false
    (((Run.nil.snoc ⟨rfl, nofun⟩).snoc ⟨rfl, nofun⟩).snoc ⟨rfl, nofun⟩)⟩
  rfl

/-- The end of the earlier action is taken for that of the run's own, and the run times out. -/
theorem earlier_end_counted : ∃ s : State Unit,
    Run (fun s e s' => step shortRun s e = some s') (State.begin 0 earlierAction false)
        (longAction [(5, .finish 0)]) s ∧
      s.outcome.any Outcome.isTimeout = true ∧
        ¬ BudgetExact shortRun 0 (longAction [(5, .finish 0)]) s := by
  have hrun : ∃ s : State Unit, Run (fun s e s' => step shortRun s e = some s')
      (State.begin 0 earlierAction false) (longAction [(5, .finish 0)]) s ∧
        s.outcome.any Outcome.isTimeout = true ∧ s.now = 20 ∧ s.countedMs 20 20 = 15 :=
    ⟨_, ((((Run.nil.snoc rfl).snoc rfl).snoc rfl).snoc rfl), rfl, rfl, rfl⟩
  obtain ⟨s, hrun, htimeout, hnow, hcountedMs⟩ := hrun
  refine ⟨s, hrun, htimeout, fun hexact => ?_⟩
  have hspanned : (spanned (longAction [(5, .finish 0)]) 0 20 : ℤ) = 20 := by
    classical
    rw [spanned_const (p := True) (by decide) fun z hz _ => ?_, if_pos trivial]
    · rfl
    · refine iff_true_intro ⟨1, 0, by decide, hz, fun until' hmem => ?_⟩
      simp [longAction] at hmem
  have hcounted := hexact.counted 20 20 hnow.le le_rfl
  rw [hspanned, hcountedMs] at hcounted
  omega

end Tapsmith.Bounded
