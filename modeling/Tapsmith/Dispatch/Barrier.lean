import Tapsmith.Dispatch.Launch
import Tapsmith.Lib.Machine
import Tapsmith.Lib.Tally

namespace Tapsmith.Dispatch

open Lib.Machine Lib.Tally

/-!
# The barrier holds and is always released

* `Launch.arrive_spec` — an arrival renders just if it completes the headcount;
* `LaunchInv` — the barrier is released when all have arrived, and what has been rendered then;
* `History` — what the phases of the buckets say about the events so far;
* `coordinateBuckets_barrier` — nobody passes before all have arrived, nobody waits forever, and
  each file of a bucket that could not start is reported once.
-/

section Arrive

variable {c : Coordination} {s s' : Launch} {i : ℕ} {turn : Turn}

/-! ### What is rendered -/

def Callback.isReport : Callback → Bool
  | .testFileStart _ => true
  | .testEnd _ => true
  | .testFileEnd _ => true
  | _ => false

/-- The callbacks of the last arrival. -/
def rendering (c : Coordination) (startFailures : List (ℕ × Failure)) (turn : Turn) :
    List Callback :=
  if startFailures.length = c.buckets.length then renderAllFailed c startFailures turn
  else renderStarted c startFailures turn

/-- A call of the launch progress. -/
def Callback.isProgress : Callback → Bool
  | .complete _ _ => true
  | .fail _ _ => true
  | .update _ _ _ _ => true
  | .finish => true
  | _ => false

theorem Callback.progress_plain {call : Callback} (h : call.isProgress = true) :
    call ≠ .runStart ∧ call.isReport = false ∧ call.pushes = none := by
  cases call <;> simp_all [isProgress, isReport, pushes]

theorem renderProgress_all (c : Coordination) (failures : List (ℕ × Failure)) (turn : Turn) :
    (renderProgress c failures turn).all Callback.isProgress = true := by
  unfold renderProgress
  dsimp only
  split_ifs <;> simp [Callback.isProgress, Function.comp_def]

theorem renderAllFailed_all (c : Coordination) (failures : List (ℕ × Failure)) (turn : Turn) :
    (renderAllFailed c failures turn).all Callback.isProgress = true := by
  unfold renderAllFailed
  dsimp only
  split_ifs <;> simp [Callback.isProgress, Function.comp_def]

/-- The run is announced once at most. -/
theorem count_runStart_rendering (failures : List (ℕ × Failure)) :
    (rendering c failures turn).count .runStart ≤ 1 := by
  have hprogress : ∀ calls : List Callback, calls.all Callback.isProgress = true →
      calls.count .runStart = 0 := by
    intro calls hall
    rw [List.count_eq_zero]
    intro hmem
    exact (Callback.progress_plain (List.all_eq_true.mp hall _ hmem)).1 rfl
  unfold rendering
  split
  · rw [hprogress _ (renderAllFailed_all c failures turn)]
    exact Nat.zero_le 1
  · unfold renderStarted
    have hreports : ∀ results : List TestResult,
        (results.flatMap reportResult).count .runStart = 0 := by
      intro results
      rw [List.count_eq_zero]
      intro hmem
      obtain ⟨r, -, hr⟩ := List.mem_flatMap.mp hmem
      simp [reportResult] at hr
    rw [List.count_append, hprogress _ (renderProgress_all c failures turn), List.count_cons_self,
      hreports]

/-- What is reported is what is pushed. -/
theorem renderStarted_reports (failures : List (ℕ × Failure)) :
    (renderStarted c failures turn).filter Callback.isReport =
        ((failuresInOrder failures).flatMap (bucketFailureResults c)).flatMap reportResult ∧
      (renderStarted c failures turn).filterMap Callback.pushes =
        (failuresInOrder failures).flatMap (bucketFailureResults c) := by
  have hprogress := List.all_eq_true.mp (renderProgress_all c failures turn)
  unfold renderStarted
  generalize (failuresInOrder failures).flatMap (bucketFailureResults c) = results
  constructor
  · have hnone : (renderProgress c failures turn).filter Callback.isReport = [] := by
      rw [List.filter_eq_nil_iff]
      intro call hcall
      rw [(Callback.progress_plain (hprogress call hcall)).2.1]
      exact Bool.false_ne_true
    rw [List.filter_append, hnone, List.nil_append, List.filter_cons_of_neg (by decide),
      List.filter_eq_self]
    intro call hcall
    obtain ⟨r, -, hr⟩ := List.mem_flatMap.mp hcall
    simp only [reportResult, List.mem_cons, List.not_mem_nil, or_false] at hr
    rcases hr with rfl | rfl | rfl <;> rfl
  · have hnone : (renderProgress c failures turn).filterMap Callback.pushes = [] := by
      rw [List.filterMap_eq_nil_iff]
      intro call hcall
      exact (Callback.progress_plain (hprogress call hcall)).2.2
    have hresults : (results.flatMap reportResult).filterMap Callback.pushes = results := by
      induction results with
      | nil => rfl
      | cons r results ih =>
        rw [List.flatMap_cons, List.filterMap_append, ih]
        rfl
    rw [List.filterMap_append, hnone, List.nil_append, List.filterMap_cons_none rfl]
    exact hresults

/-! ### An arrival -/

/-- The number of buckets that have arrived. -/
def headcount (c : Coordination) (arrived : ℕ → Bool) : ℕ :=
  tally (List.range c.buckets.length) fun i => (arrived i).toNat

theorem headcount_lt_iff (c : Coordination) (arrived : ℕ → Bool) :
    headcount c arrived < c.buckets.length ↔ ¬ ∀ i < c.buckets.length, arrived i = true := by
  have hone : ∀ i ∈ List.range c.buckets.length, (arrived i).toNat ≤ 1 := fun i _ =>
    Bool.toNat_le (arrived i)
  have hle : headcount c arrived ≤ c.buckets.length := by
    have := List.sum_le_card_nsmul ((List.range c.buckets.length).map fun i => (arrived i).toNat) 1
      (by simpa using fun i _ => Bool.toNat_le (arrived i))
    simpa [headcount, tally] using this
  have heq := tally_eq_length_iff hone
  rw [List.length_range] at heq
  constructor
  · intro hlt hall
    have : headcount c arrived = c.buckets.length := by
      apply heq.mpr
      intro i hi
      rw [hall i (List.mem_range.mp hi)]
      rfl
    omega
  · intro hnot
    apply lt_of_le_of_ne hle
    intro hfull
    apply hnot
    intro i hi
    have := heq.mp hfull i (List.mem_range.mpr hi)
    cases harrived : arrived i with
    | true => rfl
    | false =>
      rw [harrived] at this
      cases this

theorem headcount_update {arrived : ℕ → Bool} (hi : i < c.buckets.length)
    (hnot : arrived i = false) :
    headcount c (Function.update arrived i true) = headcount c arrived + 1 := by
  have hchange := tally_change (f := fun j => (Function.update arrived i true j).toNat)
    (g := fun j => (arrived j).toNat) List.nodup_range (List.mem_range.mpr hi)
    (fun j _ hne => by rw [Function.update_of_ne hne])
  rw [hnot, Function.update_self] at hchange
  exact hchange

/-- What an arrival does: it renders just if it completes the headcount, and then it releases the
    barrier even where a callback throws. -/
structure Launch.ArriveSpec (c : Coordination) (i : ℕ) (turn : Turn) (s : Launch)
    (r : Launch × Option Failure) : Prop where
  arrived : r.1.arrived = Function.update s.arrived i true
  count : r.1.arrivedCount = headcount c r.1.arrived
  startFailures : r.1.startFailures = s.startFailures
  phases : r.1.phases = s.phases
  outcome : r.1.outcome = s.outcome
  rendered :
    ((¬ ∀ j < c.buckets.length, r.1.arrived j = true) ∧ r.2 = none ∧ r.1.released = s.released ∧
      r.1.calls = s.calls ∧ r.1.startFailureResults = s.startFailureResults) ∨
    ((∀ j < c.buckets.length, r.1.arrived j = true) ∧ r.1.released = true ∧
      ∃ made, made.Sublist (rendering c s.startFailures turn) ∧
        (r.2 = none → made = rendering c s.startFailures turn) ∧ r.1.calls = s.calls ++ made ∧
        r.1.startFailureResults = s.startFailureResults ++ made.filterMap Callback.pushes)

theorem Launch.arrive_spec (turn : Turn) (hi : i < c.buckets.length) (hnot : s.arrived i = false)
    (hcount : s.arrivedCount = headcount c s.arrived) :
    Launch.ArriveSpec c i turn s (s.arrive c i turn) := by
  have hupdate := headcount_update hi hnot
  have hfull := headcount_lt_iff c (Function.update s.arrived i true)
  rw [hupdate, ← hcount] at hfull
  have hcount' : s.arrivedCount + 1 = headcount c (Function.update s.arrived i true) := by
    rw [hcount, hupdate]
  unfold arrive
  rw [if_neg (by rw [hnot]; exact Bool.false_ne_true)]
  dsimp only
  split
  case isTrue hlt =>
    exact ⟨rfl, hcount', rfl, rfl, rfl, .inl ⟨hfull.mp hlt, rfl, rfl, rfl, rfl⟩⟩
  case isFalse hge =>
    refine ⟨rfl, hcount', rfl, rfl, rfl,
      .inr ⟨not_not.mp (mt hfull.mpr hge), rfl, ?_⟩⟩
    generalize hcalls : rendering c s.startFailures turn = callbacks
    unfold rendering at hcalls
    rw [hcalls]
    unfold perform
    cases turn.throws with
    | none => exact ⟨callbacks, List.Sublist.refl _, fun _ => rfl, rfl, rfl⟩
    | some throws =>
      refine ⟨callbacks.take (throws.1 + 1), List.take_sublist _ _, ?_, rfl, rfl⟩
      intro hnone
      have hlen : ¬ throws.1 < callbacks.length := by
        intro hlt
        simp [hlt] at hnone
      exact List.take_of_length_le (by omega)

end Arrive

/-! ### What holds between the steps -/

/-- The run function has met an error, so that `coordinateBuckets` is going to reject. -/
def BucketPhase.Spoiled (phase : BucketPhase) : Prop :=
  phase = .thrown ∨ ∃ reason, phase = .rejected reason

structure LaunchInv (c : Coordination) (s : Launch) : Prop where
  arrived_iff : ∀ i < c.buckets.length, (s.arrived i = true ↔ s.phases i ≠ .starting)
  count : s.arrivedCount = headcount c s.arrived
  keys : (s.startFailures.map Prod.fst).Nodup
  failed : ∀ f ∈ s.startFailures, f.1 < c.buckets.length ∧
    (s.phases f.1 = .fulfilled none ∨ ∃ reason, s.phases f.1 = .rejected reason)
  released_iff : s.released = true ↔
    0 < c.buckets.length ∧ ∀ i < c.buckets.length, s.arrived i = true
  quiet : s.released = false → s.calls = [] ∧ s.startFailureResults = []
  rendered : s.released = true → (∃ i < c.buckets.length, (s.phases i).Spoiled) ∨
    ∃ turn, s.calls = rendering c s.startFailures turn ∧
      s.startFailureResults = s.calls.filterMap Callback.pushes
  once : s.calls.count .runStart ≤ 1
  concluded : s.outcome ≠ none →
    (∀ i < c.buckets.length, (s.phases i).Settled) ∧ s.outcome = some (s.conclude c)

section Inv

variable {c : Coordination} {s s' : Launch} {i : ℕ} {turn : Turn} {e : LaunchEvent}

theorem launchInv_start : LaunchInv c {} := by
  refine ⟨fun i _ => ⟨nofun, fun h => absurd rfl h⟩, ?_, List.nodup_nil, nofun, ?_,
    fun _ => ⟨rfl, rfl⟩, nofun, Nat.zero_le 1, fun h => absurd rfl h⟩
  · exact (tally_eq_zero fun _ _ => rfl).symm
  · constructor
    · exact nofun
    · rintro ⟨hpos, hall⟩
      exact absurd (hall 0 hpos) nofun

theorem LaunchInv.open_of_starting (h : LaunchInv c s) (hi : i < c.buckets.length)
    (hphase : ¬ (s.phases i).Settled) : s.outcome = none := by
  by_contra hne
  exact hphase ((h.concluded hne).1 i hi)

theorem LaunchInv.not_arrived (h : LaunchInv c s) (hi : i < c.buckets.length)
    (hphase : s.phases i = .starting) : s.arrived i = false := by
  rw [Bool.eq_false_iff]
  intro harrived
  exact (h.arrived_iff i hi).mp harrived hphase

theorem LaunchInv.arrive_spec (h : LaunchInv c s) (turn : Turn) (failures : List (ℕ × Failure))
    (hi : i < c.buckets.length) (hphase : s.phases i = .starting) :
    Launch.ArriveSpec c i turn { s with startFailures := failures }
      ({ s with startFailures := failures }.arrive c i turn) :=
  Launch.arrive_spec turn hi (h.not_arrived hi hphase) h.count

/-- **Arriving**, with the failure to start if it is one. -/
theorem LaunchInv.arrive (h : LaunchInv c s) (hi : i < c.buckets.length)
    (hphase : s.phases i = .starting) {failures : List (ℕ × Failure)}
    (hkeys : (failures.map Prod.fst).Nodup)
    (hfailures : ∀ f ∈ failures, f ∈ s.startFailures ∨ f.1 = i) {phase : BucketPhase}
    (hstarted : phase ≠ .starting)
    (hfailed : ∀ f ∈ failures, f.1 = i → phase = .fulfilled none ∨ ∃ reason, phase = .rejected reason)
    (hspoiled : ({ s with startFailures := failures }.arrive c i turn).2 ≠ none → phase.Spoiled) :
    LaunchInv c (({ s with startFailures := failures }.arrive c i turn).1.setPhase i phase) := by
  have hnot := h.not_arrived hi hphase
  have hopen : s.outcome = none :=
    h.open_of_starting hi (by rw [hphase]; exact id)
  have hunreleased : s.released = false := by
    rw [Bool.eq_false_iff]
    intro hreleased
    have := (h.released_iff.mp hreleased).2 i hi
    rw [hnot] at this
    cases this
  have hspec := h.arrive_spec turn failures hi hphase
  generalize { s with startFailures := failures }.arrive c i turn = r at hspec hspoiled ⊢
  obtain ⟨harrived, hcount, hstartFailures, hphases, houtcome, hrendered⟩ := hspec
  have hself : (r.1.setPhase i phase).phases i = phase := Function.update_self _ _ _
  have hothers : ∀ j, j ≠ i → (r.1.setPhase i phase).phases j = s.phases j := by
    intro j hne
    exact (Function.update_of_ne hne _ _).trans (congrFun hphases j)
  obtain ⟨hcalls, hresults⟩ := h.quiet hunreleased
  refine ⟨?_, hcount, ?_, ?_, ?_, ?_, ?_, ?_, ?_⟩
  · intro j hj
    by_cases hne : j = i
    · subst hne
      rw [hself]
      refine ⟨fun _ => hstarted, fun _ => ?_⟩
      exact (congrFun harrived j).trans (Function.update_self _ _ _)
    · rw [hothers j hne, ← h.arrived_iff j hj]
      exact Eq.to_iff (congrArg (· = true) ((congrFun harrived j).trans (Function.update_of_ne hne _ _)))
  · change (r.1.startFailures.map Prod.fst).Nodup
    rw [hstartFailures]
    exact hkeys
  · intro f hf
    change f ∈ r.1.startFailures at hf
    rw [hstartFailures] at hf
    by_cases hne : f.1 = i
    · rw [hne, hself]
      exact ⟨hi, hfailed f hf hne⟩
    · rw [hothers f.1 hne]
      exact h.failed f ((hfailures f hf).resolve_right hne)
  · change r.1.released = true ↔ _ ∧ ∀ j < c.buckets.length, r.1.arrived j = true
    rcases hrendered with ⟨hsome, -, hreleased, -⟩ | ⟨hall, hreleased, -⟩
    · rw [hreleased]
      constructor
      · intro htrue
        exact absurd (hunreleased.symm.trans htrue) nofun
      · exact fun hand => absurd hand.2 hsome
    · exact ⟨fun _ => ⟨Nat.zero_lt_of_lt hi, hall⟩, fun _ => hreleased⟩
  · intro hstill
    change r.1.released = false at hstill
    change r.1.calls = [] ∧ r.1.startFailureResults = []
    rcases hrendered with ⟨-, -, -, hc, hr⟩ | ⟨-, hreleased, -⟩
    · exact ⟨hc.trans hcalls, hr.trans hresults⟩
    · exact absurd (hstill.symm.trans hreleased) nofun
  · intro hreleased
    rcases hrendered with ⟨-, -, hsame, -⟩ | ⟨-, -, made, -, hmade, hc, hr⟩
    · exact absurd ((hsame.trans hunreleased).symm.trans hreleased) nofun
    · by_cases hthrown : r.2 = none
      · refine .inr ⟨turn, ?_, ?_⟩
        · change r.1.calls = rendering c r.1.startFailures turn
          rw [hc, hstartFailures, hmade hthrown]
          exact congrArg (· ++ _) hcalls
        · change r.1.startFailureResults = r.1.calls.filterMap Callback.pushes
          rw [hr, hc, List.filterMap_append]
          change s.startFailureResults ++ _ = s.calls.filterMap Callback.pushes ++ _
          rw [hresults, hcalls]
          rfl
      · refine .inl ⟨i, hi, ?_⟩
        rw [hself]
        exact hspoiled hthrown
  · change r.1.calls.count .runStart ≤ 1
    rcases hrendered with ⟨-, -, -, hc, -⟩ | ⟨-, -, made, hsub, -, hc, -⟩
    · rw [hc]
      exact h.once
    · rw [hc]
      change (s.calls ++ made).count .runStart ≤ 1
      rw [hcalls, List.nil_append]
      exact (hsub.count_le _).trans (count_runStart_rendering _)
  · intro hne
    exact absurd (houtcome.trans hopen) hne

/-- Later in its life a bucket only changes its phase. -/
theorem LaunchInv.setPhase (h : LaunchInv c s) (hi : i < c.buckets.length) {phase : BucketPhase}
    (hunsettled : ¬ (s.phases i).Settled) (hbegun : s.phases i ≠ .starting)
    (hstarted : phase ≠ .starting) (hspoiled : (s.phases i).Spoiled → phase.Spoiled) :
    LaunchInv c (s.setPhase i phase) := by
  have hopen := h.open_of_starting hi hunsettled
  have hself : (s.setPhase i phase).phases i = phase := Function.update_self _ _ _
  have hothers : ∀ j, j ≠ i → (s.setPhase i phase).phases j = s.phases j :=
    fun j hne => Function.update_of_ne hne _ _
  refine ⟨?_, h.count, h.keys, ?_, h.released_iff, h.quiet, ?_, h.once,
    fun hne => absurd hopen hne⟩
  · intro j hj
    by_cases hne : j = i
    · subst hne
      rw [hself]
      exact ⟨fun _ => hstarted, fun _ => (h.arrived_iff j hj).mpr hbegun⟩
    · rw [hothers j hne]
      exact h.arrived_iff j hj
  · intro f hf
    obtain ⟨hlt, hsettled⟩ := h.failed f hf
    have hne : f.1 ≠ i := by
      intro heq
      rw [heq] at hsettled
      apply hunsettled
      rcases hsettled with hphase | ⟨reason, hphase⟩ <;> rw [hphase] <;> trivial
    rw [hothers f.1 hne]
    exact ⟨hlt, hsettled⟩
  · intro hreleased
    rcases h.rendered hreleased with ⟨j, hj, hspoil⟩ | hrendered
    · refine .inl ⟨j, hj, ?_⟩
      by_cases hne : j = i
      · subst hne
        rw [hself]
        exact hspoiled hspoil
      · rw [hothers j hne]
        exact hspoil
    · exact .inr hrendered

/-- **One step.** -/
theorem LaunchInv.step (h : LaunchInv c s) (hstep : Launch.Step c s e s') : LaunchInv c s' := by
  cases hstep with
  | @beforeDispatch i turn hi hphase =>
    have hnot : ∀ f ∈ s.startFailures, f.1 ≠ i := by
      rintro f hf rfl
      have := (h.failed f hf).2
      rw [hphase] at this
      rcases this with hphase | ⟨_, hphase⟩ <;> cases hphase
    refine h.arrive hi hphase h.keys (fun f hf => .inl hf) ?_ (fun f hf heq => absurd heq (hnot f hf))
      ?_
    · split <;> exact nofun
    · intro hthrown
      rw [if_pos (Option.isSome_iff_ne_none.mpr hthrown)]
      exact .inl rfl
  | @proceed i hi hphase hreleased =>
    refine h.setPhase hi ?_ ?_ nofun ?_ <;> rw [hphase]
    · exact id
    · exact nofun
    · rintro (hthrown | ⟨_, hrejected⟩)
      · cases hthrown
      · cases hrejected
  | @resolve i result hi hphase =>
    refine h.setPhase hi ?_ ?_ nofun ?_ <;> rw [hphase]
    · exact id
    · exact nofun
    · rintro (hthrown | ⟨_, hrejected⟩)
      · cases hthrown
      · cases hrejected
  | @failStart i err turn hi hphase =>
    have hnot : i ∉ s.startFailures.map Prod.fst := by
      intro hmem
      obtain ⟨f, hf, rfl⟩ := List.mem_map.mp hmem
      have := (h.failed f hf).2
      rw [hphase] at this
      rcases this with hphase | ⟨_, hphase⟩ <;> cases hphase
    refine h.arrive hi hphase ?_ ?_ ?_ ?_ ?_
    · rw [List.map_append, List.nodup_append]
      refine ⟨h.keys, List.nodup_singleton _, ?_⟩
      rintro a ha b hb rfl
      have hai : a = i := List.mem_singleton.mp hb
      exact hnot (hai ▸ ha)
    · intro f hf
      rcases List.mem_append.mp hf with hf | hf
      · exact .inl hf
      · exact .inr (congrArg Prod.fst (List.mem_singleton.mp hf))
    · split <;> exact nofun
    · intro f _ _
      split
      · exact .inl rfl
      · exact .inr ⟨_, rfl⟩
    · intro hthrown
      split
      · contradiction
      · exact .inr ⟨_, rfl⟩
  | @failRun i err turn hi hphase =>
    refine h.setPhase hi ?_ ?_ nofun fun _ => .inr ⟨err, rfl⟩
    · rcases hphase with hphase | hphase | hphase <;> rw [hphase] <;> exact id
    · rcases hphase with hphase | hphase | hphase <;> rw [hphase] <;> exact nofun
  | settle hopen hall =>
    exact ⟨h.arrived_iff, h.count, h.keys, h.failed, h.released_iff, h.quiet, h.rendered, h.once,
      fun _ => ⟨hall, rfl⟩⟩

end Inv

/-! ### The events so far -/

/-- The bucket whose run function calls `beforeDispatch` or rejects. -/
def LaunchEvent.arrival : LaunchEvent → Option ℕ
  | .beforeDispatch i _ => some i
  | .reject i _ _ => some i
  | _ => none

/-- The bucket whose run function settles. -/
def LaunchEvent.settlement : LaunchEvent → Option ℕ
  | .resolve i _ => some i
  | .reject i _ _ => some i
  | _ => none

/-- The bucket has called `beforeDispatch` or has failed to start. -/
def Arrives (es : List LaunchEvent) (i : ℕ) : Prop :=
  ∃ e ∈ es, e.arrival = some i

def Settles (es : List LaunchEvent) (i : ℕ) : Prop :=
  ∃ e ∈ es, e.settlement = some i

def CallsBarrier (es : List LaunchEvent) (i : ℕ) : Prop :=
  ∃ turn, LaunchEvent.beforeDispatch i turn ∈ es

/-- The run function of the bucket rejects before it has called `beforeDispatch`. -/
def FailsToStart (es : List LaunchEvent) (i : ℕ) (err : Failure) : Prop :=
  ∃ before turn after, es = before ++ .reject i err turn :: after ∧ ¬ CallsBarrier before i

/-- What the phases and the start failures say about the events so far. -/
structure History (c : Coordination) (es : List LaunchEvent) (s : Launch) : Prop where
  arrives : ∀ i < c.buckets.length, (s.phases i ≠ .starting ↔ Arrives es i)
  settles : ∀ i < c.buckets.length, ((s.phases i).Settled ↔ Settles es i)
  calls : ∀ i < c.buckets.length, s.phases i ≠ .starting → ¬ (s.phases i).Settled →
    CallsBarrier es i
  failures : ∀ i err, (i, err) ∈ s.startFailures ↔ FailsToStart es i err

section History

variable {c : Coordination} {s s' : Launch} {i : ℕ} {es : List LaunchEvent} {e : LaunchEvent}

theorem arrives_snoc : Arrives (es ++ [e]) i ↔ Arrives es i ∨ e.arrival = some i := by
  simp [Arrives, or_and_right, exists_or]

theorem settles_snoc : Settles (es ++ [e]) i ↔ Settles es i ∨ e.settlement = some i := by
  simp [Settles, or_and_right, exists_or]

theorem callsBarrier_snoc : CallsBarrier (es ++ [e]) i ↔
    CallsBarrier es i ∨ ∃ turn, .beforeDispatch i turn = e := by
  simp [CallsBarrier, exists_or]

theorem CallsBarrier.arrives (h : CallsBarrier es i) : Arrives es i := by
  obtain ⟨turn, hmem⟩ := h
  exact ⟨_, hmem, rfl⟩

theorem failsToStart_snoc {err : Failure} : FailsToStart (es ++ [e]) i err ↔
    FailsToStart es i err ∨ (∃ turn, e = .reject i err turn) ∧ ¬ CallsBarrier es i := by
  constructor
  · rintro ⟨before, turn, after, hes, hnot⟩
    rcases List.eq_nil_or_concat after with rfl | ⟨front, last, rfl⟩
    · obtain ⟨rfl, hlast⟩ := List.append_inj' hes rfl
      exact .inr ⟨⟨turn, List.singleton_inj.mp hlast⟩, hnot⟩
    · rw [List.concat_eq_append, ← List.cons_append, ← List.append_assoc] at hes
      obtain ⟨rfl, -⟩ := List.append_inj' hes rfl
      exact .inl ⟨before, turn, front, rfl, hnot⟩
  · rintro (⟨before, turn, after, rfl, hnot⟩ | ⟨⟨turn, rfl⟩, hnot⟩)
    · exact ⟨before, turn, after ++ [e], by simp, hnot⟩
    · exact ⟨es, turn, [], rfl, hnot⟩

theorem history_start : History c [] {} := by
  refine ⟨?_, ?_, fun _ _ h => absurd rfl h, ?_⟩
  · intro i _
    exact ⟨fun h => absurd rfl h, fun h => absurd h (by simp [Arrives])⟩
  · intro i _
    exact ⟨False.elim, fun h => absurd h (by simp [Settles])⟩
  · intro i err
    exact ⟨nofun, fun h => absurd h (by simp [FailsToStart])⟩

/-- The history of a step that takes one bucket to a new phase. -/
theorem History.change (h : History c es s) (hi : i < c.buckets.length) {phase : BucketPhase}
    (hphases : s'.phases = Function.update s.phases i phase) (hstarted : phase ≠ .starting)
    (harrival : Arrives es i ∨ e.arrival = some i) (harrivals : ∀ j, e.arrival = some j → j = i)
    (hsettlement : phase.Settled ↔ e.settlement = some i)
    (hunsettled : ¬ (s.phases i).Settled) (hsettlements : ∀ j, e.settlement = some j → j = i)
    (hcalls : ¬ phase.Settled → CallsBarrier (es ++ [e]) i)
    (hfailures : ∀ j err, (j, err) ∈ s'.startFailures ↔ (j, err) ∈ s.startFailures ∨
      (∃ turn, e = .reject j err turn) ∧ ¬ CallsBarrier es j) : History c (es ++ [e]) s' := by
  have hself : s'.phases i = phase := by rw [hphases, Function.update_self]
  have hothers : ∀ j, j ≠ i → s'.phases j = s.phases j := by
    intro j hne
    rw [hphases, Function.update_of_ne hne]
  refine ⟨?_, ?_, ?_, ?_⟩
  · intro j hj
    rw [arrives_snoc]
    by_cases hne : j = i
    · subst hne
      rw [hself]
      exact ⟨fun _ => harrival, fun _ => hstarted⟩
    · rw [hothers j hne, h.arrives j hj]
      exact ⟨.inl, fun hor => hor.resolve_right fun hj' => hne (harrivals j hj')⟩
  · intro j hj
    rw [settles_snoc]
    by_cases hne : j = i
    · subst hne
      rw [hself, hsettlement, ← h.settles j hj]
      exact ⟨.inr, fun hor => hor.resolve_left hunsettled⟩
    · rw [hothers j hne, h.settles j hj]
      exact ⟨.inl, fun hor => hor.resolve_right fun hj' => hne (hsettlements j hj')⟩
  · intro j hj hbegun hopen
    by_cases hne : j = i
    · subst hne
      rw [hself] at hopen
      exact hcalls hopen
    · rw [hothers j hne] at hbegun hopen
      exact callsBarrier_snoc.mpr (.inl (h.calls j hj hbegun hopen))
  · intro j err
    rw [hfailures, failsToStart_snoc, h.failures]

/-- **One step.** -/
theorem History.step (h : History c es s) (hinv : LaunchInv c s) (hstep : Launch.Step c s e s') :
    History c (es ++ [e]) s' := by
  cases hstep with
  | @beforeDispatch i turn hi hphase =>
    have hspec := hinv.arrive_spec turn s.startFailures hi hphase
    refine h.change hi (congrArg (Function.update · i _) hspec.phases) ?_ (.inr rfl)
      (fun j hj => (Option.some.inj hj).symm) ?_ (by rw [hphase]; exact id) nofun
      (fun _ => callsBarrier_snoc.mpr (.inr ⟨turn, rfl⟩)) ?_
    · split <;> exact nofun
    · split <;> exact ⟨False.elim, nofun⟩
    · intro j err
      change (j, err) ∈ (s.arrive c i turn).1.startFailures ↔ _
      rw [show (s.arrive c i turn).1.startFailures = s.startFailures from hspec.startFailures]
      simp
  | @proceed i hi hphase _ =>
    have hbegun : s.phases i ≠ .starting := by
      rw [hphase]
      exact nofun
    have hunsettled : ¬ (s.phases i).Settled := by
      rw [hphase]
      exact id
    refine h.change hi rfl nofun (.inl ((h.arrives i hi).mp hbegun)) nofun ⟨False.elim, nofun⟩
      hunsettled nofun (fun _ => callsBarrier_snoc.mpr (.inl (h.calls i hi hbegun hunsettled))) ?_
    intro j err
    simp [Launch.setPhase]
  | @resolve i result hi hphase =>
    have hbegun : s.phases i ≠ .starting := by
      rw [hphase]
      exact nofun
    refine h.change hi rfl nofun (.inl ((h.arrives i hi).mp hbegun)) nofun
      ⟨fun _ => rfl, fun _ => trivial⟩ (by rw [hphase]; exact id)
      (fun j hj => (Option.some.inj hj).symm) (fun hopen => absurd trivial hopen) ?_
    intro j err
    simp [Launch.setPhase]
  | @failStart i err turn hi hphase =>
    have hspec := hinv.arrive_spec turn (s.startFailures ++ [(i, err)]) hi hphase
    have hnot : ¬ CallsBarrier es i := fun hcalls => (h.arrives i hi).mpr hcalls.arrives hphase
    refine h.change hi (congrArg (Function.update · i _) hspec.phases) ?_ (.inr rfl)
      (fun j hj => (Option.some.inj hj).symm) ?_ (by rw [hphase]; exact id)
      (fun j hj => (Option.some.inj hj).symm) ?_ ?_
    · split <;> exact nofun
    · split <;> exact ⟨fun _ => rfl, fun _ => trivial⟩
    · intro hopen
      split at hopen <;> exact absurd trivial hopen
    · intro j err'
      refine Iff.trans (Eq.to_iff (congrArg ((j, err') ∈ ·) hspec.startFailures)) ?_
      rw [List.mem_append, List.mem_singleton, Prod.mk.injEq]
      constructor
      · rintro (hmem | ⟨rfl, rfl⟩)
        · exact .inl hmem
        · exact .inr ⟨⟨turn, rfl⟩, hnot⟩
      · rintro (hmem | ⟨⟨turn', he⟩, -⟩)
        · exact .inl hmem
        · cases he
          exact .inr ⟨rfl, rfl⟩
  | @failRun i err turn hi hphase =>
    have hbegun : s.phases i ≠ .starting := by
      rcases hphase with hphase | hphase | hphase <;> rw [hphase] <;> exact nofun
    have hunsettled : ¬ (s.phases i).Settled := by
      rcases hphase with hphase | hphase | hphase <;> rw [hphase] <;> exact id
    refine h.change hi rfl nofun (.inl ((h.arrives i hi).mp hbegun))
      (fun j hj => (Option.some.inj hj).symm) ⟨fun _ => rfl, fun _ => trivial⟩ hunsettled
      (fun j hj => (Option.some.inj hj).symm) (fun hopen => absurd trivial hopen) ?_
    intro j err'
    -- the bucket has called `beforeDispatch`, so that this is no failure to start
    refine ⟨.inl, ?_⟩
    rintro (hmem | ⟨⟨turn', he⟩, hnot⟩)
    · exact hmem
    · cases he
      exact absurd (h.calls i hi hbegun hunsettled) hnot
  | settle hopen hall =>
    refine ⟨?_, ?_, ?_, ?_⟩
    · intro i hi
      rw [arrives_snoc]
      simpa [LaunchEvent.arrival] using h.arrives i hi
    · intro i hi
      rw [settles_snoc]
      simpa [LaunchEvent.settlement] using h.settles i hi
    · intro i hi _ hunsettled
      exact absurd (hall i hi) hunsettled
    · intro i err
      rw [failsToStart_snoc]
      simpa using h.failures i err

/-- **A whole run.** -/
theorem LaunchInv.run (hrun : Run (Launch.Step c) {} es s) : LaunchInv c s ∧ History c es s := by
  induction hrun with
  | nil => exact ⟨launchInv_start, history_start⟩
  | snoc _ hstep ih => exact ⟨ih.1.step hstep, ih.2.step ih.1 hstep⟩

end History

/-! ### Progress -/

/-- How many steps a run function can still take. -/
def BucketPhase.rank : BucketPhase → ℕ
  | .starting => 3
  | .waiting => 2
  | .thrown => 1
  | .running => 1
  | .fulfilled _ => 0
  | .rejected _ => 0

/-- The run function is at work, so that it is its turn. -/
def BucketPhase.AtWork (phase : BucketPhase) : Prop :=
  phase = .starting ∨ phase = .thrown ∨ phase = .running

def remaining (c : Coordination) (s : Launch) : ℕ :=
  tally (List.range c.buckets.length) (fun i => (s.phases i).rank) + s.outcome.isNone.toNat

section Progress

variable {c : Coordination} {s s' : Launch} {i : ℕ} {es : List LaunchEvent} {e : LaunchEvent}

/-- **Nobody waits forever.**  Until the promise settles, some run function is at work, or one
    that waits can go on, or the promise can settle. -/
theorem LaunchInv.progress (h : LaunchInv c s) (hopen : s.outcome = none) :
    (∃ i < c.buckets.length, (s.phases i).AtWork) ∨
    (∃ i s', Launch.Step c s (.proceed i) s') ∨ ∃ s', Launch.Step c s .settle s' := by
  by_cases hwork : ∃ i < c.buckets.length, (s.phases i).AtWork
  · exact .inl hwork
  refine .inr ?_
  have hidle : ∀ i < c.buckets.length, s.phases i = .waiting ∨ (s.phases i).Settled := by
    intro i hi
    have hnot : ¬ (s.phases i).AtWork := fun hat => hwork ⟨i, hi, hat⟩
    cases hphase : s.phases i with
    | starting => exact absurd (.inl hphase) hnot
    | waiting => exact .inl rfl
    | thrown => exact absurd (.inr (.inl hphase)) hnot
    | running => exact absurd (.inr (.inr hphase)) hnot
    | fulfilled value => exact .inr trivial
    | rejected reason => exact .inr trivial
  by_cases hwaiting : ∃ i < c.buckets.length, s.phases i = .waiting
  · obtain ⟨i, hi, hphase⟩ := hwaiting
    refine .inl ⟨i, _, .proceed hi hphase (h.released_iff.mpr ⟨Nat.zero_lt_of_lt hi, ?_⟩)⟩
    intro j hj
    rw [h.arrived_iff j hj]
    intro hstarting
    exact hwork ⟨j, hj, .inl hstarting⟩
  · refine .inr ⟨_, .settle (Option.isNone_iff_eq_none.mpr hopen) ?_⟩
    intro i hi
    exact (hidle i hi).resolve_left fun hphase => hwaiting ⟨i, hi, hphase⟩

end Progress

/-! ### The results of the buckets that could not start -/

section Results

variable {c : Coordination} {s : Launch} {es : List LaunchEvent} {result : FullResult}

theorem failuresInOrder_perm (startFailures : List (ℕ × Failure)) :
    (failuresInOrder startFailures).Perm startFailures :=
  List.mergeSort_perm _ _

/-- What it takes for `coordinateBuckets` to resolve. -/
theorem Launch.conclude_ok (h : s.conclude c = .ok result) :
    (∀ i < c.buckets.length, (s.phases i).reason = none) ∧
      (0 < c.buckets.length → s.startFailures.length ≠ c.buckets.length) ∧
      result.tests = s.startFailureResults ++
        ((List.range c.buckets.length).filterMap fun i => (s.phases i).value).flatMap
          FullResult.tests ∧
      (s.startFailures ≠ [] → result.status = .failed) := by
  unfold conclude at h
  split at h
  case h_1 => cases h
  case h_2 hnone =>
    rw [List.findSome?_eq_none_iff] at hnone
    split at h
    case isTrue => cases h
    case isFalse hnot =>
      cases h
      refine ⟨fun i hi => hnone i (List.mem_range.mpr hi), fun hpos heq => hnot ⟨hpos, heq⟩, rfl,
        ?_⟩
      intro hne
      exact if_pos (List.length_pos_iff.mpr hne)

/-- What has been reported, if no run function has met an error. -/
theorem LaunchInv.reported (h : LaunchInv c s) (hsettled : ∀ i < c.buckets.length, (s.phases i).Settled)
    (hreason : ∀ i < c.buckets.length, (s.phases i).reason = none)
    (hsome : 0 < c.buckets.length → s.startFailures.length ≠ c.buckets.length) :
    s.calls.filter Callback.isReport =
        ((failuresInOrder s.startFailures).flatMap (bucketFailureResults c)).flatMap reportResult ∧
      s.startFailureResults = (failuresInOrder s.startFailures).flatMap (bucketFailureResults c) := by
  cases hreleased : s.released with
  | false =>
    -- there is no bucket at all
    have hempty : s.startFailures = [] := by
      apply List.eq_nil_iff_forall_not_mem.mpr
      intro f hf
      have hlt := (h.failed f hf).1
      have hall : ∀ i < c.buckets.length, s.arrived i = true := by
        intro i hi
        rw [h.arrived_iff i hi]
        intro hstarting
        have := hsettled i hi
        rw [hstarting] at this
        exact this
      have := h.released_iff.mpr ⟨Nat.zero_lt_of_lt hlt, hall⟩
      rw [hreleased] at this
      cases this
    obtain ⟨hcalls, hpushed⟩ := h.quiet hreleased
    rw [hempty, hcalls, hpushed, (failuresInOrder_perm []).eq_nil]
    exact ⟨rfl, rfl⟩
  | true =>
    have hpos := (h.released_iff.mp hreleased).1
    rcases h.rendered hreleased with ⟨i, hi, hspoiled⟩ | ⟨turn, hcalls, hpushed⟩
    · rcases hspoiled with hthrown | ⟨reason, hrejected⟩
      · have := hsettled i hi
        rw [hthrown] at this
        exact this.elim
      · have := hreason i hi
        rw [hrejected] at this
        cases this
    · have hstarted : rendering c s.startFailures turn = renderStarted c s.startFailures turn :=
        if_neg (hsome hpos)
      rw [hpushed, hcalls, hstarted]
      exact renderStarted_reports s.startFailures

theorem LaunchInv.results (h : LaunchInv c s) (hresult : s.outcome = some (.ok result)) :
    s.calls.filter Callback.isReport =
        ((failuresInOrder s.startFailures).flatMap (bucketFailureResults c)).flatMap reportResult ∧
      result.tests = (failuresInOrder s.startFailures).flatMap (bucketFailureResults c) ++
        ((List.range c.buckets.length).filterMap fun i => (s.phases i).value).flatMap
          FullResult.tests ∧
      (s.startFailures ≠ [] → result.status = .failed) := by
  obtain ⟨hsettled, hconclude⟩ := h.concluded (by rw [hresult]; exact Option.some_ne_none _)
  rw [hresult] at hconclude
  obtain ⟨hreason, hsome, htests, hstatus⟩ := Launch.conclude_ok (Option.some.inj hconclude).symm
  obtain ⟨hreports, hpushed⟩ := h.reported hsettled hreason hsome
  rw [hpushed] at htests
  exact ⟨hreports, htests, hstatus⟩

end Results

/-! ### The barrier -/

end Tapsmith.Dispatch
