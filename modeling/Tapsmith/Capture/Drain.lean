import Tapsmith.Capture.Invariant

namespace Tapsmith.Capture

open Lib.Machine Tapsmith.Http

/-!
# Exactly-once capture

A row moves from the registry to `entries` when its exchange is complete, and out of the proxy
with the next drain.  The life of an id has three stages, which no step goes back on.

* `Pending` — no finished row has it, and one may still come;
* `Closed` — its exchange is over;
* `Gone` — its exchange is over, and its row has left the proxy;
* `drained_exactly_once` — what every run shows of a completed exchange.
-/

/-! ### The rows of a snapshot or a drain -/

/-- The rows an event returns. -/
def Event.rows : Event → List CapturedEntry
  | .snapshot rows => rows
  | .drain rows => rows
  | _ => []

theorem World.mem_rows {w : World} {order : List ℕ} {nowMs : ℕ → ℕ} {row : CapturedEntry} :
    row ∈ w.rows order nowMs ↔ row ∈ w.state.entries ∨
      ∃ k ∈ order, ∃ t, w.tasks k = some t ∧ t.capture.snapshot true (nowMs k) = row := by
  rw [World.rows, sortByCaptureId, List.mem_insertionSort, List.mem_append, World.openEntries,
    List.mem_filterMap]
  simp only [Option.map_eq_some_iff]

/-- An open row has the id of its stream. -/
theorem World.Inv.open_captureId {w : World} (h : w.Inv) {k : ℕ} {t : StreamTask}
    (ht : w.tasks k = some t) (now : ℕ) : (t.capture.snapshot true now).captureId = k :=
  (h.task k t ht).captureId_eq

/-- The ids of the rows that are returned. -/
theorem World.Inv.openEntries_ids {w : World} (h : w.Inv) (order : List ℕ) (nowMs : ℕ → ℕ) :
    (w.openEntries order nowMs).map (·.captureId) = w.alive order := by
  induction order with
  | nil => rfl
  | cons k order ih =>
    rw [World.openEntries, List.filterMap_cons, World.alive, List.filter_cons]
    cases ht : w.tasks k with
    | none => exact ih
    | some t => exact congrArg₂ List.cons (h.open_captureId ht _) ih

/-- **The rows are strictly increasing in their ids**, so no two have the same one. -/
theorem World.Inv.rows_sorted {w : World} (h : w.Inv) {order : List ℕ}
    (horder : order.Perm w.state.inFlight) (nowMs : ℕ → ℕ) :
    ((w.rows order nowMs).map (·.captureId)).Pairwise (· < ·) := by
  have hids : (w.rows order nowMs).map (·.captureId)
      = (w.storedIds ++ w.alive order).insertionSort (· ≤ ·) := by
    rw [World.rows, sortByCaptureId,
      List.map_insertionSort (fun a b : CapturedEntry => a.captureId ≤ b.captureId) (· ≤ ·)
        CapturedEntry.captureId _ fun _ _ _ _ => Iff.rfl, List.map_append, h.openEntries_ids]
    rfl
  have hnodup : ((w.storedIds ++ w.alive order).insertionSort (· ≤ ·)).Nodup :=
    (List.perm_insertionSort _ _).nodup_iff.mpr (h.retain horder).ids_nodup
  rw [hids]
  exact ((List.pairwise_insertionSort (· ≤ ·) _).and hnodup).imp fun hab =>
    Nat.lt_of_le_of_ne hab.1 hab.2

/-! ### The life of an id -/

/-- No finished row has the id, and its exchange may still come to an end. -/
def Pending (id : ℕ) (w : World) : Prop :=
  id ∉ w.storedIds ∧ (w.state.nextStreamKey ≤ id ∨ id ∈ w.state.inFlight)

/-- The exchange with the id is over. -/
def Closed (id : ℕ) (w : World) : Prop :=
  id < w.state.nextStreamKey ∧ id ∉ w.state.inFlight

/-- The exchange is over, and its row has left the proxy. -/
def Gone (id : ℕ) (w : World) : Prop := Closed id w ∧ id ∉ w.storedIds

/-- No row of the event has the id. -/
def Lacks (id : ℕ) (e : Event) : Prop := ∀ row ∈ e.rows, row.captureId ≠ id

/-- No row of the event is a finished one with the id. -/
def LacksFinished (id : ℕ) (e : Event) : Prop :=
  ∀ row ∈ e.rows, ¬ (row.captureId = id ∧ row.inFlight = false)

theorem Closed.step {id : ℕ} {w w' : World} {e : Event} (h : Closed id w)
    (hchange : Change w e w') : Closed id w' := by
  obtain ⟨hlt, hreg⟩ := h
  cases hchange with
  | pushed src row hrow => exact ⟨Nat.lt_succ_of_lt hlt, hreg⟩
  | opened entry hbodies =>
    refine ⟨Nat.lt_succ_of_lt hlt, fun hcon => ?_⟩
    rcases List.mem_cons.mp hcon with rfl | hcon
    · exact Nat.lt_irrefl _ hlt
    · exact hreg ((w.alive_sublist _).subset hcon)
  | touched key t u ht hopen hu => exact ⟨hlt, hreg⟩
  | committed key t row ht hfinal => exact ⟨hlt, fun hcon => hreg (List.mem_of_mem_filter hcon)⟩
  | cancelled key => exact ⟨hlt, hreg⟩
  | snapshot order nowMs horder =>
    exact ⟨hlt, fun hcon => hreg (horder.subset ((w.alive_sublist order).subset hcon))⟩
  | drained order nowMs horder =>
    exact ⟨hlt, fun hcon => hreg (horder.subset ((w.alive_sublist order).subset hcon))⟩
  | reset => exact ⟨hlt, hreg⟩

/-- A finished row stays until a drain or a reset. -/
theorem stored_step {w w' : World} {e : Event} {row : CapturedEntry}
    (hrow : row ∈ w.state.entries) (hchange : Change w e w') (hdrain : ∀ rows, e ≠ .drain rows)
    (hreset : e ≠ .reset) : row ∈ w'.state.entries := by
  cases hchange with
  | pushed => exact List.mem_append_left _ hrow
  | opened => exact hrow
  | touched => exact hrow
  | committed => exact List.mem_append_left _ hrow
  | cancelled => exact hrow
  | snapshot => exact hrow
  | drained order nowMs horder => exact absurd rfl (hdrain _)
  | reset => exact absurd rfl hreset

/-- A drain and a reset let go of every finished row. -/
theorem gone_of_cleared {id : ℕ} {w w' : World} {e : Event} (h : Closed id w)
    (hchange : Change w e w') (hclears : (∃ rows, e = .drain rows) ∨ e = .reset) : Gone id w' := by
  have hempty : w'.state.entries = [] := by
    cases hchange with
    | drained => rfl
    | reset => rfl
    | _ => rcases hclears with ⟨_, hcon⟩ | hcon <;> cases hcon
  refine ⟨h.step hchange, ?_⟩
  rw [World.storedIds, hempty]
  exact List.not_mem_nil

/-- No row that is returned has an id that is gone. -/
theorem Gone.not_mem_rows {id : ℕ} {w : World} (hinv : w.Inv) (h : Gone id w) {order : List ℕ}
    (horder : order.Perm w.state.inFlight) (nowMs : ℕ → ℕ) :
    ∀ row ∈ w.rows order nowMs, row.captureId ≠ id := by
  rintro row hrow rfl
  obtain ⟨⟨-, hreg⟩, hstored⟩ := h
  rcases World.mem_rows.mp hrow with hrow | ⟨k, hk, t, ht, rfl⟩
  · exact hstored (List.mem_map_of_mem hrow)
  · rw [hinv.open_captureId ht] at hreg
    exact hreg (horder.subset hk)

/-- **What is gone stays gone**, and is returned no more. -/
theorem Gone.step {id : ℕ} {w w' : World} {e : Event} (h : Gone id w) (hinv : w.Inv)
    (hchange : Change w e w') : Gone id w' ∧ Lacks id e := by
  obtain ⟨hclosed, hstored⟩ := h
  have hclosed' := hclosed.step hchange
  have hnone : ∀ row : CapturedEntry, row ∈ ([] : List CapturedEntry) → row.captureId ≠ id :=
    fun row hrow => absurd hrow List.not_mem_nil
  have happ : ∀ {row : CapturedEntry}, row.captureId ≠ id →
      id ∉ (w.state.entries ++ [row]).map (·.captureId) := by
    intro row hne hcon
    rw [List.map_append] at hcon
    rcases List.mem_append.mp hcon with hcon | hcon
    · exact hstored hcon
    · exact hne (List.mem_singleton.mp hcon).symm
  cases hchange with
  | pushed src row hrow => exact ⟨⟨hclosed', happ (Nat.ne_of_gt hclosed.1)⟩, hnone⟩
  | opened => exact ⟨⟨hclosed', hstored⟩, hnone⟩
  | touched => exact ⟨⟨hclosed', hstored⟩, hnone⟩
  | committed key t row ht hfinal =>
    have hkey := ((hinv.task key t ht).final row hfinal).1
    refine ⟨⟨hclosed', happ ?_⟩, hnone⟩
    rintro rfl
    exact hclosed.2 (hkey ▸ hinv.registered key t ht)
  | cancelled => exact ⟨⟨hclosed', hstored⟩, hnone⟩
  | snapshot order nowMs horder =>
    exact ⟨⟨hclosed', hstored⟩, Gone.not_mem_rows hinv ⟨hclosed, hstored⟩ horder nowMs⟩
  | drained order nowMs horder =>
    exact ⟨⟨hclosed', List.not_mem_nil⟩, Gone.not_mem_rows hinv ⟨hclosed, hstored⟩ horder nowMs⟩
  | reset => exact ⟨⟨hclosed', List.not_mem_nil⟩, hnone⟩

/-- No finished row that is returned has an id that is pending. -/
theorem Pending.not_mem_rows {id : ℕ} {w : World} (h : Pending id w) (order : List ℕ)
    (nowMs : ℕ → ℕ) : ∀ row ∈ w.rows order nowMs, ¬ (row.captureId = id ∧ row.inFlight = false) := by
  rintro row hrow ⟨rfl, hfinished⟩
  rcases World.mem_rows.mp hrow with hrow | ⟨k, -, t, -, rfl⟩
  · exact h.1 (List.mem_map_of_mem hrow)
  · rw [InFlight.snapshot_inFlight] at hfinished
    cases hfinished

/-- **What is pending was always pending**, and no finished row of it was returned. -/
theorem Pending.before {id : ℕ} {w w' : World} {e : Event} (h : Pending id w') (hinv : w.Inv)
    (hchange : Change w e w') : Pending id w ∧ LacksFinished id e := by
  obtain ⟨hstored, hopen⟩ := h
  have hnone : ∀ row : CapturedEntry, row ∈ ([] : List CapturedEntry) →
      ¬ (row.captureId = id ∧ row.inFlight = false) := fun row hrow => absurd hrow List.not_mem_nil
  -- an id that is dropped from the finished rows is neither registered nor new
  have hdropped : (w.state.nextStreamKey ≤ id ∨ id ∈ w.state.inFlight) → id ∉ w.storedIds := by
    rintro hcase hcon
    rcases hcase with hle | hreg
    · exact absurd (hinv.ids_lt id (List.mem_append_left _ hcon)) (Nat.not_lt.mpr hle)
    · exact hinv.disjoint hcon hreg
  have happ : ∀ row : CapturedEntry, id ∉ (w.state.entries ++ [row]).map (·.captureId) →
      id ∉ w.storedIds := fun row hcon hmem => hcon (by
    rw [List.map_append]
    exact List.mem_append_left _ hmem)
  cases hchange with
  | pushed src row hrow =>
    exact ⟨⟨happ _ hstored, hopen.imp_left Nat.le_of_succ_le⟩, hnone⟩
  | opened entry hbodies =>
    refine ⟨⟨hstored, ?_⟩, hnone⟩
    rcases hopen with hle | hreg
    · exact Or.inl (Nat.le_of_succ_le hle)
    · rcases List.mem_cons.mp hreg with rfl | hreg
      · exact Or.inl (Nat.le_refl _)
      · exact Or.inr ((w.alive_sublist _).subset hreg)
  | touched => exact ⟨⟨hstored, hopen⟩, hnone⟩
  | committed key t row ht hfinal =>
    exact ⟨⟨happ _ hstored, hopen.imp_right List.mem_of_mem_filter⟩, hnone⟩
  | cancelled => exact ⟨⟨hstored, hopen⟩, hnone⟩
  | snapshot order nowMs horder =>
    have hbefore : Pending id w :=
      ⟨hstored, hopen.imp_right fun hk => horder.subset ((w.alive_sublist order).subset hk)⟩
    exact ⟨hbefore, hbefore.not_mem_rows order nowMs⟩
  | drained order nowMs horder =>
    have hopen := hopen.imp_right fun hk => horder.subset ((w.alive_sublist order).subset hk)
    have hbefore : Pending id w := ⟨hdropped hopen, hopen⟩
    exact ⟨hbefore, hbefore.not_mem_rows order nowMs⟩
  | reset => exact ⟨⟨hdropped hopen, hopen⟩, hnone⟩

/-- **The step that completes an exchange** moves its id from pending to closed, and its row into
    the finished ones. -/
theorem completed_step {w w' : World} {row : CapturedEntry} (hinv : w.Inv)
    (hchange : Change w (.completed row) w') :
    Pending row.captureId w ∧ Closed row.captureId w' ∧ row ∈ w'.state.entries ∧
      row.inFlight = false := by
  cases hchange with
  | pushed src row hrow =>
    obtain ⟨hstored, hreg⟩ := hinv.fresh
    have hfinished := Source.row_inFlight hrow
    exact ⟨⟨hstored, Or.inl (Nat.le_refl _)⟩, ⟨Nat.lt_succ_self _, hreg⟩,
      List.mem_append_right _ (List.mem_singleton_self _), hfinished⟩
  | committed key t row ht hfinal =>
    obtain ⟨hid, hrow, -⟩ := (hinv.task key t ht).final row hfinal
    have hreg := hinv.registered key t ht
    rw [hid]
    refine ⟨⟨fun hcon => hinv.disjoint hcon hreg, Or.inr hreg⟩,
      ⟨hinv.ids_lt key (List.mem_append_right _ hreg), ?_⟩,
      List.mem_append_right _ (List.mem_singleton_self _), hrow⟩
    intro hcon
    exact of_decide_eq_true (List.mem_filter.mp hcon).2 rfl

/-! ### Runs -/

theorem Steps.inv {w w' : World} {e : Event} (hinv : w.Inv) (h : Steps World.step w e w') :
    w'.Inv :=
  hinv.step (change_of_steps h)

/-- The rows of one event are strictly increasing in their ids. -/
theorem rows_sorted_of_change {w w' : World} {e : Event} (hinv : w.Inv)
    (hchange : Change w e w') : (e.rows.map (·.captureId)).Pairwise (· < ·) := by
  cases hchange with
  | snapshot order nowMs horder => exact hinv.rows_sorted horder nowMs
  | drained order nowMs horder => exact hinv.rows_sorted horder nowMs
  | _ => exact List.Pairwise.nil

/-- Before an exchange is complete, no finished row of it is returned. -/
theorem lacksFinished_before {events : List Event} {w : World} {id : ℕ} (h : Reached events w)
    (hpending : Pending id w) : ∀ e ∈ events, LacksFinished id e := by
  have hpres : ∀ (s : World) (e : Event) (s' : World), Pending id s' →
      s.Inv ∧ Steps World.step s e s' → Pending id s ∧ LacksFinished id e :=
    fun s e s' hpend hstep => hpend.before hstep.1 (change_of_steps hstep.2)
  exact Run.before hpres
    (Run.strengthen (fun _ _ _ hinv hstep => Steps.inv hinv hstep) h World.inv_init) hpending

/-- Once its row is gone, no row of an exchange is returned. -/
theorem lacks_after {events : List Event} {w w' : World} {id : ℕ} (hinv : w.Inv)
    (h : Run (Steps World.step) w events w') (hgone : Gone id w) : ∀ e ∈ events, Lacks id e := by
  have hpres : ∀ (s : World) (e : Event) (s' : World), s.Inv ∧ Gone id s →
      Steps World.step s e s' → (s'.Inv ∧ Gone id s') ∧ Lacks id e := by
    rintro s e s' ⟨hinv, hgone⟩ hstep
    obtain ⟨hgone', hlacks⟩ := hgone.step hinv (change_of_steps hstep)
    exact ⟨⟨Steps.inv hinv hstep, hgone'⟩, hlacks⟩
  exact Run.always hpres h ⟨hinv, hgone⟩

theorem Run.inv {events : List Event} {w w' : World} (h : Run (Steps World.step) w events w')
    (hinv : w.Inv) : w'.Inv :=
  Run.invariant (fun _ _ _ hinv hstep => Steps.inv hinv hstep) h hinv

theorem Run.closed {events : List Event} {w w' : World} {id : ℕ}
    (h : Run (Steps World.step) w events w') (hclosed : Closed id w) : Closed id w' :=
  h.invariant (fun _ _ _ hc hstep => hc.step (change_of_steps hstep)) hclosed

/-- Without a drain and without a reset, a finished row stays. -/
theorem stored_run {events : List Event} {w w' : World} {row : CapturedEntry}
    (h : Run (Steps World.step) w events w') (hdrain : ∀ e ∈ events, ∀ rows, e ≠ .drain rows)
    (hreset : .reset ∉ events) (hrow : row ∈ w.state.entries) : row ∈ w'.state.entries := by
  induction h with
  | nil => exact hrow
  | @snoc es s s' e hrun hstep ih =>
    have hlast : e ∈ es ++ [e] := List.mem_append_right _ (List.mem_singleton_self _)
    apply stored_step (ih ?_ ?_) (change_of_steps hstep) (hdrain e hlast)
    · rintro rfl
      exact hreset hlast
    · exact fun e he => hdrain e (List.mem_append_left _ he)
    · exact fun he => hreset (List.mem_append_left _ he)

/-- With a reset, a finished row is gone. -/
theorem gone_run {events : List Event} {w w' : World} {id : ℕ} (hinv : w.Inv)
    (h : Run (Steps World.step) w events w') (hreset : .reset ∈ events) (hclosed : Closed id w) :
    Gone id w' := by
  obtain ⟨before, after, rfl⟩ := List.append_of_mem hreset
  obtain ⟨m, m', hbefore, hstep, hafter⟩ := Run.split h
  have hm := Run.inv hbefore hinv
  have hgone := gone_of_cleared (Run.closed hbefore hclosed) (change_of_steps hstep) (Or.inr rfl)
  have hpres : ∀ (s : World) (e : Event) (s' : World), s.Inv ∧ Gone id s →
      Steps World.step s e s' → s'.Inv ∧ Gone id s' := fun s e s' hs hst =>
    ⟨Steps.inv hs.1 hst, (hs.2.step hs.1 (change_of_steps hst)).1⟩
  exact (Run.invariant hpres hafter ⟨Steps.inv hm hstep, hgone⟩).2

/-- **Exactly-once capture.**  In every run, whatever is returned is strictly increasing in its
    ids.  The first drain after an exchange is complete returns its finished row, unless a reset
    comes between them, which drops it; no drain before the completion returns a finished row of
    it, and after that drain nothing returns any row of it. -/
theorem drained_exactly_once {events : List Event} {w : World} (h : Reached events w) :
    (∀ e ∈ events, (e.rows.map (·.captureId)).Pairwise (· < ·)) ∧
      ∀ before row mid rows after,
        events = before ++ .completed row :: (mid ++ .drain rows :: after) →
        (∀ e ∈ mid, ∀ rows', e ≠ .drain rows') →
        (.reset ∉ mid → row ∈ rows ∧ row.inFlight = false) ∧
          (.reset ∈ mid → Lacks row.captureId (.drain rows)) ∧
          (∀ e ∈ before, LacksFinished row.captureId e) ∧
          ∀ e ∈ after, Lacks row.captureId e := by
  constructor
  · exact Run.always (fun _ _ _ hinv hstep =>
      ⟨Steps.inv hinv hstep, rows_sorted_of_change hinv (change_of_steps hstep)⟩) h World.inv_init
  · rintro before row mid rows after rfl hdrain
    obtain ⟨w₁, w₂, hbefore, hcompleted, hrest⟩ := Run.split h
    obtain ⟨w₃, w₄, hmid, hdrained, hafter⟩ := Run.split hrest
    have hinv₁ : w₁.Inv := Reached.inv hbefore
    have hinv₂ := Steps.inv hinv₁ hcompleted
    have hinv₃ := Run.inv hmid hinv₂
    obtain ⟨hpending, hclosed, hstored, hfinished⟩ :=
      completed_step hinv₁ (change_of_steps hcompleted)
    have hgone := gone_of_cleared (Run.closed hmid hclosed) (change_of_steps hdrained)
      (Or.inl ⟨rows, rfl⟩)
    refine ⟨fun hreset => ⟨?_, hfinished⟩, fun hreset => ?_, lacksFinished_before hbefore hpending,
      lacks_after (Steps.inv hinv₃ hdrained) hafter hgone⟩
    · have hrow := stored_run hmid hdrain hreset hstored
      generalize hevent : Event.drain rows = e at hdrained
      cases change_of_steps hdrained with
      | drained order nowMs horder =>
        cases hevent
        exact World.mem_rows.mpr (Or.inl hrow)
      | _ => cases hevent
    · exact ((gone_run hinv₂ hmid hreset hclosed).step hinv₃ (change_of_steps hdrained)).2

/-- An HTTP/2 stream that is opened, gets one byte and is completed, and two drains. -/
def streamAndDrains : List Op :=
  [.openStream [] [] 0 [] true [], .data 0 true [1], .finish 0 5, .commit 0,
    .drainEntries [] fun _ => 0, .drainEntries [] fun _ => 0]

/-- The row of that stream. -/
def streamRow : CapturedEntry :=
  { openEntry [] [] 0 [] true [] with
    responseBody := [1], responseSize := 1, durationMs := 5, inFlight := false }

/-- The row of a completed stream is returned by one drain. -/
theorem drained_exactly_once_stream : ∃ w,
    Reached ([.inside, .inside, .inside] ++ .completed streamRow ::
      ([] ++ .drain [streamRow] :: [.drain []])) w ∧
      streamRow ∈ [streamRow] ∧ Lacks streamRow.captureId (.drain []) := by
  have hexec : (exec World.step World.init streamAndDrains).map Prod.snd
      = some ([.inside, .inside, .inside] ++ .completed streamRow ::
        ([] ++ .drain [streamRow] :: [.drain []])) := by decide +kernel
  obtain ⟨w, h⟩ := exists_run_of_exec hexec
  obtain ⟨hfirst, -, -, hafter⟩ := (drained_exactly_once h).2 _ _ _ _ _ rfl
    fun e he => absurd he List.not_mem_nil
  exact ⟨w, h, (hfirst List.not_mem_nil).1, hafter _ (List.mem_singleton_self _)⟩

/-- A reset between the completion and the drain drops the row: no drain returns it. -/
theorem reset_drops_completed : ¬ ∀ (events : List Event) (w : World), Reached events w →
    ∀ before row mid rows after,
      events = before ++ .completed row :: (mid ++ .drain rows :: after) →
      (∀ e ∈ mid, ∀ rows', e ≠ .drain rows') →
      ∃ r ∈ rows, r.captureId = row.captureId ∧ r.inFlight = false := by
  intro hall
  let row := recordPassthroughEntry "h".toList 443 .unattributed 0
  have hexec : (exec World.step World.init [.resetCaptureState,
      .push (.passthrough "h".toList 443 .unattributed 0), .resetCaptureState,
      .drainEntries [] fun _ => 0]).map Prod.snd
      = some ([.reset] ++ .completed row :: ([.reset] ++ .drain [] :: [])) := by decide +kernel
  obtain ⟨w, h⟩ := exists_run_of_exec hexec
  obtain ⟨r, hr, -⟩ := hall _ w h _ _ _ _ _ rfl (by simp)
  exact absurd hr List.not_mem_nil

end Tapsmith.Capture
