import Tapsmith.Capture.Proxy

namespace Tapsmith.Capture

open Lib.Machine Tapsmith.Http

/-!
# What every step keeps

* `Change` — all that one step can do, and `change_of_step`, the inversion of `World.step`;
* `StreamTask.Inv` — a task counts what it stores, and its final row has the bodies of its
  capture;
* `World.Inv` — the ids in use are different, below the counter, and those of the registered
  streams and of the finished rows.
-/

/-! ### What a step can do -/

/-- What a step can do to a stream task that goes on. -/
inductive Touches (t : StreamTask) : StreamTask → Prop where
  | head (status : ℤ) (headers : List Header) :
      Touches t { t with capture := t.capture.publishHead status headers }
  | data (response : Bool) (bytes : Bytes) : Touches t (t.data response bytes)
  | finish (nowMs : ℕ) : Touches t { t with final := some (t.capture.snapshot false nowMs) }

/-- All that one step can do. -/
inductive Change (w : World) : Event → World → Prop where
  | pushed (src : Source) (row : CapturedEntry) (hrow : src.row = some row) :
      Change w (.completed { row with captureId := w.state.nextStreamKey })
        { w with state := w.state.pushEntry row }
  | opened (entry : CapturedEntry) (hbodies : ∀ response, entry.body response = []) :
      Change w .inside (w.openStream entry)
  | touched (key : ℕ) (t u : StreamTask) (ht : w.tasks key = some t) (hopen : t.final = none)
      (hu : Touches t u) : Change w .inside (w.setTask key (some u))
  | committed (key : ℕ) (t : StreamTask) (row : CapturedEntry) (ht : w.tasks key = some t)
      (hfinal : t.final = some row) : Change w (.completed row) (w.commit key row)
  | cancelled (key : ℕ) : Change w .inside (w.setTask key none)
  | snapshot (order : List ℕ) (nowMs : ℕ → ℕ) (horder : order.Perm w.state.inFlight) :
      Change w (.snapshot (w.rows order nowMs)) (w.retain order)
  | drained (order : List ℕ) (nowMs : ℕ → ℕ) (horder : order.Perm w.state.inFlight) :
      Change w (.drain (w.rows order nowMs))
        { w.retain order with state := { (w.retain order).state with entries := [] } }
  | reset : Change w .reset { w with state := { w.state with entries := [] } }

/-- **Inversion of a step.** -/
theorem change_of_step {w w' : World} {op : Op} {e : Event} (h : w.step op = some (w', e)) :
    Change w e w' := by
  have hopen : ∀ {key : ℕ} {u : StreamTask → StreamTask}, (∀ t, Touches t (u t)) →
      ((w.tasks key).bind fun t => if t.final = none then
        some (w.setTask key (some (u t)), Event.inside) else none) = some (w', e) →
      Change w e w' := by
    intro key u hu h
    obtain ⟨t, ht, h⟩ := Option.bind_eq_some_iff.mp h
    split at h
    · rename_i hfinal
      cases h
      exact .touched key t (u t) ht hfinal (hu t)
    · cases h
  cases op with
  | push src =>
    obtain ⟨row, hrow, heq⟩ := Option.map_eq_some_iff.mp h
    cases heq
    exact .pushed src row hrow
  | openStream =>
    cases h
    exact .opened _ fun response => by cases response <;> rfl
  | publishHead key status headers => exact hopen (fun t => .head status headers) h
  | data key response bytes => exact hopen (fun t => .data response bytes) h
  | finish key nowMs => exact hopen (fun t => .finish nowMs) h
  | commit key =>
    obtain ⟨t, ht, h⟩ := Option.bind_eq_some_iff.mp h
    obtain ⟨row, hrow, heq⟩ := Option.map_eq_some_iff.mp h
    cases heq
    exact .committed key t row ht hrow
  | cancel key =>
    obtain ⟨t, ht, heq⟩ := Option.map_eq_some_iff.mp h
    cases heq
    exact .cancelled key
  | snapshotEntries order nowMs =>
    rw [World.step] at h
    split at h
    · rename_i horder
      cases h
      exact .snapshot order nowMs horder
    · cases h
  | drainEntries order nowMs =>
    rw [World.step] at h
    split at h
    · rename_i horder
      cases h
      exact .drained order nowMs horder
    · cases h
  | resetCaptureState =>
    cases h
    exact .reset

/-! ### Stream tasks -/

/-- A tee of a capture counts what it stores of its direction, within the limit. -/
def TeeInv (tee : BodyTee) (capture : InFlight) (response : Bool) : Prop :=
  tee.response = response ∧ tee.stored = (capture.entry.body response).length ∧
    tee.stored ≤ maxBodySize

/-- What holds of the task of the stream `key`. -/
structure StreamTask.Inv (key : ℕ) (t : StreamTask) : Prop where
  captureId_eq : t.capture.entry.captureId = key
  requestTee : TeeInv t.requestTee t.capture false
  responseTee : TeeInv t.responseTee t.capture true
  final : ∀ row, t.final = some row → row.captureId = key ∧ row.inFlight = false ∧
    ∀ response, row.body response = t.capture.entry.body response

/-- The bodies of an open stream keep to the limit. -/
theorem StreamTask.Inv.capped {key : ℕ} {t : StreamTask} (h : t.Inv key) :
    Capped t.capture.entry := by
  obtain ⟨-, hreq, hreqLe⟩ := h.requestTee
  obtain ⟨-, hresp, hrespLe⟩ := h.responseTee
  exact ⟨by rw [← show t.capture.entry.body false = t.capture.entry.requestBody from rfl]; omega,
    by rw [← show t.capture.entry.body true = t.capture.entry.responseBody from rfl]; omega⟩

/-- Bytes of one direction: its body grows by a prefix of them, and no other one. -/
theorem TeeInv.append {tee : BodyTee} {capture : InFlight} {response : Bool}
    (h : TeeInv tee capture response) (bytes : Bytes) :
    TeeInv (tee.append capture bytes).1 (tee.append capture bytes).2 response ∧
      (tee.append capture bytes).2.entry.captureId = capture.entry.captureId ∧
      (∀ other, capture.entry.body other <+: (tee.append capture bytes).2.entry.body other) ∧
      ∀ other, other ≠ response →
        (tee.append capture bytes).2.entry.body other = capture.entry.body other := by
  obtain ⟨hdir, hstored, hle⟩ := h
  obtain ⟨stored, -, hentry, hdir', hstored', hle'⟩ := tee.append_spec capture bytes
  rw [hdir] at hentry hdir'
  have hbody : ∀ other, (tee.append capture bytes).2.entry.body other
      = if other = response then capture.entry.body other ++ stored
        else capture.entry.body other := by
    intro other
    rw [hentry, CapturedEntry.extend_body]
  refine ⟨⟨hdir', ?_, hle' hle⟩, ?_, ?_, ?_⟩
  · rw [hstored', hbody, if_pos rfl, List.length_append, hstored]
  · rw [hentry, CapturedEntry.extend_captureId]
  · intro other
    rw [hbody]
    split
    · exact List.prefix_append _ _
    · exact List.prefix_rfl
  · intro other hother
    rw [hbody, if_neg hother]

/-- **A step on a stream task** keeps its invariant, and its bodies only grow. -/
theorem Touches.inv {key : ℕ} {t u : StreamTask} (hu : Touches t u) (hopen : t.final = none)
    (h : t.Inv key) :
    u.Inv key ∧ ∀ response, t.capture.entry.body response <+: u.capture.entry.body response := by
  cases hu with
  | head status headers =>
    refine ⟨⟨h.captureId_eq, h.requestTee, h.responseTee, fun row hrow => ?_⟩, fun response => ?_⟩
    · rw [hopen] at hrow
      cases hrow
    · cases response <;> exact List.prefix_rfl
  | data response bytes =>
    cases response with
    | false =>
      obtain ⟨htee, hid, hgrow, hother⟩ := h.requestTee.append bytes
      refine ⟨⟨hid.trans h.captureId_eq, htee, ?_, fun row hrow => ?_⟩, hgrow⟩
      · obtain ⟨hdir, hstored, hle⟩ := h.responseTee
        exact ⟨hdir, hstored.trans (congrArg List.length (hother true Bool.false_ne_true.symm)).symm,
          hle⟩
      · rw [show (t.data false bytes).final = t.final from rfl, hopen] at hrow
        cases hrow
    | true =>
      obtain ⟨htee, hid, hgrow, hother⟩ := h.responseTee.append bytes
      refine ⟨⟨hid.trans h.captureId_eq, ?_, htee, fun row hrow => ?_⟩, hgrow⟩
      · obtain ⟨hdir, hstored, hle⟩ := h.requestTee
        exact ⟨hdir, hstored.trans (congrArg List.length (hother false Bool.false_ne_true)).symm,
          hle⟩
      · rw [show (t.data true bytes).final = t.final from rfl, hopen] at hrow
        cases hrow
  | finish nowMs =>
    refine ⟨⟨h.captureId_eq, h.requestTee, h.responseTee, fun row hrow => ?_⟩, fun _ => List.prefix_rfl⟩
    cases hrow
    exact ⟨h.captureId_eq, rfl, fun response => rfl⟩

/-! ### The proxy -/

/-- The ids of the finished rows. -/
def World.storedIds (w : World) : List ℕ := w.state.entries.map (·.captureId)

/-- What holds of every proxy. -/
structure World.Inv (w : World) : Prop where
  ids_nodup : (w.storedIds ++ w.state.inFlight).Nodup
  ids_lt : ∀ id ∈ w.storedIds ++ w.state.inFlight, id < w.state.nextStreamKey
  registered : ∀ key t, w.tasks key = some t → key ∈ w.state.inFlight
  task : ∀ key t, w.tasks key = some t → t.Inv key
  finished : ∀ row ∈ w.state.entries, row.inFlight = false

theorem World.inv_init : World.init.Inv where
  ids_nodup := List.nodup_nil
  ids_lt := fun id hid => absurd hid List.not_mem_nil
  registered := fun key t ht => by cases ht
  task := fun key t ht => by cases ht
  finished := fun row hrow => absurd hrow List.not_mem_nil

theorem World.alive_sublist (w : World) (order : List ℕ) : (w.alive order).Sublist order :=
  List.filter_sublist

theorem World.mem_alive {w : World} {order : List ℕ} {key : ℕ} :
    key ∈ w.alive order ↔ key ∈ order ∧ ∃ t, w.tasks key = some t := by
  rw [World.alive, List.mem_filter, Option.isSome_iff_exists]

theorem World.Inv.registry_nodup {w : World} (h : w.Inv) : w.state.inFlight.Nodup :=
  (List.nodup_append.mp h.ids_nodup).2.1

/-- No id belongs to a finished row and to a stream. -/
theorem World.Inv.disjoint {w : World} (h : w.Inv) {id : ℕ} (hid : id ∈ w.storedIds) :
    id ∉ w.state.inFlight := fun hcon =>
  (List.nodup_append.mp h.ids_nodup).2.2 id hid id hcon rfl

/-- Fewer ids in use keep the invariant. -/
theorem World.Inv.shrink {w : World} (h : w.Inv) {entries : List CapturedEntry}
    {registry : List ℕ} (hentries : entries.Sublist w.state.entries)
    (hregistry : registry ⊆ w.state.inFlight) (hnodup : registry.Nodup)
    (halive : ∀ key t, w.tasks key = some t → key ∈ registry) :
    World.Inv { w with state := { w.state with entries := entries, inFlight := registry } } where
  ids_nodup := by
    have hids : (entries.map (·.captureId)).Sublist w.storedIds := hentries.map _
    refine List.nodup_append.mpr ⟨(List.nodup_append.mp h.ids_nodup).1.sublist hids, hnodup, ?_⟩
    rintro id hid _ hreg rfl
    exact h.disjoint (hids.subset hid) (hregistry hreg)
  ids_lt := by
    intro id hid
    apply h.ids_lt
    rcases List.mem_append.mp hid with hid | hid
    · exact List.mem_append_left _ ((hentries.map _).subset hid)
    · exact List.mem_append_right _ (hregistry hid)
  registered := halive
  task := h.task
  finished := fun row hrow => h.finished row (hentries.subset hrow)

/-- A registry run through in any order, and reduced to the live streams. -/
theorem World.Inv.retain {w : World} (h : w.Inv) {order : List ℕ}
    (horder : order.Perm w.state.inFlight) : (w.retain order).Inv := by
  apply h.shrink (List.Sublist.refl _)
  · exact fun key hkey => horder.subset (List.mem_of_mem_filter hkey)
  · exact (horder.nodup_iff.mpr h.registry_nodup).filter _
  · intro key t ht
    exact World.mem_alive.mpr ⟨horder.mem_iff.mpr (h.registered key t ht), t, ht⟩

/-- The next id is in nobody's use. -/
theorem World.Inv.fresh {w : World} (h : w.Inv) :
    w.state.nextStreamKey ∉ w.storedIds ∧ w.state.nextStreamKey ∉ w.state.inFlight :=
  ⟨fun hid => Nat.lt_irrefl _ (h.ids_lt _ (List.mem_append_left _ hid)),
    fun hid => Nat.lt_irrefl _ (h.ids_lt _ (List.mem_append_right _ hid))⟩

theorem World.Inv.pushEntry {w : World} (h : w.Inv) {row : CapturedEntry}
    (hrow : row.inFlight = false) : World.Inv { w with state := w.state.pushEntry row } := by
  obtain ⟨hstored, hreg⟩ := h.fresh
  have hids : World.storedIds { w with state := w.state.pushEntry row }
      = w.storedIds ++ [w.state.nextStreamKey] := List.map_append
  obtain ⟨hnodup, -, -⟩ := List.nodup_append.mp h.ids_nodup
  refine ⟨?_, ?_, h.registered, h.task, ?_⟩
  · rw [hids]
    refine List.nodup_append.mpr ⟨?_, h.registry_nodup, ?_⟩
    · refine List.nodup_append.mpr ⟨hnodup, List.nodup_singleton _, ?_⟩
      rintro id hid _ hnext rfl
      exact hstored (List.mem_singleton.mp hnext ▸ hid)
    · rintro id hid _ hkey rfl
      rcases List.mem_append.mp hid with hid | hid
      · exact h.disjoint hid hkey
      · exact hreg (List.mem_singleton.mp hid ▸ hkey)
  · intro id hid
    rw [hids] at hid
    show id < w.state.nextStreamKey + 1
    rcases List.mem_append.mp hid with hid | hid
    · rcases List.mem_append.mp hid with hid | hid
      · have := h.ids_lt id (List.mem_append_left _ hid)
        omega
      · rw [List.mem_singleton] at hid
        omega
    · have := h.ids_lt id (List.mem_append_right _ hid)
      omega
  · intro x hx
    rcases List.mem_append.mp hx with hx | hx
    · exact h.finished x hx
    · rw [List.mem_singleton.mp hx]
      exact hrow

/-- The task of a stream that has just been registered. -/
theorem StreamTask.inv_new {entry : CapturedEntry} (hbodies : ∀ response, entry.body response = [])
    (key : ℕ) :
    (StreamTask.new key entry).Inv key where
  captureId_eq := rfl
  requestTee := ⟨rfl, (congrArg List.length (hbodies false)).symm, Nat.zero_le _⟩
  responseTee := ⟨rfl, (congrArg List.length (hbodies true)).symm, Nat.zero_le _⟩
  final := fun row hrow => by cases hrow

theorem World.Inv.openStream {w : World} (h : w.Inv) {entry : CapturedEntry}
    (hbodies : ∀ response, entry.body response = []) : (w.openStream entry).Inv := by
  obtain ⟨hstored, hreg⟩ := h.fresh
  have hkept := h.retain (List.Perm.refl w.state.inFlight)
  have halive : w.state.nextStreamKey ∉ w.alive w.state.inFlight := fun hcon =>
    hreg ((w.alive_sublist _).subset hcon)
  refine ⟨?_, ?_, ?_, ?_, h.finished⟩
  · refine List.nodup_append.mpr ⟨(List.nodup_append.mp h.ids_nodup).1,
      List.nodup_cons.mpr ⟨halive, hkept.registry_nodup⟩, ?_⟩
    rintro id hid _ hkey rfl
    rcases List.mem_cons.mp hkey with rfl | hkey
    · exact hstored hid
    · exact hkept.disjoint hid hkey
  · intro id hid
    show id < w.state.nextStreamKey + 1
    rcases List.mem_append.mp hid with hid | hid
    · have := h.ids_lt id (List.mem_append_left _ hid)
      omega
    · rcases List.mem_cons.mp hid with rfl | hid
      · omega
      · have := hkept.ids_lt id (List.mem_append_right _ hid)
        exact Nat.lt_succ_of_lt this
  · intro key t ht
    rw [World.openStream_tasks] at ht
    split at ht
    · rename_i hkey
      rw [hkey]
      exact List.mem_cons_self
    · exact List.mem_cons_of_mem _ (hkept.registered key t ht)
  · intro key t ht
    rw [World.openStream_tasks] at ht
    split at ht
    · cases ht
      exact StreamTask.inv_new hbodies key
    · exact h.task key t ht

theorem World.Inv.setTask {w : World} (h : w.Inv) {key : ℕ} {t : Option StreamTask}
    (ht : ∀ u, t = some u → key ∈ w.state.inFlight ∧ u.Inv key) : (w.setTask key t).Inv := by
  refine ⟨h.ids_nodup, h.ids_lt, ?_, ?_, h.finished⟩
  · intro k u hu
    rw [World.setTask_tasks] at hu
    split at hu
    · rename_i hk
      rw [hk]
      exact (ht u hu).1
    · exact h.registered k u hu
  · intro k u hu
    rw [World.setTask_tasks] at hu
    split at hu
    · rename_i hk
      rw [hk]
      exact (ht u hu).2
    · exact h.task k u hu

theorem World.Inv.commit {w : World} (h : w.Inv) {key : ℕ} {t : StreamTask} {row : CapturedEntry}
    (ht : w.tasks key = some t) (hfinal : t.final = some row) : (w.commit key row).Inv := by
  obtain ⟨hid, hrow, -⟩ := (h.task key t ht).final row hfinal
  have hreg := h.registered key t ht
  have hids : (w.commit key row).storedIds = w.storedIds ++ [key] := by
    rw [← hid]
    exact List.map_append
  have hstored : key ∉ w.storedIds := fun hcon => h.disjoint hcon hreg
  refine ⟨?_, ?_, ?_, ?_, ?_⟩
  · rw [hids]
    refine List.nodup_append.mpr ⟨?_, h.registry_nodup.filter _, ?_⟩
    · refine List.nodup_append.mpr ⟨(List.nodup_append.mp h.ids_nodup).1, List.nodup_singleton _, ?_⟩
      rintro id hid _ hkey rfl
      exact hstored (List.mem_singleton.mp hkey ▸ hid)
    · rintro id hid _ hkey rfl
      obtain ⟨hkey, hne⟩ := List.mem_filter.mp hkey
      rcases List.mem_append.mp hid with hid | hid
      · exact h.disjoint hid hkey
      · exact of_decide_eq_true hne (List.mem_singleton.mp hid)
  · intro id hid
    apply h.ids_lt
    rw [hids] at hid
    rcases List.mem_append.mp hid with hid | hid
    · rcases List.mem_append.mp hid with hid | hid
      · exact List.mem_append_left _ hid
      · rw [List.mem_singleton.mp hid]
        exact List.mem_append_right _ hreg
    · exact List.mem_append_right _ (List.mem_of_mem_filter hid)
  · intro k u hu
    rw [World.commit_tasks] at hu
    split at hu
    · cases hu
    · rename_i hk
      exact List.mem_filter.mpr ⟨h.registered k u hu, decide_eq_true hk⟩
  · intro k u hu
    rw [World.commit_tasks] at hu
    split at hu
    · cases hu
    · exact h.task k u hu
  · intro x hx
    rcases List.mem_append.mp hx with hx | hx
    · exact h.finished x hx
    · rw [List.mem_singleton.mp hx]
      exact hrow

/-- **Every step keeps the invariant.** -/
theorem World.Inv.step {w w' : World} {e : Event} (h : w.Inv) (hchange : Change w e w') :
    w'.Inv := by
  cases hchange with
  | pushed src row hrow => exact h.pushEntry (Source.row_inFlight hrow)
  | opened entry hbodies => exact h.openStream hbodies
  | touched key t u ht hopen hu =>
    apply h.setTask
    rintro _ ⟨⟩
    exact ⟨h.registered key t ht, (hu.inv hopen (h.task key t ht)).1⟩
  | committed key t row ht hfinal => exact h.commit ht hfinal
  | cancelled key =>
    apply h.setTask
    intro u hu
    cases hu
  | snapshot order nowMs horder => exact h.retain horder
  | drained order nowMs horder =>
    exact (h.retain horder).shrink (List.nil_sublist _) (List.Subset.refl _)
      (h.retain horder).registry_nodup (h.retain horder).registered
  | reset =>
    exact h.shrink (List.nil_sublist _) (List.Subset.refl _) h.registry_nodup h.registered

/-! ### Runs -/

/-- A run of the proxy from its start, with the events it showed. -/
abbrev Reached (events : List Event) (w : World) : Prop :=
  Run (Steps World.step) World.init events w

theorem change_of_steps {w w' : World} {e : Event} (h : Steps World.step w e w') :
    Change w e w' :=
  have ⟨_, hop⟩ := h
  change_of_step hop

theorem Reached.inv {events : List Event} {w : World} (h : Reached events w) : w.Inv :=
  Run.invariant (fun _ _ _ hinv hstep => hinv.step (change_of_steps hstep)) h World.inv_init

end Tapsmith.Capture
