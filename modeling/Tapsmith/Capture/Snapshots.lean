import Tapsmith.Capture.Drain
import Tapsmith.Lib.Pointwise
import Tapsmith.Lib.Tally

namespace Tapsmith.Capture

open Lib.Machine Tapsmith.Http

/-!
# Live polling

While a test runs, the SDK polls the rows of the proxy.  It sends the lengths of the bodies it has,
and the daemon leaves out a body of a known length, and any body that does not fit into what is left
of the budget of one answer.

* `World.snapshotUpdates` — the daemon's answer;
* `NetworkSnapshots.knownBodies`, `NetworkSnapshots.update` — the two ends of the SDK;
* `Polling` — the two with the poll that is on its way;
* `Polling.Inv` — what the SDK holds of a row is the beginning of what the proxy has of it;
* `polls_exact` — what the SDK holds after a poll, in any run;
* `polls_converge` — once nothing changes any more, every poll brings a body that is missing.

A stream may grow between two reads of one answer, but an answer reads every stream once: such a
run shows the same as one whose answer is taken at one point.
-/

/-! ### The daemon's answer -/

/-- `SnapshotEntry`. -/
structure SnapshotEntry where
  entry : CapturedEntry
  requestBodyOmitted : Bool
  responseBodyOmitted : Bool

/-- `MAX_SNAPSHOT_BODY_BYTES`. -/
def maxSnapshotBodyBytes : ℕ := maxBodySize

/-- `KnownBodies`, from the list that is collected into it: the last of equal keys stays. -/
abbrev KnownBodies := List (Str × ℕ × ℕ)

def KnownBodies.get (known : KnownBodies) (key : Str) : Option (ℕ × ℕ) :=
  (known.reverse.find? fun k => k.1 = key).map Prod.snd

/-- The closure `copy_body`: what is sent, whether it was left out, and the budget that is left. -/
def copyBody (budget : ℕ) (body : Bytes) (knownLength : Option ℕ) : Bytes × Bool × ℕ :=
  if knownLength = some body.length ∨ budget < body.length then ([], true, budget)
  else (body, false, budget - body.length)

/-- `CapturedEntry::snapshot_update`, with the budget that is left. -/
def CapturedEntry.snapshotUpdate (e : CapturedEntry) (known : Option (ℕ × ℕ)) (budget : ℕ) :
    SnapshotEntry × ℕ :=
  let request := copyBody budget e.requestBody (known.map Prod.fst)
  let response := copyBody request.2.2 e.responseBody (known.map Prod.snd)
  ({ entry := { e with requestBody := request.1, responseBody := response.1 }
     requestBodyOmitted := request.2.1
     responseBodyOmitted := response.2.1 }, response.2.2)

/-- The id of a row as it is sent. -/
def captureKey (session : Str) (id : ℕ) : Str := session ++ ':' :: Nat.toDigits 10 id

/-- The updates of some rows, which share a budget. -/
def updatesOf (session : Str) (known : KnownBodies) : ℕ → List CapturedEntry → List SnapshotEntry
  | _, [] => []
  | budget, e :: rest =>
    let u := e.snapshotUpdate (known.get (captureKey session e.captureId)) budget
    u.1 :: updatesOf session known u.2 rest

/-- `NetworkProxy::snapshot_updates`, in the order the registry is run through. -/
def World.snapshotUpdates (w : World) (session : Str) (known : KnownBodies) (order : List ℕ)
    (nowMs : ℕ → ℕ) : List SnapshotEntry :=
  (updatesOf session known maxSnapshotBodyBytes
    (w.state.entries ++ w.openEntries order nowMs)).insertionSort
      fun a b => a.entry.captureId ≤ b.entry.captureId

/-! ### The SDK -/

/-- A row as it is sent, with the id as a text. -/
structure Entry where
  captureId : Str
  row : CapturedEntry
  requestBodyOmitted : Bool
  responseBodyOmitted : Bool

/-- `captured_entry_to_proto`. -/
def capturedEntryToProto (session : Str) (u : SnapshotEntry) : Entry where
  captureId := captureKey session u.entry.captureId
  row := u.entry
  requestBodyOmitted := u.requestBodyOmitted
  responseBodyOmitted := u.responseBodyOmitted

namespace NetworkSnapshots

def knownBodies (entries : List Entry) : KnownBodies :=
  (entries.filter fun e => e.captureId ≠ []).map fun e =>
    (e.captureId, e.row.requestBody.length, e.row.responseBody.length)

/-- The entry of the map `previous`: the last one with the id. -/
def previous (entries : List Entry) (captureId : Str) : Option Entry :=
  (entries.filter fun e => e.captureId ≠ []).reverse.find? fun e => e.captureId = captureId

def retain (next : Bytes) (old : Option Bytes) (omitted : Bool) : Bytes :=
  if omitted then old.getD []
  else if old = some next then old.getD [] else next

def update (held entries : List Entry) : List Entry :=
  entries.map fun e =>
    let old := if e.captureId = [] then none else previous held e.captureId
    { e with row := { e.row with
        requestBody := retain e.row.requestBody (old.map fun o => o.row.requestBody)
          e.requestBodyOmitted
        responseBody := retain e.row.responseBody (old.map fun o => o.row.responseBody)
          e.responseBodyOmitted } }

end NetworkSnapshots

/-! ### Polls on their way -/

/-- The poll that is on its way, if any; with an answer, the rows that the daemon had then. -/
inductive Poll where
  | idle
  | asked (known : KnownBodies)
  | answered (rows : List CapturedEntry) (entries : List Entry)

/-- A proxy, what the SDK holds of its rows, and the poll between them. -/
structure Polling where
  world : World
  held : List Entry
  poll : Poll

def Polling.init : Polling where
  world := World.init
  held := []
  poll := .idle

inductive PollOp where
  | daemon (op : Op)
  | ask
  | answer (order : List ℕ) (nowMs : ℕ → ℕ)
  | receive
  /-- The poll comes to nothing, whether the daemon has answered or not. -/
  | lose
  /-- Another attempt begins, with nothing held. -/
  | attempt

/-- A poll that is received: the rows that the daemon had, its answer, and what the SDK holds. -/
inductive PollEvent where
  | inside
  | received (rows : List CapturedEntry) (entries held : List Entry)

/-- One step of a proxy of that session and its SDK. -/
def Polling.step (session : Str) (p : Polling) : PollOp → Option (Polling × PollEvent)
  | .daemon op => (p.world.step op).map fun r => ({ p with world := r.1 }, .inside)
  | .ask =>
    match p.poll with
    | .idle => some ({ p with poll := .asked (NetworkSnapshots.knownBodies p.held) }, .inside)
    | _ => none
  | .answer order nowMs =>
    match p.poll with
    | .asked known =>
      if order.Perm p.world.state.inFlight then
        some ({ p with
          world := p.world.retain order
          poll := .answered (p.world.rows order nowMs)
            ((p.world.snapshotUpdates session known order nowMs).map
              (capturedEntryToProto session)) }, .inside)
      else none
    | _ => none
  | .receive =>
    match p.poll with
    | .answered rows entries =>
      let held := NetworkSnapshots.update p.held entries
      some ({ p with held := held, poll := .idle }, .received rows entries held)
    | _ => none
  | .lose => some ({ p with poll := .idle }, .inside)
  | .attempt => some ({ p with held := [], poll := .idle }, .inside)

/-! ### Ids and lists -/

theorem captureKey_inj {session : Str} {a b : ℕ} (h : captureKey session a = captureKey session b) :
    a = b := by
  have hdigits : Nat.toDigits 10 a = Nat.toDigits 10 b :=
    (List.cons.inj (List.append_cancel_left h)).2
  have hvalue := Lib.Text.digitsValue_toDigits a
  rw [hdigits, Lib.Text.digitsValue_toDigits] at hvalue
  exact (Option.some.inj hvalue).symm

theorem captureKey_ne_nil (session : Str) (id : ℕ) : captureKey session id ≠ [] := by
  rw [captureKey]
  simp

/-- Both ends look up the same held entry. -/
theorem knownBodies_get (held : List Entry) (key : Str) :
    (NetworkSnapshots.knownBodies held).get key
      = (NetworkSnapshots.previous held key).map fun e =>
        (e.row.requestBody.length, e.row.responseBody.length) := by
  rw [KnownBodies.get, NetworkSnapshots.knownBodies, NetworkSnapshots.previous, ← List.map_reverse,
    List.find?_map, Option.map_map]
  rfl

theorem mem_of_previous {held : List Entry} {key : Str} {x : Entry}
    (h : NetworkSnapshots.previous held key = some x) : x ∈ held ∧ x.captureId = key := by
  have hmem := List.mem_of_find?_eq_some h
  have hkey := List.find?_some h
  exact ⟨List.mem_of_mem_filter (List.mem_reverse.mp hmem), of_decide_eq_true hkey⟩

/-! ### What an answer sends -/

def SnapshotEntry.omitted (u : SnapshotEntry) (response : Bool) : Bool :=
  if response then u.responseBodyOmitted else u.requestBodyOmitted

/-- The bytes of both bodies. -/
def CapturedEntry.bodyBytes (e : CapturedEntry) : ℕ := e.requestBody.length + e.responseBody.length

/-- The row without its bodies. -/
def CapturedEntry.metadata (e : CapturedEntry) : CapturedEntry :=
  { e with requestBody := [], responseBody := [] }

/-- A length of the pair that is known of a row. -/
def knownLength (known : Option (ℕ × ℕ)) (response : Bool) : Option ℕ :=
  known.map fun k => if response then k.2 else k.1

/-- How a row is sent when `left` bytes would have been left over at the end: everything but the
    bodies, and of these each one that is not known and would have fitted. -/
structure Sent (known : Option (ℕ × ℕ)) (left : ℕ) (row : CapturedEntry) (u : SnapshotEntry) :
    Prop where
  metadata : u.entry.metadata = row.metadata
  body : ∀ response, (u.omitted response = false ∧ u.entry.body response = row.body response) ∨
    (u.omitted response = true ∧ u.entry.body response = [] ∧
      (knownLength known response = some (row.body response).length ∨
        left < (row.body response).length))

theorem copyBody_spec (budget : ℕ) (body : Bytes) (known : Option ℕ) :
    (copyBody budget body known).1.length + (copyBody budget body known).2.2 = budget ∧
      (((copyBody budget body known).2.1 = false ∧ (copyBody budget body known).1 = body) ∨
        ((copyBody budget body known).2.1 = true ∧ (copyBody budget body known).1 = [] ∧
          (known = some body.length ∨ budget < body.length))) := by
  rw [copyBody]
  split
  · rename_i homit
    exact ⟨Nat.zero_add _, .inr ⟨rfl, rfl, homit⟩⟩
  · rename_i hcopy
    rw [not_or, Nat.not_lt] at hcopy
    exact ⟨Nat.add_sub_cancel' hcopy.2, .inl ⟨rfl, rfl⟩⟩

theorem Sent.mono {known : Option (ℕ × ℕ)} {left left' : ℕ} {row : CapturedEntry}
    {u : SnapshotEntry} (h : Sent known left row u) (hle : left' ≤ left) :
    Sent known left' row u where
  metadata := h.metadata
  body := fun response => (h.body response).imp_right fun ⟨homit, hnil, hwhy⟩ =>
    ⟨homit, hnil, hwhy.imp_right (Nat.lt_of_le_of_lt hle)⟩

theorem snapshotUpdate_spec (e : CapturedEntry) (known : Option (ℕ × ℕ)) (budget : ℕ) :
    (e.snapshotUpdate known budget).1.entry.bodyBytes + (e.snapshotUpdate known budget).2 = budget ∧
      Sent known (e.snapshotUpdate known budget).2 e (e.snapshotUpdate known budget).1 := by
  obtain ⟨hreqLeft, hreq⟩ := copyBody_spec budget e.requestBody (known.map Prod.fst)
  obtain ⟨hrespLeft, hresp⟩ := copyBody_spec
    (copyBody budget e.requestBody (known.map Prod.fst)).2.2 e.responseBody (known.map Prod.snd)
  -- what is left at the end was left at each of the two bodies
  have hmid : (e.snapshotUpdate known budget).2
      ≤ (copyBody budget e.requestBody (known.map Prod.fst)).2.2 :=
    Nat.le.intro ((Nat.add_comm _ _).trans hrespLeft)
  refine ⟨?_, rfl, ?_⟩
  · show _ + _ + _ = budget
    rw [Nat.add_assoc]
    exact (congrArg _ hrespLeft).trans hreqLeft
  · intro response
    cases response with
    | false =>
      exact hreq.imp_right fun ⟨homit, hnil, hwhy⟩ => ⟨homit, hnil, hwhy.imp_right fun h => by
        show _ < e.requestBody.length
        omega⟩
    | true =>
      exact hresp.imp_right fun ⟨homit, hnil, hwhy⟩ =>
        ⟨homit, hnil, hwhy.imp_right (Nat.lt_of_le_of_lt hmid)⟩

/-- **What one answer sends**: its bodies keep to the budget, and a body that is left out is known
    or would not have fitted. -/
theorem updatesOf_spec (session : Str) (known : KnownBodies) (budget : ℕ)
    (rows : List CapturedEntry) : ∃ left,
    ((updatesOf session known budget rows).map fun u => u.entry.bodyBytes).sum + left = budget ∧
      List.Forall₂ (fun row => Sent (known.get (captureKey session row.captureId)) left row) rows
        (updatesOf session known budget rows) := by
  induction rows generalizing budget with
  | nil => exact ⟨budget, Nat.zero_add _, .nil⟩
  | cons e rest ih =>
    obtain ⟨hbudget, hsent⟩ :=
      snapshotUpdate_spec e (known.get (captureKey session e.captureId)) budget
    obtain ⟨left, hleft, hrest⟩ :=
      ih (e.snapshotUpdate (known.get (captureKey session e.captureId)) budget).2
    refine ⟨left, ?_, .cons (hsent.mono (Nat.le.intro ((Nat.add_comm _ _).trans hleft))) hrest⟩
    rw [updatesOf, List.map_cons, List.sum_cons, Nat.add_assoc]
    exact (congrArg _ hleft).trans hbudget

/-! ### Bodies only grow -/

/-- The proxy has a row with the id whose body is `b`. -/
def World.Shows (w : World) (id : ℕ) (response : Bool) (b : Bytes) : Prop :=
  (∃ row ∈ w.state.entries, row.captureId = id ∧ row.body response = b) ∨
    ∃ t, w.tasks id = some t ∧ t.capture.entry.body response = b

/-- The id has been given out, and what the proxy has of the body begins with these bytes. -/
def World.Extends (w : World) (id : ℕ) (response : Bool) (bytes : Bytes) : Prop :=
  id < w.state.nextStreamKey ∧ ∀ b, w.Shows id response b → bytes <+: b

/-- A body that a step leaves has grown from one that was there. -/
theorem World.Inv.shows_before {w w' : World} {e : Event} {id : ℕ} {response : Bool} {b' : Bytes}
    (hinv : w.Inv) (hchange : Change w e w') (hlt : id < w.state.nextStreamKey)
    (h : w'.Shows id response b') : ∃ b, w.Shows id response b ∧ b <+: b' := by
  have hsame : w.Shows id response b' → ∃ b, w.Shows id response b ∧ b <+: b' :=
    fun h => ⟨b', h, List.prefix_rfl⟩
  have hnone : ¬ ∃ row ∈ ([] : List CapturedEntry), row.captureId = id ∧ row.body response = b' :=
    fun ⟨_, hrow, _⟩ => List.not_mem_nil hrow
  cases hchange with
  | pushed src row hrow =>
    refine hsame (h.imp_left fun ⟨r, hr, hid, hb⟩ => ?_)
    rcases List.mem_append.mp hr with hr | hr
    · exact ⟨r, hr, hid, hb⟩
    · rw [List.mem_singleton.mp hr] at hid
      exact absurd hid (Nat.ne_of_gt hlt)
  | opened entry hbodies =>
    refine hsame (h.imp_right fun ⟨t, ht, hb⟩ => ?_)
    rw [World.openStream_tasks, if_neg (Nat.ne_of_lt hlt)] at ht
    exact ⟨t, ht, hb⟩
  | touched key t u ht hopen hu =>
    rcases h with h | ⟨v, hv, hb⟩
    · exact hsame (.inl h)
    · rw [World.setTask_tasks] at hv
      split at hv
      · rename_i hkey
        cases hv
        refine ⟨_, .inr ⟨t, hkey ▸ ht, rfl⟩, ?_⟩
        rw [← hb]
        exact (hu.inv hopen (hinv.task key t ht)).2 response
      · exact hsame (.inr ⟨v, hv, hb⟩)
  | committed key t row ht hfinal =>
    obtain ⟨hid, -, hbody⟩ := (hinv.task key t ht).final row hfinal
    rcases h with ⟨r, hr, hrid, hb⟩ | ⟨v, hv, hb⟩
    · rcases List.mem_append.mp hr with hr | hr
      · exact hsame (.inl ⟨r, hr, hrid, hb⟩)
      · obtain rfl := List.mem_singleton.mp hr
        refine hsame (.inr ⟨t, ?_, (hbody response).symm.trans hb⟩)
        rw [← hrid, hid]
        exact ht
    · rw [World.commit_tasks] at hv
      split at hv
      · cases hv
      · exact hsame (.inr ⟨v, hv, hb⟩)
  | cancelled key =>
    refine hsame (h.imp_right fun ⟨v, hv, hb⟩ => ?_)
    rw [World.setTask_tasks] at hv
    split at hv
    · cases hv
    · exact ⟨v, hv, hb⟩
  | snapshot order nowMs horder => exact hsame h
  | drained order nowMs horder => exact hsame (.inr (h.resolve_left hnone))
  | reset => exact hsame (.inr (h.resolve_left hnone))

theorem Change.nextStreamKey_le {w w' : World} {e : Event} (h : Change w e w') :
    w.state.nextStreamKey ≤ w'.state.nextStreamKey := by
  cases h with
  | pushed => exact Nat.le_succ _
  | opened => exact Nat.le_succ _
  | _ => exact Nat.le_refl _

/-- What the bodies of a row begin with, they begin with for ever. -/
theorem World.Extends.step {w w' : World} {e : Event} {id : ℕ} {response : Bool} {bytes : Bytes}
    (h : w.Extends id response bytes) (hinv : w.Inv) (hchange : Change w e w') :
    w'.Extends id response bytes := by
  refine ⟨Nat.lt_of_lt_of_le h.1 hchange.nextStreamKey_le, fun b' hb' => ?_⟩
  obtain ⟨b, hb, hgrown⟩ := hinv.shows_before hchange h.1 hb'
  exact (h.2 b hb).trans hgrown

theorem World.Inv.shows_of_mem_rows {w : World} (hinv : w.Inv) {order : List ℕ} {nowMs : ℕ → ℕ}
    {row : CapturedEntry} (hrow : row ∈ w.rows order nowMs) (response : Bool) :
    w.Shows row.captureId response (row.body response) := by
  rcases World.mem_rows.mp hrow with hrow | ⟨k, -, t, ht, rfl⟩
  · exact .inl ⟨row, hrow, rfl, rfl⟩
  · refine .inr ⟨t, ?_, rfl⟩
    rw [hinv.open_captureId ht]
    exact ht

/-- An id has one body of each direction. -/
theorem World.Inv.shows_unique {w : World} (hinv : w.Inv) {id : ℕ} {response : Bool} {b b' : Bytes}
    (h : w.Shows id response b) (h' : w.Shows id response b') : b = b' := by
  have hapart : ∀ {row : CapturedEntry} {t : StreamTask}, row ∈ w.state.entries →
      w.tasks row.captureId = some t → False := fun hrow ht =>
    hinv.disjoint (List.mem_map_of_mem hrow) (hinv.registered _ _ ht)
  rcases h with ⟨row, hrow, rfl, rfl⟩ | ⟨t, ht, rfl⟩ <;>
    rcases h' with ⟨row', hrow', hid, rfl⟩ | ⟨t', ht', rfl⟩
  · rw [List.inj_on_of_nodup_map (List.nodup_append.mp hinv.ids_nodup).1 hrow' hrow hid]
  · exact (hapart hrow ht').elim
  · exact (hapart hrow' (hid ▸ ht)).elim
  · rw [ht] at ht'
    cases ht'
    rfl

theorem World.Inv.extends_of_mem_rows {w : World} (hinv : w.Inv) {order : List ℕ}
    (horder : order.Perm w.state.inFlight) {nowMs : ℕ → ℕ} {row : CapturedEntry}
    (hrow : row ∈ w.rows order nowMs) (response : Bool) :
    w.Extends row.captureId response (row.body response) := by
  refine ⟨hinv.ids_lt _ ?_, fun b hb => ?_⟩
  · rcases World.mem_rows.mp hrow with hrow | ⟨k, hk, t, ht, rfl⟩
    · exact List.mem_append_left _ (List.mem_map_of_mem hrow)
    · rw [hinv.open_captureId ht]
      exact List.mem_append_right _ (horder.subset hk)
  · rw [hinv.shows_unique (hinv.shows_of_mem_rows hrow response) hb]

/-! ### What an answer brings -/

/-- What the SDK has of a body, if anything. -/
def heldBody (held : List Entry) (key : Str) (response : Bool) : Bytes :=
  ((NetworkSnapshots.previous held key).map fun e => e.row.body response).getD []

/-- A row and the entry that is held of it: all of the row but its bodies, and of each of these the
    beginning, which is the whole unless it would not have fitted. -/
structure Held (session : Str) (left : ℕ) (row : CapturedEntry) (x : Entry) : Prop where
  captureId : x.captureId = captureKey session row.captureId
  metadata : x.row.metadata = row.metadata
  begun : ∀ response, x.row.body response <+: row.body response
  whole : ∀ response, x.row.body response = row.body response ∨ left < (row.body response).length

theorem retain_eq (next : Bytes) (old : Option Bytes) (omitted : Bool) :
    NetworkSnapshots.retain next old omitted = if omitted then old.getD [] else next := by
  rw [NetworkSnapshots.retain]
  split
  · rfl
  · split
    · rename_i hold
      rw [hold]
      rfl
    · rfl

/-- The entry that `NetworkSnapshots.update` makes of an update. -/
def updated (session : Str) (held : List Entry) (u : SnapshotEntry) : Entry :=
  let key := captureKey session u.entry.captureId
  { capturedEntryToProto session u with
    row := { u.entry with
      requestBody := if u.requestBodyOmitted then heldBody held key false else u.entry.requestBody
      responseBody :=
        if u.responseBodyOmitted then heldBody held key true else u.entry.responseBody } }

theorem update_map (session : Str) (held : List Entry) (us : List SnapshotEntry) :
    NetworkSnapshots.update held (us.map (capturedEntryToProto session))
      = us.map (updated session held) := by
  rw [NetworkSnapshots.update, List.map_map]
  apply List.map_congr_left
  intro u _
  have hkey : (capturedEntryToProto session u).captureId ≠ [] := captureKey_ne_nil session _
  simp only [Function.comp_apply, if_neg hkey, retain_eq]
  rfl

theorem updated_body (session : Str) (held : List Entry) (u : SnapshotEntry) (response : Bool) :
    (updated session held u).row.body response
      = if u.omitted response then heldBody held (captureKey session u.entry.captureId) response
        else u.entry.body response := by
  cases response <;> rfl

theorem CapturedEntry.captureId_of_metadata {a b : CapturedEntry} (h : a.metadata = b.metadata) :
    a.captureId = b.captureId := by
  have hid := congrArg CapturedEntry.captureId h
  exact hid

/-- A body that is held and has the length of the row's is the row's. -/
theorem heldBody_of_knownLength {held : List Entry} {key : Str} {response : Bool} {body : Bytes}
    (hbegun : heldBody held key response <+: body)
    (h : knownLength ((NetworkSnapshots.knownBodies held).get key) response = some body.length) :
    heldBody held key response = body := by
  rw [knownBodies_get, knownLength, Option.map_map] at h
  obtain ⟨x, hx, hlen⟩ := Option.map_eq_some_iff.mp h
  apply hbegun.eq_of_length
  rw [heldBody, hx]
  cases response <;> exact hlen

/-- **One row**: what is held of it afterwards. -/
theorem Sent.held {session : Str} {held : List Entry} {left : ℕ} {row : CapturedEntry}
    {u : SnapshotEntry}
    (h : Sent ((NetworkSnapshots.knownBodies held).get (captureKey session row.captureId)) left row
      u)
    (hbegun : ∀ response,
      heldBody held (captureKey session row.captureId) response <+: row.body response) :
    Held session left row (updated session held u) := by
  have hid := CapturedEntry.captureId_of_metadata h.metadata
  refine ⟨congrArg (captureKey session) hid, h.metadata, fun response => ?_, fun response => ?_⟩ <;>
    rw [updated_body, hid]
  · rcases h.body response with ⟨homit, hsame⟩ | ⟨homit, -, -⟩
    · rw [homit, hsame]
      exact List.prefix_rfl
    · rw [homit]
      exact hbegun response
  · rcases h.body response with ⟨homit, hsame⟩ | ⟨homit, -, hknown | hlong⟩
    · rw [homit]
      exact .inl hsame
    · rw [homit]
      exact .inl (heldBody_of_knownLength (hbegun response) hknown)
    · exact .inr hlong

/-! ### Every run -/

/-- What an answer on its way is about. -/
structure Answered (session : Str) (w : World) (held : List Entry) (rows : List CapturedEntry)
    (entries : List Entry) : Prop where
  /-- The rows as they were sent, against what the SDK holds. -/
  sent : ∃ us left, entries = us.map (capturedEntryToProto session) ∧
    (us.map fun u => u.entry.bodyBytes).sum + left = maxSnapshotBodyBytes ∧
    List.Forall₂ (fun row =>
      Sent ((NetworkSnapshots.knownBodies held).get (captureKey session row.captureId)) left row)
      rows us
  /-- What is held of a row is a beginning of it. -/
  begun : ∀ row ∈ rows, ∀ response,
    heldBody held (captureKey session row.captureId) response <+: row.body response
  /-- The proxy has gone on from these rows. -/
  grown : ∀ row ∈ rows, ∀ response, w.Extends row.captureId response (row.body response)

/-- What holds of the poll between a proxy and what the SDK holds. -/
def Poll.Inv (session : Str) (w : World) (held : List Entry) : Poll → Prop
  | .idle => True
  | .asked known => known = NetworkSnapshots.knownBodies held
  | .answered rows entries => Answered session w held rows entries

/-- **The invariant of polling.** -/
structure Polling.Inv (session : Str) (p : Polling) : Prop where
  world : p.world.Inv
  held : ∀ x ∈ p.held, ∃ id, x.captureId = captureKey session id ∧
    ∀ response, p.world.Extends id response (x.row.body response)
  poll : p.poll.Inv session p.world p.held

theorem Polling.inv_init (session : Str) : Polling.init.Inv session where
  world := World.inv_init
  held := fun _ hx => absurd hx List.not_mem_nil
  poll := trivial

/-- What is held under the id of a row is a beginning of what the proxy has. -/
theorem Polling.Inv.heldBody_prefix {session : Str} {p : Polling} (h : p.Inv session) {id : ℕ}
    {response : Bool} {b : Bytes} (hb : p.world.Shows id response b) :
    heldBody p.held (captureKey session id) response <+: b := by
  rw [heldBody]
  cases hx : NetworkSnapshots.previous p.held (captureKey session id) with
  | none => exact List.nil_prefix
  | some x =>
    obtain ⟨hmem, hkey⟩ := mem_of_previous hx
    obtain ⟨id', hid', hext⟩ := h.held x hmem
    obtain rfl := captureKey_inj (hkey.symm.trans hid')
    exact (hext response).2 b hb

/-- The daemon goes on by itself. -/
theorem Polling.Inv.daemon {session : Str} {p : Polling} (h : p.Inv session) {w' : World}
    {e : Event} (hchange : Change p.world e w') : Polling.Inv session { p with world := w' } where
  world := h.world.step hchange
  held := fun x hx =>
    have ⟨id, hid, hext⟩ := h.held x hx
    ⟨id, hid, fun response => (hext response).step h.world hchange⟩
  poll := by
    have hpoll := h.poll
    cases hp : p.poll with
    | idle => trivial
    | asked known =>
      rw [hp] at hpoll
      exact hpoll
    | answered rows entries =>
      rw [hp] at hpoll
      exact ⟨hpoll.sent, hpoll.begun, fun row hrow response =>
        (hpoll.grown row hrow response).step h.world hchange⟩

/-- The daemon answers. -/
theorem Polling.Inv.answered {session : Str} {p : Polling} (h : p.Inv session) {order : List ℕ}
    (horder : order.Perm p.world.state.inFlight) (nowMs : ℕ → ℕ) :
    Answered session (p.world.retain order) p.held (p.world.rows order nowMs)
      ((p.world.snapshotUpdates session (NetworkSnapshots.knownBodies p.held) order nowMs).map
        (capturedEntryToProto session)) where
  sent := by
    obtain ⟨left, hleft, hsent⟩ := updatesOf_spec session (NetworkSnapshots.knownBodies p.held)
      maxSnapshotBodyBytes (p.world.state.entries ++ p.world.openEntries order nowMs)
    refine ⟨_, left, rfl, ?_, ?_⟩
    · rw [← hleft]
      congr 1
      exact ((List.perm_insertionSort _ _).map _).sum_eq
    · apply Lib.Pointwise.insertionSort _ hsent
      intro row u row' u' hu hu'
      rw [CapturedEntry.captureId_of_metadata hu.metadata,
        CapturedEntry.captureId_of_metadata hu'.metadata]
  begun := fun row hrow response => h.heldBody_prefix (h.world.shows_of_mem_rows hrow response)
  grown := fun row hrow response =>
    (h.world.extends_of_mem_rows horder hrow response).step h.world (.snapshot order nowMs horder)

/-- The SDK takes an answer. -/
theorem Answered.held {session : Str} {w : World} {held : List Entry} {rows : List CapturedEntry}
    {entries : List Entry} (h : Answered session w held rows entries) :
    ∃ left, (entries.map fun x => x.row.bodyBytes).sum + left = maxSnapshotBodyBytes ∧
      List.Forall₂ (Held session left) rows (NetworkSnapshots.update held entries) := by
  obtain ⟨us, left, rfl, hleft, hsent⟩ := h.sent
  refine ⟨left, ?_, ?_⟩
  · rw [List.map_map]
    exact hleft
  · rw [update_map, List.forall₂_map_right_iff]
    exact Lib.Pointwise.imp_of_mem hsent fun row hrow u _ hu => hu.held (h.begun row hrow)

theorem captureIds_of_held {session : Str} {left : ℕ} {rows : List CapturedEntry}
    {held : List Entry} (h : List.Forall₂ (Held session left) rows held) :
    held.map (·.captureId) = rows.map fun row => captureKey session row.captureId := by
  induction h with
  | nil => rfl
  | cons hx _ ih => exact congrArg₂ List.cons hx.captureId ih

/-- **Every step keeps the invariant**, and what a poll brings is what `Held` says. -/
theorem Polling.Inv.step {session : Str} {p p' : Polling} {op : PollOp} {e : PollEvent}
    (h : p.Inv session) (hstep : p.step session op = some (p', e)) :
    p'.Inv session ∧ ∀ rows entries held, e = .received rows entries held →
      ∃ left, (entries.map fun x => x.row.bodyBytes).sum + left = maxSnapshotBodyBytes ∧
        List.Forall₂ (Held session left) rows held := by
  have hinside : ∀ {e : PollEvent}, e = .inside → ∀ rows entries held,
      e = .received rows entries held →
      ∃ left, (entries.map fun x => x.row.bodyBytes).sum + left = maxSnapshotBodyBytes ∧
        List.Forall₂ (Held session left) rows held := by
    rintro e rfl rows entries held hcon
    cases hcon
  cases op with
  | daemon op =>
    obtain ⟨r, hr, heq⟩ := Option.map_eq_some_iff.mp hstep
    cases heq
    exact ⟨h.daemon (change_of_step hr), hinside rfl⟩
  | ask =>
    rw [Polling.step] at hstep
    split at hstep
    · cases hstep
      exact ⟨⟨h.world, h.held, rfl⟩, hinside rfl⟩
    · cases hstep
  | answer order nowMs =>
    rw [Polling.step] at hstep
    split at hstep
    · rename_i known hpoll
      have hknown := h.poll
      rw [hpoll] at hknown
      split at hstep
      · rename_i horder
        cases hstep
        obtain rfl : known = NetworkSnapshots.knownBodies p.held := hknown
        have hgone := h.daemon (.snapshot order nowMs horder)
        exact ⟨⟨hgone.world, hgone.held, h.answered horder nowMs⟩, hinside rfl⟩
      · cases hstep
    · cases hstep
  | receive =>
    rw [Polling.step] at hstep
    split at hstep
    · rename_i rows entries hpoll
      have hanswered := h.poll
      rw [hpoll] at hanswered
      obtain ⟨left, hleft, hheld⟩ := Answered.held hanswered
      cases hstep
      refine ⟨⟨h.world, fun x hx => ?_, trivial⟩, ?_⟩
      · obtain ⟨row, hrow, hrx⟩ := Lib.Pointwise.exists_of_mem_right hheld hx
        refine ⟨row.captureId, hrx.captureId, fun response => ?_⟩
        obtain ⟨hlt, hgrown⟩ := hanswered.grown row hrow response
        exact ⟨hlt, fun b hb => (hrx.begun response).trans (hgrown b hb)⟩
      · rintro _ _ _ ⟨⟩
        exact ⟨left, hleft, hheld⟩
    · cases hstep
  | lose =>
    cases hstep
    exact ⟨⟨h.world, h.held, trivial⟩, hinside rfl⟩
  | attempt =>
    cases hstep
    exact ⟨⟨h.world, fun x hx => absurd hx List.not_mem_nil, trivial⟩, hinside rfl⟩

/-- **What a poll brings.**  In every run of a proxy and its SDK, with the streams going on at any
    point, drains, resets, lost polls and new attempts, an answer keeps to the budget, and after it
    the SDK holds one entry for each row that the daemon had, in its order: all of the row but its
    bodies as they were, and of each body the beginning, which is the whole body unless it would
    not have fitted into what was left of the budget. -/
theorem polls_exact {session : Str} {events : List PollEvent} {p : Polling}
    (h : Run (Steps (Polling.step session)) Polling.init events p) :
    ∀ rows entries held, .received rows entries held ∈ events →
      ∃ left, (entries.map fun x => x.row.bodyBytes).sum + left = maxSnapshotBodyBytes ∧
        List.Forall₂ (Held session left) rows held := by
  intro rows entries held hmem
  exact Run.always (fun _ _ _ hinv ⟨_, hstep⟩ => hinv.step hstep) h (Polling.inv_init session) _
    hmem rows entries held rfl

/-- A stream that is opened and gets one byte. -/
def oneStream : List PollOp := [.daemon (.openStream [] [] 0 [] true []), .daemon (.data 0 true [1])]

/-- The proxy with that stream. -/
def oneStreamWorld : World :=
  (World.init.openStream (openEntry [] [] 0 [] true [])).setTask 0
    (some ((StreamTask.new 0 (openEntry [] [] 0 [] true [])).data true [1]))

theorem run_oneStream : Run (Steps (Polling.step [])) Polling.init [.inside, .inside]
    { world := oneStreamWorld, held := [], poll := .idle } :=
  exec_run (show exec (Polling.step []) Polling.init oneStream = some _ from rfl)

/-- One poll of that stream. -/
theorem polls_exact_stream : ∃ (rows : List CapturedEntry) (entries held : List Entry) (left : ℕ),
    (entries.map fun x => x.row.bodyBytes).sum + left = maxSnapshotBodyBytes ∧
      List.Forall₂ (Held [] left) rows held ∧ rows ≠ [] := by
  have hround : exec (Polling.step []) { world := oneStreamWorld, held := [], poll := .idle }
      [.ask, .answer [0] (fun _ => 0), .receive] = some _ := rfl
  obtain ⟨left, hleft, hheld⟩ := polls_exact (run_oneStream.trans (exec_run hround)) _ _ _
    (List.mem_append_right _ (List.mem_of_getElem? (i := 2) rfl))
  exact ⟨_, _, _, left, hleft, hheld, by decide +kernel⟩

/-! ### Once nothing changes any more -/

/-- The three steps of one poll. -/
def pollRound (r : List ℕ × (ℕ → ℕ)) : List PollOp := [.ask, .answer r.1 r.2, .receive]

/-- The bodies of some rows, with their ids and directions. -/
def bodiesOf (rows : List CapturedEntry) : List (ℕ × Bool × Bytes) :=
  rows.flatMap fun row =>
    [(row.captureId, false, row.requestBody), (row.captureId, true, row.responseBody)]

/-- The bodies of all rows of a proxy. -/
def World.bodies (w : World) : List (ℕ × Bool × Bytes) :=
  bodiesOf (w.state.entries ++ w.openEntries w.state.inFlight fun _ => 0)

/-- How many of these bodies the SDK does not have whole. -/
def missing (session : Str) (held : List Entry) (bodies : List (ℕ × Bool × Bytes)) : ℕ :=
  bodies.countP fun b => heldBody held (captureKey session b.1) b.2.1 ≠ b.2.2

theorem mem_bodiesOf {rows : List CapturedEntry} {b : ℕ × Bool × Bytes} :
    b ∈ bodiesOf rows ↔ ∃ row ∈ rows, b = (row.captureId, b.2.1, row.body b.2.1) := by
  obtain ⟨id, response, bytes⟩ := b
  rw [bodiesOf, List.mem_flatMap]
  refine exists_congr fun row => and_congr_right fun _ => ?_
  cases response <;> simp [CapturedEntry.body]

/-- The bodies of the stream with that key. -/
def World.streamBodies (w : World) (key : ℕ) : List (ℕ × Bool × Bytes) :=
  ((w.tasks key).map fun t => bodiesOf [t.capture.entry]).getD []

/-- The bodies of the open rows do not depend on the time. -/
theorem bodiesOf_openEntries (w : World) (order : List ℕ) (nowMs : ℕ → ℕ) :
    bodiesOf (w.openEntries order nowMs) = order.flatMap w.streamBodies := by
  induction order with
  | nil => rfl
  | cons k order ih =>
    rw [World.openEntries, List.filterMap_cons, List.flatMap_cons, World.streamBodies]
    cases ht : w.tasks k with
    | none => exact ih
    | some t => exact congrArg _ ih

theorem streamBodies_alive (w : World) (order : List ℕ) :
    (w.alive order).flatMap w.streamBodies = order.flatMap w.streamBodies := by
  induction order with
  | nil => rfl
  | cons k order ih =>
    rw [World.alive, List.filter_cons, List.flatMap_cons]
    cases ht : w.tasks k with
    | none =>
      have hnone : w.streamBodies k = [] := by
        rw [World.streamBodies, ht]
        rfl
      rw [hnone]
      exact ih
    | some t =>
      rw [Option.isSome_some, if_pos rfl, List.flatMap_cons]
      exact congrArg _ ih

/-- A row list of the proxy, in any order, has its bodies. -/
theorem World.bodies_perm (w : World) {order : List ℕ} (horder : order.Perm w.state.inFlight)
    (nowMs : ℕ → ℕ) : (bodiesOf (w.state.entries ++ w.openEntries order nowMs)).Perm w.bodies := by
  rw [World.bodies, bodiesOf, bodiesOf, List.flatMap_append, List.flatMap_append]
  apply List.Perm.append_left
  rw [← bodiesOf, ← bodiesOf, bodiesOf_openEntries, bodiesOf_openEntries]
  exact horder.flatMap_right _

theorem World.bodies_retain (w : World) {order : List ℕ} (horder : order.Perm w.state.inFlight) :
    (w.retain order).bodies.Perm w.bodies := by
  refine List.Perm.trans (List.Perm.of_eq ?_) (w.bodies_perm horder fun _ => 0)
  rw [World.bodies, bodiesOf, bodiesOf, List.flatMap_append, List.flatMap_append]
  show _ ++ bodiesOf (World.openEntries (w.retain order) (w.alive order) fun _ => 0)
    = _ ++ bodiesOf (w.openEntries order fun _ => 0)
  rw [bodiesOf_openEntries, bodiesOf_openEntries]
  exact congrArg _ (streamBodies_alive w order)

/-- What is known of a body is the length of what is held. -/
theorem knownLength_heldBody (held : List Entry) (key : Str) (response : Bool) :
    knownLength ((NetworkSnapshots.knownBodies held).get key) response
        = some (heldBody held key response).length ∨
      knownLength ((NetworkSnapshots.knownBodies held).get key) response = none ∧
        heldBody held key response = [] := by
  rw [knownBodies_get, heldBody]
  cases NetworkSnapshots.previous held key with
  | none => exact .inr ⟨rfl, rfl⟩
  | some x => cases response <;> exact .inl rfl

/-- A body that is held whole takes nothing of the budget. -/
theorem copyBody_held {budget : ℕ} {body held : Bytes} {known : Option ℕ}
    (hknown : known = some held.length ∨ known = none ∧ held = []) (h : held = body) :
    (copyBody budget body known).2.2 = budget := by
  obtain rfl := h
  rcases hknown with rfl | ⟨rfl, rfl⟩
  · rw [copyBody, if_pos (Or.inl rfl)]
  · rw [copyBody]
    split
    · rfl
    · exact Nat.sub_zero budget

/-- A body that is not held whole, and fits, is sent. -/
theorem copyBody_missing {budget : ℕ} {body held : Bytes} {known : Option ℕ}
    (hknown : known = some held.length ∨ known = none ∧ held = []) (hbegun : held <+: body)
    (h : held ≠ body) (hfits : body.length ≤ budget) : (copyBody budget body known).2.1 = false := by
  rw [copyBody, if_neg]
  rintro (hlen | hlong)
  · rcases hknown with rfl | ⟨rfl, -⟩
    · exact h (hbegun.eq_of_length (Option.some.inj hlen))
    · cases hlen
  · exact absurd hfits (Nat.not_le.mpr hlong)

/-- **An answer makes progress**: the first body that is missing, in the order in which the rows
    are run through, finds the whole budget. -/
theorem updatesOf_progress {session : Str} {held : List Entry} {budget : ℕ}
    {rows : List CapturedEntry}
    (hbegun : ∀ row ∈ rows, ∀ response,
      heldBody held (captureKey session row.captureId) response <+: row.body response)
    (hfits : ∀ row ∈ rows, ∀ response, (row.body response).length ≤ budget)
    (hmissing : ∃ row ∈ rows, ∃ response,
      heldBody held (captureKey session row.captureId) response ≠ row.body response) :
    ∃ row ∈ rows, ∃ u ∈ updatesOf session (NetworkSnapshots.knownBodies held) budget rows,
      ∃ left, Sent ((NetworkSnapshots.knownBodies held).get (captureKey session row.captureId)) left
        row u ∧ ∃ response,
        heldBody held (captureKey session row.captureId) response ≠ row.body response ∧
          u.omitted response = false := by
  induction rows with
  | nil =>
    obtain ⟨row, hrow, -⟩ := hmissing
    exact absurd hrow List.not_mem_nil
  | cons e rest ih =>
    have hknown := knownLength_heldBody held (captureKey session e.captureId)
    have hsent := (snapshotUpdate_spec e
      ((NetworkSnapshots.knownBodies held).get (captureKey session e.captureId)) budget).2
    have hfirst := hfits e List.mem_cons_self
    have hstart := hbegun e List.mem_cons_self
    by_cases hreq : heldBody held (captureKey session e.captureId) false = e.body false
    · have hmid := @copyBody_held budget _ _ _ (hknown false) hreq
      by_cases hresp : heldBody held (captureKey session e.captureId) true = e.body true
      · -- nothing of this row is missing, and the rest finds the whole budget
        have hsame : (e.snapshotUpdate ((NetworkSnapshots.knownBodies held).get
            (captureKey session e.captureId)) budget).2 = budget := by
          refine Eq.trans ?_ hmid
          exact copyBody_held (hknown true) hresp
        obtain ⟨row, hrow, u, hu, hrest⟩ := ih
          (fun row hrow => hbegun row (List.mem_cons_of_mem _ hrow))
          (fun row hrow => hfits row (List.mem_cons_of_mem _ hrow)) (by
            obtain ⟨row, hrow, response, hne⟩ := hmissing
            rcases List.mem_cons.mp hrow with rfl | hrow
            · cases response
              · exact absurd hreq hne
              · exact absurd hresp hne
            · exact ⟨row, hrow, response, hne⟩)
        refine ⟨row, List.mem_cons_of_mem _ hrow, u, ?_, hrest⟩
        rw [updatesOf, hsame]
        exact List.mem_cons_of_mem _ hu
      · refine ⟨e, List.mem_cons_self, _, List.mem_cons_self, _, hsent, true, hresp, ?_⟩
        refine copyBody_missing (hknown true) (hstart true) hresp ?_
        exact (hfirst true).trans (Nat.le_of_eq hmid.symm)
    · exact ⟨e, List.mem_cons_self, _, List.mem_cons_self, _, hsent, false, hreq,
        copyBody_missing (hknown false) (hstart false) hreq (hfirst false)⟩

/-! ### Rounds -/

/-- Where every held entry has an id of its own, each is found by its id. -/
theorem previous_of_mem {held : List Entry} (hnodup : (held.map (·.captureId)).Nodup) {x : Entry}
    (hx : x ∈ held) (hkey : x.captureId ≠ []) :
    NetworkSnapshots.previous held x.captureId = some x := by
  have hsome : (NetworkSnapshots.previous held x.captureId).isSome := by
    rw [NetworkSnapshots.previous, List.find?_isSome]
    refine ⟨x, List.mem_reverse.mpr (List.mem_filter.mpr ⟨hx, ?_⟩), decide_eq_true rfl⟩
    exact decide_eq_true hkey
  obtain ⟨y, hy⟩ := Option.isSome_iff_exists.mp hsome
  obtain ⟨hmem, hid⟩ := mem_of_previous hy
  rw [hy, List.inj_on_of_nodup_map hnodup hmem hx hid]

/-- What one poll leaves, where nothing else happens in between. -/
theorem exec_pollRound {session : Str} {p p' : Polling} {events : List PollEvent}
    {r : List ℕ × (ℕ → ℕ)} (hidle : p.poll = .idle)
    (h : exec (Polling.step session) p (pollRound r) = some (p', events)) :
    r.1.Perm p.world.state.inFlight ∧ ∃ entries,
      entries = (p.world.snapshotUpdates session (NetworkSnapshots.knownBodies p.held) r.1 r.2).map
        (capturedEntryToProto session) ∧
      p' = { world := p.world.retain r.1
             held := NetworkSnapshots.update p.held entries
             poll := .idle } ∧
      events = [.inside, .inside, .received (p.world.rows r.1 r.2) entries p'.held] := by
  have hask : p.step session .ask
      = some ({ p with poll := .asked (NetworkSnapshots.knownBodies p.held) }, .inside) := by
    rw [Polling.step, hidle]
  rw [pollRound, exec, hask, Option.bind_some, exec] at h
  by_cases horder : r.1.Perm p.world.state.inFlight
  · have hanswer : Polling.step session
        { p with poll := .asked (NetworkSnapshots.knownBodies p.held) } (.answer r.1 r.2)
        = some ({ p with
            world := p.world.retain r.1
            poll := .answered (p.world.rows r.1 r.2)
              ((p.world.snapshotUpdates session (NetworkSnapshots.knownBodies p.held) r.1 r.2).map
                (capturedEntryToProto session)) }, .inside) := if_pos horder
    rw [hanswer] at h
    cases h
    exact ⟨horder, _, rfl, rfl, rfl⟩
  · have hanswer : Polling.step session
        { p with poll := .asked (NetworkSnapshots.knownBodies p.held) } (.answer r.1 r.2) = none :=
      if_neg horder
    rw [hanswer] at h
    cases h

/-- Everything the proxy has fits into one answer. -/
def World.Fits (w : World) : Prop :=
  ∀ id response b, w.Shows id response b → b.length ≤ maxSnapshotBodyBytes

/-- The held entries of one round, against the rows. -/
theorem held_pollRound {session : Str} {p p' : Polling} {events : List PollEvent}
    {r : List ℕ × (ℕ → ℕ)} (hinv : p.Inv session) (hidle : p.poll = .idle)
    (h : exec (Polling.step session) p (pollRound r) = some (p', events)) :
    (∃ left, List.Forall₂ (Held session left) (p.world.rows r.1 r.2) p'.held) ∧
      (p'.held.map (·.captureId)).Nodup := by
  obtain ⟨horder, entries, rfl, rfl, -⟩ := exec_pollRound hidle h
  obtain ⟨left, -, hheld⟩ := (hinv.answered horder r.2).held
  refine ⟨⟨left, hheld⟩, ?_⟩
  have hids : ((p.world.rows r.1 r.2).map (·.captureId)).Nodup :=
    (hinv.world.rows_sorted horder r.2).imp Nat.ne_of_lt
  have hkeys := hids.map (f := captureKey session) fun _ _ => captureKey_inj
  rw [List.map_map] at hkeys
  rw [captureIds_of_held hheld]
  exact hkeys

/-- What is held of a body after one round. -/
theorem heldBody_pollRound {session : Str} {p p' : Polling} {events : List PollEvent}
    {r : List ℕ × (ℕ → ℕ)} (hinv : p.Inv session) (hidle : p.poll = .idle)
    (h : exec (Polling.step session) p (pollRound r) = some (p', events)) {u : SnapshotEntry}
    (hu : u ∈ updatesOf session (NetworkSnapshots.knownBodies p.held) maxSnapshotBodyBytes
      (p.world.state.entries ++ p.world.openEntries r.1 r.2)) (response : Bool) :
    heldBody p'.held (captureKey session u.entry.captureId) response
      = if u.omitted response then
          heldBody p.held (captureKey session u.entry.captureId) response
        else u.entry.body response := by
  obtain ⟨-, hnodup⟩ := held_pollRound hinv hidle h
  obtain ⟨-, entries, rfl, rfl, -⟩ := exec_pollRound hidle h
  rw [update_map] at hnodup ⊢
  have hmem : updated session p.held u ∈ (p.world.snapshotUpdates session
      (NetworkSnapshots.knownBodies p.held) r.1 r.2).map (updated session p.held) :=
    List.mem_map_of_mem ((List.mem_insertionSort _).mpr hu)
  have hfound := previous_of_mem hnodup hmem (captureKey_ne_nil session _)
  rw [← updated_body, heldBody]
  exact congrArg (fun o : Option Entry => (o.map fun e => e.row.body response).getD []) hfound

/-- **One round** leaves fewer bodies missing, or none. -/
theorem missing_pollRound {session : Str} {p p' : Polling} {events : List PollEvent}
    {r : List ℕ × (ℕ → ℕ)} (hinv : p.Inv session) (hidle : p.poll = .idle) (hfits : p.world.Fits)
    (h : exec (Polling.step session) p (pollRound r) = some (p', events)) :
    missing session p'.held p'.world.bodies = 0 ∨
      missing session p'.held p'.world.bodies < missing session p.held p.world.bodies := by
  have hafter := fun u hu => @heldBody_pollRound session p p' events r hinv hidle h u hu
  obtain ⟨horder, entries, -, hp', -⟩ := exec_pollRound hidle h
  have hrows : ∀ row ∈ p.world.state.entries ++ p.world.openEntries r.1 r.2, ∀ response,
      p.world.Shows row.captureId response (row.body response) := fun row hrow response =>
    hinv.world.shows_of_mem_rows ((List.mem_insertionSort _).mpr hrow) response
  have hworld : p'.world = p.world.retain r.1 := congrArg Polling.world hp'
  obtain ⟨left, -, hsent⟩ := updatesOf_spec session (NetworkSnapshots.knownBodies p.held)
    maxSnapshotBodyBytes (p.world.state.entries ++ p.world.openEntries r.1 r.2)
  -- both counts are about the rows as the daemon ran through them
  have hperm := p.world.bodies_perm horder r.2
  have hperm' := hperm.trans (p.world.bodies_retain horder).symm
  rw [missing, missing, hworld, ← hperm.countP_eq, ← hperm'.countP_eq]
  -- what is held whole stays so
  have hkeep : ∀ b ∈ bodiesOf (p.world.state.entries ++ p.world.openEntries r.1 r.2),
      heldBody p.held (captureKey session b.1) b.2.1 = b.2.2 →
      heldBody p'.held (captureKey session b.1) b.2.1 = b.2.2 := by
    intro b hb hwhole
    obtain ⟨row, hrow, heq⟩ := mem_bodiesOf.mp hb
    rw [heq] at hwhole ⊢
    obtain ⟨u, hu, hrow⟩ := Lib.Pointwise.exists_of_mem_left hsent hrow
    have hnow := hafter u hu b.2.1
    rw [CapturedEntry.captureId_of_metadata hrow.metadata] at hnow
    rcases hrow.body b.2.1 with ⟨homit, hsame⟩ | ⟨homit, -, -⟩
    · rw [homit] at hnow
      exact hnow.trans hsame
    · rw [homit] at hnow
      exact hnow.trans hwhole
  by_cases hnone : ∀ b ∈ bodiesOf (p.world.state.entries ++ p.world.openEntries r.1 r.2),
      heldBody p.held (captureKey session b.1) b.2.1 = b.2.2
  · left
    rw [List.countP_eq_zero]
    intro b hb hcon
    exact of_decide_eq_true hcon (hkeep b hb (hnone b hb))
  · right
    simp only [not_forall] at hnone
    obtain ⟨b, hb, hne⟩ := hnone
    obtain ⟨row₀, hrow₀, heq₀⟩ := mem_bodiesOf.mp hb
    rw [heq₀] at hne
    obtain ⟨row, hrow, u, hu, left', hrowSent, response, hmissing, homit⟩ := updatesOf_progress
      (fun row hrow response => hinv.heldBody_prefix (hrows row hrow response))
      (fun row hrow response => hfits _ _ _ (hrows row hrow response))
      ⟨row₀, hrow₀, b.2.1, hne⟩
    have hnow := hafter u hu response
    rw [CapturedEntry.captureId_of_metadata hrowSent.metadata, homit] at hnow
    have hwhole : heldBody p'.held (captureKey session row.captureId) response
        = row.body response := by
      rcases hrowSent.body response with ⟨-, hsame⟩ | ⟨hcon, -⟩
      · exact hnow.trans hsame
      · rw [homit] at hcon
        cases hcon
    refine Lib.Tally.countP_lt_countP (a := (row.captureId, response, row.body response))
      (fun b hb hcon => ?_) (mem_bodiesOf.mpr ⟨row, hrow, rfl⟩) (decide_eq_true hmissing)
      (decide_eq_false fun hcon => hcon hwhole)
    exact decide_eq_true fun hheld => of_decide_eq_true hcon (hkeep b hb hheld)

theorem CapturedEntry.eq_of_metadata {a b : CapturedEntry} (h : a.metadata = b.metadata)
    (hbody : ∀ response, a.body response = b.body response) : a = b := by
  have hreq : a.requestBody = b.requestBody := hbody false
  have hresp : a.responseBody = b.responseBody := hbody true
  calc a = { a.metadata with requestBody := a.requestBody, responseBody := a.responseBody } := rfl
    _ = { b.metadata with requestBody := b.requestBody, responseBody := b.responseBody } := by
      rw [h, hreq, hresp]
    _ = b := rfl

/-- With nothing missing, the SDK holds just the rows of the daemon. -/
theorem complete_pollRound {session : Str} {p p' : Polling} {events : List PollEvent}
    {r : List ℕ × (ℕ → ℕ)} (hinv : p.Inv session) (hidle : p.poll = .idle)
    (h : exec (Polling.step session) p (pollRound r) = some (p', events))
    (hnone : missing session p'.held p'.world.bodies = 0) :
    p'.held.map (·.row) = p.world.rows r.1 r.2 ∧
      p'.held.map (·.captureId)
        = (p.world.rows r.1 r.2).map fun row => captureKey session row.captureId := by
  obtain ⟨⟨left, hheld⟩, hnodup⟩ := held_pollRound hinv hidle h
  obtain ⟨horder, entries, -, hp', -⟩ := exec_pollRound hidle h
  have hperm := (p.world.bodies_perm horder r.2).trans (p.world.bodies_retain horder).symm
  rw [missing, congrArg Polling.world hp', ← hperm.countP_eq, List.countP_eq_zero] at hnone
  refine ⟨?_, captureIds_of_held hheld⟩
  have hrows : List.Forall₂ (fun row (x : Entry) => row = x.row) (p.world.rows r.1 r.2)
      p'.held := by
    apply Lib.Pointwise.imp_of_mem hheld
    intro row hrow x hx hrx
    refine (CapturedEntry.eq_of_metadata hrx.metadata fun response => ?_).symm
    have hkey : x.captureId ≠ [] := hrx.captureId ▸ captureKey_ne_nil session _
    have hfound := previous_of_mem hnodup hx hkey
    rw [hrx.captureId] at hfound
    have hwhole := hnone (row.captureId, response, row.body response)
      (mem_bodiesOf.mpr ⟨row, (List.mem_insertionSort _).mp hrow, rfl⟩)
    rw [decide_eq_true_eq, not_not, heldBody, hfound] at hwhole
    exact hwhole
  rw [← List.forall₂_eq_eq_eq, List.forall₂_map_left_iff]
  exact (hrows.imp fun _ _ heq => heq.symm).flip

/-- **Polls catch up.**  From any state that a run reaches, where no poll is on its way and every
    body fits into one answer: after as many polls as there are bodies missing, with nothing else
    in between, the SDK holds exactly the rows of the daemon, whole and in order, whatever order
    the registry is run through in each of them. -/
theorem polls_converge {session : Str} {events events' : List PollEvent} {p p' : Polling}
    {rounds : List (List ℕ × (ℕ → ℕ))} {last : List ℕ × (ℕ → ℕ)}
    (h : Run (Steps (Polling.step session)) Polling.init events p) (hidle : p.poll = .idle)
    (hfits : p.world.Fits)
    (hrounds : exec (Polling.step session) p ((rounds ++ [last]).flatMap pollRound)
      = some (p', events'))
    (hmany : missing session p.held p.world.bodies ≤ rounds.length + 1) :
    p'.held.map (·.row) = p.world.rows last.1 last.2 ∧
      p'.held.map (·.captureId)
        = (p.world.rows last.1 last.2).map fun row => captureKey session row.captureId := by
  have hinv : p.Inv session :=
    h.invariant (fun _ _ _ hinv ⟨_, hstep⟩ => (hinv.step hstep).1) (Polling.inv_init session)
  clear h
  induction rounds generalizing p events' with
  | nil =>
    rw [List.nil_append, List.flatMap_singleton] at hrounds
    apply complete_pollRound hinv hidle hrounds
    rcases missing_pollRound hinv hidle hfits hrounds with hnone | hless
    · exact hnone
    · rw [List.length_nil] at hmany
      omega
  | cons r rounds ih =>
    rw [List.cons_append, List.flatMap_cons, exec_append, Option.bind_eq_some_iff] at hrounds
    obtain ⟨⟨p₁, events₁⟩, hfirst, hrest⟩ := hrounds
    obtain ⟨⟨p₂, events₂⟩, hlater, heq⟩ := Option.map_eq_some_iff.mp hrest
    cases heq
    have hless := missing_pollRound hinv hidle hfits hfirst
    obtain ⟨horder, entries, -, hp₁, -⟩ := exec_pollRound hidle hfirst
    have hinv₁ : p₁.Inv session := (exec_run hfirst).invariant
      (fun _ _ _ hinv ⟨_, hstep⟩ => (hinv.step hstep).1) hinv
    have hworld : p₁.world = p.world.retain r.1 := congrArg Polling.world hp₁
    have hmany₁ : missing session p₁.held p₁.world.bodies ≤ rounds.length + 1 := by
      rw [List.length_cons] at hmany
      omega
    have hend := ih (congrArg Polling.poll hp₁) (by rw [hworld]; exact hfits) hlater hmany₁
      hinv₁
    rw [hworld] at hend
    exact hend

theorem fits_oneStreamWorld : oneStreamWorld.Fits := by
  rintro id response b (⟨row, hrow, -⟩ | ⟨t, ht, rfl⟩)
  · exact absurd hrow List.not_mem_nil
  · rw [oneStreamWorld, World.setTask_tasks] at ht
    split at ht
    · cases ht
      cases response <;> decide +kernel
    · rename_i hkey
      rw [World.openStream_tasks] at ht
      have hnone := (if_neg hkey).symm.trans ht
      cases hnone

/-- One poll brings the byte of that stream. -/
theorem polls_converge_stream : ∃ p' events',
    exec (Polling.step []) { world := oneStreamWorld, held := [], poll := .idle }
      (([] ++ [([0], fun _ => 0)]).flatMap pollRound) = some (p', events') ∧
    p'.held.map (·.row) = oneStreamWorld.rows [0] fun _ => 0 := by
  have hround : exec (Polling.step []) { world := oneStreamWorld, held := [], poll := .idle }
      (([] ++ [([0], fun _ => 0)]).flatMap pollRound) = some _ := rfl
  have hone : missing [] [] oneStreamWorld.bodies ≤ 0 + 1 := by decide +kernel
  exact ⟨_, _, hround,
    (polls_converge run_oneStream rfl fits_oneStreamWorld hround hone).1⟩

end Tapsmith.Capture
