import Tapsmith.Capture.Invariant

namespace Tapsmith.Capture

open Lib Lib.Machine Lib.Stream Lib.Text Tapsmith.Http

/-!
# The size of stored bodies

Every code path truncates the bodies it stores, each on its own, and the tees of an open stream
stop at the limit.  One path does not: the row of a forward-proxy request whose server cannot be
reached keeps the request body whole.

* `Op.Fits` — the operation is not such a row with a longer body;
* `capped_of_fits` — in a run of such operations everything stored keeps to the limit.
-/

/-- The recorded bodies keep to the limit by themselves: no request to an unreachable server with
    a longer body. -/
def Source.Fits : Source → Prop
  | .forwardProxy call => ∀ body, call.unreachableBody = some body → body.length ≤ maxBodySize
  | _ => True

def Op.Fits : Op → Prop
  | .push src => src.Fits
  | _ => True

/-- The recorded row keeps to the limit just when its source fits. -/
theorem Source.capped_iff {src : Source} {row : CapturedEntry} (h : src.row = some row) :
    Capped row ↔ src.Fits := by
  cases src with
  | record =>
    cases h
    exact iff_of_true (capped_recordEntrySized _ _ _ _ _ _ _ _ _) trivial
  | forwardProxy call => exact capped_handleHttp_iff h
  | passthrough =>
    cases h
    exact iff_of_true ⟨Nat.zero_le _, Nat.zero_le _⟩ trivial

/-- Where the finished rows of a step come from. -/
theorem entries_of_step {w w' : World} {op : Op} {e : Event} (h : w.step op = some (w', e)) :
    ∀ row ∈ w'.state.entries, row ∈ w.state.entries ∨
      (∃ src r, op = .push src ∧ src.row = some r ∧
        row = { r with captureId := w.state.nextStreamKey }) ∨
      ∃ key t, w.tasks key = some t ∧ t.final = some row := by
  have hopen : ∀ {key : ℕ} {u : StreamTask → StreamTask},
      ((w.tasks key).bind fun t => if t.final = none then
        some (w.setTask key (some (u t)), Event.inside) else none) = some (w', e) →
      w'.state.entries = w.state.entries := by
    intro key u h
    obtain ⟨t, -, h⟩ := Option.bind_eq_some_iff.mp h
    split at h
    · cases h
      rfl
    · cases h
  intro row hrow
  cases op with
  | push src =>
    obtain ⟨r, hr, heq⟩ := Option.map_eq_some_iff.mp h
    cases heq
    rcases List.mem_append.mp hrow with hrow | hrow
    · exact Or.inl hrow
    · exact Or.inr (Or.inl ⟨src, r, rfl, hr, List.mem_singleton.mp hrow⟩)
  | commit key =>
    obtain ⟨t, ht, h⟩ := Option.bind_eq_some_iff.mp h
    obtain ⟨r, hr, heq⟩ := Option.map_eq_some_iff.mp h
    cases heq
    rcases List.mem_append.mp hrow with hrow | hrow
    · exact Or.inl hrow
    · exact Or.inr (Or.inr ⟨key, t, ht, by rw [hr, List.mem_singleton.mp hrow]⟩)
  | openStream =>
    cases h
    exact Or.inl hrow
  | publishHead => exact Or.inl (hopen h ▸ hrow)
  | data => exact Or.inl (hopen h ▸ hrow)
  | finish => exact Or.inl (hopen h ▸ hrow)
  | cancel =>
    obtain ⟨t, -, heq⟩ := Option.map_eq_some_iff.mp h
    cases heq
    exact Or.inl hrow
  | snapshotEntries =>
    rw [World.step] at h
    split at h <;> cases h
    exact Or.inl hrow
  | drainEntries =>
    rw [World.step] at h
    split at h <;> cases h
    exact absurd hrow List.not_mem_nil
  | resetCaptureState =>
    cases h
    exact absurd hrow List.not_mem_nil

/-- **One step** stores no longer body, if its operation fits. -/
theorem capped_step {w w' : World} {op : Op} {e : Event} (hinv : w.Inv)
    (h : w.step op = some (w', e)) (hfits : op.Fits) (hcap : ∀ row ∈ w.state.entries, Capped row) :
    ∀ row ∈ w'.state.entries, Capped row := by
  intro row hrow
  rcases entries_of_step h row hrow with hrow | ⟨src, r, rfl, hr, rfl⟩ | ⟨key, t, ht, hfinal⟩
  · exact hcap row hrow
  · exact (Source.capped_iff hr).mpr hfits
  · have htask := hinv.task key t ht
    obtain ⟨-, -, hbody⟩ := htask.final row hfinal
    rw [capped_iff]
    intro response
    rw [hbody response]
    exact capped_iff.mp htask.capped response

/-- A step whose operation fits. -/
def FittingStep (w : World) (e : Event) (w' : World) : Prop :=
  ∃ op : Op, op.Fits ∧ w.step op = some (w', e)

/-- **Stored bodies are capped.**  In every run without an oversized request to an unreachable
    server, the bodies of all finished rows and of all open streams keep to the limit. -/
theorem capped_of_fits {events : List Event} {w : World}
    (h : Run FittingStep World.init events w) :
    (∀ row ∈ w.state.entries, Capped row) ∧
      ∀ key t, w.tasks key = some t → Capped t.capture.entry := by
  have hpres : ∀ (s : World) (e : Event) (s' : World),
      s.Inv ∧ (∀ row ∈ s.state.entries, Capped row) → FittingStep s e s' →
      s'.Inv ∧ ∀ row ∈ s'.state.entries, Capped row := by
    rintro s e s' ⟨hinv, hcap⟩ ⟨op, hfits, hstep⟩
    exact ⟨hinv.step (change_of_step hstep), capped_step hinv hstep hfits hcap⟩
  obtain ⟨hinv, hcap⟩ := Run.invariant hpres h
    ⟨World.inv_init, fun row hrow => absurd hrow List.not_mem_nil⟩
  exact ⟨hcap, fun key t ht => (hinv.task key t ht).capped⟩

/-- A recorded marker of a tunneled connection. -/
theorem capped_of_fits_passthrough : ∃ events w, Run FittingStep World.init events w ∧
    w.state.entries ≠ [] ∧ ∀ row ∈ w.state.entries, Capped row := by
  have hstep : FittingStep World.init _ _ :=
    ⟨.push (.passthrough "h".toList 443 .unattributed 0), trivial, rfl⟩
  have hrun := Run.nil.snoc hstep
  exact ⟨_, _, hrun, List.cons_ne_nil _ _, (capped_of_fits hrun).1⟩

/-- The head of a `POST` with one byte more than the limit. -/
def oversizedHead : Bytes :=
  bytes "POST http://h/ HTTP/1.1\r\nContent-Length: 1048577\r\n\r\n"

/-- The request through the proxy, with `body` behind its head, to a server that is not
    reached. -/
def unreachablePost (body : Bytes) : HttpCall where
  method := "POST".toList
  targetUrl := "http://h/".toList
  initialData := oversizedHead
  client := [.ready body]
  handler := none
  fetchUpstream := fun _ => none
  connects := fun _ => false
  answer := fun _ => none
  startMs := 0
  nowMs := 0

theorem unreachablePost_body {body : Bytes} (hlen : body.length = 1048577) :
    ∃ req, handleHttp (unreachablePost body) = some ((unreachablePost body).connectFailure req) ∧
      req.body = body := by
  have hurl : parseHttpUrl "http://h/".toList = some ("h".toList, "/".toList) := by decide
  have hhead : parseHeaders oversizedHead
      = ([("Content-Length".toList, "1048577".toList)], 52) := by decide +kernel
  have hdrop : oversizedHead.drop 52 = [] := by decide +kernel
  have hlength : ((getHeader [("Content-Length".toList, "1048577".toList)] contentLengthName).bind
      parseUsize).getD 0 = 1048577 := by decide +kernel
  have hne : body ≠ [] := by
    rintro rfl
    cases hlen
  have havail : avail [Stream.Event.ready body] = body := by
    rw [avail_ready hne, avail_nil, List.append_nil]
  obtain ⟨t', hread, -⟩ := readExact_of_le (n := 1048577) (t := [Stream.Event.ready body])
    (by rw [havail, hlen])
  have hbody : readHttpBody [("Content-Length".toList, "1048577".toList)] [] [.ready body]
      = some body := by
    rw [readHttpBody, hlength, show min 1048577 maxProxyBody = 1048577 from rfl]
    dsimp only [List.length_nil]
    rw [if_pos (by omega), Nat.sub_zero, hread, havail, List.take_of_length_le (by omega)]
    rfl
  refine ⟨{ method := "POST".toList, path := "/".toList,
            headers := [("Content-Length".toList, "1048577".toList)], body := body,
            rawBytes := [], overrideHost := none }, ?_, rfl⟩
  have hreq : (unreachablePost body).request = some ("h".toList,
      { method := "POST".toList, path := "/".toList,
        headers := [("Content-Length".toList, "1048577".toList)], body := body,
        rawBytes := [], overrideHost := none }) := by
    rw [HttpCall.request, show (unreachablePost body).targetUrl = "http://h/".toList from rfl, hurl,
      Option.bind_some]
    dsimp only
    rw [show (unreachablePost body).initialData = oversizedHead from rfl, hhead]
    dsimp only
    rw [hdrop, show (unreachablePost body).client = [.ready body] from rfl, hbody]
    rfl
  rw [handleHttp, hreq]
  rfl

/-- With one byte more than the limit, the body is stored whole. -/
theorem unreachable_body_stored_whole : ∃ events w row, Reached events w ∧
    row ∈ w.state.entries ∧ ¬ Capped row := by
  obtain ⟨body, hlen⟩ : ∃ body : Bytes, body.length = 1048577 :=
    ⟨List.replicate 1048577 0, List.length_replicate⟩
  obtain ⟨req, hrow, hbody⟩ := unreachablePost_body hlen
  have hstep : Steps World.step World.init _ _ :=
    ⟨.push (.forwardProxy (unreachablePost body)), Option.map_eq_some_iff.mpr ⟨_, hrow, rfl⟩⟩
  refine ⟨_, _, _, Run.nil.snoc hstep, List.mem_singleton_self _, fun hcap => ?_⟩
  have hle : req.body.length ≤ maxBodySize := hcap.1
  rw [hbody, hlen] at hle
  exact absurd hle (by decide)

end Tapsmith.Capture
