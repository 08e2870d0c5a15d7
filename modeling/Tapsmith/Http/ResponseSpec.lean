import Tapsmith.Http.Response
import Tapsmith.Http.StatusLine

namespace Tapsmith.Http

open Lib Lib.Search Lib.Stream

/-!
# What the response reader does

On a stream that starts with a well-formed head the reader is told by the read boundaries
alone: `verdict` is what one round comes to, `runReads` what all rounds come to.

* `onRead_eq` — one round does what `verdict` says and keeps the state `At` its boundary;
* `readResponseLoop_ofReads` — the loop does what `runReads` says;
* `readResponse_of_stopsAtEnd`, `stopsAtEnd_of_readResponse` — the reader needs nothing
  behind the stream just when its last round is the one with the last read.
-/

/-- What one round comes to. -/
inductive Verdict where
  | done
  | more
  | failed
  deriving DecidableEq

/-- What all rounds come to: at which boundary, and which reads are left. -/
inductive Run where
  | done (boundary : ℕ) (left : List Bytes)
  | failed (left : List Bytes)
  | waiting
  deriving DecidableEq

/-- Whether the stream counts as complete after a read from `p` to `n`. -/
def BodyFraming.completes (framing : BodyFraming) (stream : Bytes) (p n : ℕ) : Bool :=
  match framing with
  | .noBody => true
  | .fixedLength totalNeeded => decide (totalNeeded ≤ n)
  | .chunked headerEnd _ => chunkedDone (stream.take n) headerEnd p
  | .untilClose => false

/-- What the round with the read from `p` to `n` comes to. -/
def verdict (selected : Option BodyFraming) (stream : Bytes) (headerEnd p n : ℕ) : Verdict :=
  if n < headerEnd then if maxProxyBody < n then .failed else .more
  else match selected with
    | none => .failed
    | some framing =>
      if framing.completes stream p n then .done
      else if maxProxyBody < n then .failed else .more

/-- What the rounds with `reads`, from `p` on, come to. -/
def runReads (selected : Option BodyFraming) (stream : Bytes) (headerEnd : ℕ) :
    ℕ → List Bytes → Run
  | _, [] => .waiting
  | p, r :: rs =>
    match verdict selected stream headerEnd p (p + r.length) with
    | .done => .done (p + r.length) rs
    | .failed => .failed rs
    | .more => runReads selected stream headerEnd (p + r.length) rs

/-! ### One round -/

/-- The framing with its scan cursor at `n`. -/
def BodyFraming.scannedTo (framing : BodyFraming) (n : ℕ) : BodyFraming :=
  match framing with
  | .chunked headerEnd _ => .chunked headerEnd n
  | framing => framing

/-- The reader's variables at the boundary `n` of a stream that starts with the head `h`. -/
structure At (h : Head) (status : ℤ) (stream : Bytes) (n : ℕ) (st : ResponseReader) : Prop where
  buf : st.buf = stream.take n
  inHead : n < h.bytes.length → st.framing = none ∧ st.scanCursor = n
  inBody : h.bytes.length ≤ n → ∃ framing,
    selectFraming status h.headers h.bytes.length = some framing ∧
      st.framing = some (framing.scannedTo n) ∧ st.cachedHeaderEnd = h.bytes.length ∧
      st.cachedHeaders = h.headers ∧ st.cachedStatus = status

/-- The status read at any boundary behind the head. -/
def StatusAt (h : Head) (stream : Bytes) (status : ℤ) : Prop :=
  ∀ n, h.bytes.length ≤ n → parseStatusCode (stream.take n) = status

variable {h : Head} {status : ℤ} {rest : Bytes}

/-- The status of a status line is read at every boundary behind the head. -/
theorem statusAt_statusLine {reason : Bytes} (hstart : h.start = statusLine status reason)
    (hlo : -(2 ^ 31) ≤ status) (hhi : status < 2 ^ 31) :
    StatusAt h (h.bytes ++ rest) status := by
  intro n hn
  obtain ⟨left, hleft⟩ : ∃ left, (h.bytes ++ rest).take n
      = Http.bytes "HTTP/1.1 " ++ Utf8.encode (Text.i32ToString status) ++ 32 :: left := by
    rw [List.take_append, List.take_of_length_le hn]
    exact ⟨reason ++ crlf ++ fieldLines h.fields ++ crlf ++ rest.take (n - h.bytes.length),
      by simp [Head.bytes, hstart, statusLine]⟩
  rw [hleft]
  exact parseStatusCode_statusLine hlo hhi left

/-- The search for the end of the head, resumed at any boundary inside the head. -/
theorem findHeaderTerminator_take {p n : ℕ} (hp : p < h.bytes.length) (hpn : p ≤ n) :
    findHeaderTerminator ((h.bytes ++ rest).take n) p
      = if n < h.bytes.length then none else some h.bytes.length := by
  have hpos := position_head h rest
  have hfour := h.four_le_length
  have hnone : position headerTerminator (((h.bytes ++ rest).take n).take p) = none := by
    rw [List.take_take, Nat.min_eq_left hpn]
    exact position_take_none (by decide) hpos (by simp [headerTerminator]; omega)
  rw [findHeaderTerminator_eq (by simp; omega) hnone]
  split
  · rw [position_take_none (by decide) hpos (by simp [headerTerminator]; omega)]
    rfl
  · rw [position_take (by decide) hpos (by simp [headerTerminator]; omega), Option.map_some,
      Option.some.injEq]
    omega

/-- A read from `p` to `n` appended to what was read before. -/
theorem take_append_read {stream r : Bytes} {p : ℕ} (hr : r <+: stream.drop p) :
    stream.take p ++ r = stream.take (p + r.length) := by
  obtain ⟨left, hleft⟩ := hr
  rw [List.take_add, ← hleft, List.take_left]

/-- The framing before any scan of the body is the selected one. -/
theorem scannedTo_selected {headers : List Header} {headerEnd : ℕ} {framing : BodyFraming}
    (hsel : selectFraming status headers headerEnd = some framing) :
    framing.scannedTo headerEnd = framing := by
  unfold selectFraming at hsel
  dsimp only at hsel
  split at hsel
  · cases hsel
  split at hsel
  · cases hsel; rfl
  split at hsel
  · cases hsel; rfl
  split at hsel
  · split at hsel <;> cases hsel; rfl
  · cases hsel; rfl

/-- In a round inside the body, a scan from the last boundary. -/
theorem checkComplete_eq {st : ResponseReader} {framing : BodyFraming} {stream : Bytes} {p n : ℕ}
    (hbuf : st.buf = stream.take n) (hn : n ≤ stream.length)
    (hf : st.framing = some (framing.scannedTo p)) :
    st.checkComplete = (framing.completes stream p n,
      { st with framing := some (framing.scannedTo n) }) := by
  have hlen : st.buf.length = n := by rw [hbuf, List.length_take, Nat.min_eq_left hn]
  obtain ⟨buf, scanCursor, fr, he, hs, status⟩ := st
  dsimp only at hf hbuf hlen
  subst hf
  cases framing with
  | noBody => rfl
  | untilClose => rfl
  | fixedLength t => simp [ResponseReader.checkComplete, BodyFraming.scannedTo,
      BodyFraming.completes, hlen]
  | chunked he c =>
    simp only [ResponseReader.checkComplete, BodyFraming.scannedTo, BodyFraming.completes, hlen]
    rw [hbuf]

/-- The first scan starts at the body, wherever the read that completed the head began. -/
theorem completes_selected {headers : List Header} {headerEnd p n : ℕ} {framing : BodyFraming}
    {stream : Bytes} (hsel : selectFraming status headers headerEnd = some framing)
    (hp : p ≤ headerEnd) :
    framing.completes stream headerEnd n = framing.completes stream p n := by
  unfold selectFraming at hsel
  dsimp only at hsel
  split at hsel
  · cases hsel
  split at hsel
  · cases hsel; rfl
  split at hsel
  · cases hsel
    simp only [BodyFraming.completes, chunkedDone]
    rw [Nat.max_eq_right (by omega), Nat.max_eq_right (by omega)]
  split at hsel
  · split at hsel <;> cases hsel; rfl
  · cases hsel; rfl

/-- What a round comes to once the framing is known. -/
theorem onRead_of_lookForHead {st st₁ : ResponseReader} (framing : BodyFraming)
    {stream r : Bytes} (p : ℕ) {n : ℕ} (hn : n ≤ stream.length)
    (hlook : ({ st with buf := st.buf ++ r } : ResponseReader).lookForHead = some st₁)
    (hbuf : st₁.buf = stream.take n) (hf : st₁.framing = some (framing.scannedTo p)) :
    st.onRead r = if framing.completes stream p n
      then .complete { st₁ with framing := some (framing.scannedTo n) }
      else if maxProxyBody < n then .error
      else .more { st₁ with framing := some (framing.scannedTo n) } := by
  have hlen : st₁.buf.length = n := by rw [hbuf, List.length_take, Nat.min_eq_left hn]
  simp only [ResponseReader.onRead, hlook, checkComplete_eq hbuf hn hf, hlen]

/-- **One round.** -/
theorem onRead_eq {stream : Bytes} (hstream : stream = h.bytes ++ rest)
    (hstatus : StatusAt h stream status) {p : ℕ} {r : Bytes} {st : ResponseReader}
    (hat : At h status stream p st) (hr : r <+: stream.drop p) (hp : p ≤ stream.length) :
    match verdict (selectFraming status h.headers h.bytes.length) stream h.bytes.length p
        (p + r.length) with
    | .done => ∃ st', st.onRead r = .complete st' ∧ At h status stream (p + r.length) st'
    | .more => ∃ st', st.onRead r = .more st' ∧ At h status stream (p + r.length) st'
    | .failed => st.onRead r = .error := by
  have hbuf : st.buf ++ r = stream.take (p + r.length) := by rw [hat.buf, take_append_read hr]
  have hn : p + r.length ≤ stream.length := by
    have := hr.length_le
    rw [List.length_drop] at this
    omega
  have hlen : (st.buf ++ r).length = p + r.length := by
    rw [hbuf, List.length_take, Nat.min_eq_left hn]
  unfold verdict
  by_cases hhead : p + r.length < h.bytes.length
  · -- the head is not complete yet
    obtain ⟨hnone, hcursor⟩ := hat.inHead (by omega)
    have hfind : findHeaderTerminator (st.buf ++ r) st.scanCursor = none := by
      rw [hbuf, hcursor, hstream, findHeaderTerminator_take (by omega) (by omega), if_pos hhead]
    have hround : st.onRead r = if maxProxyBody < p + r.length then .error
        else .more { st with buf := st.buf ++ r, scanCursor := p + r.length } := by
      simp only [ResponseReader.onRead, ResponseReader.lookForHead, hnone, hfind,
        ResponseReader.checkComplete, hlen, Bool.false_eq_true, if_false]
    rw [if_pos hhead, hround]
    by_cases hbig : maxProxyBody < p + r.length
    · rw [if_pos hbig, if_pos hbig]
    · rw [if_neg hbig, if_neg hbig]
      exact ⟨_, rfl, hbuf, fun _ => ⟨hnone, rfl⟩, fun hle => absurd hhead (by omega)⟩
  rw [if_neg hhead]
  by_cases hin : p < h.bytes.length
  · -- this read completes the head
    obtain ⟨hnone, hcursor⟩ := hat.inHead hin
    have hfind : findHeaderTerminator (st.buf ++ r) st.scanCursor = some h.bytes.length := by
      rw [hbuf, hcursor, hstream, findHeaderTerminator_take hin (by omega), if_neg hhead]
    have hheaders : (parseHeaders ((st.buf ++ r).take h.bytes.length)).1 = h.headers := by
      rw [hbuf, List.take_take, Nat.min_eq_left (by omega), hstream, parseHeaders_take_head]
    have hst : parseStatusCode (st.buf ++ r) = status := by
      rw [hbuf]
      exact hstatus _ (by omega)
    have hlook : ({ st with buf := st.buf ++ r } : ResponseReader).lookForHead
        = (selectFraming status h.headers h.bytes.length).map fun framing =>
            { st with buf := st.buf ++ r, framing := some framing,
                      cachedHeaderEnd := h.bytes.length, cachedHeaders := h.headers,
                      cachedStatus := status } := by
      simp only [ResponseReader.lookForHead, hnone, hfind, hheaders, hst]
    cases hsel : selectFraming status h.headers h.bytes.length with
    | none =>
      rw [hsel, Option.map_none] at hlook
      simp only [ResponseReader.onRead, hlook]
    | some framing =>
      rw [hsel, Option.map_some] at hlook
      have hround := onRead_of_lookForHead framing h.bytes.length hn hlook
        hbuf (by rw [scannedTo_selected hsel])
      rw [completes_selected (p := p) hsel (by omega)] at hround
      have hat' : ∀ st' : ResponseReader, st' = { st with
          buf := st.buf ++ r, framing := some (framing.scannedTo (p + r.length)),
          cachedHeaderEnd := h.bytes.length, cachedHeaders := h.headers,
          cachedStatus := status } → At h status stream (p + r.length) st' := by
        rintro st' rfl
        exact ⟨hbuf, fun hlt => absurd hlt hhead, fun _ => ⟨framing, hsel, rfl, rfl, rfl, rfl⟩⟩
      dsimp only
      rw [hround]
      by_cases hc : framing.completes stream p (p + r.length) = true
      · rw [if_pos hc, if_pos hc]
        exact ⟨_, rfl, hat' _ rfl⟩
      · rw [if_neg hc, if_neg hc]
        by_cases hbig : maxProxyBody < p + r.length
        · rw [if_pos hbig, if_pos hbig]
        · rw [if_neg hbig, if_neg hbig]
          exact ⟨_, rfl, hat' _ rfl⟩
  · -- a round inside the body
    obtain ⟨framing, hsel, hf, he, hh, hs⟩ := hat.inBody (by omega)
    have hlook : ({ st with buf := st.buf ++ r } : ResponseReader).lookForHead
        = some { st with buf := st.buf ++ r } := by
      simp only [ResponseReader.lookForHead, hf]
    have hround := onRead_of_lookForHead framing p hn hlook hbuf hf
    have hat' : ∀ st' : ResponseReader, st' = { st with
        buf := st.buf ++ r, framing := some (framing.scannedTo (p + r.length)) } →
        At h status stream (p + r.length) st' := by
      rintro st' rfl
      exact ⟨hbuf, fun hlt => absurd hlt hhead, fun _ => ⟨framing, hsel, rfl, he, hh, hs⟩⟩
    rw [hsel, hround]
    dsimp only
    by_cases hc : framing.completes stream p (p + r.length) = true
    · rw [if_pos hc, if_pos hc]
      exact ⟨_, rfl, hat' _ rfl⟩
    · rw [if_neg hc, if_neg hc]
      by_cases hbig : maxProxyBody < p + r.length
      · rw [if_pos hbig, if_pos hbig]
      · rw [if_neg hbig, if_neg hbig]
        exact ⟨_, rfl, hat' _ rfl⟩

/-! ### All rounds -/

/-- The response made of the first `n` bytes of the stream. -/
def responseAt (h : Head) (status : ℤ) (stream : Bytes) (n : ℕ) : ParsedResponse where
  statusCode := status
  headers := h.headers
  body := (stream.take n).drop h.bytes.length
  rawBytes := stream.take n

theorem finish_eq {stream : Bytes} {n : ℕ} {st : ResponseReader}
    (hat : At h status stream n st) (hn : h.bytes.length ≤ n) (hle : n ≤ stream.length) :
    st.finish = .ok (responseAt h status stream n) := by
  obtain ⟨framing, -, hf, he, hh, hs⟩ := hat.inBody hn
  have hfour := h.four_le_length
  have hne : stream.take n ≠ [] := by
    intro hnil
    have := congrArg List.length hnil
    rw [List.length_take, Nat.min_eq_left hle, List.length_nil] at this
    omega
  simp only [ResponseReader.finish, hat.buf, if_neg hne, hf, Option.isSome_some, if_true, he, hh,
    hs, responseAt]

theorem le_of_verdict_done {selected : Option BodyFraming} {stream : Bytes} {headerEnd p n : ℕ}
    (h : verdict selected stream headerEnd p n = .done) : headerEnd ≤ n := by
  unfold verdict at h
  split at h
  · split at h <;> cases h
  · omega

/-- What the loop does with the outcome of a round. -/
def roundOutcome (fuel : ℕ) (upstream : Upstream) :
    RoundOutcome → ReadOutcome ParsedResponse × Upstream
  | .complete st => (st.finish, upstream)
  | .more st => readResponseLoop fuel upstream st
  | .error => (.error, upstream)

theorem readResponseLoop_ready {r : Bytes} {rs : List Bytes} {more : Upstream} {fuel : ℕ}
    {st : ResponseReader} (hne : r ≠ []) (hsmall : r.length ≤ readSize) :
    readResponseLoop (fuel + 1) (ofReads (r :: rs) more) st =
      roundOutcome fuel (ofReads rs more) (st.onRead r) := by
  rw [readResponseLoop, ofReads_cons, read_ready hsmall]
  cases r with
  | nil => exact absurd rfl hne
  | cons b bs =>
    dsimp only
    cases st.onRead (b :: bs) <;> rfl

/-- **The loop.** -/
theorem readResponseLoop_ofReads {stream : Bytes} (hstream : stream = h.bytes ++ rest)
    (hstatus : StatusAt h stream status) (reads : List Bytes) (more : Upstream) {fuel p : ℕ}
    {st : ResponseReader} (hfuel : size (ofReads reads more) < fuel)
    (hne : ∀ r ∈ reads, r ≠ []) (hsmall : ∀ r ∈ reads, r.length ≤ readSize)
    (hat : At h status stream p st) (hp : p ≤ stream.length)
    (hflat : reads.flatten <+: stream.drop p) :
    match runReads (selectFraming status h.headers h.bytes.length) stream h.bytes.length p reads with
    | .done n left => readResponseLoop fuel (ofReads reads more) st
        = (.ok (responseAt h status stream n), ofReads left more)
    | .failed left => readResponseLoop fuel (ofReads reads more) st = (.error, ofReads left more)
    | .waiting => ∃ st' fuel', size more < fuel' ∧
        readResponseLoop fuel (ofReads reads more) st = readResponseLoop fuel' more st' := by
  induction reads generalizing fuel p st with
  | nil => exact ⟨st, fuel, by simpa [ofReads] using hfuel, rfl⟩
  | cons r rs ih =>
    obtain ⟨fuel, rfl⟩ : ∃ f, fuel = f + 1 := ⟨fuel - 1, by omega⟩
    rw [List.flatten_cons] at hflat
    have hr : r <+: stream.drop p := (List.prefix_append _ _).trans hflat
    have hn : p + r.length ≤ stream.length := by
      have := hr.length_le
      rw [List.length_drop] at this
      omega
    have hround := onRead_eq hstream hstatus hat hr hp
    have hread : readResponseLoop (fuel + 1) (ofReads (r :: rs) more) st =
        roundOutcome fuel (ofReads rs more) (st.onRead r) :=
      readResponseLoop_ready (hne r (by simp)) (hsmall r (by simp))
    rw [runReads, hread]
    cases hv : verdict (selectFraming status h.headers h.bytes.length) stream h.bytes.length p
        (p + r.length) with
    | done =>
      rw [hv] at hround
      obtain ⟨st', hcomplete, hat'⟩ := hround
      dsimp only
      rw [hcomplete, roundOutcome, ← finish_eq hat' (le_of_verdict_done hv) hn]
    | failed =>
      rw [hv] at hround
      dsimp only at hround ⊢
      rw [hround, roundOutcome]
    | more =>
      rw [hv] at hround
      obtain ⟨st', hmore, hat'⟩ := hround
      rw [hmore, roundOutcome]
      refine ih ?_ (fun x hx => hne x (by simp [hx])) (fun x hx => hsmall x (by simp [hx])) hat'
        hn ?_
      · rw [ofReads_cons, size] at hfuel
        omega
      · obtain ⟨left, hleft⟩ := hflat
        rw [List.append_assoc] at hleft
        exact ⟨left, by rw [← List.drop_drop, ← hleft, List.drop_left]⟩

/-! ### Responses that end with their last read -/

/-- A run ends with its last read just when that round is done and no earlier one stops it. -/
theorem runReads_eq_done_iff (selected : Option BodyFraming) (stream : Bytes) (headerEnd : ℕ)
    (reads : List Bytes) (p n : ℕ) :
    runReads selected stream headerEnd p reads = .done n [] ↔
      reads ≠ [] ∧ n = p + reads.flatten.length ∧
        ∀ before r after, reads = before ++ r :: after →
          verdict selected stream headerEnd (p + before.flatten.length)
              (p + before.flatten.length + r.length)
            = if after = [] then .done else .more := by
  induction reads generalizing p with
  | nil => simp [runReads]
  | cons r rs ih =>
    have hfirst : ∀ {Q : ℕ → ℕ → List Bytes → Prop},
        (∀ before x after, r :: rs = before ++ x :: after →
          Q (p + before.flatten.length) (p + before.flatten.length + x.length) after) ↔
        Q p (p + r.length) rs ∧ ∀ before x after, rs = before ++ x :: after →
          Q (p + r.length + before.flatten.length)
            (p + r.length + before.flatten.length + x.length) after := by
      intro Q
      constructor
      · intro hall
        refine ⟨hall [] r rs rfl, fun before x after heq => ?_⟩
        have := hall (r :: before) x after (by rw [heq, List.cons_append])
        rwa [List.flatten_cons, List.length_append, ← Nat.add_assoc] at this
      · rintro ⟨h0, hrest⟩ before x after heq
        cases before with
        | nil =>
          rw [List.nil_append, List.cons.injEq] at heq
          obtain ⟨rfl, rfl⟩ := heq
          exact h0
        | cons b before =>
          rw [List.cons_append, List.cons.injEq] at heq
          obtain ⟨rfl, heq⟩ := heq
          rw [List.flatten_cons, List.length_append, ← Nat.add_assoc]
          exact hrest before x after heq
    rw [hfirst (Q := fun a b after => verdict selected stream headerEnd a b
      = if after = [] then .done else .more), runReads, List.flatten_cons, List.length_append]
    cases hv : verdict selected stream headerEnd p (p + r.length) with
    | done =>
      dsimp only
      rw [Run.done.injEq]
      constructor
      · rintro ⟨rfl, rfl⟩
        exact ⟨by simp, by simp, by simp, by simp⟩
      · rintro ⟨-, hn, hif, -⟩
        have hrs : rs = [] := by
          by_contra hne
          rw [if_neg hne] at hif
          cases hif
        subst hrs
        exact ⟨by simpa using hn.symm, rfl⟩
    | failed =>
      dsimp only
      constructor
      · intro hcon
        cases hcon
      · rintro ⟨-, -, hif, -⟩
        split at hif <;> cases hif
    | more =>
      dsimp only
      rw [ih]
      constructor
      · rintro ⟨hne, hn, hall⟩
        exact ⟨by simp, by omega, by rw [if_neg hne], hall⟩
      · rintro ⟨-, hn, hif, hall⟩
        refine ⟨fun hnil => ?_, by omega, hall⟩
        rw [if_pos hnil] at hif
        cases hif

/-- No round before the last read stops the reader, and that one does. -/
def StopsAtEnd (h : Head) (status : ℤ) (stream : Bytes) (cut : Cut readSize stream) : Prop :=
  ∀ before r after, cut.reads = before ++ r :: after →
    verdict (selectFraming status h.headers h.bytes.length) stream h.bytes.length
        before.flatten.length (before.flatten.length + r.length)
      = if after = [] then .done else .more

theorem stopsAtEnd_iff {stream : Bytes} (hstream : stream = h.bytes ++ rest)
    (cut : Cut readSize stream) :
    StopsAtEnd h status stream cut ↔
      runReads (selectFraming status h.headers h.bytes.length) stream h.bytes.length 0 cut.reads
        = .done stream.length [] := by
  have hne : cut.reads ≠ [] := by
    intro hnil
    have hfour := h.four_le_length
    have := congrArg List.length cut.flatten_eq
    rw [hnil, hstream] at this
    simp at this
    omega
  rw [runReads_eq_done_iff, cut.flatten_eq]
  simp only [Nat.zero_add, ne_eq, hne, not_false_eq_true, true_and, StopsAtEnd]

/-- A cut of a stream with a head has a last read, and it ends where the stream ends. -/
theorem exists_last_read {stream : Bytes} (hstream : stream = h.bytes ++ rest)
    (cut : Cut readSize stream) : ∃ before r, cut.reads = before ++ [r] ∧
      before.flatten.length + r.length = stream.length := by
  rcases List.eq_nil_or_concat cut.reads with hnil | ⟨before, r, hlast⟩
  · have hfour := h.four_le_length
    have hlen := congrArg List.length cut.flatten_eq
    rw [hnil, hstream] at hlen
    simp at hlen
    omega
  · rw [List.concat_eq_append] at hlast
    refine ⟨before, r, hlast, ?_⟩
    have hlen := congrArg List.length cut.flatten_eq
    rw [hlast] at hlen
    simpa using hlen

/-- Rounds of a body with a known length. -/
theorem verdict_fixedLength {stream : Bytes} {headerEnd totalNeeded p n : ℕ}
    (hle : headerEnd ≤ totalNeeded) :
    verdict (some (.fixedLength totalNeeded)) stream headerEnd p n
      = if totalNeeded ≤ n then .done else if maxProxyBody < n then .failed else .more := by
  unfold verdict
  simp only [BodyFraming.completes, decide_eq_true_eq]
  by_cases hn : n < headerEnd
  · rw [if_pos hn, if_neg (by omega : ¬ totalNeeded ≤ n)]
  · rw [if_neg hn]

/-- A round that asks for more is within the size limit. -/
theorem le_of_verdict_more {selected : Option BodyFraming} {stream : Bytes} {headerEnd p n : ℕ}
    (h : verdict selected stream headerEnd p n = .more) : n ≤ maxProxyBody := by
  by_contra hbig
  unfold verdict at h
  rw [if_pos (show maxProxyBody < n by omega)] at h
  split at h
  · cases h
  · split at h
    · cases h
    · split at h <;> cases h

/-- A round that is done with a body that is neither chunked nor left out has seen as many
    bytes of it as the head declares. -/
theorem declaredLength_of_verdict_done {headers : List Header} {stream : Bytes}
    {headerEnd p n : ℕ} (hchunked : isChunkedTransferEncoding headers = false)
    (hbodied : bodylessStatus status = false) (hn : headerEnd ≤ n)
    (hdone : verdict (selectFraming status headers headerEnd) stream headerEnd p n = .done) :
    ∃ cl, declaredLength headers = some cl ∧ cl ≤ maxProxyBody ∧ headerEnd + cl ≤ n := by
  cases hdeclared : declaredLength headers with
  | none =>
    have hsel : selectFraming status headers headerEnd = some .untilClose := by
      simp [selectFraming, hchunked, hbodied, hdeclared]
    rw [hsel, verdict, if_neg (by omega)] at hdone
    simp only [BodyFraming.completes, Bool.false_eq_true, if_false] at hdone
    split at hdone <;> cases hdone
  | some cl =>
    have hsel : selectFraming status headers headerEnd
        = if maxProxyBody < cl then none else some (.fixedLength (headerEnd + cl)) := by
      simp [selectFraming, hchunked, hbodied, hdeclared]
    rw [hsel] at hdone
    by_cases hbig : maxProxyBody < cl
    · rw [if_pos hbig, verdict, if_neg (by omega)] at hdone
      cases hdone
    · rw [if_neg hbig, verdict_fixedLength (by omega)] at hdone
      refine ⟨cl, rfl, by omega, ?_⟩
      by_contra hlt
      rw [if_neg hlt] at hdone
      split at hdone <;> cases hdone

/-- The loop on a stream cut into reads. -/
theorem readResponse_cut {stream : Bytes} (hstream : stream = h.bytes ++ rest)
    (hstatus : StatusAt h stream status) (cut : Cut readSize stream) (more : Upstream) :
    match runReads (selectFraming status h.headers h.bytes.length) stream h.bytes.length 0
        cut.reads with
    | .done n left => readResponse (cut.transport more)
        = (.ok (responseAt h status stream n), ofReads left more)
    | .failed left => readResponse (cut.transport more) = (.error, ofReads left more)
    | .waiting => ∃ st' fuel', size more < fuel' ∧
        readResponse (cut.transport more) = readResponseLoop fuel' more st' :=
  readResponseLoop_ofReads hstream hstatus cut.reads more (Nat.lt_succ_self _) cut.reads_ne
    cut.reads_le ⟨rfl, fun _ => ⟨rfl, rfl⟩, fun hle => by have := h.four_le_length; omega⟩
    (Nat.zero_le _) (by rw [cut.flatten_eq, List.drop_zero])

/-- A reader that stops at the end has the whole stream, and has read nothing behind it. -/
theorem readResponse_of_stopsAtEnd {stream : Bytes} (hstream : stream = h.bytes ++ rest)
    (hstatus : StatusAt h stream status) {cut : Cut readSize stream}
    (hstop : StopsAtEnd h status stream cut) (more : Upstream) :
    readResponse (cut.transport more)
      = (.ok (responseAt h status stream stream.length), more) := by
  have hrun := readResponse_cut hstream hstatus cut more
  rw [(stopsAtEnd_iff hstream cut).mp hstop] at hrun
  exact hrun

/-- **The reader needs nothing behind the stream** just when it stops at its end. -/
theorem stopsAtEnd_of_readResponse {stream : Bytes} (hstream : stream = h.bytes ++ rest)
    (hstatus : StatusAt h stream status) {cut : Cut readSize stream}
    (hall : ∀ more, ∃ r, readResponse (cut.transport more) = (.ok r, more)) :
    StopsAtEnd h status stream cut := by
  obtain ⟨r, hr⟩ := hall [.timeout]
  have hrun := readResponse_cut hstream hstatus cut [.timeout]
  rw [hr] at hrun
  rw [stopsAtEnd_iff hstream]
  cases hcase : runReads (selectFraming status h.headers h.bytes.length) stream
      h.bytes.length 0 cut.reads with
  | done n left =>
    rw [hcase] at hrun
    simp only [Prod.mk.injEq, ReadOutcome.ok.injEq] at hrun
    obtain ⟨rfl, hleft⟩ := hrun
    have hnil : left = [] := by
      have := congrArg List.length hleft
      simp only [ofReads, List.length_append, List.length_map, List.length_singleton] at this
      exact List.length_eq_zero_iff.mp (by omega)
    have hn := ((runReads_eq_done_iff _ _ _ _ _ _).mp (hnil ▸ hcase)).2.1
    rw [hnil, hn, cut.flatten_eq, Nat.zero_add]
  | failed left =>
    rw [hcase] at hrun
    cases hrun
  | waiting =>
    -- the time-out behind the stream would be used up
    rw [hcase] at hrun
    obtain ⟨st', fuel', hfuel, hrest⟩ := hrun
    obtain ⟨fuel', rfl⟩ : ∃ f, fuel' = f + 1 := ⟨fuel' - 1, by omega⟩
    rw [show readResponseLoop (fuel' + 1) [.timeout] st' = (st'.finish, []) from rfl,
      Prod.mk.injEq] at hrest
    exact absurd hrest.2 (by simp)

end Tapsmith.Http
