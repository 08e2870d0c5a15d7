import Tapsmith.Http.Request

namespace Tapsmith.Http

open Lib Lib.Search Lib.Text Lib.Stream

/-!
# What the request reader does

Every phase of `readRequest` is told by the bytes its connection makes available, whatever
the reads look like.

* `readLine_spec`, `ensureAtLeast_spec`, `readTrailers_spec`, `readChunks_spec` — the loops
  of the chunked body; together they accept what `parseChunked` accepts;
* `readHead_ofReads` — the header phase, on a stream cut into reads;
* `readBody_eq` — the body phase takes what `bodyOutcome` says;
* `readRequest_cut` — the whole reader on a stream that starts with a well-formed head;
* `readRequest_accepted` — what every accepted request has.
-/

/-! ### What the chunked reader does -/

/-- Between two points of a reader the buffer has grown from the connection to exactly what
    `target` needs, and nothing was lost. -/
structure Advanced (buf : Bytes) (client : Client) (buf' : Bytes) (client' : Client)
    (target : ℕ) : Prop where
  stream : buf' ++ avail client' = buf ++ avail client
  length : buf'.length = max buf.length target

theorem Advanced.refl {buf : Bytes} {target : ℕ} (client : Client) (h : target ≤ buf.length) :
    Advanced buf client buf client target :=
  ⟨rfl, (Nat.max_eq_left h).symm⟩

theorem Advanced.trans {buf buf₁ buf₂ : Bytes} {client client₁ client₂ : Client} {t₁ t₂ : ℕ}
    (h₁ : Advanced buf client buf₁ client₁ t₁) (h₂ : Advanced buf₁ client₁ buf₂ client₂ t₂)
    (hle : t₁ ≤ t₂) : Advanced buf client buf₂ client₂ t₂ := by
  refine ⟨h₂.stream.trans h₁.stream, ?_⟩
  rw [h₂.length, h₁.length]
  omega

/-- The buffer is a prefix of the stream. -/
theorem Advanced.take {buf buf' : Bytes} {client client' : Client} {target n : ℕ}
    (h : Advanced buf client buf' client' target) (hn : n ≤ buf'.length) :
    buf'.take n = (buf ++ avail client).take n := by
  rw [← h.stream, List.take_append_of_le_length hn]

/-- What `read_line` does: it finds the first line break of the stream, unless that lies
    beyond the size limit. -/
theorem readLine_spec (fuel : ℕ) (client : Client) (buf : Bytes) (cursor : ℕ)
    (hfuel : size client < fuel) (hc : cursor ≤ buf.length) (hb : buf.length ≤ maxProxyBody + 1) :
    (∃ p buf' client', readLine fuel client buf cursor = (.ok (cursor + p + 2, buf'), client') ∧
        position crlf ((buf ++ avail client).drop cursor) = some p ∧
        Advanced buf client buf' client' (cursor + p + 2) ∧
        cursor + p + 2 ≤ maxProxyBody + 1) ∨
      ((∃ e client', readLine fuel client buf cursor = (.error e, client')) ∧
        ∀ p, position crlf ((buf ++ avail client).drop cursor) = some p →
          maxProxyBody + 1 < cursor + p + 2) := by
  induction fuel generalizing client buf with
  | zero => omega
  | succ fuel ih =>
    have hdrop : (buf ++ avail client).drop cursor = buf.drop cursor ++ avail client :=
      List.drop_append_of_le_length hc
    cases hp : position crlf (buf.drop cursor) with
    | some p =>
      have hlt := position_lt (by decide) hp
      simp only [crlf, List.length_cons, List.length_nil, List.length_drop] at hlt
      refine Or.inl ⟨p, buf, client, by simp only [readLine, hp], ?_,
        Advanced.refl client (by omega), by omega⟩
      rw [hdrop]
      exact position_append (by decide) hp _
    | none =>
      -- the buffer holds no line break, so the first one ends behind it
      have hbeyond : ∀ p, position crlf ((buf ++ avail client).drop cursor) = some p →
          buf.length < cursor + p + 2 := by
        intro p hpos
        by_contra hle
        rw [hdrop] at hpos
        have htake := position_take (n := buf.length - cursor) (by decide) hpos
          (by simp only [crlf, List.length_cons, List.length_nil]; omega)
        rw [List.take_append_of_le_length (by simp), List.take_of_length_le (by simp), hp] at htake
        cases htake
      by_cases hlong : maxProxyBody < buf.length
      · refine Or.inr ⟨⟨_, client, by simp only [readLine, hp, if_pos hlong]; rfl⟩,
          fun p hpos => ?_⟩
        have := hbeyond p hpos
        omega
      · obtain ⟨bs, client₁, hread, hne, hlen, hav, hsize⟩ | ⟨hnil, hread⟩ :=
          read_cases 1 (by omega) client
        · obtain ⟨b, rfl⟩ : ∃ b, bs = [b] := by
            cases bs with
            | nil => exact absurd rfl hne
            | cons b bs =>
              simp only [List.length_cons] at hlen
              exact ⟨b, by rw [List.length_eq_zero_iff.mp (by omega : bs.length = 0)]⟩
          have hstep : readLine (fuel + 1) client buf cursor
              = readLine fuel client₁ (buf ++ [b]) cursor := by
            simp only [readLine, hp, if_neg hlong, readU8, hread]
          have hstream : (buf ++ [b]) ++ avail client₁ = buf ++ avail client := by
            rw [hav, List.append_assoc]
          have ih' := ih client₁ (buf ++ [b]) (by omega) (by simp; omega) (by simp; omega)
          rw [hstream] at ih'
          rw [hstep]
          obtain ⟨p, buf', client', hok, hpos, hadv, hlim⟩ | herr := ih'
          · refine Or.inl ⟨p, buf', client', hok, hpos, ⟨hadv.stream.trans hstream, ?_⟩, hlim⟩
            have := hbeyond p hpos
            rw [hadv.length, List.length_append, List.length_singleton]
            omega
          · exact Or.inr herr
        · refine Or.inr ⟨?_, fun p hpos => ?_⟩
          · simp only [readLine, hp, if_neg hlong, readU8]
            cases hr : read 1 client with
            | mk ev client₁ =>
              cases ev with
              | ready bs =>
                obtain rfl := hread bs (by rw [hr])
                exact ⟨_, _, rfl⟩
              | error => exact ⟨_, _, rfl⟩
              | timeout => exact ⟨_, _, rfl⟩
          · have hshort := hbeyond p hpos
            have hlt := position_lt (by decide) hpos
            rw [hnil, List.append_nil, List.length_drop] at hlt
            simp only [crlf, List.length_cons, List.length_nil] at hlt
            omega

/-- What the read loop of `ensure_at_least` does. -/
theorem fill_spec (fuel : ℕ) (client : Client) (buf : Bytes) (targetLen : ℕ)
    (hfuel : size client < fuel) :
    (∃ buf' client', fill fuel client buf targetLen = (.ok buf', client') ∧
        Advanced buf client buf' client' targetLen) ∨
      ((∃ e client', fill fuel client buf targetLen = (.error e, client')) ∧
        (buf ++ avail client).length < targetLen) := by
  induction fuel generalizing client buf with
  | zero => omega
  | succ fuel ih =>
    by_cases hlt : buf.length < targetLen
    · have hpos : 0 < min (targetLen - buf.length) readSize := by
        simp only [readSize]
        omega
      obtain ⟨bs, client₁, hread, hne, hlen, hav, hsize⟩ | ⟨hnil, hread⟩ :=
        read_cases (min (targetLen - buf.length) readSize) hpos client
      · have hstep : fill (fuel + 1) client buf targetLen
            = fill fuel client₁ (buf ++ bs) targetLen := by
          cases bs with
          | nil => exact absurd rfl hne
          | cons b bs => simp only [fill, if_pos hlt, hread]
        have hstream : (buf ++ bs) ++ avail client₁ = buf ++ avail client := by
          rw [hav, List.append_assoc]
        have ih' := ih client₁ (buf ++ bs) (by omega)
        rw [hstream] at ih'
        rw [hstep]
        obtain ⟨buf', client', hok, hadv⟩ | herr := ih'
        · refine Or.inl ⟨buf', client', hok, hadv.stream.trans hstream, ?_⟩
          rw [hadv.length, List.length_append]
          omega
        · exact Or.inr herr
      · refine Or.inr ⟨?_, by rw [hnil, List.append_nil]; exact hlt⟩
        simp only [fill, if_pos hlt]
        cases hr : read (min (targetLen - buf.length) readSize) client with
        | mk ev client₁ =>
          cases ev with
          | ready bs =>
            obtain rfl := hread bs (by rw [hr])
            exact ⟨_, _, rfl⟩
          | error => exact ⟨_, _, rfl⟩
          | timeout => exact ⟨_, _, rfl⟩
    · exact Or.inl ⟨buf, client, by simp only [fill, if_neg hlt], Advanced.refl client (by omega)⟩

/-- What `ensure_at_least` does. -/
theorem ensureAtLeast_spec (client : Client) (buf : Bytes) (targetLen : ℕ) :
    (∃ buf' client', ensureAtLeast client buf targetLen = (.ok buf', client') ∧
        Advanced buf client buf' client' targetLen ∧ targetLen ≤ maxProxyBody) ∨
      ((∃ e client', ensureAtLeast client buf targetLen = (.error e, client')) ∧
        (maxProxyBody < targetLen ∨ (buf ++ avail client).length < targetLen)) := by
  by_cases hlong : maxProxyBody < targetLen
  · exact Or.inr ⟨⟨_, _, by rw [ensureAtLeast, if_pos hlong]⟩, Or.inl hlong⟩
  · rw [ensureAtLeast, if_neg hlong]
    obtain ⟨buf', client', hok, hadv⟩ | ⟨herr, hshort⟩ :=
      fill_spec (size client + 1) client buf targetLen (by omega)
    · exact Or.inl ⟨buf', client', hok, hadv, by omega⟩
    · exact Or.inr ⟨herr, Or.inr hshort⟩

theorem readChunkSize_spec (line : Bytes) :
    (∃ n, readChunkSize line = .ok n ∧ chunkSize line = some n) ∨
      ((∃ e, readChunkSize line = .error e) ∧ chunkSize line = none) := by
  unfold readChunkSize chunkSize
  cases Utf8.fromUtf8 line with
  | none => exact Or.inr ⟨⟨_, rfl⟩, rfl⟩
  | some text =>
    dsimp only [Option.bind_some]
    cases fromStrRadix 16 (trim ((text.splitOn ';').headD [])) with
    | none => exact Or.inr ⟨⟨_, rfl⟩, rfl⟩
    | some n => exact Or.inl ⟨n, rfl, rfl⟩

/-- What the trailer loop does. -/
theorem readTrailers_spec (fuel : ℕ) (client : Client) (buf : Bytes) (cursor : ℕ)
    (hfuel : (buf ++ avail client).length - cursor < fuel) (hc : cursor ≤ buf.length)
    (hb : buf.length ≤ maxProxyBody + 1) :
    (∃ k buf' client', readTrailers fuel client buf cursor = (.ok (cursor + k, buf'), client') ∧
        trailersEnd ((buf ++ avail client).drop cursor) = some k ∧
        Advanced buf client buf' client' (cursor + k) ∧ cursor + k ≤ maxProxyBody + 1) ∨
      ((∃ e client', readTrailers fuel client buf cursor = (.error e, client')) ∧
        ∀ k, trailersEnd ((buf ++ avail client).drop cursor) = some k →
          maxProxyBody + 1 < cursor + k) := by
  induction fuel generalizing client buf cursor with
  | zero => omega
  | succ fuel ih =>
    obtain ⟨p, buf₁, client₁, hline, hpos, hadv, hlim⟩ | ⟨⟨e, client₁, herr⟩, hlate⟩ :=
      readLine_spec (size client + 1) client buf cursor (by omega) hc hb
    · cases p with
      | zero =>
        refine Or.inl ⟨2, buf₁, client₁, by simp [readTrailers, hline], ?_, hadv, hlim⟩
        rw [trailersEnd, if_pos]
        simpa using (position_eq_some.mp hpos).1
      | succ p =>
        have hstep : readTrailers (fuel + 1) client buf cursor
            = readTrailers fuel client₁ buf₁ (cursor + (p + 1) + 2) := by
          simp only [readTrailers, hline]
          rw [if_neg (by omega)]
        have hlen := hadv.length
        have hlt := position_lt (by decide) hpos
        simp only [crlf, List.length_cons, List.length_nil, List.length_drop] at hlt
        have ih' := ih client₁ buf₁ (cursor + (p + 1) + 2)
          (by rw [hadv.stream]; omega) (by omega) (by omega)
        have hends := trailersEnd_line hpos
        rw [List.drop_drop, show cursor + (p + 3) = cursor + (p + 1) + 2 by omega] at hends
        rw [hadv.stream] at ih'
        rw [hstep, hends]
        obtain ⟨k, buf₂, client₂, hok, hk, hadv₂, hlim₂⟩ | ⟨herr, hlate⟩ := ih'
        · refine Or.inl ⟨p + 3 + k, buf₂, client₂, ?_, by rw [hk]; rfl, ?_, by omega⟩
          · rw [hok, show cursor + (p + 1) + 2 + k = cursor + (p + 3 + k) by omega]
          · rw [show cursor + (p + 3 + k) = cursor + (p + 1) + 2 + k by omega]
            exact hadv.trans hadv₂ (by omega)
        · refine Or.inr ⟨herr, fun k hk => ?_⟩
          obtain ⟨k', hk', rfl⟩ := Option.map_eq_some_iff.mp hk
          have := hlate k' hk'
          omega
    · refine Or.inr ⟨⟨e, client₁, by simp only [readTrailers, herr]⟩, fun k hk => ?_⟩
      obtain ⟨p, hp, hpk⟩ := trailersEnd_position hk
      have := hlate p hp
      omega

/-- The outcome of the chunk loop from `cursor` on a connection that carries `S`, `low` bytes
    of which were in the buffer before. -/
def ChunksOutcome (S : Bytes) (cursor low : ℕ) (result : Except String Bytes × Client) : Prop :=
  (∃ d n client', result = (.ok (S.take (cursor + n)), client') ∧
      parseChunked (S.drop cursor) = some (d, n) ∧
      avail client' = S.drop (max low (cursor + n)) ∧ cursor + n ≤ maxProxyBody + 1) ∨
    ((∃ e client', result = (.error e, client')) ∧
      ∀ d n, parseChunked (S.drop cursor) = some (d, n) → maxProxyBody + 1 < cursor + n)

/-- What an accepted body looks like from `cursor` when its size line is known. -/
theorem parseChunked_drop_cases {S d : Bytes} {cursor p n : ℕ}
    (hpos : position crlf (S.drop cursor) = some p) (h : parseChunked (S.drop cursor) = some (d, n)) :
    (∃ k, chunkSize ((S.drop cursor).take p) = some 0 ∧
        trailersEnd (S.drop (cursor + p + 2)) = some k ∧ n = p + 2 + k) ∨
      ∃ m d' n', chunkSize ((S.drop cursor).take p) = some (m + 1) ∧
        (S.drop (cursor + p + m + 3)).take 2 = crlf ∧ cursor + p + m + 5 ≤ S.length ∧
        parseChunked (S.drop (cursor + p + m + 5)) = some (d', n') ∧ n = p + m + 5 + n' := by
  obtain ⟨p', hp', -, hle, hcase⟩ := parseChunked_cases h
  obtain rfl : p = p' := Option.some.inj (hpos.symm.trans hp')
  simp only [List.drop_drop, List.length_drop] at hcase hle
  obtain ⟨k, h1, h2, -, h4⟩ | ⟨m, d', n', h1, h2, h3, h4, -, h6⟩ := hcase
  · exact Or.inl ⟨k, h1, by rwa [Nat.add_assoc], h4⟩
  · refine Or.inr ⟨m, d', n', h1, ?_, by omega, ?_, h6⟩
    · rwa [show cursor + p + m + 3 = cursor + (p + m + 3) by omega]
    · rwa [show cursor + p + m + 5 = cursor + (p + m + 5) by omega]

/-- The last chunk: the trailers decide. -/
theorem trailers_outcome {S buf buf₁ : Bytes} {client client₁ : Client} {cursor p : ℕ}
    (hS : buf ++ avail client = S) (hb : buf.length ≤ maxProxyBody + 1)
    (hpos : position crlf (S.drop cursor) = some p)
    (hn : chunkSize ((S.drop cursor).take p) = some 0)
    (hadv : Advanced buf client buf₁ client₁ (cursor + p + 2))
    (hlim : cursor + p + 2 ≤ maxProxyBody + 1) :
    ChunksOutcome S cursor buf.length
      (match readTrailers (buf₁.length + size client₁ + 1) client₁ buf₁ (cursor + p + 2) with
        | (.error e, client) => (.error e, client)
        | (.ok (cursor, buf), client) => (.ok (buf.take cursor), client)) := by
  have hlen₁ := hadv.length
  have hstream := hadv.stream.trans hS
  obtain ⟨k, buf₂, client₂, htrail, hk, hadv₂, hlim₂⟩ | ⟨⟨e, client₂, herr⟩, hlate⟩ :=
    readTrailers_spec (buf₁.length + size client₁ + 1) client₁ buf₁ (cursor + p + 2)
      (by rw [List.length_append]; have := avail_length_le_size client₁; omega)
      (by omega) (by omega)
  · rw [hstream] at hk
    have hadv' := hadv.trans hadv₂ (by omega)
    have hlen₂ := hadv'.length
    rw [htrail]
    refine Or.inl ⟨[], p + 2 + k, client₂, ?_, ?_, ?_, by omega⟩
    · dsimp only
      rw [hadv'.take (by omega), hS, show cursor + p + 2 + k = cursor + (p + 2 + k) by omega]
    · refine parseChunked_last hpos hn ?_
      rw [List.drop_drop, ← Nat.add_assoc]
      exact hk
    · rw [← hS, ← hadv'.stream, show cursor + (p + 2 + k) = cursor + p + 2 + k by omega,
        ← hlen₂, List.drop_left]
  · rw [herr]
    rw [hstream] at hlate
    refine Or.inr ⟨⟨e, client₂, rfl⟩, fun d n hparse => ?_⟩
    obtain ⟨k, -, hk, rfl⟩ | ⟨m, d', n', h1, -⟩ := parseChunked_drop_cases hpos hparse
    · have := hlate k hk
      omega
    · rw [hn] at h1
      cases h1

/-- **What the chunk loop does.**  It accepts what `parseChunked` accepts within the size
    limit, and its buffer ends where the chunked body ends. -/
theorem readChunks_spec (fuel : ℕ) (client : Client) (buf : Bytes) (cursor : ℕ)
    (hfuel : (buf ++ avail client).length - cursor < fuel) (hc : cursor ≤ buf.length)
    (hb : buf.length ≤ maxProxyBody + 1) :
    ChunksOutcome (buf ++ avail client) cursor buf.length
      (readChunks fuel client buf cursor) := by
  induction fuel generalizing client buf cursor with
  | zero => omega
  | succ fuel ih =>
    generalize hS : buf ++ avail client = S at hfuel ⊢
    rw [readChunks]
    obtain ⟨p, buf₁, client₁, hline, hpos, hadv, hlim⟩ | ⟨⟨e, client₁, herr⟩, hlate⟩ :=
      readLine_spec (size client + 1) client buf cursor (by omega) hc hb
    swap
    · -- no size line within the limit
      rw [herr]
      refine Or.inr ⟨⟨e, client₁, rfl⟩, fun d n hparse => ?_⟩
      obtain ⟨p, hp, -⟩ := parseChunked_cases hparse
      have hlt := hlate p (by rw [hS]; exact hp)
      obtain ⟨k, -, -, rfl⟩ | ⟨m, d', n', -, -, -, -, rfl⟩ := parseChunked_drop_cases hp hparse <;>
        omega
    rw [hline]
    rw [hS] at hpos
    have hlt := position_lt (by decide) hpos
    simp only [crlf, List.length_cons, List.length_nil, List.length_drop] at hlt
    have hlen₁ := hadv.length
    have hstream := hadv.stream.trans hS
    -- the size line is the same in the buffer and in the stream
    have hsize : (buf₁.take (cursor + p + 2 - 2)).drop cursor = (S.drop cursor).take p := by
      rw [hadv.take (by omega), hS, show cursor + p + 2 - 2 = cursor + p by omega, List.drop_take,
        Nat.add_sub_cancel_left]
    dsimp only
    rw [hsize]
    obtain ⟨n, hread, hn⟩ | ⟨⟨e, hread⟩, hn⟩ := readChunkSize_spec ((S.drop cursor).take p)
    swap
    · rw [hread]
      refine Or.inr ⟨⟨e, client₁, rfl⟩, fun d n hparse => ?_⟩
      obtain ⟨k, h1, -⟩ | ⟨m, d', n', h1, -⟩ := parseChunked_drop_cases hpos hparse <;>
        rw [hn] at h1 <;> cases h1
    rw [hread]
    cases n with
    | zero => exact trailers_outcome hS hb hpos hn hadv hlim
    | succ m =>
      have hdata : ∀ {d n}, parseChunked (S.drop cursor) = some (d, n) →
          ∃ d' n', (S.drop (cursor + p + m + 3)).take 2 = crlf ∧ cursor + p + m + 5 ≤ S.length ∧
            parseChunked (S.drop (cursor + p + m + 5)) = some (d', n') ∧ n = p + m + 5 + n' := by
        intro d n hparse
        obtain ⟨k, h1, -⟩ | ⟨m', d', n', h1, h2, h3, h4, h5⟩ := parseChunked_drop_cases hpos hparse
        · rw [hn] at h1
          cases h1
        · rw [hn, Option.some.injEq] at h1
          obtain rfl : m = m' := by omega
          exact ⟨d', n', h2, h3, h4, h5⟩
      dsimp only
      rw [show cursor + p + 2 + (m + 1) + 2 = cursor + p + m + 5 by omega]
      by_cases hover : 2 ^ 64 ≤ cursor + p + m + 5
      · rw [if_pos hover]
        refine Or.inr ⟨⟨_, client₁, rfl⟩, fun d n hparse => ?_⟩
        obtain ⟨d', n', -, -, -, rfl⟩ := hdata hparse
        simp only [maxProxyBody]
        omega
      rw [if_neg hover]
      obtain ⟨buf₂, client₂, hens, hadv₂, hlim₂⟩ | ⟨⟨e, client₂, herr⟩, hlate⟩ :=
        ensureAtLeast_spec client₁ buf₁ (cursor + p + m + 5)
      swap
      · rw [herr]
        refine Or.inr ⟨⟨e, client₂, rfl⟩, fun d n hparse => ?_⟩
        obtain ⟨d', n', -, hle, hrec, rfl⟩ := hdata hparse
        have := (parseChunked_length hrec).1
        rw [hstream] at hlate
        omega
      have hadv' := hadv.trans hadv₂ (by omega)
      have hlen₂ := hadv'.length
      have hstream₂ := hadv'.stream.trans hS
      have hcr : (buf₂.take (cursor + p + m + 5)).drop (cursor + p + m + 5 - 2)
          = (S.drop (cursor + p + m + 3)).take 2 := by
        rw [hadv'.take (by omega), hS, show cursor + p + m + 5 - 2 = cursor + p + m + 3 by omega,
          List.drop_take, show cursor + p + m + 5 - (cursor + p + m + 3) = 2 by omega]
      rw [hens]
      dsimp only
      rw [hcr]
      by_cases hend : (S.drop (cursor + p + m + 3)).take 2 = crlf
      · have hrest := congrArg List.length hend
        simp only [crlf, List.length_take, List.length_drop, List.length_cons,
          List.length_nil] at hrest
        have ih' := ih client₂ buf₂ (cursor + p + m + 5) (by rw [hstream₂]; omega) (by omega)
          (by omega)
        rw [hstream₂] at ih'
        rw [if_pos hend]
        obtain ⟨d, n, client', hok, hparse, hav, hlim'⟩ | ⟨herr, hlate⟩ := ih'
        · have hwhole := parseChunked_chunk (d := d) (n := n) hpos hn
            (by rw [List.drop_drop, show cursor + (p + m + 3) = cursor + p + m + 3 by omega, hend])
            (by rwa [List.drop_drop, show cursor + (p + m + 5) = cursor + p + m + 5 by omega])
          refine Or.inl ⟨_, p + m + 5 + n, client', ?_, hwhole, ?_, by omega⟩
          · rw [hok, show cursor + p + m + 5 + n = cursor + (p + m + 5 + n) by omega]
          · rw [hav, hlen₂]
            congr 1
            omega
        · refine Or.inr ⟨herr, fun d n hparse => ?_⟩
          obtain ⟨d', n', -, -, hrec, rfl⟩ := hdata hparse
          have := hlate d' n' hrec
          omega
      · rw [if_neg hend]
        refine Or.inr ⟨⟨_, client₂, rfl⟩, fun d n hparse => ?_⟩
        obtain ⟨d', n', hcon, -⟩ := hdata hparse
        exact absurd hcon hend

/-- **What `read_chunked_body` does.** -/
theorem readChunkedBody_spec (client : Client) (buf : Bytes) (headerEnd : ℕ)
    (hhead : headerEnd ≤ buf.length) (hb : buf.length ≤ maxProxyBody + 1) :
    ChunksOutcome (buf ++ avail client) headerEnd buf.length
      (readChunkedBody client buf headerEnd) := by
  refine readChunks_spec _ client buf headerEnd ?_ hhead hb
  have := avail_length_le_size client
  rw [List.length_append]
  omega

/-! ### What the header phase does -/

/-- No read ends inside the head after 65536 bytes. -/
def HeadFits (reads : List Bytes) (headerEnd : ℕ) : Prop :=
  ∀ k, (reads.take k).flatten.length < headerEnd → (reads.take k).flatten.length ≤ 65536

/-- **What the header phase does** with a stream whose head ends at `pos + 4`: it stops at the
    first read that covers the head, unless a read ends inside an oversized head before. -/
theorem readHead_ofReads (reads : List Bytes) (more : Client) (fuel : ℕ) (buf : Bytes) {pos : ℕ}
    (hne : ∀ r ∈ reads, r ≠ []) (hsmall : ∀ r ∈ reads, r.length ≤ readSize)
    (hfuel : size (ofReads reads more) < fuel)
    (hnone : position headerTerminator buf = none)
    (hpos : position headerTerminator (buf ++ reads.flatten) = some pos) :
    ((∀ k, buf.length + (reads.take k).flatten.length < pos + 4 → 0 < k →
          buf.length + (reads.take k).flatten.length ≤ 65536) ∧
        ∃ rest, readHead fuel (ofReads reads more) buf buf.length
          = (.ok ((buf ++ reads.flatten).take
              (buf.length + delivered reads (pos + 4 - buf.length)), pos + 4), ofReads rest more) ∧
          (∀ r ∈ rest, r ≠ []) ∧ rest.flatten
            = reads.flatten.drop (delivered reads (pos + 4 - buf.length))) ∨
      (¬ (∀ k, buf.length + (reads.take k).flatten.length < pos + 4 → 0 < k →
          buf.length + (reads.take k).flatten.length ≤ 65536) ∧
        ∃ client', readHead fuel (ofReads reads more) buf buf.length = (.error, client')) := by
  induction reads generalizing fuel buf with
  | nil =>
    rw [List.flatten_nil, List.append_nil, hnone] at hpos
    cases hpos
  | cons r rs ih =>
    obtain ⟨fuel, rfl⟩ : ∃ f, fuel = f + 1 := ⟨fuel - 1, by omega⟩
    have hr : r ≠ [] := hne r (by simp)
    have hnone' : position headerTerminator ((buf ++ r).take buf.length) = none := by
      rwa [List.take_left]
    have hfind : findHeaderTerminator (buf ++ r) buf.length =
        (position headerTerminator (buf ++ r)).map (· + 4) :=
      findHeaderTerminator_eq (by simp) hnone'
    have hstop : ∀ headerEnd, findHeaderTerminator (buf ++ r) buf.length = some headerEnd →
        readHead (fuel + 1) (ofReads (r :: rs) more) buf buf.length
          = (.ok (buf ++ r, headerEnd), ofReads rs more) := by
      intro headerEnd hend
      rw [readHead, ofReads_cons, read_ready (hsmall r (by simp))]
      cases r with
      | nil => exact absurd rfl hr
      | cons b bs => simp only [hend]
    have hstep : findHeaderTerminator (buf ++ r) buf.length = none →
        readHead (fuel + 1) (ofReads (r :: rs) more) buf buf.length
          = if 65536 < (buf ++ r).length then (.error, ofReads rs more)
            else readHead fuel (ofReads rs more) (buf ++ r) (buf ++ r).length := by
      intro hend
      rw [readHead, ofReads_cons, read_ready (hsmall r (by simp))]
      cases r with
      | nil => exact absurd rfl hr
      | cons b bs => simp only [hend]
    have hflat : (buf ++ r) ++ rs.flatten = buf ++ (r :: rs).flatten := by simp
    by_cases hcover : pos + 4 ≤ (buf ++ r).length
    · -- this read completes the head
      have htake : (buf ++ (r :: rs).flatten).take (buf ++ r).length = buf ++ r := by
        rw [← hflat, List.take_left]
      have hhere : position headerTerminator (buf ++ r) = some pos := by
        rw [← htake]
        exact position_take (by decide) hpos (by simpa [headerTerminator] using hcover)
      rw [List.length_append] at hcover
      have hdel : delivered (r :: rs) (pos + 4 - buf.length) = r.length := by
        rw [delivered, if_pos (by omega)]
      refine Or.inl ⟨fun k hk hk0 => ?_, rs, ?_, fun x hx => hne x (by simp [hx]), ?_⟩
      · obtain ⟨k, rfl⟩ : ∃ j, k = j + 1 := ⟨k - 1, by omega⟩
        simp only [List.take_succ_cons, List.flatten_cons, List.length_append] at hk
        omega
      · rw [hhere] at hfind
        rw [hstop _ hfind, hdel, ← List.length_append, htake]
      · rw [hdel, List.flatten_cons, List.drop_left]
    · have hnone₁ : position headerTerminator (buf ++ r) = none := by
        have htake : (buf ++ (r :: rs).flatten).take (buf ++ r).length = buf ++ r := by
          rw [← hflat, List.take_left]
        rw [← htake]
        exact position_take_none (by decide) hpos (by simp [headerTerminator]; simpa using hcover)
      rw [hnone₁, Option.map_none] at hfind
      replace hstep := hstep hfind
      rw [List.length_append] at hcover hstep
      by_cases hbig : 65536 < buf.length + r.length
      · rw [if_pos hbig] at hstep
        refine Or.inr ⟨fun hall => ?_, _, hstep⟩
        have := hall 1 (by simpa using hcover) (by omega)
        simp at this
        omega
      · rw [if_neg hbig] at hstep
        have hlen : (buf ++ r).length = buf.length + r.length := List.length_append
        have ih' := ih fuel (buf ++ r) (fun x hx => hne x (by simp [hx]))
          (fun x hx => hsmall x (by simp [hx]))
          (by rw [ofReads_cons, size] at hfuel; omega) hnone₁ (by rwa [hflat])
        rw [hlen, hflat] at ih'
        have hdel : delivered (r :: rs) (pos + 4 - buf.length)
            = r.length + delivered rs (pos + 4 - (buf.length + r.length)) := by
          rw [delivered, if_neg (by omega), Nat.sub_sub]
        have hall : (∀ k, buf.length + ((r :: rs).take k).flatten.length < pos + 4 → 0 < k →
              buf.length + ((r :: rs).take k).flatten.length ≤ 65536) ↔
            ∀ k, buf.length + r.length + (rs.take k).flatten.length < pos + 4 → 0 < k →
              buf.length + r.length + (rs.take k).flatten.length ≤ 65536 := by
          constructor
          · intro h k hk hk0
            have := h (k + 1)
            simp only [List.take_succ_cons, List.flatten_cons, List.length_append] at this
            omega
          · intro h k hk hk0
            obtain ⟨k, rfl⟩ : ∃ j, k = j + 1 := ⟨k - 1, by omega⟩
            simp only [List.take_succ_cons, List.flatten_cons, List.length_append] at hk ⊢
            cases k with
            | zero => simp; omega
            | succ k =>
              have := h (k + 1) (by omega) (by omega)
              omega
        rw [hall, hdel, hstep, ← Nat.add_assoc]
        obtain ⟨hfit, rest, hok, hrest, hdrop⟩ | herr := ih'
        · refine Or.inl ⟨hfit, rest, hok, hrest, ?_⟩
          rw [hdrop, List.flatten_cons, ← List.drop_drop, List.drop_left]
        · exact Or.inr herr

/-- What the header phase hands on: a prefix of the stream that holds the head. -/
theorem readHead_eq_ok {fuel : ℕ} {client client' : Client} {buf buf' : Bytes}
    {scanCursor headerEnd : ℕ}
    (h : readHead fuel client buf scanCursor = (.ok (buf', headerEnd), client'))
    (hb : buf.length ≤ 65536) :
    buf' ++ avail client' = buf ++ avail client ∧ headerEnd ≤ buf'.length ∧
      buf'.length ≤ 65536 + readSize := by
  induction fuel generalizing client buf scanCursor with
  | zero => cases h
  | succ fuel ih =>
    rw [readHead] at h
    obtain ⟨bs, client₁, hread, hne, hlen, hav, -⟩ | ⟨-, hread⟩ :=
      read_cases readSize (by decide) client
    · rw [hread] at h
      cases bs with
      | nil => exact absurd rfl hne
      | cons b bs =>
        dsimp only at h
        cases hfind : findHeaderTerminator (buf ++ b :: bs) scanCursor with
        | some he =>
          rw [hfind] at h
          cases h
          obtain ⟨pos, hpos, rfl⟩ := Option.map_eq_some_iff.mp hfind
          have hlt := position_lt (by decide) hpos
          simp only [headerTerminator, List.length_cons, List.length_nil, List.length_drop] at hlt
          refine ⟨by rw [hav, List.append_assoc], by omega, ?_⟩
          rw [List.length_append]
          omega
        | none =>
          rw [hfind] at h
          dsimp only at h
          split at h
          · cases h
          · have := ih h (by omega)
            rwa [List.append_assoc, ← hav] at this
    · cases hr : read readSize client with
      | mk ev client₁ =>
        rw [hr] at h
        cases ev with
        | ready bs =>
          obtain rfl := hread bs (by rw [hr])
          cases h
        | error => cases h
        | timeout => cases h

/-! ### What the body phase does -/

/-- What the body phase takes from a stream `S` whose head ends at `headerEnd`, `low` bytes of
    which were read with the head: the length of the request, and how much of the stream is
    used up. -/
def bodyOutcome (S : Bytes) (headerEnd low : ℕ) (headers : List Header) : Option (ℕ × ℕ) :=
  if isChunkedTransferEncoding headers then
    if hasContentLength headers then none
    else (parseChunked (S.drop headerEnd)).bind fun r =>
      if headerEnd + r.2 ≤ maxProxyBody + 1 then
        some (headerEnd + r.2, max low (headerEnd + r.2))
      else none
  else
    let cl := (declaredLength headers).getD 0
    if cl ≤ maxProxyBody ∧ headerEnd + cl ≤ S.length then
      some (max low (headerEnd + cl), max low (headerEnd + cl))
    else none

/-- The body phase takes no more than there is. -/
theorem bodyOutcome_le {S : Bytes} {headerEnd low : ℕ} {headers : List Header} {o : ℕ × ℕ}
    (h : bodyOutcome S headerEnd low headers = some o) (hhead : headerEnd ≤ S.length)
    (hlow : low ≤ S.length) : o.1 ≤ S.length ∧ o.2 ≤ S.length := by
  unfold bodyOutcome at h
  split at h
  · split at h
    · cases h
    · obtain ⟨⟨d, n⟩, hparse, hlim⟩ := Option.bind_eq_some_iff.mp h
      have hn := (parseChunked_length hparse).2
      rw [List.length_drop] at hn
      split at hlim
      · cases hlim
        dsimp only
        omega
      · cases hlim
  · dsimp only at h
    split at h
    · cases h
      dsimp only
      omega
    · cases h

/-- What the `Content-Length` phase does. -/
theorem readFixedBody_eq (client : Client) (buf : Bytes) (headerEnd : ℕ) (headers : List Header)
    (hhead : headerEnd ≤ buf.length) :
    let cl := (declaredLength headers).getD 0
    let S := buf ++ avail client
    (cl ≤ maxProxyBody ∧ headerEnd + cl ≤ S.length ∧
        ∃ client', readFixedBody client buf headerEnd headers
          = (some (S.take (max buf.length (headerEnd + cl))), client') ∧
        avail client' = S.drop (max buf.length (headerEnd + cl))) ∨
      (¬ (cl ≤ maxProxyBody ∧ headerEnd + cl ≤ S.length) ∧
        ∃ client', readFixedBody client buf headerEnd headers = (none, client')) := by
  intro cl S
  have hS : S.length = buf.length + (avail client).length := List.length_append
  have hwhole : ∀ n, n = buf.length → S.take n = buf ∧ S.drop n = avail client := by
    rintro n rfl
    exact ⟨List.take_left, List.drop_left⟩
  rw [readFixedBody, getHeader_contentLength]
  cases hd : declaredLength headers with
  | none =>
    have hcl : cl = 0 := by show (declaredLength headers).getD 0 = 0; rw [hd]; rfl
    obtain ⟨htake, hdrop⟩ := hwhole (max buf.length (headerEnd + cl)) (by omega)
    refine Or.inl ⟨by omega, by omega, client, by rw [htake], hdrop.symm⟩
  | some n =>
    have hcl : cl = n := by show (declaredLength headers).getD 0 = n; rw [hd]; rfl
    rw [hcl]
    dsimp only
    by_cases hbig : maxProxyBody < n
    · rw [if_pos hbig]
      exact Or.inr ⟨by omega, client, rfl⟩
    rw [if_neg hbig]
    by_cases hmore : buf.length - headerEnd < n
    · rw [if_pos hmore]
      by_cases hav : n - (buf.length - headerEnd) ≤ (avail client).length
      · obtain ⟨client', hread, hrest⟩ := readExact_of_le hav
        have hmax : max buf.length (headerEnd + n)
            = buf.length + (n - (buf.length - headerEnd)) := by omega
        rw [hread, hmax]
        refine Or.inl ⟨by omega, by omega, client', ?_, ?_⟩
        · rw [List.take_length_add_append]
        · rw [hrest, List.drop_length_add_append]
      · refine Or.inr ⟨by omega, ?_⟩
        cases hread : readExact (n - (buf.length - headerEnd)) client with
        | mk res client' =>
          cases res with
          | ok bs => exact absurd (readExact_eq_ok hread).1 hav
          | error e => exact ⟨client', rfl⟩
    · rw [if_neg hmore]
      obtain ⟨htake, hdrop⟩ := hwhole (max buf.length (headerEnd + n)) (by omega)
      exact Or.inl ⟨by omega, by omega, client, by rw [htake], hdrop.symm⟩

/-- **What the body phase does.** -/
theorem readBody_eq (client : Client) (buf : Bytes) (headerEnd : ℕ) (headers : List Header)
    (hhead : headerEnd ≤ buf.length) (hb : buf.length ≤ maxProxyBody + 1) :
    ∃ client', readBody client buf headerEnd headers
        = ((bodyOutcome (buf ++ avail client) headerEnd buf.length headers).map
            fun o => (buf ++ avail client).take o.1, client') ∧
      ∀ o, bodyOutcome (buf ++ avail client) headerEnd buf.length headers = some o →
        avail client' = (buf ++ avail client).drop o.2 := by
  unfold readBody bodyOutcome
  cases hchunked : isChunkedTransferEncoding headers with
  | true =>
    simp only [Bool.true_and, if_true]
    cases hlength : hasContentLength headers with
    | true => exact ⟨client, by simp, by simp⟩
    | false =>
      simp only [Bool.false_eq_true, if_false]
      obtain ⟨d, n, client', hok, hparse, hav, hlim⟩ | ⟨⟨e, client', herr⟩, hlate⟩ :=
        readChunkedBody_spec client buf headerEnd hhead hb
      · rw [hok, hparse]
        simp only [Option.bind_some, if_pos hlim, Option.map_some]
        refine ⟨client', rfl, fun o ho => ?_⟩
        obtain rfl := Option.some.inj ho
        exact hav
      · have hnone : ((parseChunked ((buf ++ avail client).drop headerEnd)).bind fun r =>
            if headerEnd + r.2 ≤ maxProxyBody + 1 then
              some (headerEnd + r.2, max buf.length (headerEnd + r.2)) else none) = none := by
          cases hparse : parseChunked ((buf ++ avail client).drop headerEnd) with
          | none => rfl
          | some r =>
            have := hlate r.1 r.2 hparse
            rw [Option.bind_some, if_neg (by omega)]
        rw [herr, hnone]
        exact ⟨client', rfl, by simp⟩
  | false =>
    simp only [Bool.false_and, Bool.false_eq_true, if_false]
    obtain ⟨h1, h2, client', hok, hav⟩ | ⟨hno, client', herr⟩ :=
      readFixedBody_eq client buf headerEnd headers hhead
    · rw [hok, if_pos ⟨h1, h2⟩]
      refine ⟨client', rfl, fun o ho => ?_⟩
      obtain rfl := Option.some.inj ho
      exact hav
    · rw [herr, if_neg hno]
      exact ⟨client', rfl, by simp⟩

/-! ### What the reader does -/

/-- The words of a head's start line. -/
def Head.words (h : Head) : List Str := splitWhitespace (Utf8.fromUtf8Lossy h.start)

/-- The request line is read from the start line of the head. -/
theorem requestLineParts_head (h : Head) (rest : Bytes) :
    requestLineParts (h.bytes ++ rest) = h.words := by
  have hnl : (10 : UInt8) ∉ h.start ++ [13] := by
    intro hm
    obtain hs | hr := List.mem_append.mp hm
    · exact (h.start_line 10 hs).2 rfl
    · exact absurd hr (by decide)
  have hbytes : h.bytes ++ rest
      = (h.start ++ [13]) ++ 10 :: (fieldLines h.fields ++ crlf ++ rest) := by
    simp [Head.bytes, crlf]
  have hpos : position [10] (h.bytes ++ rest) = some (h.start ++ [13]).length := by
    rw [hbytes, position_skip hnl]
    simp [position]
  have htake : (h.bytes ++ rest).take (h.start ++ [13]).length = h.start ++ [13] := by
    rw [hbytes, List.take_left]
  have hline : Utf8.fromUtf8Lossy (h.start ++ [13]) = Utf8.fromUtf8Lossy h.start ++ ['\r'] := by
    rw [Utf8.fromUtf8Lossy_append_ascii _ (by decide)]
    rfl
  rw [requestLineParts, hpos, Option.getD_some, htake, splitWhitespace_trim, hline,
    splitWhitespace_concat (by decide), Head.words]

/-- **What the reader does** with a stream that starts with a well-formed head and is cut into
    reads in any way. -/
theorem readRequest_cut {h : Head} {rest : Bytes} (c : Cut readSize (h.bytes ++ rest))
    (more : Client) :
    let S := h.bytes ++ rest ++ avail more
    let outcome := bodyOutcome S h.bytes.length (c.delivered h.bytes.length) h.headers
    (HeadFits c.reads h.bytes.length ∧ ∃ method path w ws o client',
        h.words = method :: path :: w :: ws ∧ outcome = some o ∧
        readRequest (c.transport more)
          = (.ok { method, path, headers := h.headers, body := (S.take o.1).drop h.bytes.length,
                   rawBytes := S.take o.1, overrideHost := none }, client') ∧
        avail client' = S.drop o.2) ∨
      (¬ (HeadFits c.reads h.bytes.length ∧ 3 ≤ h.words.length ∧ outcome ≠ none) ∧
        ∃ client', readRequest (c.transport more) = (.error, client')) := by
  intro S outcome
  have hfour := h.four_le_length
  have hpos : position headerTerminator ([] ++ c.reads.flatten) = some (h.bytes.length - 4) := by
    rw [List.nil_append, c.flatten_eq, position_head]
  have hfits : (∀ k, ([] : Bytes).length + (c.reads.take k).flatten.length < h.bytes.length - 4 + 4 →
        0 < k → ([] : Bytes).length + (c.reads.take k).flatten.length ≤ 65536) ↔
      HeadFits c.reads h.bytes.length := by
    rw [List.length_nil, show h.bytes.length - 4 + 4 = h.bytes.length by omega]
    simp only [Nat.zero_add, HeadFits]
    refine forall_congr' fun k => ⟨fun hk hlt => ?_, fun hk hlt _ => hk hlt⟩
    cases k with
    | zero => simp
    | succ k => exact hk hlt (by omega)
  have hhead := readHead_ofReads c.reads more (size (ofReads c.reads more) + 1) []
    c.reads_ne c.reads_le (Nat.lt_succ_self _) rfl hpos
  rw [hfits, c.flatten_eq, List.nil_append, List.length_nil, Nat.zero_add, Nat.sub_zero,
    show h.bytes.length - 4 + 4 = h.bytes.length by omega] at hhead
  obtain ⟨hfit, left, hok, hleft, hdrop⟩ | ⟨hnofit, client', herr⟩ := hhead
  swap
  · refine Or.inr ⟨fun hall => hnofit hall.1, client', ?_⟩
    rw [readRequest, Cut.transport, herr]
  rw [show Stream.delivered c.reads h.bytes.length = c.delivered h.bytes.length from rfl] at hok hdrop
  have hle : h.bytes.length ≤ c.delivered h.bytes.length := c.le_delivered (by simp)
  have hle' : c.delivered h.bytes.length ≤ (h.bytes ++ rest).length := c.delivered_le _
  -- the buffer behind the header phase
  obtain ⟨extra, hbuf⟩ : ∃ extra, (h.bytes ++ rest).take (c.delivered h.bytes.length)
      = h.bytes ++ extra := by
    refine ⟨rest.take (c.delivered h.bytes.length - h.bytes.length), ?_⟩
    rw [List.take_append, List.take_of_length_le hle]
  have hlen : (h.bytes ++ extra).length = c.delivered h.bytes.length := by
    rw [← hbuf, List.length_take, Nat.min_eq_left hle']
  have hstream : h.bytes ++ extra ++ avail (ofReads left more) = S := by
    rw [← hbuf, avail_ofReads hleft, hdrop, ← List.append_assoc, List.take_append_drop]
  have hshort := (readHead_eq_ok hok (by simp)).2.2
  rw [hbuf] at hshort
  obtain ⟨client', hbody, hav⟩ := readBody_eq (ofReads left more) (h.bytes ++ extra)
    h.bytes.length h.headers (by omega) (by simp only [readSize] at hshort; simp only [maxProxyBody]; omega)
  rw [hstream, hlen] at hbody hav
  have hout : bodyOutcome S h.bytes.length (c.delivered h.bytes.length) h.headers = outcome := rfl
  rw [hout] at hbody hav
  clear_value outcome
  by_cases hwords : 3 ≤ h.words.length
  · obtain ⟨method, path, w, ws, hw⟩ : ∃ method path w ws, h.words = method :: path :: w :: ws := by
      rcases hm : h.words with _ | ⟨method, _ | ⟨path, _ | ⟨w, ws⟩⟩⟩
      case cons.cons.cons => exact ⟨method, path, w, ws, rfl⟩
      all_goals
        rw [hm] at hwords
        exact absurd hwords (by simp)
    have hread : readRequest (c.transport more) = readRequest (ofReads c.reads more) := rfl
    rw [hread]
    simp only [readRequest, hok, hbuf, requestLineParts_head, hw, parseHeaders_take_head, hbody]
    cases outcome with
    | none => exact Or.inr ⟨fun hall => hall.2.2 rfl, client', rfl⟩
    | some o =>
      exact Or.inl ⟨hfit, method, path, w, ws, o, client', rfl, rfl, rfl, hav o rfl⟩
  · refine Or.inr ⟨fun hall => hwords hall.2.1, ofReads left more, ?_⟩
    simp only [readRequest, Cut.transport, hok, hbuf, requestLineParts_head]
    rcases hm : h.words with _ | ⟨method, _ | ⟨path, _ | ⟨w, ws⟩⟩⟩
    case cons.cons.cons =>
      rw [hm] at hwords
      exact absurd (by simp) hwords
    all_goals rfl

/-- **What every accepted request has.**  A chunked request carries one chunked body and
    nothing else; any other request carries at least its declared length. -/
theorem readRequest_accepted {client client' : Client} {r : ParsedRequest}
    (h : readRequest client = (.ok r, client')) :
    (isChunkedTransferEncoding r.headers = true →
        ∃ d, parseChunked r.body = some (d, r.body.length)) ∧
      (isChunkedTransferEncoding r.headers = false →
        (declaredLength r.headers).getD 0 ≤ r.body.length) := by
  rw [readRequest] at h
  cases hhead : readHead (size client + 1) client [] 0 with
  | mk res client₁ =>
    rw [hhead] at h
    cases res with
    | connectionClosed => cases h
    | error => cases h
    | ok v =>
      obtain ⟨buf, headerEnd⟩ := v
      obtain ⟨hstream, hle, hlen⟩ := readHead_eq_ok hhead (by simp)
      dsimp only at h
      split at h
      · rename_i method path w ws hparts
        obtain ⟨client₂, hbody, -⟩ := readBody_eq client₁ buf headerEnd
          (parseHeaders (buf.take headerEnd)).1 hle
          (by simp only [readSize] at hlen; simp only [maxProxyBody]; omega)
        rw [hbody] at h
        have hS : buf.length ≤ (buf ++ avail client₁).length := by simp
        generalize buf ++ avail client₁ = S at h hS
        generalize (parseHeaders (buf.take headerEnd)).1 = headers at h
        cases ho : bodyOutcome S headerEnd buf.length headers with
        | none => rw [ho] at h; cases h
        | some o =>
          rw [ho] at h
          cases h
          unfold bodyOutcome at ho
          dsimp only
          constructor
          · intro hchunked
            rw [if_pos hchunked] at ho
            split at ho
            · cases ho
            · obtain ⟨⟨d, n⟩, hparse, hlim⟩ := Option.bind_eq_some_iff.mp ho
              split at hlim
              · cases hlim
                have hn := (parseChunked_length hparse).2
                have hwhole := parseChunked_take_append hparse []
                rw [List.append_nil] at hwhole
                refine ⟨d, ?_⟩
                rw [List.drop_take, Nat.add_sub_cancel_left, hwhole, List.length_take,
                  Nat.min_eq_left hn]
              · cases hlim
          · intro hchunked
            rw [if_neg (by simp [hchunked])] at ho
            dsimp only at ho
            split at ho
            · rename_i hcl
              cases ho
              rw [List.length_drop, List.length_take]
              omega
            · cases ho
      · cases h

end Tapsmith.Http
