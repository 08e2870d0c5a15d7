import Mathlib.Data.List.Basic
import Mathlib.Data.List.Infix
import Mathlib.Data.List.DropRight
import Tapsmith.Lib.Entries
import Tapsmith.Lib.Machine
import Tapsmith.Lib.Text

namespace Tapsmith.Tls

open Lib Lib.Machine Lib.Entries

/-!
# Hosts whose clients reject the proxy's certificate

What the proxy learns from the client handshakes of the connections it intercepts
(`handle_transparent_tls_from`), and when it forgets it (`reset_capture_state`).

* `step` — the connections, interleaved at the places where they take the lock of the state;
* `Learned` — what a history of handshakes says of its host;
* `rejected_iff` — a host is held rejected exactly if its history says so.
-/

abbrev Text : Type := List Char

inductive TrafficOrigin
  | unattributed
  | osService
deriving DecidableEq

/-- A `ClientHello`, with the bytes of each protocol that it offers. -/
structure ClientHello where
  sni : Option Text
  alpn : List (List UInt8)

/-- What the TLS handling reads and writes of the state of the proxy.  A compiled host pattern is
    what it matches. -/
structure ProxyState where
  passthrough_hosts : List (Text → Bool)
  default_passthrough_hosts : List (Text → Bool)
  mitm_rejected_hosts : List Text
  mitm_handshake_aborts : List (Text × ℕ)
  tls_rejected_hosts : List Text
  os_service_tls_rejected_hosts : List Text
  tunnel_all_tls : Option Text

def ProxyState.start (default_passthrough_hosts : List (Text → Bool)) : ProxyState where
  passthrough_hosts := []
  default_passthrough_hosts := default_passthrough_hosts
  mitm_rejected_hosts := []
  mitm_handshake_aborts := []
  tls_rejected_hosts := []
  os_service_tls_rejected_hosts := []
  tunnel_all_tls := none

/-- `MAX_TLS_REJECTED_HOSTS` -/
def maxTlsRejectedHosts : ℕ := 64

/-- `MITM_ABORT_PASSTHROUGH_THRESHOLD` -/
def mitmAbortPassthroughThreshold : ℕ := 2

/-! ### What a handshake is taken for -/

def toAsciiLowercase (host : Text) : Text := host.map Char.toLower

/-- The protocols `http/1.1`, `http/1.0` and `h2`. -/
def http11 : List UInt8 := [0x68, 0x74, 0x74, 0x70, 0x2f, 0x31, 0x2e, 0x31]

def http10 : List UInt8 := [0x68, 0x74, 0x74, 0x70, 0x2f, 0x31, 0x2e, 0x30]

def h2 : List UInt8 := [0x68, 0x32]

def requires_tls_passthrough (alpn : List (List UInt8)) : Bool :=
  !alpn.isEmpty && !alpn.any fun p => p = http11 || p = http10 || p = h2

def offers_h2 (alpn : List (List UInt8)) : Bool := alpn.any (· = h2)

/-- `str::contains` -/
def contains (text needle : Text) : Bool := needle <:+: text

def certRejectNeedles : List Text :=
  ["unknownca".toList, "unknownissuer".toList, "badcertificate".toList,
    "certificateunknown".toList, "unsupportedcertificate".toList, "certificateexpired".toList,
    "certificaterevoked".toList, "certificateunobtainable".toList,
    "badcertificatestatusresponse".toList]

def is_likely_client_cert_reject (error : Text) : Bool :=
  let compact := (error.filter Char.isAlphanum).map Char.toLower
  certRejectNeedles.any (contains compact) ||
    contains compact "alert".toList && contains compact "certificate".toList

def handshakeAbortNeedles : List Text :=
  ["brokenpipe".toList, "connectionreset".toList, "resetbypeer".toList, "unexpectedeof".toList,
    "endoffile".toList, "closedbeforecompletinghandshake".toList, "peerclosed".toList]

def is_likely_handshake_abort (error : Text) : Bool :=
  let err_str := Lib.Text.toLowercase error
  let compact := err_str.filter Char.isAlphanum
  handshakeAbortNeedles.any (contains compact) ||
    (err_str.splitOnP (!·.isAlphanum)).any (· = "eof".toList)

/-! ### The state -/

namespace ProxyState

variable (s : ProxyState) (host : Text)

def record_tls_reject : TrafficOrigin → ProxyState
  | .unattributed =>
    if s.tls_rejected_hosts.length < maxTlsRejectedHosts then
      { s with tls_rejected_hosts := s.tls_rejected_hosts.insert host }
    else s
  | .osService =>
    if s.os_service_tls_rejected_hosts.length < maxTlsRejectedHosts then
      { s with os_service_tls_rejected_hosts := s.os_service_tls_rejected_hosts.insert host }
    else s

def reset_capture_state : ProxyState :=
  { s with
    mitm_rejected_hosts := []
    mitm_handshake_aborts := []
    tls_rejected_hosts := []
    os_service_tls_rejected_hosts := [] }

def take_tls_rejects : ProxyState :=
  { s with tls_rejected_hosts := [], os_service_tls_rejected_hosts := [] }

theorem text_lawfulBEq : LawfulBEq Text := inferInstance

attribute [local instance] text_lawfulBEq

/-- Whether a connection is tunneled and not intercepted. -/
def passesThrough (sni : Text) (alpn : List (List UInt8)) : Bool :=
  s.tunnel_all_tls.isSome || requires_tls_passthrough alpn ||
    (s.passthrough_hosts ++ s.default_passthrough_hosts).any (· sni) ||
    decide (toAsciiLowercase sni ∈ s.mitm_rejected_hosts)

/-- The lock after a handshake that succeeded. -/
def noteSuccess : ProxyState :=
  { s with mitm_handshake_aborts := erase host s.mitm_handshake_aborts }

/-- The lock after a certificate reject of a client that offers h2. -/
def noteReject : ProxyState :=
  { s with mitm_rejected_hosts := s.mitm_rejected_hosts.insert host }

/-- The lock after an abort of a client that offers h2. -/
def noteAbort : ProxyState :=
  let count := (get host s.mitm_handshake_aborts).getD 0 + 1
  if count ≥ mitmAbortPassthroughThreshold then
    { s with
      mitm_handshake_aborts := erase host s.mitm_handshake_aborts
      mitm_rejected_hosts := s.mitm_rejected_hosts.insert host }
  else { s with mitm_handshake_aborts := put host count s.mitm_handshake_aborts }

/-- What is learned from a handshake that failed. -/
def noteFailure (alpn : List (List UInt8)) (error : Text) : ProxyState :=
  if offers_h2 alpn then
    if is_likely_client_cert_reject error then s.noteReject host
    else if is_likely_handshake_abort error then s.noteAbort host
    else s
  else s

end ProxyState

/-! ### The connections -/

/-- A connection that is intercepted: its handshake goes on, or has failed with an error that
    nothing has been learned from yet. -/
structure Connection where
  sni : Text
  alpn : List (List UInt8)
  origin : TrafficOrigin
  error : Option Text

structure Proxy where
  state : ProxyState
  connections : List Connection

/-- What happens to the proxy. -/
inductive Input
  | connect (hello : ClientHello) (dst_host : Text) (origin : TrafficOrigin)
  /-- The hello cannot be parsed again, no certificate can be made, or the client is gone. -/
  | giveUp (i : ℕ)
  | succeed (i : ℕ)
  | fail (i : ℕ) (error : Text)
  /-- The task of a failed handshake goes on. -/
  | resume (i : ℕ)
  | reset_capture_state
  | take_tls_rejects
  | set_passthrough_hosts (hosts defaults : List (Text → Bool))
  | set_tunnel_all_tls (warning : Option Text)

inductive Outcome
  | success
  | certificateReject
  | abort
  | otherFailure
deriving DecidableEq

/-- A handshake that has come out, for the host as the client spelled it. -/
structure Handshake where
  host : Text
  offersH2 : Bool
  outcome : Outcome
deriving DecidableEq

inductive Event
  | handshake (h : Handshake)
  | reset
  | silent
deriving DecidableEq

/-- An error that is neither of the two is no reason to stop intercepting. -/
def outcomeOf (error : Text) : Outcome :=
  if is_likely_client_cert_reject error then .certificateReject
  else if is_likely_handshake_abort error then .abort
  else .otherFailure

def upstreamHost (dst_host sni : Text) : Text := if dst_host = [] then sni else dst_host

def step (p : Proxy) : Input → Option (Proxy × Event)
  | .connect hello dst_host origin =>
    let sni := hello.sni.getD dst_host
    if upstreamHost dst_host sni = [] ∨ p.state.passesThrough sni hello.alpn then some (p, .silent)
    else some ({ p with connections := p.connections ++ [⟨sni, hello.alpn, origin, none⟩] }, .silent)
  | .giveUp i =>
    (p.connections[i]?).bind fun c =>
      if c.error = none then some ({ p with connections := p.connections.eraseIdx i }, .silent)
      else none
  | .succeed i =>
    (p.connections[i]?).bind fun c =>
      if c.error = none then
        some ({ state := p.state.noteSuccess (toAsciiLowercase c.sni)
                connections := p.connections.eraseIdx i },
          .handshake ⟨c.sni, offers_h2 c.alpn, .success⟩)
      else none
  | .fail i error =>
    (p.connections[i]?).bind fun c =>
      if c.error = none then
        some ({ state :=
                  if is_likely_client_cert_reject error then
                    p.state.record_tls_reject (toAsciiLowercase c.sni) c.origin
                  else p.state
                connections := p.connections.set i { c with error := some error } }, .silent)
      else none
  | .resume i =>
    (p.connections[i]?).bind fun c => c.error.bind fun error =>
      some ({ state := p.state.noteFailure (toAsciiLowercase c.sni) c.alpn error
              connections := p.connections.eraseIdx i },
        .handshake ⟨c.sni, offers_h2 c.alpn, outcomeOf error⟩)
  | .reset_capture_state => some ({ p with state := p.state.reset_capture_state }, .reset)
  | .take_tls_rejects => some ({ p with state := p.state.take_tls_rejects }, .silent)
  | .set_passthrough_hosts hosts defaults =>
    some ({ p with
      state := { p.state with
        passthrough_hosts := hosts
        default_passthrough_hosts := defaults } }, .silent)
  | .set_tunnel_all_tls warning =>
    some ({ p with state := { p.state with tunnel_all_tls := warning } }, .silent)

def Proxy.start (default_passthrough_hosts : List (Text → Bool)) : Proxy where
  state := .start default_passthrough_hosts
  connections := []

/-! ### What a history says -/

/-- An abort that counts towards the threshold. -/
def Handshake.countsAsAbort (h : Handshake) : Prop := h.offersH2 = true ∧ h.outcome = .abort

/-- A reject that is enough. -/
def Handshake.countsAsReject (h : Handshake) : Prop :=
  h.offersH2 = true ∧ h.outcome = .certificateReject

/-- A client offering h2 rejected the certificate, or two of them aborted and no handshake
    succeeded between the two. -/
def Learned (history : List Handshake) : Prop :=
  (∃ h ∈ history, h.countsAsReject) ∨
    ∃ before first between second after,
      history = before ++ first :: between ++ second :: after ∧
        first.countsAsAbort ∧ second.countsAsAbort ∧ ∀ h ∈ between, h.outcome ≠ .success

/-- An abort that no success follows. -/
def Pending (history : List Handshake) : Prop :=
  ∃ before first after, history = before ++ first :: after ∧ first.countsAsAbort ∧
    ∀ h ∈ after, h.outcome ≠ .success

/-- The handshake that an event shows, if it is one of the host in some spelling. -/
def handshakeOf (host : Text) : Event → Option Handshake
  | .handshake h => if toAsciiLowercase h.host = toAsciiLowercase host then some h else none
  | _ => none

/-- The handshakes of a host since the last reset. -/
def history (host : Text) (es : List Event) : List Handshake :=
  (es.rtakeWhile (· ≠ .reset)).filterMap (handshakeOf host)

variable {hist : List Handshake} {h : Handshake}

theorem pending_concat : Pending (hist ++ [h]) ↔
    h.countsAsAbort ∨ (Pending hist ∧ h.outcome ≠ .success) := by
  constructor
  · rintro ⟨before, first, after, heq, hfirst, hafter⟩
    rcases List.eq_nil_or_concat after with rfl | ⟨front, last, rfl⟩
    · obtain ⟨-, hlast⟩ := List.append_inj' heq rfl
      obtain rfl := List.singleton_inj.mp hlast
      exact Or.inl hfirst
    · rw [List.concat_eq_append, ← List.cons_append, ← List.append_assoc] at heq
      obtain ⟨rfl, hlast⟩ := List.append_inj' heq rfl
      obtain rfl := List.singleton_inj.mp hlast
      refine Or.inr ⟨⟨before, first, front, rfl, hfirst, fun x hx => hafter x ?_⟩, hafter h ?_⟩
      · simp [hx]
      · simp
  · rintro (hab | ⟨⟨before, first, after, rfl, hfirst, hafter⟩, hne⟩)
    · exact ⟨hist, h, [], rfl, hab, by simp⟩
    · refine ⟨before, first, after ++ [h], by simp, hfirst, fun x hx => ?_⟩
      rcases List.mem_append.mp hx with hx | hx
      · exact hafter x hx
      · obtain rfl := List.mem_singleton.mp hx
        exact hne

/-- One more handshake: it is a reject, or the abort that a pending one was waiting for. -/
theorem learned_concat : Learned (hist ++ [h]) ↔
    Learned hist ∨ h.countsAsReject ∨ (h.countsAsAbort ∧ Pending hist) := by
  constructor
  · rintro (⟨x, hx, hrej⟩ | ⟨before, first, between, second, after, heq, h₁, h₂, hno⟩)
    · rcases List.mem_append.mp hx with hx | hx
      · exact Or.inl (Or.inl ⟨x, hx, hrej⟩)
      · obtain rfl := List.mem_singleton.mp hx
        exact Or.inr (Or.inl hrej)
    · rcases List.eq_nil_or_concat after with rfl | ⟨front, last, rfl⟩
      · obtain ⟨rfl, hlast⟩ := List.append_inj' heq rfl
        obtain rfl := List.singleton_inj.mp hlast
        exact Or.inr (Or.inr ⟨h₂, before, first, between, rfl, h₁, hno⟩)
      · rw [List.concat_eq_append, ← List.cons_append, ← List.append_assoc] at heq
        obtain ⟨rfl, -⟩ := List.append_inj' heq rfl
        exact Or.inl (Or.inr ⟨before, first, between, second, front, rfl, h₁, h₂, hno⟩)
  · rintro ((⟨x, hx, hrej⟩ | ⟨before, first, between, second, after, rfl, h₁, h₂, hno⟩) | hrej | hab)
    · exact Or.inl ⟨x, List.mem_append_left _ hx, hrej⟩
    · exact Or.inr ⟨before, first, between, second, after ++ [h], by simp, h₁, h₂, hno⟩
    · exact Or.inl ⟨h, by simp, hrej⟩
    · obtain ⟨hab, before, first, after, rfl, hfirst, hafter⟩ := hab
      exact Or.inr ⟨before, first, after, h, [], by simp, hfirst, hab, hafter⟩

/-! ### What the state holds -/

/-- What a handshake that has come out does to the state. -/
def ProxyState.noteHandshake (s : ProxyState) (h : Handshake) : ProxyState :=
  match h.outcome with
  | .success => s.noteSuccess (toAsciiLowercase h.host)
  | .certificateReject => if h.offersH2 then s.noteReject (toAsciiLowercase h.host) else s
  | .abort => if h.offersH2 then s.noteAbort (toAsciiLowercase h.host) else s
  | .otherFailure => s

theorem noteFailure_eq {s : ProxyState} {sni error : Text} {alpn : List (List UInt8)} :
    s.noteFailure (toAsciiLowercase sni) alpn error =
      s.noteHandshake ⟨sni, offers_h2 alpn, outcomeOf error⟩ := by
  unfold ProxyState.noteFailure ProxyState.noteHandshake outcomeOf
  by_cases hrej : is_likely_client_cert_reject error = true
  · rw [if_pos hrej, if_pos hrej]
  rw [if_neg hrej, if_neg hrej]
  by_cases hab : is_likely_handshake_abort error = true
  · rw [if_pos hab, if_pos hab]
  rw [if_neg hab, if_neg hab, ite_self]

theorem sets_record_tls_reject {s : ProxyState} {host : Text} {origin : TrafficOrigin} :
    (s.record_tls_reject host origin).mitm_rejected_hosts = s.mitm_rejected_hosts ∧
      (s.record_tls_reject host origin).mitm_handshake_aborts = s.mitm_handshake_aborts := by
  unfold ProxyState.record_tls_reject
  cases origin with
  | unattributed =>
    dsimp only
    split
    · exact ⟨rfl, rfl⟩
    · exact ⟨rfl, rfl⟩
  | osService =>
    dsimp only
    split
    · exact ⟨rfl, rfl⟩
    · exact ⟨rfl, rfl⟩

/-- What one step does to the two sets, and what it shows. -/
theorem step_cases {p p' : Proxy} {i : Input} {e : Event} (h : step p i = some (p', e)) :
    (e = .silent ∧ p'.state.mitm_rejected_hosts = p.state.mitm_rejected_hosts ∧
        p'.state.mitm_handshake_aborts = p.state.mitm_handshake_aborts) ∨
      (e = .reset ∧ p'.state = p.state.reset_capture_state) ∨
      ∃ x, e = .handshake x ∧ p'.state = p.state.noteHandshake x := by
  cases i with
  | connect hello dst_host origin =>
    unfold step at h
    dsimp only at h
    split at h
    · cases h
      exact Or.inl ⟨rfl, rfl, rfl⟩
    · cases h
      exact Or.inl ⟨rfl, rfl, rfl⟩
  | giveUp i =>
    obtain ⟨c, -, h⟩ := Option.bind_eq_some_iff.mp h
    split at h <;> cases h
    exact Or.inl ⟨rfl, rfl, rfl⟩
  | succeed i =>
    obtain ⟨c, -, h⟩ := Option.bind_eq_some_iff.mp h
    split at h <;> cases h
    exact Or.inr (Or.inr ⟨_, rfl, rfl⟩)
  | fail i error =>
    obtain ⟨c, -, h⟩ := Option.bind_eq_some_iff.mp h
    split at h <;> cases h
    refine Or.inl ⟨rfl, ?_⟩
    dsimp only
    split
    · exact sets_record_tls_reject
    · exact ⟨rfl, rfl⟩
  | resume i =>
    obtain ⟨c, -, h⟩ := Option.bind_eq_some_iff.mp h
    obtain ⟨error, -, h⟩ := Option.bind_eq_some_iff.mp h
    cases h
    exact Or.inr (Or.inr ⟨_, rfl, noteFailure_eq⟩)
  | reset_capture_state =>
    cases h
    exact Or.inr (Or.inl ⟨rfl, rfl⟩)
  | take_tls_rejects =>
    cases h
    exact Or.inl ⟨rfl, rfl, rfl⟩
  | set_passthrough_hosts hosts defaults =>
    cases h
    exact Or.inl ⟨rfl, rfl, rfl⟩
  | set_tunnel_all_tls warning =>
    cases h
    exact Or.inl ⟨rfl, rfl, rfl⟩

/-- The two sets hold what the history of a host says of it. -/
structure Holds (s : ProxyState) (host : Text) (hist : List Handshake) : Prop where
  rejected : toAsciiLowercase host ∈ s.mitm_rejected_hosts ↔ Learned hist
  pending : get (toAsciiLowercase host) s.mitm_handshake_aborts = some 1 → Pending hist
  counted : get (toAsciiLowercase host) s.mitm_handshake_aborts ≠ some 1 →
    get (toAsciiLowercase host) s.mitm_handshake_aborts = none ∧ (Pending hist → Learned hist)

variable {s s' : ProxyState} {host : Text}

theorem Holds.congr (hs : Holds s host hist)
    (hrej : toAsciiLowercase host ∈ s'.mitm_rejected_hosts ↔
      toAsciiLowercase host ∈ s.mitm_rejected_hosts)
    (hab : get (toAsciiLowercase host) s'.mitm_handshake_aborts =
      get (toAsciiLowercase host) s.mitm_handshake_aborts) : Holds s' host hist where
  rejected := hrej.trans hs.rejected
  pending := by
    rw [hab]
    exact hs.pending
  counted := by
    rw [hab]
    exact hs.counted

theorem holds_nil (hrej : s.mitm_rejected_hosts = []) (hab : s.mitm_handshake_aborts = []) :
    Holds s host [] where
  rejected := by simp [hrej, Learned]
  pending := by simp [hab, Entries.get]
  counted := by simp [hab, Entries.get, Pending]

/-- A handshake of another host changes nothing for this one. -/
theorem Holds.other (hs : Holds s host hist)
    (hne : toAsciiLowercase host ≠ toAsciiLowercase h.host) :
    Holds (s.noteHandshake h) host hist := by
  have hinsert : toAsciiLowercase host ∈
      s.mitm_rejected_hosts.insert (toAsciiLowercase h.host) ↔
      toAsciiLowercase host ∈ s.mitm_rejected_hosts := by
    rw [List.mem_insert_iff]
    exact or_iff_right hne
  have herase : get (toAsciiLowercase host)
      (erase (toAsciiLowercase h.host) s.mitm_handshake_aborts) =
      get (toAsciiLowercase host) s.mitm_handshake_aborts := by
    rw [get_erase, if_neg hne]
  unfold ProxyState.noteHandshake
  cases h.outcome with
  | success => exact hs.congr Iff.rfl herase
  | certificateReject =>
    dsimp only
    split
    · exact hs.congr hinsert rfl
    · exact hs
  | abort =>
    dsimp only
    split
    · unfold ProxyState.noteAbort
      dsimp only
      split
      · exact hs.congr hinsert herase
      · refine hs.congr Iff.rfl ?_
        dsimp only
        rw [get_put, if_neg hne]
    · exact hs
  | otherFailure => exact hs

/-- A handshake that neither counts nor succeeds. -/
theorem Holds.uncounted (hs : Holds s host hist) (hab : ¬ h.countsAsAbort)
    (hrej : ¬ h.countsAsReject) (hno : h.outcome ≠ .success) : Holds s host (hist ++ [h]) where
  rejected := by
    rw [hs.rejected, learned_concat]
    simp [hab, hrej]
  pending hcount := pending_concat.mpr (Or.inr ⟨hs.pending hcount, hno⟩)
  counted hcount := by
    obtain ⟨hnone, himp⟩ := hs.counted hcount
    refine ⟨hnone, fun hpend => learned_concat.mpr (Or.inl (himp ?_))⟩
    exact ((pending_concat.mp hpend).resolve_left hab).1

theorem Holds.success (hs : Holds s host hist) (hok : h.outcome = .success) :
    Holds (s.noteSuccess (toAsciiLowercase host)) host (hist ++ [h]) := by
  have hnone : get (toAsciiLowercase host)
      (erase (toAsciiLowercase host) s.mitm_handshake_aborts) = none := by
    rw [get_erase, if_pos rfl]
  have hab : ¬ h.countsAsAbort := by simp [Handshake.countsAsAbort, hok]
  have hrej : ¬ h.countsAsReject := by simp [Handshake.countsAsReject, hok]
  refine ⟨?_, ?_, fun _ => ⟨hnone, ?_⟩⟩
  · rw [learned_concat]
    simp only [hab, hrej, false_and, or_false]
    exact hs.rejected
  · intro hcount
    rw [ProxyState.noteSuccess, hnone] at hcount
    cases hcount
  · intro hpend
    exact absurd hok ((pending_concat.mp hpend).resolve_left hab).2

theorem Holds.reject (hs : Holds s host hist) (hrej : h.countsAsReject) :
    Holds (s.noteReject (toAsciiLowercase host)) host (hist ++ [h]) := by
  have hlearned : Learned (hist ++ [h]) := learned_concat.mpr (Or.inr (Or.inl hrej))
  refine ⟨iff_of_true (List.mem_insert_self) hlearned, fun hcount => ?_, fun hcount => ?_⟩
  · refine pending_concat.mpr (Or.inr ⟨hs.pending hcount, ?_⟩)
    rw [hrej.2]
    decide
  · exact ⟨(hs.counted hcount).1, fun _ => hlearned⟩

/-- An abort is the first one that counts, or it reaches the threshold. -/
theorem Holds.abort (hs : Holds s host hist) (hab : h.countsAsAbort) :
    Holds (s.noteAbort (toAsciiLowercase host)) host (hist ++ [h]) := by
  have hpend : Pending (hist ++ [h]) := pending_concat.mpr (Or.inl hab)
  have hrej : ¬ h.countsAsReject := by simp [Handshake.countsAsReject, hab.2]
  unfold ProxyState.noteAbort
  by_cases hone : get (toAsciiLowercase host) s.mitm_handshake_aborts = some 1
  · have hlearned : Learned (hist ++ [h]) :=
      learned_concat.mpr (Or.inr (Or.inr ⟨hab, hs.pending hone⟩))
    have hnone : get (toAsciiLowercase host)
        (erase (toAsciiLowercase host) s.mitm_handshake_aborts) = none := by
      rw [get_erase, if_pos rfl]
    rw [hone]
    dsimp only [Option.getD_some]
    rw [if_pos (by decide)]
    exact ⟨iff_of_true (List.mem_insert_self) hlearned, fun _ => hpend,
      fun _ => ⟨hnone, fun _ => hlearned⟩⟩
  · obtain ⟨hnone, himp⟩ := hs.counted hone
    have hput : get (toAsciiLowercase host)
        (put (toAsciiLowercase host) 1 s.mitm_handshake_aborts) = some 1 := by
      rw [get_put, if_pos rfl]
    rw [hnone]
    dsimp only [Option.getD_none]
    rw [if_neg (by decide)]
    refine ⟨?_, fun _ => hpend, fun hcount => absurd hput hcount⟩
    rw [learned_concat]
    simp only [hrej, false_or]
    exact hs.rejected.trans (or_iff_left_of_imp fun h => himp h.2).symm

/-- A handshake of the host itself. -/
theorem Holds.own (hs : Holds s host hist)
    (heq : toAsciiLowercase h.host = toAsciiLowercase host) :
    Holds (s.noteHandshake h) host (hist ++ [h]) := by
  unfold ProxyState.noteHandshake
  rw [heq]
  cases hout : h.outcome with
  | success => exact hs.success hout
  | certificateReject =>
    have hab : ¬ h.countsAsAbort := by simp [Handshake.countsAsAbort, hout]
    dsimp only
    split
    case isTrue hh2 => exact hs.reject ⟨hh2, hout⟩
    case isFalse hh2 =>
      exact hs.uncounted hab (fun hrej => hh2 hrej.1) (by simp [hout])
  | abort =>
    have hrej : ¬ h.countsAsReject := by simp [Handshake.countsAsReject, hout]
    dsimp only
    split
    case isTrue hh2 => exact hs.abort ⟨hh2, hout⟩
    case isFalse hh2 =>
      exact hs.uncounted (fun hab => hh2 hab.1) hrej (by simp [hout])
  | otherFailure =>
    refine hs.uncounted ?_ ?_ (by simp [hout])
    · simp [Handshake.countsAsAbort, hout]
    · simp [Handshake.countsAsReject, hout]

theorem history_concat {es : List Event} {e : Event} (hne : e ≠ .reset) :
    history host (es ++ [e]) = history host es ++ (handshakeOf host e).toList := by
  unfold history
  rw [List.rtakeWhile_concat_pos _ _ _ (by simpa using hne), List.filterMap_append]
  cases hh : handshakeOf host e <;> simp [hh]

theorem history_reset {es : List Event} : history host (es ++ [.reset]) = [] := by
  unfold history
  rw [List.rtakeWhile_concat_neg _ _ _ (by simp)]
  rfl

/-- Over any run of the proxy. -/
theorem holds_of_run {defaults : List (Text → Bool)} {es : List Event} {p : Proxy}
    (hrun : Run (Steps step) (Proxy.start defaults) es p) :
    Holds p.state host (history host es) := by
  induction hrun with
  | nil => exact holds_nil rfl rfl
  | @snoc es p p' e _ hstep ih =>
    obtain ⟨i, hstep⟩ := hstep
    rcases step_cases hstep with ⟨rfl, hrej, hab⟩ | ⟨rfl, hstate⟩ | ⟨h, rfl, hstate⟩
    · rw [history_concat (by decide)]
      change Holds p'.state host (history host es ++ [])
      rw [List.append_nil]
      exact ih.congr (by rw [hrej]) (by rw [hab])
    · rw [history_reset, hstate]
      exact holds_nil rfl rfl
    · rw [history_concat (by simp), hstate, handshakeOf]
      by_cases heq : toAsciiLowercase h.host = toAsciiLowercase host
      · rw [if_pos heq]
        exact ih.own heq
      · rw [if_neg heq, Option.toList_none, List.append_nil]
        exact ih.other (Ne.symm heq)

/-- **What is learned of a host.**  In every run the host is held rejected, in whatever spelling,
    exactly if its handshakes since the last reset say so. -/
theorem rejected_iff (defaults : List (Text → Bool)) (es : List Event) (p : Proxy)
    (hrun : Run (Steps step) (Proxy.start defaults) es p) (host : Text) :
    toAsciiLowercase host ∈ p.state.mitm_rejected_hosts ↔ Learned (history host es) :=
  (holds_of_run hrun).rejected

/-- Two clients that abort, both of them before anything is learned. -/
theorem rejected_iff_two_aborts :
    ∃ p, Run (Steps step) (Proxy.start [])
      [.silent, .silent, .silent, .silent, .handshake ⟨"Api.Example".toList, true, .abort⟩,
        .handshake ⟨"api.example".toList, true, .abort⟩] p ∧
        toAsciiLowercase "API.example".toList ∈ p.state.mitm_rejected_hosts := by
  have hexec : (exec step (Proxy.start [])
      [.connect ⟨some "Api.Example".toList, [h2]⟩ [] .unattributed,
        .connect ⟨some "api.example".toList, [http11, h2]⟩ ['1'] .unattributed,
        .fail 1 "tls handshake eof".toList, .fail 0 "Connection reset by peer".toList,
        .resume 0, .resume 0]).map Prod.snd =
      some [.silent, .silent, .silent, .silent, .handshake ⟨"Api.Example".toList, true, .abort⟩,
        .handshake ⟨"api.example".toList, true, .abort⟩] := by
    decide +kernel
  obtain ⟨p, hrun⟩ := exists_run_of_exec hexec
  exact ⟨p, hrun, (rejected_iff [] _ p hrun _).mpr (Or.inr ⟨[], ⟨"Api.Example".toList, true, .abort⟩,
    [], ⟨"api.example".toList, true, .abort⟩, [], by decide +kernel, ⟨rfl, rfl⟩, ⟨rfl, rfl⟩,
    by simp⟩)⟩

end Tapsmith.Tls
