import Mathlib.Data.List.Perm.Subperm
import Mathlib.Data.List.Dedup
import Tapsmith.Live.NetworkBodies

namespace Tapsmith.Live

open Lib Lib.Entries

/-!
# Viewers of the live network stream

What viewers hold, from what the encoder sends and from what the server replays.

* `joinAfter_eq` — it does not matter when a viewer connects;
* `live_stream` — behind the last message of a snapshot a viewer has its entries and exactly their
  bodies.
-/

/-! ### Connecting late -/

section Late

variable {F T K : Type} [DecidableEq K]

theorem get_receive (traces : List (K × Trace F T)) (message : K × NetworkMessage F T) (key : K) :
    get key (receive traces message) =
      if key = message.1 then some (((get key traces).getD {}).merge message.2)
      else get key traces := by
  rw [receive, get_put]
  split
  case isTrue h => rw [h]
  case isFalse => rfl

/-- What a viewer makes of a message depends on the traces that it holds, whatever their order. -/
theorem get_receive_congr {traces traces' : List (K × Trace F T)}
    (h : ∀ key, get key traces = get key traces') (messages : List (K × NetworkMessage F T))
    (key : K) :
    get key (messages.foldl receive traces) = get key (messages.foldl receive traces') := by
  induction messages generalizing traces traces' with
  | nil => exact h key
  | cons message messages ih =>
    refine ih fun key => ?_
    rw [get_receive, get_receive, h key]

/-- A trace is complete where its bodies are what a full message with them would leave. -/
def Trace.Complete (trace : Trace F T) : Prop :=
  mergeNetworkBodies trace.network [] trace.networkBodies false = trace.networkBodies

/-- What was merged is kept by a full message. -/
theorem Trace.complete_merge (trace : Trace F T) (message : NetworkMessage F T) :
    (trace.merge message).Complete := by
  show collect _ _ = collect _ _
  refine collect_congr fun path hpath => ?_
  rw [if_neg Bool.false_ne_true, Option.or_none]
  exact get_merge_of_mem hpath

/-- The message that the buffer keeps of a trace. -/
def Trace.replayed (trace : Trace F T) : NetworkMessage F T where
  entries := trace.network
  bodies := trace.networkBodies
  patch := false

theorem Trace.merge_replayed {trace : Trace F T} (h : trace.Complete) :
    ({} : Trace F T).merge trace.replayed = trace := by
  show (⟨trace.network, mergeNetworkBodies trace.network [] trace.networkBodies false⟩ :
    Trace F T) = trace
  rw [h]

/-- The tests that messages are about. -/
def tests (messages : List (K × NetworkMessage F T)) : List K := (messages.map Prod.fst).dedup

theorem length_le_tests {keys : List K} (hnodup : keys.Nodup)
    (messages : List (K × NetworkMessage F T)) (h : ∀ key ∈ keys, key ∈ messages.map Prod.fst) :
    keys.length ≤ (tests messages).length :=
  (hnodup.subperm fun key hkey => List.mem_dedup.mpr (h key hkey)).length_le

namespace Replay

/-- What holds of the buffer behind some messages: it keeps a full message of each trace. -/
structure Follows (snapshots : List (K × NetworkMessage F T))
    (messages : List (K × NetworkMessage F T)) : Prop where
  nodup : (snapshots.map Prod.fst).Nodup
  known : ∀ key ∈ snapshots.map Prod.fst, key ∈ messages.map Prod.fst
  replayed : ∀ key, get key snapshots = (get key (received messages)).map Trace.replayed

theorem addAll_concat (capacity : ℕ) (messages : List (K × NetworkMessage F T))
    (message : K × NetworkMessage F T) :
    addAll capacity (messages ++ [message]) = add capacity (addAll capacity messages) message :=
  List.foldl_concat _ _ _ _

theorem received_concat (messages : List (K × NetworkMessage F T))
    (message : K × NetworkMessage F T) :
    received (messages ++ [message]) = receive (received messages) message :=
  List.foldl_concat _ _ _ _

/-- A message is not dropped where there is room for its test. -/
theorem Follows.add_eq {capacity : ℕ} {snapshots messages : List (K × NetworkMessage F T)}
    {message : K × NetworkMessage F T} (h : Follows snapshots messages)
    (hcapacity : (tests (messages ++ [message])).length ≤ capacity) :
    add capacity snapshots message =
      put message.1
        { message.2 with
          patch := false
          bodies := mergeNetworkBodies message.2.entries
            (((get message.1 snapshots).map (·.bodies)).getD []) message.2.bodies
            message.2.patch } snapshots := by
  rw [add, if_neg]
  rintro ⟨hnone, hfull⟩
  have hfresh : message.1 ∉ snapshots.map Prod.fst := by
    intro hmem
    obtain ⟨c, hc⟩ := exists_get hmem
    rw [hc] at hnone
    cases hnone
  have hnodup : (snapshots.map Prod.fst ++ [message.1]).Nodup := by
    rw [List.nodup_append]
    refine ⟨h.nodup, List.nodup_singleton _, fun a ha b hb hab => hfresh ?_⟩
    rw [← List.mem_singleton.mp hb, ← hab]
    exact ha
  have hle := length_le_tests hnodup (messages ++ [message]) fun key hkey => by
    rw [List.map_append, List.mem_append]
    exact (List.mem_append.mp hkey).imp (h.known key) id
  rw [List.length_append, List.length_map, List.length_singleton] at hle
  omega

theorem Follows.add {capacity : ℕ} {snapshots messages : List (K × NetworkMessage F T)}
    {message : K × NetworkMessage F T} (h : Follows snapshots messages)
    (hcapacity : (tests (messages ++ [message])).length ≤ capacity) :
    Follows (add capacity snapshots message) (messages ++ [message]) := by
  rw [h.add_eq hcapacity]
  refine ⟨nodup_put h.nodup, fun key hkey => ?_, fun key => ?_⟩
  · rw [List.map_append, List.mem_append]
    rcases mem_names_put.mp hkey with rfl | hkey
    · exact .inr List.mem_cons_self
    · exact .inl (h.known key hkey)
  · rw [received_concat, get_put, get_receive]
    split
    case isFalse => exact h.replayed key
    case isTrue hkey =>
      -- what the buffer merges with is what the viewers merge with
      subst hkey
      rw [h.replayed message.1]
      cases get message.1 (received messages) with
      | none => rfl
      | some trace => rfl

theorem follows_addAll {capacity : ℕ} (messages : List (K × NetworkMessage F T))
    (hcapacity : (tests messages).length ≤ capacity) :
    Follows (addAll capacity messages) messages := by
  induction messages using List.reverseRecOn with
  | nil => exact ⟨List.nodup_nil, fun _ h => h, fun _ => rfl⟩
  | append_singleton messages message ih =>
    rw [addAll_concat]
    refine (ih (Nat.le_trans ?_ hcapacity)).add hcapacity
    exact length_le_tests (List.nodup_dedup _) _ fun key hkey => by
      rw [List.map_append, List.mem_append]
      exact .inl (List.mem_dedup.mp hkey)

end Replay

theorem received_complete (messages : List (K × NetworkMessage F T)) {key : K} {trace : Trace F T}
    (h : get key (received messages) = some trace) : trace.Complete := by
  induction messages using List.reverseRecOn with
  | nil => cases h
  | append_singleton messages message ih =>
    rw [Replay.received_concat, get_receive] at h
    split at h
    · obtain rfl := Option.some.inj h
      exact Trace.complete_merge _ _
    · exact ih h

/-- A viewer that takes full messages of different tests holds the traces they are of. -/
theorem get_received_replayed {snapshots : List (K × NetworkMessage F T)}
    (hnodup : (snapshots.map Prod.fst).Nodup) (key : K) :
    get key (received snapshots) =
      (get key snapshots).map fun message => ({} : Trace F T).merge message := by
  induction snapshots using List.reverseRecOn with
  | nil => rfl
  | append_singleton snapshots message ih =>
    rw [List.map_append, List.nodup_append] at hnodup
    have hfresh : get message.1 snapshots = none :=
      get_eq_none fun hmem => hnodup.2.2 _ hmem _ List.mem_cons_self rfl
    rw [Replay.received_concat, get_receive, get_append, ih hnodup.1, get_cons]
    by_cases hkey : key = message.1
    · subst hkey
      rw [if_pos rfl, hfresh, if_pos rfl]
      rfl
    · rw [if_neg hkey, if_neg (Ne.symm hkey)]
      exact (congrArg _ (Option.or_none)).symm

/-- **It does not matter when a viewer connects**, as long as the buffer has room for every test:
    it holds the same traces as one that has been there from the start. -/
theorem joinAfter_eq {capacity : ℕ} (before later : List (K × NetworkMessage F T))
    (hcapacity : (tests before).length ≤ capacity) (key : K) :
    get key (joinAfter capacity before later) = get key (received (before ++ later)) := by
  have hfollows := Replay.follows_addAll before hcapacity
  have happend : received (before ++ later) = later.foldl receive (received before) :=
    List.foldl_append
  rw [joinAfter, happend]
  refine get_receive_congr (fun key => ?_) later key
  rw [get_received_replayed hfollows.nodup, hfollows.replayed, Option.map_map]
  show _ = get key (received before)
  cases htrace : get key (received before) with
  | none => rfl
  | some trace => exact congrArg some (Trace.merge_replayed (received_complete before htrace))

end Late

/-! ### The stream of a test -/

section Stream

variable {B F T K : Type} [DecidableEq B] [DecidableEq K] (buffers : Buffers B T)

/-- A viewer makes its trace of a test from the messages of that test. -/
theorem getD_foldl_receive (key : K) (stream : List (K × NetworkMessage F T))
    (traces : List (K × Trace F T)) :
    (get key (stream.foldl receive traces)).getD {} =
      ((stream.filter (·.1 = key)).map (·.2)).foldl Trace.merge ((get key traces).getD {}) := by
  induction stream generalizing traces with
  | nil => rfl
  | cons message stream ih =>
    rw [List.foldl_cons, ih, get_receive, List.filter_cons]
    by_cases hkey : key = message.1
    · subst hkey
      simp
    · rw [if_neg hkey, if_neg (by simp [Ne.symm hkey])]

/-- An entry has a body with a text, and names it by a path. -/
def Buffers.Carries (entry : NetworkEntry B F) (path : Path) (text : T) : Prop :=
  ∃ body, buffers.bytes body ≠ [] ∧ text = buffers.base64 (buffers.bytes body) ∧
    ((entry.requestBody = some body ∧ (buffers.strip entry).requestBodyPath = some path) ∨
      (entry.responseBody = some body ∧ (buffers.strip entry).responseBodyPath = some path))

variable {buffers}

omit [DecidableEq B] in
theorem Buffers.present_eq_some {body : Option B} {b : B} :
    buffers.present body = some b ↔ body = some b ∧ buffers.bytes b ≠ [] := by
  rw [Buffers.present, Option.filter_eq_some_iff, decide_eq_true_iff, List.length_pos_iff]

omit [DecidableEq B] in
theorem Buffers.carries_iff {entry : NetworkEntry B F} {path : Path} {text : T} :
    buffers.Carries entry path text ↔ ∃ x ∈ buffers.bodiesOf entry,
      x.2.1 = path ∧ buffers.base64 (buffers.bytes x.2.2) = text := by
  constructor
  · rintro ⟨body, hbytes, rfl, ⟨hbody, hpath⟩ | ⟨hbody, hpath⟩⟩
    · have hpresent := Buffers.present_eq_some.mpr ⟨hbody, hbytes⟩
      rw [Buffers.strip, hpresent] at hpath
      exact ⟨(.request, path, body), Buffers.mem_bodiesOf.mpr
        ⟨(Option.some.inj hpath).symm, .inl ⟨rfl, hpresent⟩⟩, rfl, rfl⟩
    · have hpresent := Buffers.present_eq_some.mpr ⟨hbody, hbytes⟩
      rw [Buffers.strip, hpresent] at hpath
      exact ⟨(.response, path, body), Buffers.mem_bodiesOf.mpr
        ⟨(Option.some.inj hpath).symm, .inr ⟨rfl, hpresent⟩⟩, rfl, rfl⟩
  · rintro ⟨⟨label, path, body⟩, hx, rfl, rfl⟩
    obtain ⟨hpath, ⟨hlabel, hpresent⟩ | ⟨hlabel, hpresent⟩⟩ := Buffers.mem_bodiesOf.mp hx
    · obtain ⟨hbody, hbytes⟩ := Buffers.present_eq_some.mp hpresent
      refine ⟨body, hbytes, rfl, .inl ⟨hbody, ?_⟩⟩
      rw [Buffers.strip, hpresent, hpath, hlabel]
      rfl
    · obtain ⟨hbody, hbytes⟩ := Buffers.present_eq_some.mp hpresent
      refine ⟨body, hbytes, rfl, .inr ⟨hbody, ?_⟩⟩
      rw [Buffers.strip, hpresent, hpath, hlabel]
      rfl

omit [DecidableEq B] in
/-- The texts of the bodies that the encoder remembers. -/
theorem Buffers.get_known {entries : List (NetworkEntry B F)} (h : buffers.Snapshot entries)
    {path : Path} {text : T} :
    ((get path (buffers.known entries)).map fun body => buffers.base64 (buffers.bytes body)) =
        some text ↔ ∃ entry ∈ entries, buffers.Carries entry path text := by
  simp only [Buffers.carries_iff]
  rw [Option.map_eq_some_iff]
  constructor
  · rintro ⟨body, hget, rfl⟩
    have hmem := mem_of_get hget
    rw [Buffers.known_eq h] at hmem
    obtain ⟨x, hx, heq⟩ := List.mem_map.mp hmem
    obtain ⟨entry, hentry, hx⟩ := List.mem_flatMap.mp hx
    refine ⟨entry, hentry, x, hx, ?_, ?_⟩
    · rw [heq]
    · rw [heq]
  · rintro ⟨entry, hentry, x, hx, rfl, rfl⟩
    refine ⟨x.2.2, get_of_mem (Buffers.known_nodup h) ?_, rfl⟩
    rw [Buffers.known_eq h]
    exact List.mem_map.mpr ⟨x, List.mem_flatMap.mpr ⟨entry, hentry, hx⟩, rfl⟩

/-- **The live stream.**  Behind the last message of each snapshot of a test, a viewer that has been
    there from the start has the entries of that snapshot, and exactly their bodies, whatever
    messages of other tests came between.  A viewer that connects between any two messages holds the
    same from then on, as long as the buffer has room. -/
theorem live_stream (buffers : Buffers B T) :
    (∀ (key : K) (snapshots : List (List (NetworkEntry B F))) (last : List (NetworkEntry B F))
      (stream : List (K × NetworkMessage F T)),
      (∀ entries ∈ snapshots ++ [last], buffers.Snapshot entries) →
      (stream.filter (·.1 = key)).map (·.2) = buffers.encodeAll [] (snapshots ++ [last]) →
      ((get key (received stream)).getD {}).network = last.map buffers.strip ∧
      ∀ path text, get path ((get key (received stream)).getD {}).networkBodies = some text ↔
        ∃ entry ∈ last, buffers.Carries entry path text) ∧
    ∀ (capacity : ℕ) (before later : List (K × NetworkMessage F T)) (key : K),
      (tests before).length ≤ capacity →
      get key (joinAfter capacity before later) = get key (received (before ++ later)) := by
  refine ⟨fun key snapshots last stream hsnapshots hstream => ?_,
    fun capacity before later key hcapacity => joinAfter_eq before later hcapacity key⟩
  have htrace : (get key (received stream)).getD {} =
      (buffers.encodeAll [] (snapshots ++ [last])).foldl Trace.merge {} := by
    rw [received, getD_foldl_receive, hstream]
    rfl
  have hstart : buffers.InStep ({} : Trace F T) [] := ⟨fun _ => rfl⟩
  obtain ⟨hstep, hnetwork⟩ := Buffers.inStep_encodeAll hstart snapshots last hsnapshots
  rw [htrace]
  refine ⟨hnetwork, fun path text => ?_⟩
  rw [hstep.bodies path]
  exact Buffers.get_known (hsnapshots last (by simp))

end Stream

/-- One buffer of one byte, sent as it is. -/
def oneBuffer : Buffers Unit (List UInt8) where
  bytes _ := [7]
  base64 bytes := bytes
  bodyPlaceholder _ _ := []
  length := List.length

/-- A snapshot of one request with a response body, at a viewer. -/
theorem live_stream_response :
    get (bodyPath .response 0) ((get () (received ((oneBuffer.encodeAll []
      [[({ index := 0, requestBody := none, responseBody := some (), fields := () } :
        NetworkEntry Unit Unit)]]).map fun message => ((), message)))).getD {}).networkBodies =
      some [7] := by
  refine (((live_stream oneBuffer).1 () [] [⟨0, none, some (), ()⟩] _ (fun entries hentries => ?_)
    (by simp [List.filter_map])).2 _ _).mpr ⟨_, List.mem_cons_self, (), by decide, rfl,
      .inr ⟨rfl, rfl⟩⟩
  obtain rfl := List.mem_singleton.mp hentries
  refine ⟨List.nodup_singleton _, fun entry hentry body hbody => ?_⟩
  show 1 ≤ MAX_IPC_BODY_BYTES
  decide

end Tapsmith.Live
