import Tapsmith.Lib.Collect
import Tapsmith.Lib.Text

namespace Tapsmith.Live

open Lib Lib.Entries

/-!
# The live network stream

What UI mode shows of the network traffic of a running test.  The worker encodes each snapshot of
the traffic into one or more patches (`encode-bodies.ts`), the server keeps a complete message per
test for viewers that connect later (`network-replay.ts`), and each viewer merges what it receives
(`network-bodies.ts`).

* `encode`, `encodeAll` — the messages of a snapshot, and of a sequence of snapshots;
* `mergeNetworkBodies`, `receive` — a viewer;
* `Replay.add`, `joinAfter` — the buffer, and a viewer that connects late;
* `Buffers.encoded_eq` — what is sent of a snapshot: the bodies that the one before did not have;
* `Buffers.inStep_encodeAll` — a viewer of all messages has what the encoder remembers.

A body is a reference to a buffer that is not written to any more: it is replaced when its bytes
change.  Entries have no body paths of their own while a test runs.
-/

/-! ### Snapshots and messages -/

abbrev Path := List Char

inductive Label
  | request
  | response
deriving DecidableEq

def Label.tag : Label → List Char
  | .request => "req".toList
  | .response => "res".toList

/-- `network/req-${index}.bin` and `network/res-${index}.bin`. -/
def bodyPath (label : Label) (index : ℕ) : Path :=
  "network/".toList ++ label.tag ++ '-' :: Nat.toDigits 10 index ++ ".bin".toList

/-- `NetworkEntry`; `fields` is all of an entry that no function looks into. -/
structure NetworkEntry (B F : Type) where
  index : ℕ
  requestBody : Option B
  responseBody : Option B
  fields : F

/-- An entry without its bodies. -/
structure SafeEntry (F : Type) where
  index : ℕ
  requestBodyPath : Option Path
  responseBodyPath : Option Path
  fields : F

/-- The bytes of the buffers, and the texts that are sent for them. -/
structure Buffers (B T : Type) where
  bytes : B → List UInt8
  base64 : List UInt8 → T
  bodyPlaceholder : ℕ → Label → T
  length : T → ℕ

/-- What a message carries of a test: its entries, and bodies by path. -/
structure NetworkMessage (F T : Type) where
  entries : List (SafeEntry F)
  bodies : List (Path × T)
  patch : Bool

def MAX_IPC_BODY_BYTES : ℕ := 5 * 1024 * 1024

/-- How much of bodies one message carries. -/
def budget : ℕ := 8 * 1024 * 1024

section Encoder

variable {B F T : Type} (buffers : Buffers B T)

namespace Buffers

def encodeBody (label : Label) (body : B) : T :=
  if (buffers.bytes body).length > MAX_IPC_BODY_BYTES then
    buffers.bodyPlaceholder (buffers.bytes body).length label
  else buffers.base64 (buffers.bytes body)

/-- The body, if it has any bytes. -/
def present (body : Option B) : Option B := body.filter fun b => 0 < (buffers.bytes b).length

/-- The bodies of an entry that have bytes, in the order in which they are looked at. -/
def bodiesOf (entry : NetworkEntry B F) : List (Label × Path × B) :=
  ((buffers.present entry.requestBody).toList.map fun b =>
    (.request, bodyPath .request entry.index, b)) ++
  (buffers.present entry.responseBody).toList.map fun b =>
    (.response, bodyPath .response entry.index, b)

def strip (entry : NetworkEntry B F) : SafeEntry F where
  index := entry.index
  requestBodyPath := (buffers.present entry.requestBody).map fun _ => bodyPath .request entry.index
  responseBodyPath :=
    (buffers.present entry.responseBody).map fun _ => bodyPath .response entry.index
  fields := entry.fields

variable [DecidableEq B]

/-- `encodeNetworkBodies`: the bodies that the previous snapshot did not have. -/
def encodeNetworkBodies (entries : List (NetworkEntry B F)) (previous : List (Path × B)) :
    List (SafeEntry F) × List (Path × T) :=
  (entries.map buffers.strip,
    (entries.flatMap buffers.bodiesOf).foldl (fun bodies x =>
      if get x.2.1 previous ≠ some x.2.2 then
        put x.2.1 (buffers.encodeBody x.1 x.2.2) bodies
      else bodies) [])

/-- The bodies of a snapshot, as the encoder remembers them. -/
def known (entries : List (NetworkEntry B F)) : List (Path × B) :=
  (entries.flatMap buffers.bodiesOf).foldl (fun previous x => put x.2.1 x.2.2 previous) []

/-- The messages: a new one is begun when the next body would exceed the budget. -/
def split (entries : List (SafeEntry F)) :
    List (Path × T) → List (Path × T) → ℕ → List (NetworkMessage F T)
  | [], bodies, _ => [{ entries, bodies, patch := true }]
  | (path, body) :: rest, bodies, size =>
    if size + buffers.length body > budget ∧ size > 0 then
      { entries, bodies, patch := true } ::
        split entries rest (put path body []) (buffers.length body)
    else split entries rest (put path body bodies) (size + buffers.length body)

/-- The function that `createNetworkBodyEncoder` returns, with what it remembers. -/
def encode (previous : List (Path × B)) (entries : List (NetworkEntry B F)) :
    List (NetworkMessage F T) × List (Path × B) :=
  let encoded := buffers.encodeNetworkBodies entries previous
  (buffers.split encoded.1 encoded.2 [] 0, buffers.known entries)

/-- The messages of a sequence of snapshots. -/
def encodeAll : List (Path × B) → List (List (NetworkEntry B F)) → List (NetworkMessage F T)
  | _, [] => []
  | previous, entries :: rest =>
    (buffers.encode previous entries).1 ++ encodeAll (buffers.encode previous entries).2 rest

end Buffers

end Encoder

/-! ### Viewers -/

section Viewers

variable {F T : Type}

/-- The paths that an entry names, in the order in which they are looked at. -/
def SafeEntry.paths (entry : SafeEntry F) : List Path :=
  entry.requestBodyPath.toList ++ entry.responseBodyPath.toList

def mergeNetworkBodies (entries : List (SafeEntry F)) (previous updates : List (Path × T))
    (patch : Bool) : List (Path × T) :=
  collect (fun path => (get path updates).or (if patch then get path previous else none))
    (entries.flatMap SafeEntry.paths)

/-- What a viewer holds of a test. -/
structure Trace (F T : Type) where
  network : List (SafeEntry F) := []
  networkBodies : List (Path × T) := []

/-- A message of the test. -/
def Trace.merge (trace : Trace F T) (message : NetworkMessage F T) : Trace F T where
  network := message.entries
  networkBodies :=
    mergeNetworkBodies message.entries trace.networkBodies message.bodies message.patch

variable {K : Type} [DecidableEq K]

/-- A viewer holds a trace for each test, by its `traceKey`. -/
def receive (traces : List (K × Trace F T)) (message : K × NetworkMessage F T) :
    List (K × Trace F T) :=
  put message.1 (((get message.1 traces).getD {}).merge message.2) traces

/-- A viewer that has been there from the start. -/
def received (messages : List (K × NetworkMessage F T)) : List (K × Trace F T) :=
  messages.foldl receive []

/-! ### The replay buffer -/

namespace Replay

def add (capacity : ℕ) (snapshots : List (K × NetworkMessage F T))
    (message : K × NetworkMessage F T) : List (K × NetworkMessage F T) :=
  let previous := get message.1 snapshots
  if previous.isNone ∧ snapshots.length ≥ capacity then snapshots
  else
    put message.1
      { message.2 with
        patch := false
        bodies := mergeNetworkBodies message.2.entries ((previous.map (·.bodies)).getD [])
          message.2.bodies message.2.patch } snapshots

def addAll (capacity : ℕ) (messages : List (K × NetworkMessage F T)) :
    List (K × NetworkMessage F T) :=
  messages.foldl (add capacity) []

end Replay

/-- A viewer that connects behind the messages of `before` and sees those of `later`. -/
def joinAfter (capacity : ℕ) (before later : List (K × NetworkMessage F T)) :
    List (K × Trace F T) :=
  later.foldl receive (received (Replay.addAll capacity before))

end Viewers

/-! ### What is sent of a snapshot -/

theorem bodyPath_injective {label label' : Label} {index index' : ℕ}
    (h : bodyPath label index = bodyPath label' index') : label = label' ∧ index = index' := by
  have htag : ∀ l : Label, l.tag.length = 3 := by
    intro l
    cases l <;> rfl
  have hinjective : label.tag = label'.tag → label = label' := by
    cases label <;> cases label' <;> decide
  unfold bodyPath at h
  generalize "network/".toList = front at h
  generalize ".bin".toList = ending at h
  rw [List.append_assoc, List.append_assoc, List.append_assoc, List.append_assoc,
    List.append_cancel_left_eq] at h
  obtain ⟨htags, hrest⟩ := List.append_inj h (by rw [htag, htag])
  refine ⟨hinjective htags, ?_⟩
  have hdigits := List.append_cancel_right (List.cons.inj hrest).2
  have hvalue := congrArg (Text.digitsValue 10 0) hdigits
  rw [Text.digitsValue_toDigits, Text.digitsValue_toDigits] at hvalue
  exact Option.some.inj hvalue

section Encoded

variable {B F T : Type} (buffers : Buffers B T)

/-- A snapshot as the capture takes it: different entries have different indices, and no body is
    larger than what is sent. -/
structure Buffers.Snapshot (entries : List (NetworkEntry B F)) : Prop where
  distinct : (entries.map (·.index)).Nodup
  small : ∀ entry ∈ entries, ∀ body, entry.requestBody = some body ∨ entry.responseBody = some body →
    (buffers.bytes body).length ≤ MAX_IPC_BODY_BYTES

variable {buffers} {entries : List (NetworkEntry B F)}

theorem Buffers.mem_bodiesOf {entry : NetworkEntry B F} {x : Label × Path × B} :
    x ∈ buffers.bodiesOf entry ↔ x.2.1 = bodyPath x.1 entry.index ∧
      ((x.1 = .request ∧ buffers.present entry.requestBody = some x.2.2) ∨
        (x.1 = .response ∧ buffers.present entry.responseBody = some x.2.2)) := by
  obtain ⟨label, path, body⟩ := x
  rw [Buffers.bodiesOf, List.mem_append, List.mem_map, List.mem_map]
  simp only [Option.mem_toList, Prod.mk.injEq]
  constructor
  · rintro (⟨b, hb, rfl, rfl, rfl⟩ | ⟨b, hb, rfl, rfl, rfl⟩)
    · exact ⟨rfl, .inl ⟨rfl, hb⟩⟩
    · exact ⟨rfl, .inr ⟨rfl, hb⟩⟩
  · rintro ⟨rfl, ⟨rfl, hb⟩ | ⟨rfl, hb⟩⟩
    · exact .inl ⟨body, hb, rfl, rfl, rfl⟩
    · exact .inr ⟨body, hb, rfl, rfl, rfl⟩

theorem Buffers.names_nodup (h : buffers.Snapshot entries) :
    ((entries.flatMap buffers.bodiesOf).map (·.2.1)).Nodup := by
  rw [List.map_flatMap, List.nodup_flatMap]
  have hname : ∀ entry : NetworkEntry B F, ∀ path ∈ (buffers.bodiesOf entry).map (·.2.1),
      ∃ label, path = bodyPath label entry.index := by
    intro entry path hpath
    obtain ⟨x, hx, rfl⟩ := List.mem_map.mp hpath
    exact ⟨x.1, (Buffers.mem_bodiesOf.mp hx).1⟩
  constructor
  · intro entry _
    have hne : bodyPath .request entry.index ≠ bodyPath .response entry.index := fun heq => by
      cases (bodyPath_injective heq).1
    rw [Buffers.bodiesOf]
    cases buffers.present entry.requestBody <;> cases buffers.present entry.responseBody <;>
      simp [hne]
  · refine (List.pairwise_map.mp h.distinct).imp fun {e e'} hne => ?_
    show List.Disjoint _ _
    rw [List.disjoint_left]
    intro path hpath hpath'
    obtain ⟨label, rfl⟩ := hname e path hpath
    obtain ⟨label', heq⟩ := hname e' _ hpath'
    exact hne (bodyPath_injective heq).2

variable [DecidableEq B]

omit [DecidableEq B] in
/-- The encoder remembers the bodies of a snapshot under their paths. -/
theorem Buffers.known_eq (h : buffers.Snapshot entries) :
    buffers.known entries = (entries.flatMap buffers.bodiesOf).map (·.2) := by
  have hputAll : buffers.known entries =
      putAll ((entries.flatMap buffers.bodiesOf).map (·.2)) [] := by
    rw [Buffers.known, putAll, List.foldl_map]
  rw [hputAll, putAll_of_nodup, List.nil_append]
  rw [List.nil_append, List.map_map]
  exact Buffers.names_nodup h

omit [DecidableEq B] in
theorem Buffers.encodeBody_eq (h : buffers.Snapshot entries) {x : Label × Path × B}
    (hx : x ∈ entries.flatMap buffers.bodiesOf) :
    buffers.encodeBody x.1 x.2.2 = buffers.base64 (buffers.bytes x.2.2) := by
  obtain ⟨entry, hentry, hx⟩ := List.mem_flatMap.mp hx
  rw [Buffers.encodeBody, if_neg]
  refine Nat.not_lt.mpr (h.small entry hentry _ ?_)
  exact (Buffers.mem_bodiesOf.mp hx).2.imp (fun hbody => (Option.filter_eq_some_iff.mp hbody.2).1)
    fun hbody => (Option.filter_eq_some_iff.mp hbody.2).1

/-- The bodies that are sent: those that the previous snapshot did not have. -/
theorem Buffers.encoded_eq (h : buffers.Snapshot entries) (previous : List (Path × B)) :
    (buffers.encodeNetworkBodies entries previous).2 =
      ((buffers.known entries).filter fun x => get x.1 previous ≠ some x.2).map fun x =>
        (x.1, buffers.base64 (buffers.bytes x.2)) := by
  obtain ⟨pairs, hpairs⟩ : ∃ pairs, pairs = entries.flatMap buffers.bodiesOf := ⟨_, rfl⟩
  have hputAll : (buffers.encodeNetworkBodies entries previous).2 =
      putAll ((pairs.filter fun x => get x.2.1 previous ≠ some x.2.2).map fun x =>
        (x.2.1, buffers.encodeBody x.1 x.2.2)) [] := by
    rw [putAll, List.foldl_map, List.foldl_filter, hpairs]
    simp only [decide_eq_true_eq]
    rfl
  have htexts : (pairs.filter fun x => get x.2.1 previous ≠ some x.2.2).map (fun x =>
        (x.2.1, buffers.encodeBody x.1 x.2.2)) =
      ((pairs.map (·.2)).filter fun x => get x.1 previous ≠ some x.2).map fun x =>
        (x.1, buffers.base64 (buffers.bytes x.2)) := by
    rw [List.filter_map, List.map_map]
    refine List.map_congr_left fun x hx => ?_
    rw [Buffers.encodeBody_eq h (hpairs ▸ List.mem_of_mem_filter hx)]
    rfl
  have hnodup : ((pairs.map (·.2)).map Prod.fst).Nodup := by
    rw [List.map_map, hpairs]
    exact Buffers.names_nodup h
  rw [hputAll, htexts, Buffers.known_eq h, ← hpairs, putAll_of_nodup, List.nil_append]
  rw [List.nil_append, List.map_map]
  exact hnodup.sublist (List.filter_sublist.map _)

omit [DecidableEq B] in
theorem Buffers.known_nodup (h : buffers.Snapshot entries) :
    ((buffers.known entries).map Prod.fst).Nodup := by
  rw [Buffers.known_eq h, List.map_map]
  exact Buffers.names_nodup h

theorem Buffers.get_encoded (h : buffers.Snapshot entries) (previous : List (Path × B))
    (path : Path) :
    get path (buffers.encodeNetworkBodies entries previous).2 =
      ((get path (buffers.known entries)).filter fun body => get path previous ≠ some body).map
        fun body => buffers.base64 (buffers.bytes body) := by
  rw [Buffers.encoded_eq h]
  exact get_filter_map (fun x => get x.1 previous ≠ some x.2)
    (fun body => buffers.base64 (buffers.bytes body)) (Buffers.known_nodup h) path

theorem Buffers.encoded_nodup (h : buffers.Snapshot entries) (previous : List (Path × B)) :
    ((buffers.encodeNetworkBodies entries previous).2.map Prod.fst).Nodup := by
  rw [Buffers.encoded_eq h, List.map_map]
  exact (Buffers.known_nodup h).sublist (List.filter_sublist.map _)

/-! ### What a viewer makes of a snapshot -/

section Merge

variable {F T : Type} {named : List (SafeEntry F)} {previous updates : List (Path × T)}
  {patch : Bool} {path : Path}

theorem get_merge_of_mem (h : path ∈ named.flatMap SafeEntry.paths) :
    get path (mergeNetworkBodies named previous updates patch) =
      (get path updates).or (if patch then get path previous else none) := by
  rw [mergeNetworkBodies, get_collect, if_pos h]

theorem get_merge_of_notMem (h : path ∉ named.flatMap SafeEntry.paths) :
    get path (mergeNetworkBodies named previous updates patch) = none := by
  rw [mergeNetworkBodies, get_collect, if_neg h]

end Merge

omit [DecidableEq B] in
/-- The messages of one snapshot bring its bodies, whichever of them each carries. -/
theorem Buffers.merge_split (buffers : Buffers B T) (entries : List (SafeEntry F)) (rest bodies : List (Path × T))
    (size : ℕ) (trace : Trace F T) (hnodup : (rest.map Prod.fst).Nodup) :
    ((buffers.split entries rest bodies size).foldl Trace.merge trace).network = entries ∧
    ∀ path, (path ∉ entries.flatMap SafeEntry.paths →
        get path ((buffers.split entries rest bodies size).foldl Trace.merge
          trace).networkBodies = none) ∧
      (path ∈ entries.flatMap SafeEntry.paths →
        get path ((buffers.split entries rest bodies size).foldl Trace.merge
          trace).networkBodies =
            (get path rest).or ((get path bodies).or (get path trace.networkBodies))) := by
  induction rest generalizing bodies size trace with
  | nil => exact ⟨rfl, fun path => ⟨get_merge_of_notMem, get_merge_of_mem⟩⟩
  | cons x rest ih =>
    obtain ⟨path₀, body⟩ := x
    rw [List.map_cons, List.nodup_cons] at hnodup
    have hfresh : get path₀ rest = none := get_eq_none hnodup.1
    rw [Buffers.split]
    split
    case isTrue =>
      obtain ⟨hnetwork, hbodies⟩ := ih (put path₀ body []) (buffers.length body)
        (trace.merge { entries, bodies, patch := true }) hnodup.2
      refine ⟨hnetwork, fun path => ⟨(hbodies path).1, fun hpath => ?_⟩⟩
      have hmerged : get path (trace.merge { entries, bodies, patch := true }).networkBodies =
          (get path bodies).or (get path trace.networkBodies) := get_merge_of_mem hpath
      refine ((hbodies path).2 hpath).trans ?_
      rw [hmerged, get_put, get_cons]
      by_cases hname : path = path₀
      · subst hname
        rw [if_pos rfl, if_pos rfl, hfresh]
        rfl
      · rw [if_neg hname, if_neg (Ne.symm hname)]
        rfl
    case isFalse =>
      obtain ⟨hnetwork, hbodies⟩ := ih (put path₀ body bodies) (size + buffers.length body) trace
        hnodup.2
      refine ⟨hnetwork, fun path => ⟨(hbodies path).1, fun hpath => ?_⟩⟩
      refine ((hbodies path).2 hpath).trans ?_
      rw [get_put, get_cons]
      by_cases hname : path = path₀
      · subst hname
        rw [if_pos rfl, if_pos rfl, hfresh]
        rfl
      · rw [if_neg hname, if_neg (Ne.symm hname)]

omit [DecidableEq B] in
/-- An entry names the paths of its bodies. -/
theorem Buffers.mem_paths {entry : NetworkEntry B F} {path : Path} :
    path ∈ (buffers.strip entry).paths ↔ path ∈ (buffers.bodiesOf entry).map (·.2.1) := by
  rw [SafeEntry.paths, Buffers.bodiesOf, Buffers.strip]
  cases buffers.present entry.requestBody <;> cases buffers.present entry.responseBody <;> simp

omit [DecidableEq B] in
theorem Buffers.mem_paths_known (h : buffers.Snapshot entries) {path : Path} :
    path ∈ (entries.map buffers.strip).flatMap SafeEntry.paths ↔
      path ∈ (buffers.known entries).map Prod.fst := by
  rw [Buffers.known_eq h, List.map_map, List.map_flatMap, List.flatMap_map, List.mem_flatMap,
    List.mem_flatMap]
  simp only [Buffers.mem_paths]
  rfl

/-- What a viewer holds behind the last message of a snapshot: the bodies that the encoder
    remembers. -/
structure Buffers.InStep (trace : Trace F T) (previous : List (Path × B)) : Prop where
  bodies : ∀ path, get path trace.networkBodies =
    (get path previous).map fun body => buffers.base64 (buffers.bytes body)

/-- **One snapshot.** -/
theorem Buffers.InStep.encode {trace : Trace F T} {previous : List (Path × B)}
    (hstep : buffers.InStep trace previous) (h : buffers.Snapshot entries) :
    buffers.InStep ((buffers.encode previous entries).1.foldl Trace.merge trace)
        (buffers.encode previous entries).2 ∧
      ((buffers.encode previous entries).1.foldl Trace.merge trace).network =
        entries.map buffers.strip := by
  obtain ⟨hnetwork, hbodies⟩ := Buffers.merge_split buffers
    (buffers.encodeNetworkBodies entries previous).1
    (buffers.encodeNetworkBodies entries previous).2 [] 0 trace (Buffers.encoded_nodup h previous)
  refine ⟨⟨fun path => ?_⟩, hnetwork⟩
  show get path ((buffers.split _ _ [] 0).foldl Trace.merge trace).networkBodies =
    (get path (buffers.known entries)).map _
  by_cases hpath : path ∈ (entries.map buffers.strip).flatMap SafeEntry.paths
  case neg =>
    rw [(hbodies path).1 hpath,
      get_eq_none fun hmem => hpath ((Buffers.mem_paths_known h).mpr hmem)]
    rfl
  case pos =>
    obtain ⟨body, hbody⟩ := exists_get ((Buffers.mem_paths_known h).mp hpath)
    rw [(hbodies path).2 hpath, Buffers.get_encoded h, hstep.bodies path, hbody, Option.filter_some]
    by_cases hsame : get path previous = some body
    · -- not sent again: the viewer has it under that path
      rw [if_neg (by simp [hsame]), hsame]
      rfl
    · rw [if_pos (by simp [hsame])]
      rfl

/-- **A sequence of snapshots.** -/
theorem Buffers.inStep_encodeAll {trace : Trace F T} {previous : List (Path × B)}
    (hstep : buffers.InStep trace previous) (snapshots : List (List (NetworkEntry B F)))
    (last : List (NetworkEntry B F))
    (h : ∀ entries ∈ snapshots ++ [last], buffers.Snapshot entries) :
    buffers.InStep ((buffers.encodeAll previous (snapshots ++ [last])).foldl Trace.merge trace)
        (buffers.known last) ∧
      ((buffers.encodeAll previous (snapshots ++ [last])).foldl Trace.merge trace).network =
        last.map buffers.strip := by
  induction snapshots generalizing trace previous with
  | nil =>
    rw [List.nil_append, Buffers.encodeAll, Buffers.encodeAll, List.append_nil]
    exact hstep.encode (h last (by simp))
  | cons entries snapshots ih =>
    rw [List.cons_append, Buffers.encodeAll, List.foldl_append]
    exact ih (hstep.encode (h entries (by simp))).1 fun entries hentries =>
      h entries (List.mem_cons_of_mem _ hentries)

end Encoded

end Tapsmith.Live
