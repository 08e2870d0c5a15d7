import Mathlib.Data.List.Basic
import Mathlib.Data.List.Infix

namespace Tapsmith.Grpc

/-!
# gRPC frames

How `grpc-protobuf.ts` splits a gRPC body into its messages.  A body is the list of its bytes.

* `decodeGrpcFrames` — the frames of a body, and what is left of a frame that was cut;
* `encodeFrame` — a frame as it is sent;
* `decodeGrpcFrames_prefix` — the frames of a body that was cut anywhere.
-/

abbrev Bytes : Type := List UInt8

structure GrpcFrame where
  compressed : Bool
  message : Bytes
deriving DecidableEq

structure GrpcFraming where
  frames : List GrpcFrame
  trailingBytes : ℕ
  truncatedFrameLength : Option ℕ
deriving DecidableEq

/-- `MAX_FRAME_LENGTH` -/
def maxFrameLength : ℕ := 64 * 1024 * 1024

def readUint32BE (b₀ b₁ b₂ b₃ : UInt8) : ℕ :=
  0x1000000 * b₀.toNat + 0x10000 * b₁.toNat + 0x100 * b₂.toNat + b₃.toNat

/-- The `while` loop from an offset on: the frames, and the bytes behind the last of them. -/
def frameLoop (rest : Bytes) : List GrpcFrame × Bytes :=
  match rest with
  | flag :: b₀ :: b₁ :: b₂ :: b₃ :: body =>
    let length := readUint32BE b₀ b₁ b₂ b₃
    if (flag ≠ 0 ∧ flag ≠ 1) ∨ length > maxFrameLength ∨ length > body.length then ([], rest)
    else
      let r := frameLoop (body.drop length)
      ({ compressed := flag = 1, message := body.take length } :: r.1, r.2)
  | _ => ([], rest)
termination_by rest.length
decreasing_by
  rw [List.length_drop]
  simp only [List.length_cons]
  omega

/-- The length that a cut frame declared, if its prefix is there. -/
def declaredLength : Bytes → Option ℕ
  | flag :: b₀ :: b₁ :: b₂ :: b₃ :: _ =>
    let declared := readUint32BE b₀ b₁ b₂ b₃
    if (flag = 0 ∨ flag = 1) ∧ declared ≤ maxFrameLength then some declared else none
  | _ => none

def decodeGrpcFrames (bytes : Bytes) : Option GrpcFraming :=
  let r := frameLoop bytes
  if r.1 = [] then none
  else some
    { frames := r.1, trailingBytes := r.2.length, truncatedFrameLength := declaredLength r.2 }

/-! ### What is sent -/

/-- The length as four bytes, the highest first. -/
def uint32BE (n : ℕ) : Bytes :=
  [UInt8.ofNat (n / 0x1000000), UInt8.ofNat (n / 0x10000), UInt8.ofNat (n / 0x100), UInt8.ofNat n]

/-- The five bytes in front of a message. -/
def header (frame : GrpcFrame) : Bytes :=
  (if frame.compressed then 1 else 0) :: uint32BE frame.message.length

def encodeFrame (frame : GrpcFrame) : Bytes := header frame ++ frame.message

def encodeFrames (frames : List GrpcFrame) : Bytes := frames.flatMap encodeFrame

variable {frame : GrpcFrame} {frames : List GrpcFrame} {bytes rest : Bytes} {n : ℕ}

theorem readUint32BE_uint32BE (h : n < 0x100000000) :
    readUint32BE (UInt8.ofNat (n / 0x1000000)) (UInt8.ofNat (n / 0x10000))
      (UInt8.ofNat (n / 0x100)) (UInt8.ofNat n) = n := by
  simp only [readUint32BE, UInt8.toNat_ofNat']
  omega

/-- A frame that a body may hold. -/
def Fits (frame : GrpcFrame) : Prop := frame.message.length ≤ maxFrameLength

instance decidableFits : DecidablePred Fits := fun frame =>
  inferInstanceAs (Decidable (frame.message.length ≤ maxFrameLength))

theorem Fits.lt (h : Fits frame) : frame.message.length < 0x100000000 := by
  unfold Fits maxFrameLength at h
  omega

theorem header_append {body : Bytes} : header frame ++ body =
    (if frame.compressed then 1 else 0) :: UInt8.ofNat (frame.message.length / 0x1000000) ::
      UInt8.ofNat (frame.message.length / 0x10000) :: UInt8.ofNat (frame.message.length / 0x100) ::
      UInt8.ofNat frame.message.length :: body := rfl

@[simp]
theorem length_header : (header frame).length = 5 := rfl

theorem flag_valid (compressed : Bool) :
    ((if compressed then 1 else 0 : UInt8) = 0 ∨ (if compressed then 1 else 0 : UInt8) = 1) ∧
      decide ((if compressed then 1 else 0 : UInt8) = 1) = compressed := by
  cases compressed <;> decide

/-! ### The loop -/

/-- The loop at the prefix of a frame that may be in a body. -/
theorem frameLoop_prefixed {body : Bytes} (h : Fits frame) :
    frameLoop (header frame ++ body) =
      if frame.message.length > body.length then ([], header frame ++ body)
      else
        ({ frame with message := body.take frame.message.length } ::
            (frameLoop (body.drop frame.message.length)).1,
          (frameLoop (body.drop frame.message.length)).2) := by
  obtain ⟨hflag, hcompressed⟩ := flag_valid frame.compressed
  have hbreak : (((if frame.compressed then 1 else 0 : UInt8) ≠ 0 ∧
      (if frame.compressed then 1 else 0 : UInt8) ≠ 1) ∨
      frame.message.length > maxFrameLength ∨ frame.message.length > body.length) ↔
      frame.message.length > body.length := by
    refine ⟨?_, fun hcut => Or.inr (Or.inr hcut)⟩
    rintro (hbad | hbig | hcut)
    · exact (hflag.elim hbad.1 hbad.2).elim
    · exact absurd h (Nat.not_le.mpr hbig)
    · exact hcut
  rw [header_append, frameLoop]
  dsimp only
  rw [readUint32BE_uint32BE h.lt, hcompressed]
  exact if_congr hbreak rfl rfl

theorem declaredLength_prefixed {body : Bytes} (h : Fits frame) :
    declaredLength (header frame ++ body) = some frame.message.length := by
  rw [header_append, declaredLength, readUint32BE_uint32BE h.lt, if_pos ⟨(flag_valid frame.compressed).1, h⟩]

/-- A frame that is there as a whole. -/
theorem frameLoop_encodeFrame (h : Fits frame) :
    frameLoop (encodeFrame frame ++ rest) =
      (frame :: (frameLoop rest).1, (frameLoop rest).2) := by
  have hle : ¬ frame.message.length > (frame.message ++ rest).length := by
    rw [List.length_append]
    omega
  rw [encodeFrame, List.append_assoc, frameLoop_prefixed h, if_neg hle, List.drop_left,
    List.take_left]

/-- A body that ends within the five bytes of a prefix. -/
theorem frameLoop_short (h : bytes.length < 5) :
    frameLoop bytes = ([], bytes) ∧ declaredLength bytes = none := by
  match bytes, h with
  | [], _ => exact ⟨by rw [frameLoop]; simp, rfl⟩
  | [_], _ => exact ⟨by rw [frameLoop]; simp, rfl⟩
  | [_, _], _ => exact ⟨by rw [frameLoop]; simp, rfl⟩
  | [_, _, _], _ => exact ⟨by rw [frameLoop]; simp, rfl⟩
  | [_, _, _, _], _ => exact ⟨by rw [frameLoop]; simp, rfl⟩

/-- A frame that is cut: the loop stops at it, and its prefix tells its length if it is there. -/
theorem frameLoop_cut (h : Fits frame) (hcut : bytes <+: encodeFrame frame)
    (hne : bytes ≠ encodeFrame frame) :
    frameLoop bytes = ([], bytes) ∧
      declaredLength bytes = if 5 ≤ bytes.length then some frame.message.length else none := by
  by_cases hshort : bytes.length < 5
  · rw [if_neg (Nat.not_le.mpr hshort)]
    exact frameLoop_short hshort
  have hlong : 5 ≤ bytes.length := Nat.not_lt.mp hshort
  obtain ⟨body, rfl⟩ : header frame <+: bytes :=
    List.prefix_of_prefix_length_le (List.prefix_append _ _) hcut (by rwa [length_header])
  have hbody : body <+: frame.message := (List.prefix_append_right_inj _).mp hcut
  have hlt : frame.message.length > body.length := by
    refine Nat.lt_of_le_of_ne hbody.length_le fun hlen => hne ?_
    rw [hbody.eq_of_length hlen, encodeFrame]
  rw [if_pos hlong, declaredLength_prefixed h, frameLoop_prefixed h, if_pos hlt]
  exact ⟨rfl, rfl⟩

/-! ### A body that was cut -/

/-- Where a prefix of the frames ends: behind `complete`, within the first of `later`. -/
structure CutAt (frames : List GrpcFrame) (body : Bytes) (complete later : List GrpcFrame)
    (tail : Bytes) : Prop where
  frames_eq : frames = complete ++ later
  body_eq : body = encodeFrames complete ++ tail
  tail_cut : ∀ next ∈ later.head?, tail <+: encodeFrame next ∧ tail ≠ encodeFrame next
  tail_nil : later = [] → tail = []

/-- Every prefix of the frames ends somewhere. -/
theorem exists_cutAt (frames : List GrpcFrame) (hcut : bytes <+: encodeFrames frames) :
    ∃ complete later tail, CutAt frames bytes complete later tail := by
  induction frames generalizing bytes with
  | nil => exact ⟨[], [], [], rfl, List.prefix_nil.mp hcut, by simp, fun _ => rfl⟩
  | cons frame frames ih =>
    have hcons : encodeFrames (frame :: frames) = encodeFrame frame ++ encodeFrames frames := rfl
    rw [hcons] at hcut
    by_cases hwhole : encodeFrame frame <+: bytes
    · obtain ⟨rest, rfl⟩ := hwhole
      obtain ⟨complete, later, tail, hat⟩ := ih ((List.prefix_append_right_inj _).mp hcut)
      refine ⟨frame :: complete, later, tail, ?_, ?_, hat.tail_cut, hat.tail_nil⟩
      · rw [hat.frames_eq, List.cons_append]
      · rw [hat.body_eq, ← List.append_assoc]
        rfl
    · have hbefore : bytes <+: encodeFrame frame :=
        (List.prefix_or_prefix_of_prefix hcut (List.prefix_append _ _)).resolve_right hwhole
      refine ⟨[], frame :: frames, bytes, rfl, rfl, ?_, fun h => by cases h⟩
      intro next hnext
      obtain rfl : frame = next := Option.some.inj hnext
      refine ⟨hbefore, fun heq => hwhole ?_⟩
      rw [heq]

theorem frameLoop_encodeFrames {complete : List GrpcFrame} (hfits : ∀ f ∈ complete, Fits f) :
    frameLoop (encodeFrames complete ++ rest) =
      (complete ++ (frameLoop rest).1, (frameLoop rest).2) := by
  induction complete with
  | nil => rfl
  | cons frame frames ih =>
    have hcons : encodeFrames (frame :: frames) = encodeFrame frame ++ encodeFrames frames := rfl
    rw [hcons, List.append_assoc, frameLoop_encodeFrame (hfits _ List.mem_cons_self),
      ih fun f hf => hfits f (List.mem_cons_of_mem _ hf)]
    rfl

/-- What the decoder finds in a body that was cut. -/
def framingAt (complete later : List GrpcFrame) (tail : Bytes) : GrpcFraming :=
  { frames := complete
    trailingBytes := tail.length
    truncatedFrameLength :=
      if 5 ≤ tail.length then later.head?.map (·.message.length) else none }

/-- **A body that was cut anywhere behind its first frame** is decoded to the frames that lie in
    it as a whole, the number of bytes behind them, and the length that the cut frame declared
    if its prefix is there. -/
theorem decodeGrpcFrames_prefix (frames : List GrpcFrame) (first : GrpcFrame)
    (hfirst : frames.head? = some first) (hfits : ∀ f ∈ frames, Fits f) (body : Bytes)
    (hbody : body <+: encodeFrames frames) (hcontains : encodeFrame first <+: body) :
    ∃ complete later tail, CutAt frames body complete later tail ∧
      decodeGrpcFrames body = some (framingAt complete later tail) := by
  obtain ⟨complete, later, tail, hat⟩ := exists_cutAt frames hbody
  have hcomplete : ∀ f ∈ complete, Fits f := by
    intro f hf
    exact hfits f (hat.frames_eq ▸ List.mem_append_left _ hf)
  have hloop : frameLoop tail = ([], tail) ∧ declaredLength tail =
      if 5 ≤ tail.length then later.head?.map (·.message.length) else none := by
    cases later with
    | nil =>
      rw [hat.tail_nil rfl]
      exact frameLoop_short (by decide)
    | cons next later =>
      obtain ⟨hbefore, hne⟩ := hat.tail_cut next rfl
      have hnext : next ∈ frames := hat.frames_eq ▸ List.mem_append_right _ List.mem_cons_self
      exact frameLoop_cut (hfits next hnext) hbefore hne
  have hne : complete ≠ [] := by
    rintro rfl
    have hlater : first ∈ later.head? := by
      rw [hat.frames_eq] at hfirst
      exact hfirst
    obtain ⟨hbefore, hcut⟩ := hat.tail_cut first hlater
    have htail : body = tail := hat.body_eq
    rw [htail] at hcontains
    exact hcut (hbefore.eq_of_length (Nat.le_antisymm hbefore.length_le hcontains.length_le))
  refine ⟨complete, later, tail, hat, ?_⟩
  unfold decodeGrpcFrames
  rw [hat.body_eq, frameLoop_encodeFrames hcomplete, hloop.1, List.append_nil]
  dsimp only
  rw [if_neg hne, hloop.2]
  rfl

example : decodeGrpcFrames [0, 0, 0, 0, 1, 7, 1, 0, 0, 0, 2, 1] = some ⟨[⟨false, [7]⟩], 6, some 2⟩ := by
  decide +kernel

/-- Two frames, the second cut behind its prefix. -/
theorem decodeGrpcFrames_prefix_two :
    ∃ complete later tail,
      CutAt [⟨false, [7]⟩, ⟨true, [1, 2]⟩] [0, 0, 0, 0, 1, 7, 1, 0, 0, 0, 2, 1] complete later tail ∧
        decodeGrpcFrames [0, 0, 0, 0, 1, 7, 1, 0, 0, 0, 2, 1] =
          some (framingAt complete later tail) :=
  decodeGrpcFrames_prefix [⟨false, [7]⟩, ⟨true, [1, 2]⟩] ⟨false, [7]⟩ rfl (by decide)
    [0, 0, 0, 0, 1, 7, 1, 0, 0, 0, 2, 1] (by decide) (by decide)

end Tapsmith.Grpc
