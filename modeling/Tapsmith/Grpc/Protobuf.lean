import Mathlib.Data.List.Basic
import Mathlib.Data.Nat.Bitwise
import Tapsmith.Grpc.Frames
import Tapsmith.Lib.Utf8

namespace Tapsmith.Grpc

open Lib.Utf8

/-!
# The protobuf wire format

How `grpc-protobuf.ts` decodes a message without a schema.  A `bigint` is a natural number, and so
is a `Number` that is made of one: the code compares the latter with numbers below 2^53 only.

* `decodeProtobuf` — the fields of a message, or nothing where the bytes do not parse exactly;
* `Wire` — bytes that are records of the wire format, one after the other;
* `decodeProtobuf_exact_iff` — on which bytes the fields are the records.
-/

/-! ### The decoder -/

/-- A decoded value.  The text of a timestamp is what `toISOString` makes of it. -/
inductive ProtoValue
  | varint (value : ℕ)
  | fixed64 (value : ℕ)
  | fixed32 (value : ℕ)
  | message (fields : List (ℕ × ProtoValue))
  | string (value : List Char)
  | bytes (value : Bytes)
  | timestamp (iso : String)

/-- A field: its number and its value. -/
abbrev ProtoField : Type := ℕ × ProtoValue

/-- `MAX_DEPTH` -/
def maxDepth : ℕ := 12

/-- `MAX_FIELDS` -/
def maxFields : ℕ := 2000

/-- The largest field number. -/
def maxFieldNumber : ℕ := 536870911

/-- The loop of `readVarint`, with the number of bytes that it may still read. -/
def readVarintFrom : ℕ → ℕ → ℕ → Bytes → Option (ℕ × Bytes)
  | 0, _, _, _ => none
  | _ + 1, _, _, [] => none
  | left + 1, shift, result, byte :: rest =>
    let result := result ||| (byte &&& 0x7f).toNat <<< shift
    if byte &&& 0x80 = 0 then some (result, rest)
    else readVarintFrom left (shift + 7) result rest

/-- A varint, and what is left behind it. -/
def readVarint (bytes : Bytes) : Option (ℕ × Bytes) := readVarintFrom 10 0 0 bytes

/-- The number of eight bytes, the lowest first. -/
def readFixed64 (bytes : Bytes) : ℕ := bytes.foldr (fun byte v => v <<< 8 ||| byte.toNat) 0

def readFixed32 (bytes : Bytes) : ℕ :=
  let byte i := (bytes.getD i 0).toNat
  byte 0 + byte 1 * 0x100 + byte 2 * 0x10000 + 0x1000000 * byte 3

/-- The value of a field of a wire type, and what is left behind it. -/
def readValue (classify : Bytes → ProtoValue) (wireType : ℕ) (bytes : Bytes) :
    Option (ProtoValue × Bytes) :=
  if wireType = 0 then (readVarint bytes).map fun (value, rest) => (.varint value, rest)
  else if wireType = 1 then
    if 8 > bytes.length then none
    else some (.fixed64 (readFixed64 (bytes.take 8)), bytes.drop 8)
  else if wireType = 2 then
    (readVarint bytes).bind fun (length, rest) =>
      if length > rest.length then none
      else some (classify (rest.take length), rest.drop length)
  else if wireType = 5 then
    if 4 > bytes.length then none
    else some (.fixed32 (readFixed32 bytes), bytes.drop 4)
  else none

/-- One field, and what is left behind it. -/
def readField (classify : Bytes → ProtoValue) (bytes : Bytes) : Option (ProtoField × Bytes) :=
  (readVarint bytes).bind fun (tag, rest) =>
    let fieldNumber := tag >>> 3
    let wireType := tag &&& 7
    if fieldNumber = 0 ∨ fieldNumber > maxFieldNumber then none
    else (readValue classify wireType rest).map fun r => ((fieldNumber, r.1), r.2)

/-- The `while` loop, with the number of fields that it may still read. -/
def fieldLoop (classify : Bytes → ProtoValue) : ℕ → Bytes → Option (List ProtoField)
  | 0, bytes => if bytes = [] then some [] else none
  | left + 1, bytes =>
    if bytes = [] then some []
    else (readField classify bytes).bind fun r =>
      (fieldLoop classify left r.2).map fun fields => r.1 :: fields

/-- A message has a field. -/
def decodeMessage (classify : Bytes → ProtoValue) (bytes : Bytes) : Option (List ProtoField) :=
  (fieldLoop classify maxFields bytes).bind fun fields =>
    if fields.length > 0 then some fields else none

def isWeakParse : List ProtoField → Bool
  | [(_, .fixed32 _)] => true
  | [(_, .fixed64 _)] => true
  | _ => false

def isPrintableAscii (bytes : Bytes) : Bool := bytes.all fun b => !(b < 0x20 || b > 0x7e)

/-- A `TextDecoder` drops the mark at the start. -/
def withoutMark : Bytes → Bytes
  | 0xef :: 0xbb :: 0xbf :: bytes => bytes
  | bytes => bytes

def decodeUtf8Strict (bytes : Bytes) : Option (List Char) :=
  (fromUtf8 (withoutMark bytes)).bind fun text =>
    if text.any fun c =>
      !(c.toNat = 9 || c.toNat = 10 || c.toNat = 13) && (c.toNat < 0x20 || c.toNat = 0x7f)
    then none else some text

def varintValue? : ProtoValue → Option ℕ
  | .varint value => some value
  | _ => none

section Classify

variable (toISOString : ℕ → String)

def timestampValue (fields : List ProtoField) : Option ProtoValue :=
  if fields.length = 0 ∨ fields.length > 2 then none
  else
    (fields.find? (·.1 = 1)).bind fun seconds => (varintValue? seconds.2).bind fun secs =>
      ((fields.find? (·.1 = 2)).elim (some 0) fun nanos => varintValue? nanos.2).bind
        fun nanoPart =>
          if secs < 1000000000 ∨ secs > 3000000000 then none
          else if nanoPart ≥ 1000000000 then none
          else some (.timestamp (toISOString (secs * 1000 + nanoPart / 1000000)))

/-- What a length-delimited value is, where `decode` decodes what may be a nested message. -/
def classifyLengthDelimited (decode : Bytes → Option (List ProtoField)) (slice : Bytes) :
    ProtoValue :=
  if slice.length = 0 then .bytes slice
  else
    (decode slice).elim ((decodeUtf8Strict slice).elim (.bytes slice) .string) fun nested =>
      if isWeakParse nested && isPrintableAscii slice then
        .string (fromUtf8Lossy (withoutMark slice))
      else (timestampValue toISOString nested).getD (.message nested)

/-- Decode with a number of levels left. -/
def decodeLevels : ℕ → Bytes → Option (List ProtoField)
  | 0, _ => none
  | levels + 1, bytes =>
    decodeMessage (classifyLengthDelimited toISOString (decodeLevels levels)) bytes

/-- `decodeProtobuf` without a schema. -/
def decodeProtobuf (bytes : Bytes) (depth : ℕ) : Option (List ProtoField) :=
  decodeLevels toISOString (maxDepth + 1 - depth) bytes

end Classify

/-! ### The wire format -/

/-- The bytes of a varint: every one but the last has its high bit set. -/
inductive VarintBytes : Bytes → Prop
  | last {byte : UInt8} (h : byte.toNat < 128) : VarintBytes [byte]
  | more {byte : UInt8} {bytes : Bytes} (h : 128 ≤ byte.toNat) (hrest : VarintBytes bytes) :
      VarintBytes (byte :: bytes)

/-- The number that the low seven bits of each byte make. -/
def varintNumber : Bytes → ℕ
  | [] => 0
  | byte :: bytes => byte.toNat % 128 + 128 * varintNumber bytes

/-- A varint has at most ten bytes. -/
structure WireVarint (bytes : Bytes) (value : ℕ) : Prop where
  varint : VarintBytes bytes
  length_le : bytes.length ≤ 10
  number : varintNumber bytes = value

/-- The number of some bytes, the lowest first. -/
def littleEndian : Bytes → ℕ
  | [] => 0
  | byte :: bytes => byte.toNat + 256 * littleEndian bytes

inductive Payload
  | varint (value : ℕ)
  | fixed64 (value : ℕ)
  | lengthDelimited (bytes : Bytes)
  | fixed32 (value : ℕ)
deriving DecidableEq

structure Record where
  number : ℕ
  payload : Payload
  number_pos : 1 ≤ number
  number_le : number ≤ 2 ^ 29 - 1
deriving DecidableEq

/-- A value behind the tag, with the wire type that the tag has to say. -/
inductive WireValue : ℕ → Bytes → Payload → Prop
  | varint {bytes : Bytes} {value : ℕ} (h : WireVarint bytes value) :
      WireValue 0 bytes (.varint value)
  | fixed64 {bytes : Bytes} (hlen : bytes.length = 8) :
      WireValue 1 bytes (.fixed64 (littleEndian bytes))
  | lengthDelimited {length bytes : Bytes} (hlen : WireVarint length bytes.length) :
      WireValue 2 (length ++ bytes) (.lengthDelimited bytes)
  | fixed32 {bytes : Bytes} (hlen : bytes.length = 4) :
      WireValue 5 bytes (.fixed32 (littleEndian bytes))

/-- A record is its tag and its value. -/
inductive WireRecord : Bytes → Record → Prop
  | mk {r : Record} {wireType : ℕ} {tag bytes : Bytes}
      (htag : WireVarint tag (8 * r.number + wireType))
      (hvalue : WireValue wireType bytes r.payload) : WireRecord (tag ++ bytes) r

/-- Records, one after the other. -/
inductive Wire : Bytes → List Record → Prop
  | nil : Wire [] []
  | cons {bytes rest : Bytes} {r : Record} {records : List Record} (h : WireRecord bytes r)
      (hrest : Wire rest records) : Wire (bytes ++ rest) (r :: records)

/-- The number of a varint field has 64 bits. -/
def Record.InRange (r : Record) : Prop := ∀ value, r.payload = .varint value → value < 2 ^ 64

def valueOf (classify : Bytes → ProtoValue) : Payload → ProtoValue
  | .varint value => .varint value
  | .fixed64 value => .fixed64 value
  | .lengthDelimited bytes => classify bytes
  | .fixed32 value => .fixed32 value

/-- The field that a record is decoded to. -/
def fieldOf (classify : Bytes → ProtoValue) (r : Record) : ProtoField :=
  (r.number, valueOf classify r.payload)

/-! ### Reading numbers -/

variable {bytes rest : Bytes} {left shift result value : ℕ} {byte : UInt8}

theorem low_bits (byte : UInt8) : (byte &&& 0x7f).toNat = byte.toNat % 128 := by
  rw [UInt8.toNat_and]
  exact Nat.and_two_pow_sub_one_eq_mod byte.toNat 7

theorem high_bit (byte : UInt8) : byte &&& 0x80 = 0 ↔ byte.toNat < 128 := by
  have hall : ∀ n < 256, n &&& 128 = 0 ↔ n < 128 := by decide +kernel
  rw [← UInt8.toNat_inj, UInt8.toNat_and]
  exact hall byte.toNat byte.toNat_lt

/-- Seven bits behind those that are there. -/
theorem or_shift (h : result < 2 ^ shift) (b : ℕ) :
    result ||| b <<< shift = result + 2 ^ shift * b := by
  rw [Nat.shiftLeft_eq, Nat.mul_comm, Nat.or_comm, ← Nat.two_pow_add_eq_or_of_lt h, Nat.add_comm]

theorem readVarintFrom_iff (hresult : result < 2 ^ shift) :
    readVarintFrom left shift result bytes = some (value, rest) ↔
      ∃ varint, bytes = varint ++ rest ∧ VarintBytes varint ∧ varint.length ≤ left ∧
        value = result + 2 ^ shift * varintNumber varint := by
  induction left generalizing shift result bytes with
  | zero =>
    refine iff_of_false (fun h => by cases h) ?_
    rintro ⟨varint, -, hvarint, hlen, -⟩
    cases hvarint with
    | last => exact absurd hlen (by simp)
    | more => exact absurd hlen (by simp)
  | succ left ih =>
    cases bytes with
    | nil =>
      refine iff_of_false (fun h => by cases h) ?_
      rintro ⟨varint, hnil, hvarint, -, -⟩
      obtain ⟨rfl, -⟩ := List.append_eq_nil_iff.mp hnil.symm
      cases hvarint
    | cons byte bytes =>
      have hbyte : byte.toNat % 128 < 128 := Nat.mod_lt _ (by decide)
      rw [readVarintFrom, low_bits, or_shift hresult]
      by_cases hlast : byte.toNat < 128
      · rw [if_pos ((high_bit byte).mpr hlast)]
        constructor
        · intro h
          obtain ⟨rfl, rfl⟩ := Prod.mk.inj (Option.some.inj h)
          exact ⟨[byte], rfl, .last hlast, by simp, by simp [varintNumber]⟩
        · rintro ⟨varint, heq, hvarint, -, rfl⟩
          cases hvarint with
          | last =>
            obtain ⟨rfl, rfl⟩ := List.cons.inj heq
            simp [varintNumber]
          | more hmore =>
            obtain ⟨rfl, -⟩ := List.cons.inj heq
            exact absurd hlast (Nat.not_lt.mpr hmore)
      · rw [if_neg (fun h => hlast ((high_bit byte).mp h))]
        have hnext : result + 2 ^ shift * (byte.toNat % 128) < 2 ^ (shift + 7) := by
          have hmul : 2 ^ shift * (byte.toNat % 128) ≤ 2 ^ shift * 127 :=
            Nat.mul_le_mul_left _ (by omega)
          rw [Nat.pow_add]
          omega
        rw [ih hnext]
        constructor
        · rintro ⟨varint, rfl, hvarint, hlen, rfl⟩
          refine ⟨byte :: varint, rfl, .more (Nat.not_lt.mp hlast) hvarint, by simpa using hlen, ?_⟩
          rw [varintNumber, Nat.pow_add]
          ring
        · rintro ⟨varint, heq, hvarint, hlen, rfl⟩
          cases hvarint with
          | last hlt =>
            obtain ⟨rfl, -⟩ := List.cons.inj heq
            exact absurd hlt hlast
          | @more _ varint hmore hrest =>
            obtain ⟨rfl, rfl⟩ := List.cons.inj heq
            refine ⟨varint, rfl, hrest, by simpa using hlen, ?_⟩
            rw [varintNumber, Nat.pow_add]
            ring

/-- **Varints.** -/
theorem readVarint_iff : readVarint bytes = some (value, rest) ↔
    ∃ varint, bytes = varint ++ rest ∧ WireVarint varint value := by
  rw [readVarint, readVarintFrom_iff (by decide)]
  constructor
  · rintro ⟨varint, heq, hvarint, hlen, rfl⟩
    exact ⟨varint, heq, hvarint, hlen, by simp⟩
  · rintro ⟨varint, heq, hvarint, hlen, rfl⟩
    exact ⟨varint, heq, hvarint, hlen, by simp⟩

theorem readFixed64_eq (bytes : Bytes) : readFixed64 bytes = littleEndian bytes := by
  induction bytes with
  | nil => rfl
  | cons byte bytes ih =>
    have hcons : readFixed64 (byte :: bytes) = readFixed64 bytes <<< 8 ||| byte.toNat := rfl
    rw [hcons, ih, littleEndian, Nat.or_comm, or_shift (show byte.toNat < 2 ^ 8 from byte.toNat_lt)]
    rfl

theorem readFixed32_append (hlen : bytes.length = 4) :
    readFixed32 (bytes ++ rest) = littleEndian bytes := by
  match bytes, hlen with
  | [b₀, b₁, b₂, b₃], _ =>
    simp only [readFixed32, littleEndian, List.cons_append, List.getD_cons_zero,
      List.getD_cons_succ]
    omega

/-! ### Reading fields -/

variable {classify : Bytes → ProtoValue} {wireType : ℕ}

theorem readValue_of_wire {payload : Payload} (h : WireValue wireType bytes payload) :
    readValue classify wireType (bytes ++ rest) = some (valueOf classify payload, rest) := by
  cases h with
  | varint h =>
    rw [readValue, if_pos rfl, readVarint_iff.mpr ⟨bytes, rfl, h⟩]
    rfl
  | fixed64 hlen =>
    have hle : ¬ 8 > (bytes ++ rest).length := by
      rw [List.length_append]
      omega
    rw [readValue, if_neg (by decide), if_pos rfl, if_neg hle, ← hlen, List.take_left,
      List.drop_left, readFixed64_eq]
    rfl
  | @lengthDelimited length bytes hlen =>
    have hread : readVarint (length ++ bytes ++ rest) = some (bytes.length, bytes ++ rest) :=
      readVarint_iff.mpr ⟨length, List.append_assoc _ _ _, hlen⟩
    have hle : ¬ bytes.length > (bytes ++ rest).length := by
      rw [List.length_append]
      omega
    rw [readValue, if_neg (by decide), if_neg (by decide), if_pos rfl, hread, Option.bind_some]
    dsimp only
    rw [if_neg hle, List.take_left, List.drop_left]
    rfl
  | fixed32 hlen =>
    have hle : ¬ 4 > (bytes ++ rest).length := by
      rw [List.length_append]
      omega
    rw [readValue, if_neg (by decide), if_neg (by decide), if_neg (by decide), if_pos rfl,
      if_neg hle, readFixed32_append hlen, ← hlen, List.drop_left]
    rfl

theorem wire_of_readValue {value : ProtoValue}
    (h : readValue classify wireType bytes = some (value, rest)) :
    ∃ wire payload, bytes = wire ++ rest ∧ WireValue wireType wire payload ∧
      value = valueOf classify payload := by
  unfold readValue at h
  by_cases h0 : wireType = 0
  · subst h0
    rw [if_pos rfl] at h
    obtain ⟨⟨v, rest'⟩, hread, heq⟩ := Option.map_eq_some_iff.mp h
    obtain ⟨rfl, rfl⟩ := Prod.mk.inj heq
    obtain ⟨wire, rfl, hwire⟩ := readVarint_iff.mp hread
    exact ⟨wire, _, rfl, .varint hwire, rfl⟩
  rw [if_neg h0] at h
  by_cases h1 : wireType = 1
  · subst h1
    rw [if_pos rfl] at h
    split at h
    case isTrue => cases h
    case isFalse hle =>
      obtain ⟨rfl, rfl⟩ := Prod.mk.inj (Option.some.inj h)
      refine ⟨bytes.take 8, _, (List.take_append_drop 8 bytes).symm, .fixed64 ?_, ?_⟩
      · rw [List.length_take]
        omega
      · rw [readFixed64_eq]
        rfl
  rw [if_neg h1] at h
  by_cases h2 : wireType = 2
  · subst h2
    rw [if_pos rfl] at h
    obtain ⟨⟨length, tail⟩, hread, htail⟩ := Option.bind_eq_some_iff.mp h
    dsimp only at htail
    obtain ⟨wire, rfl, hwire⟩ := readVarint_iff.mp hread
    split at htail
    case isTrue => cases htail
    case isFalse hle =>
      obtain ⟨rfl, rfl⟩ := Prod.mk.inj (Option.some.inj htail)
      have hlen : (tail.take length).length = length := by
        rw [List.length_take]
        omega
      refine ⟨wire ++ tail.take length, .lengthDelimited (tail.take length), ?_, ?_, rfl⟩
      · rw [List.append_assoc, List.take_append_drop]
      · exact .lengthDelimited (by rwa [hlen])
  rw [if_neg h2] at h
  by_cases h5 : wireType = 5
  · subst h5
    rw [if_pos rfl] at h
    split at h
    case isTrue => cases h
    case isFalse hle =>
      obtain ⟨rfl, rfl⟩ := Prod.mk.inj (Option.some.inj h)
      have hlen : (bytes.take 4).length = 4 := by
        rw [List.length_take]
        omega
      have hvalue : readFixed32 (bytes.take 4 ++ bytes.drop 4) = littleEndian (bytes.take 4) :=
        readFixed32_append hlen
      rw [List.take_append_drop] at hvalue
      refine ⟨bytes.take 4, _, (List.take_append_drop 4 bytes).symm, .fixed32 hlen, ?_⟩
      rw [hvalue]
      rfl
  · rw [if_neg h5] at h
    cases h

theorem tag_parts (number : ℕ) (h : wireType < 8) :
    (8 * number + wireType) >>> 3 = number ∧ (8 * number + wireType) &&& 7 = wireType := by
  rw [Nat.shiftRight_eq_div_pow, show (7 : ℕ) = 2 ^ 3 - 1 from rfl, Nat.and_two_pow_sub_one_eq_mod]
  omega

theorem WireValue.lt {payload : Payload} (h : WireValue wireType bytes payload) : wireType < 8 := by
  cases h <;> decide

theorem readField_of_wire {r : Record} (h : WireRecord bytes r) :
    readField classify (bytes ++ rest) = some (fieldOf classify r, rest) := by
  cases h with
  | @mk _ wireType tag bytes htag hvalue =>
    have hread : readVarint (tag ++ bytes ++ rest) =
        some (8 * r.number + wireType, bytes ++ rest) :=
      readVarint_iff.mpr ⟨tag, List.append_assoc _ _ _, htag⟩
    obtain ⟨hnumber, htype⟩ := tag_parts r.number hvalue.lt
    have hin : ¬ (r.number = 0 ∨ r.number > maxFieldNumber) := by
      have hpos := r.number_pos
      have hle := r.number_le
      unfold maxFieldNumber
      omega
    rw [readField, hread, Option.bind_some]
    dsimp only
    rw [hnumber, htype, if_neg hin, readValue_of_wire hvalue]
    rfl

theorem wire_of_readField {field : ProtoField}
    (h : readField classify bytes = some (field, rest)) :
    ∃ wire r, bytes = wire ++ rest ∧ WireRecord wire r ∧ field = fieldOf classify r := by
  obtain ⟨⟨tag, tail⟩, hread, htail⟩ := Option.bind_eq_some_iff.mp h
  dsimp only at htail
  obtain ⟨tagBytes, rfl, htag⟩ := readVarint_iff.mp hread
  split at htail
  case isTrue => cases htail
  case isFalse hin =>
    obtain ⟨⟨value, rest'⟩, hvalue, heq⟩ := Option.map_eq_some_iff.mp htail
    obtain ⟨rfl, rfl⟩ := Prod.mk.inj heq
    obtain ⟨wire, payload, rfl, hwire, rfl⟩ := wire_of_readValue hvalue
    have hparts : 8 * (tag >>> 3) + (tag &&& 7) = tag := by
      rw [Nat.shiftRight_eq_div_pow, show (7 : ℕ) = 2 ^ 3 - 1 from rfl,
        Nat.and_two_pow_sub_one_eq_mod]
      omega
    unfold maxFieldNumber at hin
    let r : Record := ⟨tag >>> 3, payload, by omega, by omega⟩
    exact ⟨tagBytes ++ wire, r, (List.append_assoc _ _ _).symm, .mk (hparts.symm ▸ htag) hwire, rfl⟩

/-! ### Reading a message -/

theorem VarintBytes.ne_nil (h : VarintBytes bytes) : bytes ≠ [] := by
  cases h <;> exact List.cons_ne_nil _ _

theorem WireRecord.ne_nil {r : Record} (h : WireRecord bytes r) : bytes ≠ [] := by
  cases h with
  | mk htag hvalue => exact fun hnil => htag.varint.ne_nil (List.append_eq_nil_iff.mp hnil).1

theorem fieldLoop_of_wire (classify : Bytes → ProtoValue) {records : List Record} (h : Wire bytes records)
    (hlen : records.length ≤ left) :
    fieldLoop classify left bytes = some (records.map (fieldOf classify)) := by
  induction h generalizing left with
  | nil =>
    cases left with
    | zero => rfl
    | succ left => rfl
  | @cons bytes rest r records hr hrest ih =>
    cases left with
    | zero => exact absurd hlen (Nat.not_succ_le_zero _)
    | succ left =>
      have hne : bytes ++ rest ≠ [] := fun hnil => hr.ne_nil (List.append_eq_nil_iff.mp hnil).1
      rw [fieldLoop, if_neg hne, readField_of_wire hr, Option.bind_some,
        ih (Nat.le_of_succ_le_succ hlen)]
      rfl

theorem wire_of_fieldLoop {fields : List ProtoField}
    (h : fieldLoop classify left bytes = some fields) :
    ∃ records, Wire bytes records ∧ records.length ≤ left ∧
      fields = records.map (fieldOf classify) := by
  induction left generalizing bytes fields with
  | zero =>
    rw [fieldLoop] at h
    split at h
    case isTrue hnil =>
      cases h
      exact ⟨[], hnil ▸ .nil, Nat.le_refl _, rfl⟩
    case isFalse => cases h
  | succ left ih =>
    rw [fieldLoop] at h
    split at h
    case isTrue hnil =>
      cases h
      exact ⟨[], hnil ▸ .nil, Nat.zero_le _, rfl⟩
    case isFalse hne =>
      obtain ⟨⟨field, rest⟩, hfield, htail⟩ := Option.bind_eq_some_iff.mp h
      obtain ⟨more, hmore, rfl⟩ := Option.map_eq_some_iff.mp htail
      obtain ⟨wire, r, rfl, hwire, rfl⟩ := wire_of_readField hfield
      obtain ⟨records, hrecords, hlen, rfl⟩ := ih hmore
      exact ⟨r :: records, .cons hwire hrecords, Nat.succ_le_succ hlen, rfl⟩

/-- A number of records that a message may have. -/
def Count (records : List Record) : Prop := 1 ≤ records.length ∧ records.length ≤ maxFields

/-- **A message is its records**, where a varint may be any number of seventy bits. -/
theorem decodeMessage_iff (classify : Bytes → ProtoValue) {fields : List ProtoField} :
    decodeMessage classify bytes = some fields ↔
      ∃ records, Wire bytes records ∧ Count records ∧ fields = records.map (fieldOf classify) := by
  constructor
  · intro h
    obtain ⟨fields', hloop, h⟩ := Option.bind_eq_some_iff.mp h
    obtain ⟨records, hwire, hlen, rfl⟩ := wire_of_fieldLoop hloop
    split at h
    case isTrue hpos =>
      rw [List.length_map] at hpos
      exact ⟨records, hwire, ⟨hpos, hlen⟩, (Option.some.inj h).symm⟩
    case isFalse => cases h
  · rintro ⟨records, hwire, ⟨hpos, hlen⟩, rfl⟩
    rw [decodeMessage, fieldLoop_of_wire _ hwire hlen, Option.bind_some, if_pos]
    rwa [List.length_map]

/-- The records of a message can be told from its bytes. -/
theorem Wire.unique {records records' : List Record} (h : Wire bytes records)
    (h' : Wire bytes records') : records = records' := by
  have hloop := fieldLoop_of_wire .bytes h (Nat.le_max_left _ records'.length)
  rw [fieldLoop_of_wire _ h' (Nat.le_max_right records.length _)] at hloop
  have hinj : Function.Injective (fieldOf .bytes) := by
    rintro ⟨number, payload, _, _⟩ ⟨number', payload', _, _⟩ heq
    obtain ⟨rfl, hvalue⟩ := Prod.mk.inj heq
    have hpayload : payload = payload' := by
      cases payload <;> cases payload' <;> cases hvalue <;> rfl
    subst hpayload
    rfl
  exact (List.map_injective_iff.mpr hinj (Option.some.inj hloop)).symm

/-! ### Writing records -/

def encodeVarint (value : ℕ) : Bytes :=
  if value < 128 then [UInt8.ofNat value]
  else UInt8.ofNat (value % 128 + 128) :: encodeVarint (value / 128)
termination_by value
decreasing_by omega

/-- A number in so many bytes, the lowest first. -/
def encodeFixed : ℕ → ℕ → Bytes
  | 0, _ => []
  | size + 1, value => UInt8.ofNat value :: encodeFixed size (value / 256)

def Payload.wire : Payload → ℕ
  | .varint _ => 0
  | .fixed64 _ => 1
  | .lengthDelimited _ => 2
  | .fixed32 _ => 5

def Payload.encode : Payload → Bytes
  | .varint value => encodeVarint value
  | .fixed64 value => encodeFixed 8 value
  | .lengthDelimited bytes => encodeVarint bytes.length ++ bytes
  | .fixed32 value => encodeFixed 4 value

def encodeRecord (r : Record) : Bytes :=
  encodeVarint (8 * r.number + r.payload.wire) ++ r.payload.encode

def encodeRecords (records : List Record) : Bytes := records.flatMap encodeRecord

/-- The numbers fit their types. -/
def Payload.Fits : Payload → Prop
  | .varint value => value < 2 ^ 64
  | .fixed64 value => value < 2 ^ 64
  | .lengthDelimited bytes => bytes.length < 2 ^ 64
  | .fixed32 value => value < 2 ^ 32

theorem encodeVarint_spec {n : ℕ} (h : value < 128 ^ (n + 1)) :
    VarintBytes (encodeVarint value) ∧ (encodeVarint value).length ≤ n + 1 ∧
      varintNumber (encodeVarint value) = value := by
  induction n generalizing value with
  | zero =>
    have hlt : value < 128 := h
    have hnat : (UInt8.ofNat value).toNat = value := by
      rw [UInt8.toNat_ofNat']
      omega
    rw [encodeVarint, if_pos hlt]
    refine ⟨.last (by rwa [hnat]), Nat.le_refl _, ?_⟩
    rw [varintNumber, varintNumber, hnat]
    omega
  | succ n ih =>
    rw [encodeVarint]
    by_cases hlt : value < 128
    · have hnat : (UInt8.ofNat value).toNat = value := by
        rw [UInt8.toNat_ofNat']
        omega
      rw [if_pos hlt]
      refine ⟨.last (by rwa [hnat]), by simp, ?_⟩
      rw [varintNumber, varintNumber, hnat]
      omega
    · have hnat : (UInt8.ofNat (value % 128 + 128)).toNat = value % 128 + 128 := by
        rw [UInt8.toNat_ofNat']
        omega
      have hdiv : value / 128 < 128 ^ (n + 1) := by
        rw [Nat.div_lt_iff_lt_mul (by decide)]
        exact h
      obtain ⟨hbytes, hlen, hnumber⟩ := ih hdiv
      rw [if_neg hlt]
      refine ⟨.more (by omega) hbytes, Nat.succ_le_succ hlen, ?_⟩
      rw [varintNumber, hnumber, hnat]
      omega

theorem wireVarint_encodeVarint (h : value < 2 ^ 64) : WireVarint (encodeVarint value) value := by
  obtain ⟨hbytes, hlen, hnumber⟩ := encodeVarint_spec (n := 9) (h.trans (by decide))
  exact ⟨hbytes, hlen, hnumber⟩

theorem encodeFixed_spec (size : ℕ) (h : value < 256 ^ size) :
    (encodeFixed size value).length = size ∧ littleEndian (encodeFixed size value) = value := by
  induction size generalizing value with
  | zero => exact ⟨rfl, (Nat.lt_one_iff.mp h).symm⟩
  | succ size ih =>
    have hdiv : value / 256 < 256 ^ size := by
      rw [Nat.div_lt_iff_lt_mul (by decide)]
      exact h
    obtain ⟨hlen, hvalue⟩ := ih hdiv
    refine ⟨congrArg Nat.succ hlen, ?_⟩
    rw [encodeFixed, littleEndian, hvalue, UInt8.toNat_ofNat']
    omega

theorem wireValue_encode {payload : Payload} (h : payload.Fits) :
    WireValue payload.wire payload.encode payload := by
  cases payload with
  | varint value => exact .varint (wireVarint_encodeVarint h)
  | fixed64 value =>
    obtain ⟨hlen, hvalue⟩ := encodeFixed_spec 8 h
    have hwire := WireValue.fixed64 hlen
    rwa [hvalue] at hwire
  | lengthDelimited bytes => exact .lengthDelimited (wireVarint_encodeVarint h)
  | fixed32 value =>
    obtain ⟨hlen, hvalue⟩ := encodeFixed_spec 4 h
    have hwire := WireValue.fixed32 hlen
    rwa [hvalue] at hwire

theorem wire_encodeRecords {records : List Record} (h : ∀ r ∈ records, r.payload.Fits) :
    Wire (encodeRecords records) records := by
  induction records with
  | nil => exact .nil
  | cons r records ih =>
    have hvalue := wireValue_encode (h r List.mem_cons_self)
    have hlt := hvalue.lt
    have hle := r.number_le
    refine .cons (.mk (wireVarint_encodeVarint ?_) hvalue)
      (ih fun r hr => h r (List.mem_cons_of_mem _ hr))
    omega

/-! ### Exactness -/

section Exact

variable (toISOString : ℕ → String)

/-- The value of a length-delimited field of a message that is not nested. -/
def classifyTop : Bytes → ProtoValue :=
  classifyLengthDelimited toISOString (decodeLevels toISOString maxDepth)

/-- The decoder is exact on some bytes: it returns fields exactly where the bytes are well-formed
    records, and then it returns these records. -/
def Exact (bytes : Bytes) : Prop :=
  ∀ fields, decodeProtobuf toISOString bytes 0 = some fields ↔
    ∃ records, Wire bytes records ∧ Count records ∧ (∀ r ∈ records, r.InRange) ∧
      fields = records.map (fieldOf (classifyTop toISOString))

theorem exact_iff (bytes : Bytes) : Exact toISOString bytes ↔
    ¬ ∃ records, Wire bytes records ∧ Count records ∧ ∃ r ∈ records, ¬ r.InRange := by
  have hdecode : decodeProtobuf toISOString bytes 0 =
      decodeMessage (classifyTop toISOString) bytes := rfl
  constructor
  · rintro hexact ⟨records, hwire, hcount, r, hr, hout⟩
    have hsome := (decodeMessage_iff (classifyTop toISOString)).mpr
      ⟨records, hwire, hcount, rfl⟩
    obtain ⟨records', hwire', -, hin, -⟩ := (hexact _).mp (hdecode.trans hsome)
    rw [hwire.unique hwire'] at hr
    exact hout (hin r hr)
  · intro hnone fields
    rw [hdecode, decodeMessage_iff]
    constructor
    · rintro ⟨records, hwire, hcount, rfl⟩
      refine ⟨records, hwire, hcount, fun r hr => ?_, rfl⟩
      by_contra hout
      exact hnone ⟨records, hwire, hcount, r, hr, hout⟩
    · rintro ⟨records, hwire, hcount, -, heq⟩
      exact ⟨records, hwire, hcount, heq⟩

/-- **Where the decoder is exact**: on all bytes but those that are records of which one is a varint
    of more than 64 bits; in particular on what is written for records. -/
theorem decodeProtobuf_exact_iff :
    (∀ bytes, Exact toISOString bytes ↔
      ¬ ∃ records, Wire bytes records ∧ Count records ∧ ∃ r ∈ records, ¬ r.InRange) ∧
    ∀ records, Count records → (∀ r ∈ records, r.payload.Fits) →
      decodeProtobuf toISOString (encodeRecords records) 0 =
        some (records.map (fieldOf (classifyTop toISOString))) :=
  ⟨exact_iff toISOString, fun _ hcount hfits =>
    (decodeMessage_iff _).mpr ⟨_, wire_encodeRecords hfits, hcount, rfl⟩⟩

/-- A varint field whose ten bytes make the number 2^70 - 1. -/
theorem not_exact : ¬ Exact (fun ms => toString ms)
    [0x08, 0xff, 0xff, 0xff, 0xff, 0xff, 0xff, 0xff, 0xff, 0xff, 0x7f] := by
  have hbytes : VarintBytes [0xff, 0xff, 0xff, 0xff, 0xff, 0xff, 0xff, 0xff, 0xff, 0x7f] := by
    repeat refine .more (by decide) ?_
    exact .last (by decide)
  let r : Record := ⟨1, .varint (2 ^ 70 - 1), by decide, by decide⟩
  have hrecord : WireRecord
      ([0x08] ++ [0xff, 0xff, 0xff, 0xff, 0xff, 0xff, 0xff, 0xff, 0xff, 0x7f]) r :=
    .mk ⟨.last (by decide), by decide, by decide⟩ (.varint ⟨hbytes, by decide, by decide⟩)
  refine fun hexact => (exact_iff _ _).mp hexact
    ⟨[r], .cons hrecord .nil, ⟨by decide, by decide⟩, r, List.mem_singleton_self r, fun hin => ?_⟩
  exact absurd (hin _ rfl) (by decide)

end Exact

end Tapsmith.Grpc
