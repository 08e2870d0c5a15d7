import Tapsmith.Http.Chunked
import Tapsmith.Http.StatusLine

namespace Tapsmith.Http

open Lib Lib.Text

/-!
# Well-formed messages

`RequestMessage` and `ResponseMessage` are the HTTP/1.1 messages whose framing is sound: a
well-formed head, and a body that the framing fields of the head describe.

* `Framed` — how the framing fields and the body of a message go together;
* `Framed.sized`, `Framed.chunked`, `Framed.empty` — what the readers make of those fields.
-/

/-! ### Framing fields -/

/-- Whether the field has that name, in any case. -/
def Field.isNamed (f : Field) (name : Str) : Prop := eqIgnoreAsciiCase f.name name = true

instance (f : Field) (name : Str) : Decidable (f.isNamed name) := by
  unfold Field.isNamed
  infer_instance

/-- The field declares a body of `n` bytes: its value is a decimal number. -/
def Field.declares (f : Field) (n : ℕ) : Prop :=
  f.isNamed contentLengthName ∧ f.header.2 ≠ [] ∧ digitsValue 10 0 f.header.2 = some n

/-- The field names `chunked` as the final transfer coding. -/
def Field.endsChunked (f : Field) : Prop :=
  f.isNamed transferEncodingName ∧ ∃ codings coding,
    f.header.2.splitOn ',' = codings ++ [coding] ∧ eqIgnoreAsciiCase (trim coding) chunkedName = true

/-- The body of a message. -/
inductive Body where
  | empty
  | sized (data : Bytes)
  | chunked (body : ChunkedBody)

/-- The bytes of the body on the wire. -/
def Body.bytes : Body → Bytes
  | .empty => []
  | .sized data => data
  | .chunked body => body.bytes

/-- Whether the body is sent in chunks. -/
def Body.isChunked : Body → Bool
  | .chunked _ => true
  | _ => false

/-- The framing fields describe the body: none for no body, one `Content-Length` for a sized
    one, a final `chunked` coding for a chunked one, and never both kinds. -/
def Framed (fields : List Field) : Body → Prop
  | .empty => ∀ f ∈ fields, ¬ f.isNamed contentLengthName ∧ ¬ f.isNamed transferEncodingName
  | .sized data =>
    (∃ before f after, fields = before ++ f :: after ∧ f.declares data.length ∧
      ∀ g ∈ before ++ after, ¬ g.isNamed contentLengthName) ∧
    ∀ f ∈ fields, ¬ f.isNamed transferEncodingName
  | .chunked _ =>
    (∀ f ∈ fields, ¬ f.isNamed contentLengthName) ∧ ∃ f ∈ fields, f.endsChunked

/-! ### What the readers make of framing fields -/

theorem isChunked_eq_false {fields : List Field}
    (h : ∀ f ∈ fields, ¬ f.isNamed transferEncodingName) :
    isChunkedTransferEncoding (fields.map Field.header) = false := by
  rw [isChunkedTransferEncoding, List.any_eq_false]
  intro x hx
  obtain ⟨f, hf, rfl⟩ := List.mem_map.mp hx
  rw [Bool.and_eq_true]
  exact fun hcon => h f hf hcon.1

theorem isChunked_eq_true {fields : List Field} {f : Field} (hf : f ∈ fields)
    (h : f.endsChunked) : isChunkedTransferEncoding (fields.map Field.header) = true := by
  obtain ⟨hname, codings, coding, hsplit, hcoding⟩ := h
  rw [isChunkedTransferEncoding, List.any_eq_true]
  refine ⟨f.header, List.mem_map_of_mem hf, ?_⟩
  rw [Bool.and_eq_true, listsChunked, hsplit]
  exact ⟨hname, List.any_eq_true.mpr ⟨coding, by simp, hcoding⟩⟩

theorem hasContentLength_eq_false {fields : List Field}
    (h : ∀ f ∈ fields, ¬ f.isNamed contentLengthName) :
    hasContentLength (fields.map Field.header) = false := by
  rw [hasContentLength, List.any_eq_false]
  intro x hx
  obtain ⟨f, hf, rfl⟩ := List.mem_map.mp hx
  exact h f hf

/-- A value that is a decimal number is read as that number. -/
theorem parseUsize_trim_of_digits {value : Str} {n : ℕ} (hne : value ≠ [])
    (hdigits : digitsValue 10 0 value = some n) (hn : n < 2 ^ 64) :
    parseUsize (trim value) = some n := by
  have hrange : ∀ c ∈ value, (48 ≤ c.toNat ∧ c.toNat ≤ 57) ∨ (65 ≤ c.toNat ∧ c.toNat ≤ 90) ∨
      (97 ≤ c.toNat ∧ c.toNat ≤ 122) := fun c hc =>
    have ⟨_, hd⟩ := toDigit_of_digitsValue hdigits c hc
    toDigit_range hd
  have htrim : trim value = value := trim_eq_self fun c hc => by
    have := hrange c hc
    simp only [isWhitespace, Bool.or_eq_false_iff, Bool.and_eq_false_iff,
      decide_eq_false_iff_not, beq_eq_false_iff_ne]
    omega
  have hplus : value.head? ≠ some '+' := fun hm => by
    have := hrange _ (List.mem_of_mem_head? hm)
    rw [show ('+' : Char).toNat = 43 from rfl] at this
    omega
  rw [htrim, parseUsize, fromStrRadix, unsignedDigits, if_neg hplus, if_neg hne,
    Option.bind_some, hdigits, Option.filter_some, if_pos (decide_eq_true hn)]

theorem declaredLength_eq_some {before after : List Field} {f : Field} {n : ℕ}
    (hf : f.declares n) (hbefore : ∀ g ∈ before ++ after, ¬ g.isNamed contentLengthName)
    (hn : n < 2 ^ 64) :
    declaredLength ((before ++ f :: after).map Field.header) = some n := by
  obtain ⟨hname, hne, hdigits⟩ := hf
  have hskip : ∀ x ∈ before.map Field.header, ¬ eqIgnoreAsciiCase x.1 contentLengthName = true := by
    intro x hx
    obtain ⟨g, hg, rfl⟩ := List.mem_map.mp hx
    exact hbefore g (List.mem_append_left _ hg)
  have hfind : ((before ++ f :: after).map Field.header).find?
      (fun h => eqIgnoreAsciiCase h.1 contentLengthName) = some f.header := by
    have hhere : eqIgnoreAsciiCase f.header.1 contentLengthName = true := hname
    rw [List.map_append, List.find?_append, List.find?_eq_none.mpr hskip, List.map_cons,
      List.find?_cons, hhere]
    rfl
  rw [declaredLength, hfind, Option.bind_some]
  exact parseUsize_trim_of_digits hne hdigits hn

theorem Framed.empty {fields : List Field} (h : Framed fields .empty) :
    isChunkedTransferEncoding (fields.map Field.header) = false ∧
      declaredLength (fields.map Field.header) = none :=
  ⟨isChunked_eq_false fun f hf => (h f hf).2,
    declaredLength_eq_none (hasContentLength_eq_false fun f hf => (h f hf).1)⟩

theorem Framed.sized {fields : List Field} {data : Bytes} (h : Framed fields (.sized data))
    (hsize : data.length < 2 ^ 64) :
    isChunkedTransferEncoding (fields.map Field.header) = false ∧
      declaredLength (fields.map Field.header) = some data.length := by
  obtain ⟨⟨before, f, after, rfl, hf, hother⟩, hte⟩ := h
  exact ⟨isChunked_eq_false hte, declaredLength_eq_some hf hother hsize⟩

theorem Framed.chunked {fields : List Field} {body : ChunkedBody}
    (h : Framed fields (.chunked body)) :
    isChunkedTransferEncoding (fields.map Field.header) = true ∧
      hasContentLength (fields.map Field.header) = false := by
  obtain ⟨hcl, f, hf, hte⟩ := h
  exact ⟨isChunked_eq_true hf hte, hasContentLength_eq_false hcl⟩

/-! ### Messages -/

/-- A well-formed request: `method SP target SP HTTP/1.1`, and a body the head frames. -/
structure RequestMessage where
  method : Str
  target : Bytes
  fields : List Field
  body : Body
  method_valid : isValidHeaderName method = true
  target_ne : target ≠ []
  target_visible : ∀ b ∈ target, 33 ≤ b.toNat ∧ b.toNat ≤ 126
  framed : Framed fields body
  size_le : ∀ data, body = .sized data → data.length ≤ maxProxyBody

/-- The head of the request. -/
def RequestMessage.head (m : RequestMessage) : Head where
  start := Utf8.encode m.method ++ [32] ++ m.target ++ bytes " HTTP/1.1"
  fields := m.fields
  start_line := by
    have hversion : OneLine (bytes " HTTP/1.1") := by decide
    intro b hb
    simp only [List.mem_append, List.mem_singleton] at hb
    obtain ((hm | rfl) | ht) | hv := hb
    · have := (token_bytes m.method_valid hm).1
      constructor <;> rintro rfl <;> simp at this
    · decide
    · have := (m.target_visible b ht).1
      constructor <;> rintro rfl <;> simp at this
    · exact hversion b hv

def RequestMessage.bytes (m : RequestMessage) : Bytes := m.head.bytes ++ m.body.bytes

/-- Statuses whose responses end with their head. -/
def IsBodyless (status : ℤ) : Prop := status = 204 ∨ status = 304

instance (status : ℤ) : Decidable (IsBodyless status) := by unfold IsBodyless; infer_instance

/-- A well-formed final response: `HTTP/1.1 SP status SP reason`, and a body that the head
    frames.  A bodyless response may describe the body it leaves out, in one of the two ways. -/
structure ResponseMessage where
  status : ℤ
  reason : Bytes
  fields : List Field
  body : Body
  status_range : 200 ≤ status ∧ status ≤ 999
  reason_line : OneLine reason
  bodyless : IsBodyless status → body = .empty ∧
    ((∀ f ∈ fields, ¬ f.isNamed contentLengthName) ∨
      ∀ f ∈ fields, ¬ f.isNamed transferEncodingName)
  framed : ¬ IsBodyless status → body ≠ .empty ∧ Framed fields body

/-- The head of the response. -/
def ResponseMessage.head (m : ResponseMessage) : Head where
  start := statusLine m.status m.reason
  fields := m.fields
  start_line := statusLine_oneLine m.reason_line

def ResponseMessage.bytes (m : ResponseMessage) : Bytes := m.head.bytes ++ m.body.bytes

end Tapsmith.Http
