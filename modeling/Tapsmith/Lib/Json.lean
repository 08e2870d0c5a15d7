import Mathlib.Data.Int.Notation
import Tapsmith.Lib.Entries

namespace Lib

/-!
# JSON values

JSON as a value; the fields of an object are entries (`Lib.Entries`), and a number that is no
integer stands for its literal.

* `Object.opt`, `Object.put`, `Object.remove` — a field of an object;
* `Object.optString`, `Object.getBoolean` and the like — a field that is read as a value of some
  type, with what a reader makes of values of other types in `Coercions`;
* `Json.field`, `Json.array`, `Json.elements` — a field of any value, and the elements of one that
  is an array;
* `Json.fieldInduction` — induction along the elements of a field;
* `Agree` — objects that have the same values in some fields.
-/

inductive Json
  | null
  | bool (b : Bool)
  | num (n : ℤ)
  | real (literal : String)
  | str (s : String)
  | arr (items : List Json)
  | obj (fields : List (String × Json))

namespace Json

abbrev Object : Type := List (String × Json)

/-- What a reader makes of a value that is not of the type that was asked for. -/
structure Coercions where
  string : Json → String
  boolean : Json → Option Bool
  int : Json → Option ℤ

namespace Object

def opt (o : Object) (name : String) : Option Json := Entries.get name o

def has (o : Object) (name : String) : Bool := (o.opt name).isSome

def put (name : String) (value : Json) (o : Object) : Object := Entries.put name value o

/-- A field that is written only when there is a value for it. -/
def putSome (name : String) (value : Option Json) (o : Object) : Object :=
  value.elim o fun value => o.put name value

def remove (name : String) (o : Object) : Object := Entries.erase name o

variable (c : Coercions) (o : Object) (name : String)

def optString : Option String :=
  (o.opt name).map fun value =>
    match value with
    | .str s => s
    | value => c.string value

/-- The boolean of a field; nothing where the field cannot be read as one. -/
def getBoolean : Option Bool :=
  (o.opt name).bind fun value =>
    match value with
    | .bool b => some b
    | value => c.boolean value

def optBoolean (fallback : Bool) : Bool := (o.getBoolean c name).getD fallback

def getInt : Option ℤ :=
  (o.opt name).bind fun value =>
    match value with
    | .num n => some n
    | value => c.int value

def optInt (fallback : ℤ) : ℤ := (o.getInt c name).getD fallback

def optJSONObject : Option Object :=
  (o.opt name).bind fun value =>
    match value with
    | .obj fields => some fields
    | _ => none

end Object

/-! ### Values that hold values -/

/-- A field of a value; only objects have fields. -/
def field (value : Json) (name : String) : Option Json :=
  match value with
  | .obj fields => Object.opt fields name
  | _ => none

def isObject : Json → Bool
  | .obj _ => true
  | _ => false

def array : Option Json → Option (List Json)
  | some (.arr items) => some items
  | _ => none

/-- The elements of an array; anything else has none. -/
def elements (value : Option Json) : List Json := (array value).getD []

/-- What a value holds in an array is smaller than the value. -/
theorem sizeOf_lt_of_mem_elements {value item : Json} {name : String}
    (h : item ∈ elements (value.field name)) : sizeOf item < sizeOf value := by
  cases value with
  | obj fields =>
    have hget : (field (.obj fields) name) = Entries.get name fields := rfl
    rw [hget] at h
    cases hopt : Entries.get name fields with
    | none =>
      rw [hopt] at h
      exact absurd h List.not_mem_nil
    | some held =>
      rw [hopt] at h
      have hheld : sizeOf held < sizeOf fields := by
        have hentry := List.sizeOf_lt_of_mem (Entries.mem_of_get hopt)
        rw [Prod.mk.sizeOf_spec] at hentry
        omega
      cases held with
      | arr items =>
        have hitem : sizeOf item < sizeOf items := List.sizeOf_lt_of_mem h
        rw [arr.sizeOf_spec] at hheld
        rw [obj.sizeOf_spec]
        omega
      | _ => exact absurd h List.not_mem_nil
  | _ => exact absurd h List.not_mem_nil

/-- What holds of a value when it holds of the elements of one of its fields, holds. -/
theorem fieldInduction {P : Json → Prop} (name : String)
    (step : ∀ value, (∀ item ∈ elements (value.field name), P item) → P value) (value : Json) :
    P value :=
  step value fun item _ => fieldInduction name step item
termination_by sizeOf value
decreasing_by exact sizeOf_lt_of_mem_elements ‹_›

theorem elements_of_array {value : Option Json} {items : List Json} (h : array value = some items) :
    elements value = items := by
  unfold elements
  rw [h]
  rfl

/-! ### Fields after a write -/

namespace Object

variable {o : Object} {name name' : String} {value : Json}

theorem opt_put : (o.put name value).opt name' = if name' = name then some value else o.opt name' :=
  Entries.get_put

theorem opt_putSome {value : Option Json} : (o.putSome name value).opt name' =
    if name' = name then value.or (o.opt name') else o.opt name' := by
  cases value with
  | none => simp [putSome]
  | some value => exact opt_put

theorem opt_remove : (o.remove name).opt name' = if name' = name then none else o.opt name' :=
  Entries.get_erase

theorem has_put (h : o.has name') : (o.put name value).has name' := by
  unfold has at h ⊢
  rw [opt_put]
  split
  · rfl
  · exact h

theorem has_putSome {value : Option Json} (h : o.has name') : (o.putSome name value).has name' := by
  cases value with
  | none => exact h
  | some value => exact has_put h

end Object

/-! ### Objects that agree -/

/-- The objects have the same values under the names of `names`. -/
def Agree (names : List String) (o o' : Object) : Prop := ∀ name ∈ names, o.opt name = o'.opt name

variable {o o' o'' : Object} {names : List String} {name : String} {c : Coercions}

theorem Agree.refl (o : Object) : Agree names o o := fun _ _ => rfl

theorem Agree.trans (h : Agree names o o') (h' : Agree names o' o'') : Agree names o o'' :=
  fun name hname => (h name hname).trans (h' name hname)

theorem Agree.mono {names' : List String} (h : Agree names o o')
    (hsub : ∀ name ∈ names', name ∈ names) : Agree names' o o' :=
  fun name hname => h name (hsub name hname)

/-- Fields under other names do not matter. -/
theorem Agree.put (h : Agree names o o') (hname : name ∉ names) (value : Json) :
    Agree names (o.put name value) o' := by
  intro name' hname'
  rw [Object.opt_put, if_neg fun heq : name' = name => hname (heq ▸ hname')]
  exact h name' hname'

theorem Agree.putSome (h : Agree names o o') (hname : name ∉ names) (value : Option Json) :
    Agree names (o.putSome name value) o' := by
  cases value with
  | none => exact h
  | some value => exact h.put hname value

theorem Agree.remove (h : Agree names o o') (name : String) :
    Agree names (o.remove name) (o'.remove name) := by
  intro name' hname'
  rw [Object.opt_remove, Object.opt_remove, h name' hname']

/-- A field that is written and removed again leaves an object that had no such field. -/
theorem Agree.remove_put (h : o.opt name = none) (value : Json) :
    Agree names ((o.put name value).remove name) o := by
  intro name' _
  rw [Object.opt_remove, Object.opt_put]
  by_cases hname : name' = name
  · rw [if_pos hname, hname, h]
  · rw [if_neg hname, if_neg hname]

theorem Agree.optString (h : Agree names o o') (hname : name ∈ names) :
    o.optString c name = o'.optString c name := by
  unfold Object.optString
  rw [h name hname]

theorem Agree.getBoolean (h : Agree names o o') (hname : name ∈ names) :
    o.getBoolean c name = o'.getBoolean c name := by
  unfold Object.getBoolean
  rw [h name hname]

theorem Agree.optInt (h : Agree names o o') (hname : name ∈ names) (fallback : ℤ) :
    o.optInt c name fallback = o'.optInt c name fallback := by
  unfold Object.optInt Object.getInt
  rw [h name hname]

theorem Agree.optJSONObject (h : Agree names o o') (hname : name ∈ names) :
    o.optJSONObject name = o'.optJSONObject name := by
  unfold Object.optJSONObject
  rw [h name hname]

theorem Agree.has (h : Agree names o o') (hname : name ∈ names) : o.has name = o'.has name := by
  unfold Object.has
  rw [h name hname]

end Json

end Lib
