/-
**`json-c`: documents and their accessors.**

A `json_object*` is a `Json`, and the null pointer, which is also the JSON value null, is
`Json.null`. The accessors do what `json_object.h` says. What it leaves to the library (how a double
or a string is turned into an integer, and the text of a value that is not a string) is a `JsonC`.

A C string is a `String` without the null character: `cstr` cuts a string at its first one.

A document is read from a file whose size is an `int`, so none of its arrays has `2 ^ 31` elements
(`Document`); the `int` counters of the loops over them count them (`arrayItems_eq`).
-/

import CyberPlatform.Foundation.Trap
import Mathlib.Tactic.SplitIfs

namespace CyberPlatform

open Foundation

inductive Json where
  | null
  | boolean (b : Bool)
  | double (bits : UInt64)
  | int (i : Int)
  | string (s : String)
  | array (items : List Json)
  | object (fields : List (String × Json))

namespace Json

/-- `enum json_type` -/
inductive JsonType where
  | null | boolean | double | int | object | array | string
  deriving DecidableEq, Repr

/-- What the library decides. -/
structure JsonC where
  doubleToInt : UInt64 → Int
  stringToInt : String → Int
  toJsonString : Json → String

/-- A library for documents in which it has nothing to decide. -/
def namesC : JsonC where
  doubleToInt _ := 0
  stringToInt _ := 0
  toJsonString _ := ""

/-- The C string that starts where a string does. -/
def cstr (s : String) : String := String.ofList (s.toList.takeWhile (· ≠ '\x00'))

/-- `json_object_get_type` -/
def getType : Json → JsonType
  | null => .null
  | boolean _ => .boolean
  | double _ => .double
  | int _ => .int
  | string _ => .string
  | array _ => .array
  | object _ => .object

/-- `json_object_object_get_ex`: the value under a key, if the key exists. -/
def getEx (obj : Json) (key : String) : Option Json :=
  match obj with
  | object fields => fields.lookup key
  | _ => none

/-- `json_object_get_boolean` -/
def getBoolean : Json → Int
  | null => 0
  | boolean b => if b then 1 else 0
  -- the doubles that are zero are 0.0 and -0.0
  | double bits => if bits = 0 ∨ bits = 0x8000000000000000 then 0 else 1
  | int i => if i = 0 then 0 else 1
  | string s => if s.length = 0 then 0 else 1
  | array _ => 1
  | object _ => 1

/-- The nearest value of an `int32_t`. -/
def saturate (i : Int) : Int := max (-2 ^ 31) (min i (2 ^ 31 - 1))

/-- **An integer in a `uint64_t`**, once it has been an `int`: the sign is extended. -/
theorem toNat_ofInt_saturate (i : Int) : ((UInt64.ofInt (saturate i)).toNat : Int) =
    if i < 0 then 2 ^ 64 + max (-2 ^ 31) i else min i (2 ^ 31 - 1) := by
  have value : (UInt64.ofInt (saturate i)).toNat = (saturate i % 2 ^ 64).toNat := by
    have range := Int.emod_lt_of_pos (saturate i) (show (0 : Int) < 2 ^ 64 by decide)
    simp [UInt64.ofInt]
    omega
  rw [value]
  unfold saturate
  by_cases negative : i < 0
  · rw [if_pos negative]
    omega
  · rw [if_neg negative]
    omega

section Library

variable (c : JsonC)

/-- `json_object_get_int` -/
def getInt : Json → Int
  | null => 0
  | boolean b => if b then 1 else 0
  | double bits => saturate (c.doubleToInt bits)
  | int i => saturate i
  | string s => saturate (c.stringToInt s)
  | array _ => 0
  | object _ => 0

/-- `json_object_get_string` -/
def getString : Json → Option String
  | null => none
  | string s => some (cstr s)
  | other => some (cstr (c.toJsonString other))

end Library

/-- `json_object_array_length` -/
def arrayLength : Json → Nat
  | array items => items.length
  | _ => 0

/-- `json_object_array_get_idx` -/
def arrayGetIdx (jarray : Json) (i : Nat) : Json :=
  match jarray with
  | array items => items.getD i null
  | _ => null

/-- What a loop `for (i=0; i<arraylen; i++)` with an `int arraylen` looks at. -/
def arrayItems (jarray : Json) : List Json :=
  (List.range (int32 jarray.arrayLength).toNat).map jarray.arrayGetIdx

/-! ### What is under a key -/

section Keys

variable (c : JsonC) (item : Json) (key : String)

/-- The value under a key is null. -/
def nullAt : Bool :=
  match item.getEx key with
  | some null => true
  | _ => false

/-- The value under a key as a truth value, 0 when the key is missing. -/
def booleanAt : Int := (item.getEx key).elim 0 getBoolean

/-- The value under a key as an integer, 0 when the key is missing. -/
def intAt : Int := (item.getEx key).elim 0 (getInt c)

/-- The value under a key as a string, null when the key is missing. -/
def stringAt : Option String := (item.getEx key).elim none (getString c)

/-- The elements of the array under a key, if the key is there and its value is an array. -/
def arrayAt : Option (List Json) :=
  match item.getEx key with
  | some (array items) => some items
  | _ => none

theorem arrayAt_eq_some_iff {items : List Json} :
    item.arrayAt key = some items ↔ item.getEx key = some (array items) := by
  unfold arrayAt
  cases item.getEx key with
  | none => simp
  | some value => cases value <;> simp

end Keys

/-! ### C strings -/

/-- `strdup` -/
def strdup : Option String → Except Trap (Option String)
  | none => .error .nullPointer
  | some s => .ok (some s)

/-- `strcmp` -/
def strcmp : Option String → Option String → Except Trap Int
  | some s, some t => .ok (if s = t then 0 else if s < t then -1 else 1)
  | _, _ => .error .nullPointer

/-- `strncmp`: two strings agree when they have the same bytes up to the `n`-th one. -/
def strncmp (s t : Option String) (n : Nat) : Except Trap Int :=
  match s, t with
  | some s, some t =>
    let s := s.toUTF8.toList.take n
    let t := t.toUTF8.toList.take n
    .ok (if s = t then 0 else if s < t then -1 else 1)
  | _, _ => .error .nullPointer

/-- A copy is the string it is of. -/
theorem strdup_ok {s t : Option String} (ran : strdup s = .ok t) : t = s := by
  cases s with
  | none => cases ran
  | some s => exact (Except.ok.inj ran).symm

theorem strcmp_eq_zero (s t : String) :
    ∃ order, strcmp (some s) (some t) = .ok order ∧ (order = 0 ↔ s = t) := by
  refine ⟨_, rfl, ?_⟩
  by_cases same : s = t
  · simp [same]
  · rw [if_neg same]
    split_ifs <;> simp [same]

/-- Two strings have the same bytes up to the `n`-th one. -/
def SamePrefix (n : Nat) (s t : String) : Prop :=
  s.toUTF8.toList.take n = t.toUTF8.toList.take n

instance (n : Nat) (s t : String) : Decidable (SamePrefix n s t) :=
  inferInstanceAs (Decidable (_ = _))

theorem strncmp_eq_zero (n : Nat) (s t : String) :
    ∃ order, strncmp (some s) (some t) n = .ok order ∧ (order = 0 ↔ SamePrefix n s t) := by
  refine ⟨_, rfl, ?_⟩
  by_cases same : SamePrefix n s t
  · exact iff_of_true (if_pos same) same
  · refine iff_of_false (fun zero => ?_) same
    have differ : ¬ s.toUTF8.toList.take n = t.toUTF8.toList.take n := same
    rw [if_neg differ] at zero
    split_ifs at zero
    cases zero

/-- **Duplicating the string under an optional key**: null has no string, and a missing key leaves
the old value. -/
theorem strdup_under {α : Type} (c : JsonC) (item : Json) (key : String) (old : Option String)
    (set : Option String → α) :
    (match item.getEx key with
      | none => .ok (set old)
      | some value => strdup (getString c value) >>= fun s => .ok (set s)) =
      if item.nullAt key then Except.error Trap.nullPointer
      else .ok (set ((item.getEx key).elim old (getString c))) := by
  unfold nullAt
  cases item.getEx key with
  | none => rfl
  | some value => cases value <;> rfl

/-! ### Documents -/

/-- No array has `2 ^ 31` elements. -/
inductive Fits : Json → Prop
  | null : Fits null
  | boolean (b : Bool) : Fits (boolean b)
  | double (bits : UInt64) : Fits (double bits)
  | int (i : Int) : Fits (int i)
  | string (s : String) : Fits (string s)
  | array {items : List Json} : items.length < 2 ^ 31 → (∀ item ∈ items, Fits item) →
      Fits (array items)
  | object {fields : List (String × Json)} : (∀ field ∈ fields, Fits field.2) →
      Fits (object fields)

attribute [simp] Fits.null Fits.boolean Fits.double Fits.int Fits.string

@[simp] theorem fits_array {items : List Json} :
    (Json.array items).Fits ↔ items.length < 2 ^ 31 ∧ ∀ item ∈ items, item.Fits :=
  ⟨fun fits => (by cases fits with | array short inner => exact ⟨short, inner⟩),
    fun ⟨short, inner⟩ => .array short inner⟩

@[simp] theorem fits_object {fields : List (String × Json)} :
    (Json.object fields).Fits ↔ ∀ field ∈ fields, field.2.Fits :=
  ⟨fun fits => (by cases fits with | object inner => exact inner), .object⟩

/-- What `json_tokener_parse` makes of a file, null when it cannot be parsed. -/
structure Document where
  root : Json
  fits : root.Fits

theorem Fits.getEx {obj value : Json} {key : String} (fits : obj.Fits)
    (found : obj.getEx key = some value) : value.Fits := by
  cases obj with
  | object fields =>
    obtain ⟨front, back, rfl, _⟩ := List.lookup_eq_some_iff.mp found
    exact fits_object.mp fits _ (List.mem_append_right _ List.mem_cons_self)
  | _ => cases found

theorem Fits.arrayAt {item : Json} {key : String} {items : List Json} (fits : item.Fits)
    (found : item.arrayAt key = some items) : (Json.array items).Fits :=
  fits.getEx ((arrayAt_eq_some_iff item key).mp found)

/-- **The loop looks at the elements**, each once and in their order. -/
theorem arrayItems_eq {items : List Json} (fits : (array items).Fits) :
    (array items).arrayItems = items := by
  have short := (fits_array.mp fits).1
  have length : (int32 items.length).toNat = items.length := by
    rw [int32_of_range (by omega) (by omega)]
    rfl
  rw [arrayItems, arrayLength, length]
  apply List.ext_getElem
  · rw [List.length_map, List.length_range]
  · intro i _ inside
    rw [List.getElem_map, List.getElem_range, arrayGetIdx, List.getD_eq_getElem?_getD,
      List.getElem?_eq_getElem inside, Option.getD_some]

theorem getType_eq_array_iff {j : Json} : j.getType = .array ↔ ∃ items, j = array items := by
  cases j <;> simp [getType]

theorem getType_eq_string_iff {j : Json} : j.getType = .string ↔ ∃ s, j = string s := by
  cases j <;> simp [getType]

theorem getType_eq_int_iff {j : Json} : j.getType = .int ↔ ∃ i, j = int i := by
  cases j <;> simp [getType]

def IsObject (j : Json) : Prop := ∃ fields, j = object fields

theorem getType_eq_object_iff {j : Json} : j.getType = .object ↔ j.IsObject := by
  cases j <;> simp [getType, IsObject]

end Json

end CyberPlatform
