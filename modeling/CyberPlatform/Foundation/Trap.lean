/-
**Programs that can go wrong, and the machine integers they compute with.**

A C function is a function into `Except Trap`: `.ok` is a return, `.error` an execution that has
left what the language defines. A loop whose exit is not bounded by its own text takes fuel, and
`Trap.endless` says that the fuel ran out.

* `bind_eq_ok` — a sequence returns exactly when both of its parts do.
* `int32` — the wrap of an `int` counter, the identity on the range of an `int`
  (`int32_of_range`), and blind to a wrap made earlier (`int32_int32_add`).
-/

import Mathlib.Algebra.Group.Int.Defs
import Mathlib.Algebra.Group.Nat.Defs
import Mathlib.Data.Int.Basic

namespace Foundation

/-- How an execution goes wrong. -/
inductive Trap where
  /-- an access through the null pointer, or a null pointer given to a function that follows it -/
  | nullPointer
  /-- an access outside the object it is made on -/
  | outOfBounds
  /-- a shift by as many bits as its operand has, or more -/
  | undefinedShift
  /-- a loop that has used up its fuel -/
  | endless
  /-- a lock that is taken after it has been destroyed -/
  | destroyedLock
  deriving DecidableEq, Repr

section Sequence

universe u v

variable {ε : Type u} {α β : Type v}

/-- **A sequence returns exactly when both of its parts do.** -/
theorem bind_eq_ok {x : Except ε α} {f : α → Except ε β} {b : β} :
    (x >>= f) = .ok b ↔ ∃ a, x = .ok a ∧ f a = .ok b := by
  constructor
  · intro ran
    cases x with
    | error trap => cases ran
    | ok a => exact ⟨a, rfl, ran⟩
  · rintro ⟨a, rfl, ran⟩
    exact ran

@[simp] theorem ok_bind (a : α) (f : α → Except ε β) : ((.ok a : Except ε α) >>= f) = f a := rfl

@[simp] theorem error_bind (e : ε) (f : α → Except ε β) :
    ((.error e : Except ε α) >>= f) = .error e := rfl

end Sequence

/-! ### Machine integers -/

/-- `x << n` of a `uint64_t` -/
def shiftLeft (x n : UInt64) : Except Trap UInt64 :=
  if n < 64 then .ok (x <<< n) else .error .undefinedShift

/-- **A bit**, where the shift is defined. -/
theorem shiftLeft_one {n mask : UInt64} (defined : shiftLeft 1 n = .ok mask) :
    n.toNat < 64 ∧ mask.toNat = 2 ^ n.toNat := by
  unfold shiftLeft at defined
  by_cases below : n < 64
  · rw [if_pos below] at defined
    cases defined
    have small : n.toNat < 64 := UInt64.lt_iff_toNat_lt.mp below
    have fits : 2 ^ n.toNat < 2 ^ 64 := Nat.pow_lt_pow_right (by decide) small
    refine ⟨small, ?_⟩
    rw [UInt64.toNat_shiftLeft, Nat.mod_eq_of_lt small, Nat.shiftLeft_eq]
    exact (Nat.mod_eq_of_lt (by simpa using fits)).trans (Nat.one_mul _)
  · rw [if_neg below] at defined
    cases defined

/-- An integer in a `uint8_t`. -/
theorem toNat_ofInt8 (x : Int) : ((UInt8.ofInt x).toNat : Int) = x % 2 ^ 8 := by
  have small : (x % 2 ^ 8).toNat < UInt8.size := by
    show _ < 256
    omega
  have value : (UInt8.ofInt x).toNat = (x % 2 ^ 8).toNat := UInt8.toNat_ofNat_of_lt' small
  omega

/-- An integer in a `uint16_t`. -/
theorem toNat_ofInt16 (x : Int) : ((UInt16.ofInt x).toNat : Int) = x % 2 ^ 16 := by
  have small : (x % 2 ^ 16).toNat < UInt16.size := by
    show _ < 65536
    omega
  have value : (UInt16.ofInt x).toNat = (x % 2 ^ 16).toNat := UInt16.toNat_ofNat_of_lt' small
  omega

/-- An integer in a `uint32_t`. -/
theorem toNat_ofInt32 (x : Int) : ((UInt32.ofInt x).toNat : Int) = x % 2 ^ 32 := by
  have small : (x % 2 ^ 32).toNat < UInt32.size := by
    show _ < 4294967296
    omega
  have value : (UInt32.ofInt x).toNat = (x % 2 ^ 32).toNat := UInt32.toNat_ofNat_of_lt' small
  omega

/-- The value an `int` holds after `x` is stored in it. -/
def int32 (x : Int) : Int := x.bmod (2 ^ 32)

@[simp] theorem int32_zero : int32 0 = 0 := by simp [int32]

theorem int32_of_range {x : Int} (low : -2 ^ 31 ≤ x) (high : x < 2 ^ 31) : int32 x = x := by
  exact Int.bmod_eq_of_le (by omega) (by omega)

theorem int32_lt (x : Int) : int32 x < 2 ^ 31 := by
  have high : x.bmod (2 ^ 32) < (2 ^ 32 + 1) / 2 := Int.bmod_lt (by decide)
  exact high

/-- Only the value modulo `2 ^ 32` of an operand counts. -/
theorem int32_int32_add (x y : Int) : int32 (int32 x + y) = int32 (x + y) :=
  Int.bmod_add_bmod

/-- An `int` that is counted up is another one, even where it wraps. -/
theorem int32_succ_ne (x : Int) : int32 (x + 1) ≠ x := by
  intro same
  have residue : (x + 1).bmod (2 ^ 32) % (2 ^ 32 : Nat) = (x + 1) % (2 ^ 32 : Nat) :=
    Int.bmod_emod
  rw [show (x + 1).bmod (2 ^ 32) = x from same] at residue
  omega

end Foundation
