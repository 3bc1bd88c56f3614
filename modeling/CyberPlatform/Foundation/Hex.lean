/-
**Hexadecimal texts.**

`hexText n` is the text that `"0x%x"` makes of a number, in small letters and without leading
zeros, and `hexValue` is the number that a text of this form denotes. `hexValue_hexText` says that
the one undoes the other.
-/

import Mathlib.Data.Option.Basic

namespace Foundation

/-- The text of a number. -/
def hexText (n : Nat) : String := String.ofList ('0' :: 'x' :: Nat.toDigits 16 n)

/-- The value of a digit. -/
def hexDigit (c : Char) : Option Nat :=
  if '0' ≤ c ∧ c ≤ '9' then some (c.toNat - '0'.toNat)
  else if 'a' ≤ c ∧ c ≤ 'f' then some (c.toNat - 'a'.toNat + 10)
  else none

/-- The number that some digits denote, behind digits that denote `n`. -/
def hexDigits (n : Nat) : List Char → Option Nat
  | [] => some n
  | c :: cs => (hexDigit c).bind fun d => hexDigits (16 * n + d) cs

/-- The number that a text denotes. -/
def hexValue (text : String) : Option Nat :=
  match text.toList with
  | '0' :: 'x' :: c :: cs => hexDigits 0 (c :: cs)
  | _ => none

theorem hexDigits_append (front back : List Char) (n : Nat) :
    hexDigits n (front ++ back) = (hexDigits n front).bind fun k => hexDigits k back := by
  induction front generalizing n with
  | nil => rfl
  | cons c front ih =>
    rw [List.cons_append, hexDigits, hexDigits]
    cases hexDigit c with
    | none => rfl
    | some d => exact ih (16 * n + d)

/-- A digit denotes itself. -/
theorem hexDigit_digitChar {d : Nat} (digit : d < 16) : hexDigit d.digitChar = some d := by
  have all : ∀ d < 16, hexDigit d.digitChar = some d := by decide
  exact all d digit

/-- The digits of a number denote it. -/
theorem hexDigits_toDigits (n : Nat) : hexDigits 0 (Nat.toDigits 16 n) = some n := by
  induction n using Nat.strongRecOn with
  | ind n ih =>
    rw [Nat.toDigits_eq_if (by decide)]
    by_cases single : n < 16
    · rw [if_pos single, hexDigits, hexDigit_digitChar single]
      simp [hexDigits]
    · rw [if_neg single, hexDigits_append, ih (n / 16) (by omega), Option.bind_some, hexDigits,
        hexDigit_digitChar (by omega), Option.bind_some, hexDigits, Nat.div_add_mod]

/-- **A text denotes the number it is of.** -/
theorem hexValue_hexText (n : Nat) : hexValue (hexText n) = some n := by
  have digits := hexDigits_toDigits n
  unfold hexValue hexText
  rw [String.toList_ofList]
  obtain ⟨c, cs, shape⟩ := List.exists_cons_of_ne_nil (Nat.toDigits_ne_nil (n := n) (b := 16))
  rw [shape] at digits ⊢
  exact digits

end Foundation
