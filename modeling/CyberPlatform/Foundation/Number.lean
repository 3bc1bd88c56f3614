/-
**C numbers.**

* `strtol`, `atoi`, `strtoul` — what the functions of the C library make of a text, where a `long`
  has 64 bits and an `int` has 32.
* `intText` — the text of a number.
* `atoi_intText`, `strtoul_natText` — a number is read back from its text.
-/

import CyberPlatform.Foundation.CString
import Mathlib.Data.Nat.Digits.Defs
import Mathlib.Tactic.IntervalCases

namespace Foundation

/-- `isspace` -/
def isspace (c : Char) : Bool :=
  c = ' ' || c = '\t' || c = '\n' || c = '\x0b' || c = '\x0c' || c = '\r'

/-! ### Digits -/

/-- The value of a digit of a base -/
def digitOf (base : Nat) (c : Char) : Option Nat :=
  if '0' ≤ c ∧ c.toNat - '0'.toNat < base then some (c.toNat - '0'.toNat) else none

/-- The number of the digits at the begin of a text, behind digits that have given `n` -/
def digitsFrom (base n : Nat) : Text → Nat
  | [] => n
  | c :: rest =>
    match digitOf base c with
    | none => n
    | some d => digitsFrom base (base * n + d) rest

/-- The text of a number -/
def natText (n : Nat) : Text := Nat.toDigits 10 n

/-- The text of a number that may be negative -/
def intText (z : Int) : Text := if z < 0 then '-' :: natText z.natAbs else natText z.natAbs

/-! ### Numbers -/

/-- The sign in front of a number, behind blanks -/
def signOf (t : Text) : Bool × Text :=
  match t.dropWhile isspace with
  | '-' :: rest => (true, rest)
  | '+' :: rest => (false, rest)
  | rest => (false, rest)

/-- `strtol` with base 10, for a `long` of 64 bits -/
def strtol (t : Text) : Int :=
  let (negative, digits) := signOf t
  let n : Int := digitsFrom 10 0 digits
  if negative then max (-2 ^ 63) (-n) else min (2 ^ 63 - 1) n

/-- `atoi`: `(int)strtol( t, NULL, 10 )` -/
def atoi (t : Text) : Int := (strtol t).bmod (2 ^ 32)

/-- An `int` that is stored as a `u_int32_t` -/
def toU32 (z : Int) : Nat := (z % 2 ^ 32).toNat

/-- `strtoul` with base 0, for an `unsigned long` of 64 bits and a text without letters -/
def strtoul (t : Text) : Nat :=
  let (negative, digits) := signOf t
  let base := if digits.head? = some '0' then 8 else 10
  let n := digitsFrom base 0 digits
  if 2 ^ 64 ≤ n then 2 ^ 64 - 1 else if negative then (2 ^ 64 - n) % 2 ^ 64 else n

/-! ### Round trips -/

/-- A digit denotes itself. -/
theorem digitOf_digitChar {d : Nat} (digit : d < 10) : digitOf 10 d.digitChar = some d := by
  have all : ∀ d < 10, digitOf 10 d.digitChar = some d := by decide
  exact all d digit

/-- The characters of a number are digits. -/
theorem mem_natText {n : Nat} : ∀ c ∈ natText n, ∃ d < 10, c = d.digitChar := by
  induction n using Nat.strongRecOn with
  | ind n ih =>
    intro c member
    rw [natText, Nat.toDigits_eq_if (by decide)] at member
    split_ifs at member with single
    · exact ⟨n, single, List.mem_singleton.mp member⟩
    · rcases List.mem_append.mp member with front | last
      · exact ih (n / 10) (by omega) c front
      · exact ⟨n % 10, by omega, List.mem_singleton.mp last⟩

theorem natText_ne_nil {n : Nat} : natText n ≠ [] := Nat.toDigits_ne_nil

theorem digitsFrom_append (front back : Text) (digits : ∀ c ∈ front, ∃ d < 10, c = d.digitChar)
    (n : Nat) : digitsFrom 10 n (front ++ back) = digitsFrom 10 (digitsFrom 10 n front) back := by
  induction front generalizing n with
  | nil => rfl
  | cons c front ih =>
    obtain ⟨⟨d, digit, rfl⟩, rest⟩ := List.forall_mem_cons.mp digits
    rw [List.cons_append, digitsFrom, digitsFrom, digitOf_digitChar digit]
    exact ih rest _

/-- The digits of a number denote it. -/
theorem digitsFrom_natText (n : Nat) : digitsFrom 10 0 (natText n) = n := by
  induction n using Nat.strongRecOn with
  | ind n ih =>
    have digits := mem_natText (n := n / 10)
    rw [natText, Nat.toDigits_eq_if (by decide)]
    by_cases single : n < 10
    · rw [if_pos single, digitsFrom, digitOf_digitChar single]
      simp [digitsFrom]
    · rw [if_neg single]
      show digitsFrom 10 0 (natText (n / 10) ++ _) = _
      rw [digitsFrom_append _ _ digits, ih (n / 10) (by omega), digitsFrom,
        digitOf_digitChar (by omega)]
      show 10 * (n / 10) + n % 10 = n
      omega

/-- A digit is neither a blank nor a sign. -/
theorem digitChar_plain {d : Nat} (digit : d < 10) :
    isspace d.digitChar = false ∧ d.digitChar ≠ '-' ∧ d.digitChar ≠ '+' := by
  have all : ∀ d < 10, isspace d.digitChar = false ∧ d.digitChar ≠ '-' ∧ d.digitChar ≠ '+' := by
    decide
  exact all d digit

/-- There is no sign in front of the digits of a number. -/
theorem signOf_natText (n : Nat) : signOf (natText n) = (false, natText n) := by
  obtain ⟨c, rest, shape⟩ := List.exists_cons_of_ne_nil (natText_ne_nil (n := n))
  obtain ⟨d, digit, rfl⟩ := mem_natText c (shape ▸ List.mem_cons_self)
  obtain ⟨blank, minus, plus⟩ := digitChar_plain digit
  rw [shape, signOf, List.dropWhile_cons_of_neg (by rw [blank]; exact Bool.false_ne_true)]
  split
  next same => exact absurd (List.cons.inj same).1 minus
  next same => exact absurd (List.cons.inj same).1 plus
  next => rfl

/-- **A number is read back from its text.** -/
theorem atoi_intText {z : Int} (above : -2 ^ 31 ≤ z) (below : z < 2 ^ 31) :
    atoi (intText z) = z := by
  have same : strtol (intText z) = z := by
    rw [intText]
    split_ifs with negative
    · show max (-2 ^ 63) (-((digitsFrom 10 0 (natText z.natAbs) : Nat) : Int)) = z
      rw [digitsFrom_natText]
      omega
    · rw [strtol, signOf_natText]
      show min (2 ^ 63 - 1) ((digitsFrom 10 0 (natText z.natAbs) : Nat) : Int) = z
      rw [digitsFrom_natText]
      omega
  rw [atoi, same, Int.bmod_def]
  omega

/-- A number without a sign is read back as it is stored. -/
theorem toU32_atoi_natText {n : Nat} (below : n < 2 ^ 31) : toU32 (atoi (natText n)) = n := by
  have same : atoi (natText n) = n := atoi_intText (z := (n : Int)) (by omega) (by omega)
  rw [same, toU32]
  omega

/-- The first digit of a number is zero for zero only. -/
theorem head?_natText {n : Nat} (positive : 0 < n) : (natText n).head? ≠ some '0' := by
  induction n using Nat.strongRecOn with
  | ind n ih =>
    rw [natText, Nat.toDigits_eq_if (by decide)]
    split_ifs with single
    · have all : ∀ n < 10, 0 < n → some n.digitChar ≠ some '0' := by decide
      exact all n single positive
    · show (natText (n / 10) ++ _).head? ≠ _
      rw [List.head?_append_of_ne_nil _ natText_ne_nil]
      exact ih (n / 10) (by omega) (by omega)

/-- **A number without a sign** is read back from its text. -/
theorem strtoul_natText {n : Nat} (below : n < 2 ^ 64) : strtoul (natText n) = n := by
  rcases Nat.eq_zero_or_pos n with rfl | positive
  · decide
  · rw [strtoul, signOf_natText]
    dsimp only
    rw [if_neg (head?_natText positive), digitsFrom_natText, if_neg (by omega)]
    rfl

end Foundation
