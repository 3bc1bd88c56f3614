/-
**C strings.**

A C string is the list of its characters in front of the terminator, a byte being the character of
its code.

* `strcmp_neg`, `strcmp_eq_zero`, `strcmp_pos` — `strcmp` is the lexicographic order.
* `strncmp_length` — a comparison of as many characters as one string has tells whether it is a
  prefix of the other.
* `IsPrefix.lt_iff_length` — the prefixes of a string are in the order of their lengths.
-/

import Mathlib.Data.Char
import Mathlib.Data.List.Lex

namespace Foundation

/-- The characters of a C string. -/
abbrev Text := List Char

/-- `strcmp`: the difference of the first characters that differ -/
def strcmp : Text → Text → Int
  | [], [] => 0
  | [], _ :: _ => -1
  | _ :: _, [] => 1
  | c :: s, d :: t => if c = d then strcmp s t else (c.toNat : Int) - d.toNat

/-- `strncmp` -/
def strncmp (s t : Text) (n : Nat) : Int := strcmp (s.take n) (t.take n)

theorem strcmp_neg : ∀ {s t : Text}, strcmp s t < 0 ↔ s < t
  | [], [] => by simp [strcmp]
  | [], _ :: _ => by simp [strcmp]
  | _ :: _, [] => by simp [strcmp]
  | c :: s, d :: t => by
    rw [strcmp, List.cons_lt_cons_iff]
    by_cases same : c = d
    · subst same
      rw [if_pos rfl, strcmp_neg]
      simp
    · have order : c < d ↔ c.toNat < d.toNat := Iff.rfl
      rw [if_neg same, order]
      simp only [same, false_and, or_false]
      omega

theorem strcmp_eq_zero : ∀ {s t : Text}, strcmp s t = 0 ↔ s = t
  | [], [] => by simp [strcmp]
  | [], _ :: _ => by simp [strcmp]
  | _ :: _, [] => by simp [strcmp]
  | c :: s, d :: t => by
    rw [strcmp, List.cons.injEq]
    by_cases same : c = d
    · rw [if_pos same, strcmp_eq_zero]
      simp [same]
    · have differ : c.toNat ≠ d.toNat := fun equal => same (Char.toNat_inj.mp equal)
      rw [if_neg same]
      simp only [same, false_and, iff_false]
      omega

theorem strcmp_pos {s t : Text} : 0 < strcmp s t ↔ t < s := by
  have below := strcmp_neg (s := s) (t := t)
  have equal := strcmp_eq_zero (s := s) (t := t)
  constructor
  · intro above
    refine lt_of_le_of_ne (not_lt.mp fun before => ?_) fun same => ?_
    · have := below.mpr before
      omega
    · have := equal.mpr same.symm
      omega
  · intro before
    have notBelow : ¬ strcmp s t < 0 := fun less => lt_asymm before (below.mp less)
    have notEqual : strcmp s t ≠ 0 := fun same => before.ne (equal.mp same).symm
    omega

/-- **A comparison over the length of one string** tells whether it is a prefix of the other. -/
theorem strncmp_length {s t : Text} : strncmp s t s.length = 0 ↔ s <+: t := by
  rw [strncmp, strcmp_eq_zero, List.take_length, List.prefix_iff_eq_take]

/-! ### Prefixes -/

/-- A proper prefix comes first. -/
theorem lt_append_cons (s : Text) (c : Char) (t : Text) : s < s ++ c :: t := by
  induction s with
  | nil => exact List.nil_lt_cons c t
  | cons d s ih => exact List.cons_lt_cons_iff.mpr (.inr ⟨rfl, ih⟩)

/-- **The prefixes of a string are in the order of their lengths.** -/
theorem IsPrefix.lt_iff_length {s t u : Text} (first : s <+: u) (second : t <+: u) :
    s < t ↔ s.length < t.length := by
  have shorter : ∀ {s t : Text}, s <+: u → t <+: u → s.length < t.length → s < t := by
    intro s t first second less
    obtain ⟨rest, rfl⟩ := List.prefix_of_prefix_length_le first second less.le
    cases rest with
    | nil => simp at less
    | cons c rest => exact lt_append_cons s c rest
  constructor
  · intro before
    by_contra notShorter
    rcases (not_lt.mp notShorter).lt_or_eq with less | same
    · exact lt_asymm before (shorter second first less)
    · have equal : s = t :=
        (List.prefix_of_prefix_length_le first second same.ge).eq_of_length same.symm
      exact before.ne equal
  · exact shorter first second

end Foundation
