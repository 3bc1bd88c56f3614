/-
**The arguments of `rte_eal_init`.**

Both programs hand a vector of strings to `rte_eal_init`. What they run on is the hexadecimal mask
behind `-c`: `coreMaskOf` is the number that it denotes.
-/

import CyberPlatform.Foundation.Hex

namespace CyberPlatform

open Foundation

/-- The argument behind a flag. -/
def argAfter (flag : String) (argv : List (Option String)) : Option String :=
  (argv.dropWhile (· ≠ some flag)).tail.head?.join

/-- The set of cores to run on, as a number: core `k` is the bit `k`. -/
def coreMaskOf (argv : List (Option String)) : Option Nat := (argAfter "-c" argv).bind hexValue

/-- The mask of a vector that has it behind the name of the program. -/
theorem coreMaskOf_hexText {name : String} (other : name ≠ "-c") (mask : Nat)
    (rest : List (Option String)) :
    coreMaskOf (some name :: some "-c" :: some (hexText mask) :: rest) = some mask := by
  have found : argAfter "-c" (some name :: some "-c" :: some (hexText mask) :: rest) =
      some (hexText mask) := by
    unfold argAfter
    rw [List.dropWhile_cons_of_pos (by simpa using other), List.dropWhile_cons_of_neg (by simp)]
    rfl
  rw [coreMaskOf, found, Option.bind_some, hexValue_hexText]

end CyberPlatform
