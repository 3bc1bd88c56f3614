/-
**Logs in which every entry is backed by those in front of it.**

* `Backed` — what a log has to show in front of each of its entries.
* `Backed.append`, `Backed.mono` — how it grows.
-/

import Mathlib.Data.List.Basic

namespace Foundation

section History

variable {ε : Type} {backs backs' : List ε → ε → Prop} {log : List ε}

/-- **Every entry is backed** by the part of the log in front of it. -/
def Backed (backs : List ε → ε → Prop) (log : List ε) : Prop :=
  ∀ before e after, log = before ++ e :: after → backs before e

theorem backed_nil : Backed backs [] := fun before _ _ split =>
  absurd split.symm (List.append_ne_nil_of_right_ne_nil before (List.cons_ne_nil _ _))

theorem Backed.mono (backed : Backed backs log)
    (weaker : ∀ before e, backs before e → backs' before e) : Backed backs' log :=
  fun before e after split => weaker before e (backed before e after split)

/-- An entry behind a log. -/
theorem Backed.concat (backed : Backed backs log) {e : ε} (last : backs log e) :
    Backed backs (log ++ [e]) := by
  intro before e' after split
  rcases List.eq_nil_or_concat after with rfl | ⟨rest, e'', rfl⟩
  · obtain ⟨rfl, same⟩ := List.append_inj' split rfl
    obtain rfl := List.singleton_inj.mp same
    exact last
  · rw [List.concat_eq_append, ← List.cons_append, ← List.append_assoc] at split
    exact backed before e' rest (List.append_inj' split rfl).1

/-- Some entries behind a log that need no backing. -/
theorem Backed.append (backed : Backed backs log) {more : List ε}
    (free : ∀ e ∈ more, ∀ before, backs before e) : Backed backs (log ++ more) := by
  induction more generalizing log with
  | nil => exact (List.append_nil log).symm ▸ backed
  | cons e more ih =>
    obtain ⟨first, rest⟩ := List.forall_mem_cons.mp free
    rw [List.append_cons]
    exact ih (backed.concat (first log)) rest

end History

end Foundation
