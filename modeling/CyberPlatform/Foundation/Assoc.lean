/-
**Linked lists of allocated objects.**

A list of objects with their addresses: an object is allocated as long as it is in the list.

* `find_put`, `find_drop` — what is at an address behind a store, and behind a removal.
* `find_of_mem` — an object of the list is found at its address, if no two have the same.
-/

import Mathlib.Data.List.Basic

namespace Foundation.Assoc

section Assoc

variable {κ α : Type} [DecidableEq κ]

/-- The object at an address. -/
def find (k : κ) : List (κ × α) → Option α
  | [] => none
  | entry :: rest => if entry.1 = k then some entry.2 else find k rest

/-- A store at an address. -/
def put (k : κ) (a : α) (entries : List (κ × α)) : List (κ × α) :=
  entries.map fun entry => if entry.1 = k then (k, a) else entry

/-- The list without the object at an address. -/
def drop (k : κ) (entries : List (κ × α)) : List (κ × α) :=
  entries.filter fun entry => entry.1 ≠ k

variable {entries : List (κ × α)} {k k' : κ} {a : α}

theorem find_cons (entry : κ × α) :
    find k (entry :: entries) = if entry.1 = k then some entry.2 else find k entries := rfl

/-- **What is at an address behind a store.** -/
theorem find_put : find k' (put k a entries) =
    if k' = k then (find k entries).map fun _ => a else find k' entries := by
  induction entries with
  | nil => simp [put, find]
  | cons entry rest ih =>
    rw [put, List.map_cons, find_cons]
    rw [put] at ih
    by_cases here : entry.1 = k
    · by_cases same : k' = k
      · simp [here, same, find_cons]
      · rw [if_pos here, if_neg (Ne.symm same), ih, if_neg same, if_neg same, find_cons,
          if_neg fun equal => same (equal.symm.trans here)]
    · rw [if_neg here, find_cons, ih]
      by_cases same : k' = k
      · subst same
        simp only [if_neg here, if_true, find_cons]
      · rw [if_neg same, if_neg same, find_cons]

/-- **What is at an address behind a removal.** -/
theorem find_drop : find k' (drop k entries) = if k' = k then none else find k' entries := by
  induction entries with
  | nil => simp [drop, find]
  | cons entry rest ih =>
    rw [drop] at ih ⊢
    by_cases here : entry.1 = k
    · rw [List.filter_cons_of_neg (by simpa using here), ih, find_cons]
      by_cases same : k' = k
      · rw [if_pos same, if_pos same]
      · rw [if_neg same, if_neg same, if_neg fun equal => same (equal.symm.trans here)]
    · rw [List.filter_cons_of_pos (by simpa using here), find_cons, ih, find_cons]
      by_cases same : k' = k
      · subst same
        rw [if_neg here, if_pos rfl, if_pos rfl]
      · rw [if_neg same, if_neg same]

/-- A store moves no object. -/
@[simp] theorem keys_put : (put k a entries).map Prod.fst = entries.map Prod.fst := by
  rw [put, List.map_map]
  refine List.map_congr_left fun entry _ => ?_
  by_cases here : entry.1 = k
  · simp [here]
  · simp [here]

theorem keys_drop : (drop k entries).map Prod.fst = (entries.map Prod.fst).filter (· ≠ k) := by
  rw [drop, List.filter_map]
  rfl

theorem mem_of_find (found : find k entries = some a) : (k, a) ∈ entries := by
  induction entries with
  | nil => cases found
  | cons entry rest ih =>
    rw [find_cons] at found
    split_ifs at found with here
    · obtain rfl := Option.some.inj found
      rw [← here]
      exact List.mem_cons_self
    · exact List.mem_cons_of_mem entry (ih found)

/-- **An object of the list is found**, if no two have the same address. -/
theorem find_of_mem (nodup : (entries.map Prod.fst).Nodup) (member : (k, a) ∈ entries) :
    find k entries = some a := by
  induction entries with
  | nil => cases member
  | cons entry rest ih =>
    obtain ⟨fresh, nodup⟩ := List.nodup_cons.mp nodup
    rw [find_cons]
    rcases List.mem_cons.mp member with rfl | behind
    · exact if_pos rfl
    · have other : entry.1 ≠ k := fun same =>
        fresh (List.mem_map.mpr ⟨(k, a), behind, same.symm⟩)
      rw [if_neg other]
      exact ih nodup behind

end Assoc

end Foundation.Assoc
