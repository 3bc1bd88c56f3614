/-
**Fixed arrays whose accesses are checked.**

`fetch` and `store` are the accesses `a[i]` and `a[i] = x` of an array of `n` cells: beyond the
array they are `Trap.outOfBounds`. `writeFront a xs` is the array `a` with its front overwritten by
`xs`, which is how a program fills an array from index 0 on.

* `store_writeFront` — storing at the end of the written front extends the front.
* `modify_behind`, `modify_last`, `modify_front` — the same for the fields of a cell.
* `fetch_writeFront`, `fetch_writeFront_behind` — what is read in the front and behind it.
* `take_writeFront` — the written front is what was written.
-/

import CyberPlatform.Foundation.Trap
import Mathlib.Data.List.GetD

namespace Foundation

variable {α : Type} {n : Nat}

/-- `a[i]` -/
def fetch (a : Vector α n) (i : Nat) : Except Trap α :=
  if inside : i < n then .ok a[i] else .error .outOfBounds

/-- `a[i] = x` -/
def store (a : Vector α n) (i : Nat) (x : α) : Except Trap (Vector α n) :=
  if inside : i < n then .ok (a.set i x) else .error .outOfBounds

/-- `a[i].field = …` -/
def modify (a : Vector α n) (i : Nat) (f : α → α) : Except Trap (Vector α n) := do
  store a i (f (← fetch a i))

/-- The array with its front overwritten. -/
def writeFront (a : Vector α n) (xs : List α) : Vector α n :=
  Vector.ofFn fun i => xs.getD i a[i]

variable (a : Vector α n) (xs : List α)

theorem fetch_inside {i : Nat} (inside : i < n) : fetch a i = .ok a[i] := by
  rw [fetch, dif_pos inside]

theorem fetch_outside {i : Nat} (outside : n ≤ i) : fetch a i = .error .outOfBounds := by
  rw [fetch, dif_neg (by omega)]

theorem writeFront_getElem {i : Nat} (inside : i < n) :
    (writeFront a xs)[i] = xs.getD i a[i] := by
  rw [writeFront, Vector.getElem_ofFn]
  rfl

@[simp] theorem writeFront_nil : writeFront a [] = a := by
  apply Vector.ext
  intro i inside
  rw [writeFront_getElem, List.getD_nil]

/-- **Storing at the end of the front extends it.** -/
theorem store_writeFront (room : xs.length < n) (x : α) :
    store (writeFront a xs) xs.length x = .ok (writeFront a (xs ++ [x])) := by
  rw [store, dif_pos room]
  refine congrArg Except.ok (Vector.ext fun i inside => ?_)
  rw [Vector.getElem_set, writeFront_getElem, writeFront_getElem]
  rcases lt_trichotomy i xs.length with front | rfl | behind
  · rw [if_neg (by omega), List.getD_append _ _ _ _ front]
  · rw [if_pos rfl, List.getD_append_right _ _ _ _ le_rfl, Nat.sub_self]
    rfl
  · rw [if_neg (by omega), List.getD_eq_default _ _ (by omega),
      List.getD_eq_default _ _ (by simp; omega)]

theorem fetch_writeFront {i : Nat} (front : i < xs.length) (room : xs.length ≤ n) :
    fetch (writeFront a xs) i = .ok xs[i] := by
  rw [fetch_inside _ (by omega), writeFront_getElem, List.getD_eq_getElem _ _ front]

theorem fetch_writeFront_behind {i : Nat} (behind : xs.length ≤ i) (inside : i < n) :
    fetch (writeFront a xs) i = .ok a[i] := by
  rw [fetch_inside _ inside, writeFront_getElem, List.getD_eq_default _ _ behind]

/-- A change of the first cell behind the front extends the front. -/
theorem modify_behind (room : xs.length < n) (f : α → α) :
    modify (writeFront a xs) xs.length f = .ok (writeFront a (xs ++ [f a[xs.length]])) := by
  rw [modify, fetch_writeFront_behind a xs le_rfl room, ok_bind, store_writeFront a xs room]

/-- A change of a cell of the front. -/
theorem modify_front {i : Nat} (front : i < xs.length) (room : xs.length ≤ n) (f : α → α) :
    modify (writeFront a xs) i f = .ok (writeFront a (xs.modify i f)) := by
  rw [modify, fetch_writeFront a xs front room, ok_bind, store, dif_pos (by omega)]
  refine congrArg Except.ok (Vector.ext fun j bound => ?_)
  rw [Vector.getElem_set, writeFront_getElem, writeFront_getElem, List.getD_eq_getElem?_getD,
    List.getD_eq_getElem?_getD, List.getElem?_modify]
  by_cases same : i = j
  · subst same
    rw [if_pos rfl, List.getElem?_eq_getElem front]
    simp
  · rw [if_neg same]
    simp [same]

/-- A change of the last cell of the front. -/
theorem modify_last (room : xs.length < n) (x : α) (f : α → α) :
    modify (writeFront a (xs ++ [x])) xs.length f = .ok (writeFront a (xs ++ [f x])) := by
  have last : (xs ++ [x]).modify xs.length f = xs ++ [f x] := by
    rw [List.modify_eq_take_drop, List.take_left, List.drop_left]
    rfl
  have longer : (xs ++ [x]).length = xs.length + 1 := List.length_append
  rw [modify_front _ _ (by omega) (by omega), last]

/-- The front may be taken one cell further. -/
theorem writeFront_concat (room : xs.length < n) :
    writeFront a (xs ++ [a[xs.length]]) = writeFront a xs := by
  have kept := store_writeFront a xs room a[xs.length]
  rw [store, dif_pos room] at kept
  rw [← Except.ok.inj kept]
  apply Vector.ext
  intro i inside
  rw [Vector.getElem_set]
  by_cases same : xs.length = i
  · subst same
    rw [if_pos rfl, writeFront_getElem, List.getD_eq_default _ _ le_rfl]
  · rw [if_neg same]

/-- A change of a cell of the array. -/
theorem modify_inside {i : Nat} (inside : i < n) (f : α → α) :
    modify a i f = .ok (a.set i (f a[i])) := by
  rw [modify, fetch, dif_pos inside, ok_bind, store, dif_pos inside]

theorem modify_outside {i : Nat} (outside : n ≤ i) (f : α → α) :
    modify a i f = .error .outOfBounds := by
  rw [modify, fetch_outside a outside]
  rfl

/-- The beginning of the front is what was written there. -/
theorem take_writeFront_append (ys : List α) (room : (xs ++ ys).length ≤ n) :
    (writeFront a (xs ++ ys)).toList.take xs.length = xs := by
  rw [List.length_append] at room
  apply List.ext_getElem
  · rw [List.length_take, Vector.length_toList]
    omega
  · intro i _ front
    rw [List.getElem_take, Vector.getElem_toList, writeFront_getElem _ _ (by omega),
      List.getD_append _ _ _ _ front, List.getD_eq_getElem _ _ front]

/-- The front is what was written. -/
theorem take_writeFront (room : xs.length ≤ n) :
    (writeFront a xs).toList.take xs.length = xs := by
  have whole := take_writeFront_append a xs [] (by rwa [List.append_nil])
  rwa [List.append_nil] at whole

/-- An array that is overwritten as a whole. -/
theorem writeFront_toList (whole : xs.length = n) : (writeFront a xs).toList = xs := by
  have front := take_writeFront a xs (Nat.le_of_eq whole)
  rwa [List.take_of_length_le (by rw [Vector.length_toList, whole])] at front

end Foundation
