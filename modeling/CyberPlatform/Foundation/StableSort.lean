/-
**Stable sorting, one insertion and one removal at a time.**

`StableSort le ins s` says that `s` is the stable sort of the list `ins`: nondecreasing under the
total preorder `le`, with the same elements, and with any two equivalent ones in the order of
`ins`. It starts empty (`StableSort.nil`), survives the insertion of a new last element of `ins`
behind everything not after it (`StableSort.insert`), and the removal of an element
(`StableSort.erase`).
-/

import Mathlib.Data.List.TakeWhile
import Mathlib.Data.List.Nodup

namespace Foundation

/-- Any two elements compare, and comparisons compose. -/
structure TotalPreorder {α : Type*} (le : α → α → Prop) : Prop where
  total : ∀ a b, le a b ∨ le b a
  trans : ∀ a b c, le a b → le b c → le a c

/-- **`s` is the stable sort of `ins`.** -/
structure StableSort {α : Type*} (le : α → α → Prop) (ins s : List α) : Prop where
  sorted : s.Pairwise le
  perm : s.Perm ins
  stable : ∀ a b, le a b → le b a → List.Sublist [a, b] ins → List.Sublist [a, b] s

namespace StableSort

variable {α : Type*} {le : α → α → Prop} {ins s : List α}

theorem nil : StableSort le [] ([] : List α) where
  sorted := List.Pairwise.nil
  perm := List.Perm.refl _
  stable _ _ _ _ inside := inside

/-- A pair in order in a list with a new last element: both are old, or the second is the new
one. -/
theorem pair_sublist_concat {a b c : α} (pair : List.Sublist [b, c] (ins ++ [a])) :
    List.Sublist [b, c] ins ∨ b ∈ ins ∧ c = a := by
  obtain ⟨first, last, split, old, new⟩ := List.sublist_append_iff.mp pair
  match first, split with
  | [], split =>
    rw [List.nil_append] at split
    have short := new.length_le
    rw [← split] at short
    simp at short
  | [x], split =>
    obtain ⟨rfl, rfl⟩ := List.cons.inj split
    exact .inr ⟨List.singleton_sublist.mp old, by simpa using new⟩
  | x :: y :: rest, split =>
    simp only [List.cons_append, List.cons.injEq] at split
    obtain ⟨rfl, rfl, ends⟩ := split
    rw [(List.append_eq_nil_iff.mp ends.symm).1] at old
    exact .inl old

section Insert

variable [DecidableRel le]

/-- The elements that a new one goes behind. -/
abbrev before (le : α → α → Prop) [DecidableRel le] (a : α) (s : List α) : List α :=
  s.takeWhile fun x => decide (le x a)

/-- The elements that a new one goes in front of. -/
abbrev behind (le : α → α → Prop) [DecidableRel le] (a : α) (s : List α) : List α :=
  s.dropWhile fun x => decide (le x a)

/-- In a sorted list a new element goes in front of nothing that is not after it. -/
theorem le_of_mem_behind (order : TotalPreorder le) (sorted : s.Pairwise le) (a : α) {x : α}
    (inside : x ∈ behind le a s) : ¬ le x a ∧ le a x := by
  cases shape : behind le a s with
  | nil => rw [shape] at inside; cases inside
  | cons c t =>
    have first : ¬ le c a := by
      have test := List.head?_dropWhile_not (fun x => decide (le x a)) s
      rw [show s.dropWhile (fun x => decide (le x a)) = c :: t from shape] at test
      simpa using test
    have above : le a c := (order.total a c).resolve_right first
    have sortedBehind : (c :: t).Pairwise le := shape ▸ sorted.sublist (List.dropWhile_sublist _)
    rw [shape] at inside
    rcases List.mem_cons.mp inside with rfl | inside
    · exact ⟨first, above⟩
    · have step : le c x := List.rel_of_pairwise_cons sortedBehind inside
      exact ⟨fun low => first (order.trans c x a step low), order.trans a c x above step⟩

/-- **Insertion**: the new element goes behind everything that is not after it. -/
theorem insert (order : TotalPreorder le) (sort : StableSort le ins s) (a : α) :
    StableSort le (ins ++ [a]) (before le a s ++ a :: behind le a s) := by
  have whole : before le a s ++ behind le a s = s := List.takeWhile_append_dropWhile
  have low : ∀ x ∈ before le a s, le x a := fun x inside => by
    simpa using List.mem_takeWhile_imp inside
  have high := fun x => le_of_mem_behind order sort.sorted a (x := x)
  have parts := sort.sorted
  rw [← whole, List.pairwise_append] at parts
  constructor
  · rw [List.pairwise_append, List.pairwise_cons]
    refine ⟨parts.1, ⟨fun x inside => (high x inside).2, parts.2.1⟩, ?_⟩
    intro x left y right
    rcases List.mem_cons.mp right with rfl | right
    · exact low x left
    · exact parts.2.2 x left y right
  · have moved : (before le a s ++ a :: behind le a s).Perm (a :: s) := by
      conv_rhs => rw [← whole]
      exact List.perm_middle
    exact moved.trans ((sort.perm.cons a).trans (List.perm_append_singleton a ins).symm)
  · intro b c up down pair
    have grown : List.Sublist s (before le a s ++ a :: behind le a s) := by
      conv_lhs => rw [← whole]
      exact List.Sublist.append_left (List.sublist_cons_self _ _) _
    rcases pair_sublist_concat pair with old | ⟨old, rfl⟩
    · exact (sort.stable b c up down old).trans grown
    · have inside : b ∈ before le c s ++ behind le c s := by
        rw [whole]
        exact sort.perm.mem_iff.mpr old
      have left : b ∈ before le c s :=
        (List.mem_append.mp inside).resolve_right fun right => (high b right).1 up
      exact (List.singleton_sublist.mpr left).append (by simp)

end Insert

/-- **Removal.** -/
theorem erase [DecidableEq α] (sort : StableSort le ins s) (nodup : s.Nodup) (a : α) :
    StableSort le (ins.erase a) (s.erase a) where
  sorted := sort.sorted.sublist List.erase_sublist
  perm := sort.perm.erase a
  stable b c up down pair := by
    have nodupIns : ins.Nodup := sort.perm.nodup_iff.mp nodup
    rw [nodupIns.erase_eq_filter] at pair
    rw [nodup.erase_eq_filter]
    have kept : [b, c].filter (· != a) = [b, c] := by
      rw [List.filter_eq_self]
      exact fun x inside => (List.mem_filter.mp (pair.subset inside)).2
    rw [← kept]
    exact (sort.stable b c up down (pair.trans List.filter_sublist)).filter _

end StableSort

end Foundation
