/-
**Chains in the order of a key.**

* `insertNew` — the insertion of a new element, refused where its key is taken.
* `insertNew_eq_none`, `insertNew_perm`, `insertNew_sorted` — what it does to a strictly sorted
  chain.
* `scan` — one walk that looks for an element and keeps the last one that would also do
  (`scan_found`, `scan_last`).
-/

import Mathlib.Data.List.Basic
import Mathlib.Data.List.Perm.Basic
import Mathlib.Order.Lattice

namespace Foundation

section Insertion

variable {α κ : Type} [LinearOrder κ] (key : α → κ)

/-- The keys of the chain ascend strictly. -/
def Ascends (chain : List α) : Prop := chain.Pairwise fun a b => key a < key b

/-- The insertion of a new element, refused where its key is taken. -/
def insertNew (new : α) : List α → Option (List α)
  | [] => some [new]
  | a :: rest =>
    if key new = key a then none
    else if key a < key new then (insertNew new rest).map (a :: ·)
    else some (new :: a :: rest)

variable {key} {new : α} {chain chain' : List α}

/-- **An insertion is refused exactly where the key is taken.** -/
theorem insertNew_eq_none (ascends : Ascends key chain) :
    insertNew key new chain = none ↔ ∃ a ∈ chain, key a = key new := by
  induction chain with
  | nil => simp [insertNew]
  | cons a rest ih =>
    obtain ⟨above, ascends⟩ := List.pairwise_cons.mp ascends
    rw [insertNew]
    by_cases same : key new = key a
    · simp [same]
    by_cases after : key a < key new
    · rw [if_neg same, if_pos after, Option.map_eq_none_iff, ih ascends]
      simp [Ne.symm same]
    · rw [if_neg same, if_neg after]
      have before : key new < key a := lt_of_le_of_ne (not_lt.mp after) same
      have free : ∀ b ∈ rest, key b ≠ key new := fun b member =>
        (before.trans (above b member)).ne'
      simpa [Ne.symm same] using free

/-- **An insertion adds the new element.** -/
theorem insertNew_perm (inserted : insertNew key new chain = some chain') :
    chain'.Perm (new :: chain) := by
  induction chain generalizing chain' with
  | nil =>
    obtain rfl := Option.some.inj inserted
    exact .refl _
  | cons a rest ih =>
    rw [insertNew] at inserted
    split_ifs at inserted with same after
    · obtain ⟨tail, within, rfl⟩ := Option.map_eq_some_iff.mp inserted
      exact ((ih within).cons a).trans (.swap new a rest)
    · obtain rfl := Option.some.inj inserted
      exact .refl _

/-- **An insertion keeps the order.** -/
theorem insertNew_sorted (ascends : Ascends key chain)
    (inserted : insertNew key new chain = some chain') : Ascends key chain' := by
  induction chain generalizing chain' with
  | nil =>
    obtain rfl := Option.some.inj inserted
    exact List.pairwise_singleton _ _
  | cons a rest ih =>
    obtain ⟨above, sorted⟩ := List.pairwise_cons.mp ascends
    rw [insertNew] at inserted
    split_ifs at inserted with same after
    · obtain ⟨tail, within, rfl⟩ := Option.map_eq_some_iff.mp inserted
      refine List.pairwise_cons.mpr ⟨fun b member => ?_, ih sorted within⟩
      rcases List.mem_cons.mp ((insertNew_perm within).mem_iff.mp member) with rfl | member
      · exact after
      · exact above b member
    · obtain rfl := Option.some.inj inserted
      have before : key new < key a := lt_of_le_of_ne (not_lt.mp after) same
      refine List.pairwise_cons.mpr ⟨fun b member => ?_, ascends⟩
      rcases List.mem_cons.mp member with rfl | member
      · exact before
      · exact before.trans (above b member)

/-- Two elements of one key are the same. -/
theorem Ascends.unique (ascends : Ascends key chain) {a b : α} (first : a ∈ chain)
    (second : b ∈ chain) (same : key a = key b) : a = b := by
  induction chain with
  | nil => cases first
  | cons c rest ih =>
    obtain ⟨above, ascends⟩ := List.pairwise_cons.mp ascends
    rcases List.mem_cons.mp first with rfl | behind
    · rcases List.mem_cons.mp second with rfl | behind'
      · rfl
      · exact absurd same (above b behind').ne
    · rcases List.mem_cons.mp second with rfl | behind'
      · exact absurd same (above a behind).ne'
      · exact ih ascends behind behind'

end Insertion

/-! ### A walk with a second choice -/

section Scan

variable {α : Type} (hit also : α → Bool)

/-- The first element that is hit; behind a walk without a hit, the last one that would also do. -/
def scan : Option α → List α → Option α ⊕ α
  | second, [] => .inl second
  | second, a :: rest =>
    if hit a then .inr a else if also a then scan (some a) rest else scan second rest

variable {hit also} {second : Option α} {chain : List α}

/-- **A walk that hits.** -/
theorem scan_found {a : α} (found : scan hit also second chain = .inr a) : a ∈ chain ∧ hit a := by
  induction chain generalizing second with
  | nil => cases found
  | cons b rest ih =>
    rw [scan] at found
    split_ifs at found with hits
    · obtain rfl := Sum.inr.inj found
      exact ⟨List.mem_cons_self, hits⟩
    all_goals exact ⟨List.mem_cons_of_mem b (ih found).1, (ih found).2⟩

/-- A walk that does not hit has seen no element that would have been hit. -/
theorem scan_missed {last : Option α} (missed : scan hit also second chain = .inl last) :
    ∀ a ∈ chain, ¬ hit a := by
  induction chain generalizing second with
  | nil => exact fun _ member => absurd member List.not_mem_nil
  | cons b rest ih =>
    rw [scan] at missed
    rw [List.forall_mem_cons]
    split_ifs at missed with hits
    all_goals exact ⟨hits, ih missed⟩

/-- **The second choice** is the last element that would also do. -/
theorem scan_last {last : Option α} (missed : scan hit also second chain = .inl last) :
    last = (chain.filter also).getLast?.or second := by
  induction chain generalizing second with
  | nil => exact (Sum.inl.inj missed).symm
  | cons b rest ih =>
    rw [scan] at missed
    split_ifs at missed with hits does
    · rw [ih missed, List.filter_cons_of_pos does, List.getLast?_cons]
      cases (rest.filter also).getLast? with
      | none => rfl
      | some a => rfl
    · rw [ih missed, List.filter_cons_of_neg does]

end Scan

end Foundation
