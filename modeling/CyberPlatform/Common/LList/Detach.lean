/-
**Detaching the elements of a list, and attaching them to another header.**

`LL_Detach` empties the header and leaves the elements linked to each other. `LL_Retach` finds the
tail and the count again by walking over them.

* `llRetach_eq` — detour over `LL_Detach` and `LL_Retach` leaves the memory with the two headers
  swapped.
* `Op.step_rename` — the calls of the library do not care which header is which.
* `retach_round_trip` — the new header represents the sequence, and every sequence of calls on it
  does what it would have done on the old one.
-/

import CyberPlatform.Common.LList.Refinement
import Mathlib.Logic.Equiv.Basic

set_option linter.unusedSectionVars false

namespace CyberPlatform.LList

open Foundation Foundation.Linked

variable {H E : Type} [DecidableEq H] [DecidableEq E]

/-! ### Renaming the headers -/

/-- The memory in which the header `π l` is the header `l` of `m`. -/
@[simps -fullyApplied]
def Memory.rename (π : Equiv.Perm H) (m : Memory H E) : Memory H E :=
  { m with head := m.head ∘ π.symm, tail := m.tail ∘ π.symm, count := m.count ∘ π.symm }

/-- The call, on the renamed headers. -/
def Op.rename (π : Equiv.Perm H) : Op H E → Op H E
  | add l e => add (π l) e
  | addToStart l e => addToStart (π l) e
  | delete l e => delete (π l) e

section Rename

variable (π : Equiv.Perm H) (m : Memory H E) (l : H) (e : E)

/-- A store to a header is one to the renamed header. -/
theorem update_rename {β : Type} (f : H → β) (value : β) :
    Function.update f l value ∘ π.symm = Function.update (f ∘ π.symm) (π l) value :=
  Function.update_comp_equiv f π.symm l value

theorem rename_at {β : Type} (f : H → β) : (f ∘ π.symm) (π l) = f l :=
  congrArg f (π.symm_apply_apply l)

theorem llistAdd_rename : llistAdd (π l) e (m.rename π) = (llistAdd l e m).rename π := by
  by_cases linked : m.prev e = some e
  · rw [llistAdd_eq linked, llistAdd_eq (show (m.rename π).prev e = some e from linked)]
    unfold Memory.rename
    simp only [update_rename, rename_at]
  · rw [llistAdd_of_linked linked]
    exact llistAdd_of_linked linked

theorem llistAddToStart_rename :
    llistAddToStart (π l) e (m.rename π) = (llistAddToStart l e m).rename π := by
  by_cases linked : m.prev e = some e
  · rw [llistAddToStart_eq linked,
      llistAddToStart_eq (show (m.rename π).prev e = some e from linked)]
    unfold Memory.rename
    simp only [update_rename, rename_at, apply_ite (· ∘ π.symm)]
  · rw [llistAddToStart_of_linked linked]
    exact llistAddToStart_of_linked linked

theorem llistDelete_rename :
    llistDelete (π l) e (m.rename π) = (llistDelete l e m).rename π := by
  have counter : (m.rename π).count (π l) = m.count l := rename_at π l m.count
  by_cases linked : m.prev e = some e
  · rw [llistDelete_of_unlinked linked]
    exact llistDelete_of_unlinked linked
  · by_cases counted : m.count l = 0
    · unfold llistDelete
      rw [if_pos counted, if_pos (counter.trans counted)]
    · rw [llistDelete_eq counted linked,
        llistDelete_eq (counter.symm ▸ counted) (show (m.rename π).prev e ≠ some e from linked)]
      unfold Memory.rename
      simp only [update_rename, rename_at, apply_ite (· ∘ π.symm)]

/-- **The calls of the library do not care which header is which.** -/
theorem Op.step_rename (op : Op H E) :
    (op.rename π).step (m.rename π) = (op.step m).rename π := by
  cases op with
  | add l e => exact llistAdd_rename π m l e
  | addToStart l e => exact llistAddToStart_rename π m l e
  | delete l e => exact llistDelete_rename π m l e

/-- **Whole runs** do not either. -/
theorem run_rename (ops : List (Op H E)) (m : Memory H E) :
    (ops.map (Op.rename π)).foldl Op.step (m.rename π) = (ops.foldl Op.step m).rename π := by
  induction ops generalizing m with
  | nil => rfl
  | cons op ops ih =>
    rw [List.map_cons, List.foldl_cons, List.foldl_cons, Op.step_rename]
    exact ih (op.step m)

end Rename

/-! ### The detour -/

section Detour

variable {m : Memory H E} {l k : H} {s : List E} {fuel : Nat}

/-- **The loop of `LL_Retach`** leaves the last element in the tail, and adds the number of the
elements to the count. -/
theorem retachFrom_eq {start : Option E} (walk : Follows m.next start s)
    (linked : ∀ e ∈ s, m.prev e ≠ some e) {n : Int} (counted : m.count k = int32 n)
    (enough : s.length < fuel) :
    retachFrom k fuel start m =
      .ok { m with
        tail := Function.update m.tail k (s.getLast?.or (m.tail k))
        count := Function.update m.count k (int32 (n + s.length)) } := by
  obtain ⟨fuel, rfl⟩ : ∃ rounds, fuel = rounds + 1 := ⟨fuel - 1, by omega⟩
  induction s generalizing m start n fuel with
  | nil =>
    cases walk
    have tail : Function.update m.tail k ((none : Option E).or (m.tail k)) = m.tail :=
      Function.update_eq_self k m.tail
    have count : Function.update m.count k (int32 (n + (0 : Nat))) = m.count := by
      rw [Int.natCast_zero, Int.add_zero, ← counted, Function.update_eq_self]
    rw [List.getLast?_nil, List.length_nil, tail, count]
    rfl
  | cons e s ih =>
    obtain ⟨fuel, rfl⟩ : ∃ rounds, fuel = rounds + 1 := ⟨fuel - 1, by simp at enough; omega⟩
    cases walk with
    | cell walk =>
      have here : llInList e m ≠ 0 := llInList_ne_zero.mpr (linked e List.mem_cons_self)
      have stepped : ((m.setTail k (some e)).setCount k (m.count k + 1)).count k =
          int32 (n + 1) := by
        show Function.update m.count k (int32 (m.count k + 1)) k = _
        rw [Function.update_self, counted, int32_int32_add]
      have last : (e :: s).getLast?.or (m.tail k) = s.getLast?.or (some e) := by
        cases s <;> simp [List.getLast?_cons]
      rw [retachFrom, if_neg here]
      refine (ih (m := (m.setTail k (some e)).setCount k (m.count k + 1)) walk
        (fun x inside => linked x (List.mem_cons_of_mem e inside)) stepped fuel
        (by simpa using enough)).trans ?_
      have total : n + 1 + (s.length : Int) = n + ((e :: s).length : Nat) := by
        rw [List.length_cons]
        omega
      rw [last, ← total]
      simp only [Memory.setTail, Memory.setCount, Function.update_idem, Function.update_self]

/-- **`LL_Retach`** to an empty header. -/
theorem llRetach_eq {start : Option E} (walk : Follows m.next start s)
    (linked : ∀ e ∈ s, m.prev e ≠ some e) (empty : m.count k = 0) (enough : s.length < fuel) :
    llRetach fuel k start m =
      .ok { m with
        head := Function.update m.head k start
        tail := Function.update m.tail k s.getLast?
        count := Function.update m.count k (int32 s.length) } := by
  have counted : ((m.setHead k start).setTail k start).count k = int32 0 := by
    rw [int32_zero]
    exact empty
  have last : s.getLast?.or start = s.getLast? := by
    cases walk with
    | null => rfl
    | cell _ => simp [List.getLast?_cons]
  refine (retachFrom_eq (m := (m.setHead k start).setTail k start) walk linked counted
    enough).trans ?_
  simp only [Memory.setHead, Memory.setTail, Function.update_idem, Function.update_self, last,
    Int.zero_add]

/-- A value that is moved from one place to another, which is empty. -/
theorem update_swap {β : Type} {f : H → β} {z : β} (empty : Function.update f l z k = z) :
    Function.update (Function.update f l z) k (f l) = f ∘ (Equiv.swap l k).symm := by
  funext j
  rw [Equiv.symm_swap, Function.comp_apply]
  by_cases atNew : j = k
  · rw [atNew, Function.update_self, Equiv.swap_apply_right]
  · rw [Function.update_of_ne atNew]
    by_cases atOld : j = l
    · subst atOld
      rw [Function.update_self, Equiv.swap_apply_left, ← empty]
      exact Function.update_of_ne (Ne.symm atNew) z f
    · rw [Function.update_of_ne atOld, Equiv.swap_apply_of_ne_of_ne atOld atNew]

/-- **The detour over `LL_Detach` and `LL_Retach`** swaps the two headers, and nothing else. -/
theorem detour_eq (rep : ListRep m l s) (empty : Fresh k (llDetach l m))
    (enough : s.length < fuel) :
    llRetach fuel k s.head? (llDetach l m) = .ok (m.rename (Equiv.swap l k)) := by
  have detached : llDetach l m =
      { m with
        head := Function.update m.head l none
        tail := Function.update m.tail l none
        count := Function.update m.count l 0 } := by
    simp [llDetach, Memory.setHead, Memory.setTail, Memory.setCount]
  have walk : Follows (llDetach l m).next s.head? s := rep.chain.follows_next
  rw [llRetach_eq walk (fun e inside => rep.linked inside) empty.count enough]
  rw [detached] at empty ⊢
  have head := update_swap empty.head
  have tail := update_swap empty.tail
  have count := update_swap empty.count
  rw [rep.head] at head
  rw [rep.tail] at tail
  rw [rep.count] at count
  unfold Memory.rename
  rw [head, tail, count]

/-- What a list becomes under another header. -/
theorem ListRep.rename {π : Equiv.Perm H} (rep : ListRep m l s) :
    ListRep (m.rename π) (π l) s where
  nodup := rep.nodup
  chain := rep.chain
  head := (rename_at π l m.head).trans rep.head
  tail := (rename_at π l m.tail).trans rep.tail
  count := (rename_at π l m.count).trans rep.count

/-- A call on some list. -/
inductive Edit (E : Type) where
  | add (element : E)
  | addToStart (element : E)
  | delete (element : E)

/-- The call, on the list `l`. -/
def Edit.on (l : H) : Edit E → Op H E
  | add e => .add l e
  | addToStart e => .addToStart l e
  | delete e => .delete l e

theorem Edit.on_swap (edit : Edit E) :
    (edit.on l).rename (Equiv.swap l k) = edit.on k := by
  have moved : Equiv.swap l k l = k := Equiv.swap_apply_left l k
  cases edit with
  | add e => exact congrArg (Op.add · e) moved
  | addToStart e => exact congrArg (Op.addToStart · e) moved
  | delete e => exact congrArg (Op.delete · e) moved

/-- **`LL_Detach` and `LL_Retach`.** For every list with the sequence `s`, and every header that is
empty once the list is detached (its own is): `LL_Retach` of the first element returns, and makes
the header represent `s`. Every sequence of calls on it leaves the memory that it would have left on
the old header without the detour, with the two headers swapped. -/
theorem retach_round_trip (rep : ListRep m l s) (empty : Fresh k (llDetach l m))
    (enough : s.length < fuel) :
    ∃ m', llRetach fuel k s.head? (llDetach l m) = .ok m' ∧
      (ListRep m' k s ∧ Follows (llNext m') (llFirst k m') s ∧
        Follows (llPrev m') (llLast k m') s.reverse ∧ llCount k m' = llCount l m ∧
        (s.length < 2 ^ 31 → llCount k m' = s.length)) ∧
      ∀ edits : List (Edit E),
        let there := (edits.map (Edit.on k)).foldl Op.step m'
        let here := (edits.map (Edit.on l)).foldl Op.step m
        there.next = here.next ∧ there.prev = here.prev ∧ there.head k = here.head l ∧
          there.tail k = here.tail l ∧ there.count k = here.count l ∧
          there = here.rename (Equiv.swap l k) := by
  have moved : ListRep (m.rename (Equiv.swap l k)) k s := by
    have renamed := rep.rename (π := Equiv.swap l k)
    rwa [Equiv.swap_apply_left] at renamed
  refine ⟨_, detour_eq rep empty enough, ⟨moved, moved.follows_next, moved.follows_prev, ?_,
    moved.llCount_eq⟩, fun edits => ?_⟩
  · exact moved.count.trans rep.count.symm
  · intro there here
    have swapped : there = here.rename (Equiv.swap l k) := by
      have renamed : edits.map (Edit.on k) =
          (edits.map (Edit.on l)).map (Op.rename (Equiv.swap l k)) := by
        rw [List.map_map]
        exact List.map_congr_left fun edit _ => edit.on_swap.symm
      show (edits.map (Edit.on k)).foldl Op.step _ = _
      rw [renamed, run_rename]
    have other : ∀ {β : Type} (f : H → β), (f ∘ (Equiv.swap l k).symm) k = f l := by
      intro β f
      rw [Equiv.symm_swap, Function.comp_apply, Equiv.swap_apply_right]
    refine ⟨?_, ?_, ?_, ?_, ?_, swapped⟩
    · rw [swapped]
      rfl
    · rw [swapped]
      rfl
    · rw [swapped]
      exact other here.head
    · rw [swapped]
      exact other here.tail
    · rw [swapped]
      exact other here.count

/-- Two elements are moved to another header, and a third one is added there. -/
theorem retach_round_trip_two :
    let m := [Op.add false 1, .add false 2].foldl Op.step (prepare [false, true] [1, 2, 3]
      ⟨fun _ => none, fun _ => none, fun _ => some 7, fun _ => some 7, fun _ => 7⟩)
    ∃ m', llRetach 3 true (some 1) (llDetach false m) = .ok m' ∧ ListRep m' true [1, 2] ∧
      (llistAdd true 3 m').tail true = (llistAdd false 3 m).tail false := by
  intro m
  have family : Represents [false, true] [1, 2, 3] m
      ([Op.add false 1, .add false 2].foldl (seqStep [false, true]) fun _ => []) :=
    run_represents (by decide) _ _ (by decide)
  have rep : ListRep m false [1, 2] := family.list false (by decide)
  have empty : Fresh true (llDetach false m) := ⟨rfl, rfl, rfl⟩
  have enough : [1, 2].length < 3 := by decide
  obtain ⟨m', ran, ⟨moved, _⟩, later⟩ := retach_round_trip rep empty enough
  exact ⟨m', ran, moved, (later [.add 3]).2.2.2.1⟩

end Detour

end CyberPlatform.LList
