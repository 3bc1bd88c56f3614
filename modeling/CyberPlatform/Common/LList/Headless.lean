/-
**Chains without a header.**

`LLE_AddAtEnd` and `LLE_AddAtStart` are given any element of a chain. They walk along `next` or
along `prev` until they meet a null pointer, and link the new element in there. An element fresh
from `LL_InitElement` has a null pointer in `next`, but its own address in `prev`.

* `lastAlong_eq`, `lastAlong_endless` — where the walk ends, and when it does not.
* `Headless m s` — the chain of `s`, as it grows from an element of `LL_InitElement`.
* `Headless.addAtEnd`, `Headless.addAtStart` — what the two calls do to it: the second one never
  returns.
* `headless_walks` — what the walks along a chain see that `LLE_AddAtEnd` has extended.
* `chainSound_iff` — a chain is extended as it should be exactly when `LLE_AddAtStart` is never
  called on it.
-/

import CyberPlatform.Common.LList.Represents
import CyberPlatform.Foundation.Run

set_option linter.unusedSectionVars false

namespace CyberPlatform.LList

open Foundation Foundation.Linked

variable {H E : Type} [DecidableEq H] [DecidableEq E]

/-! ### The walk to a null pointer -/

section Walk

variable {link : E → Option E}

/-- **The walk to the last element** takes one round for each. -/
theorem lastAlong_eq {a z : E} {s : List E} (walk : Follows link (some a) s)
    (last : s.getLast? = some z) (fuel : Nat) :
    lastAlong link fuel a = if s.length ≤ fuel then .ok z else .error .endless := by
  induction fuel generalizing a s with
  | zero =>
    cases walk with
    | cell rest => rfl
  | succ fuel ih =>
    cases walk with
    | @cell _ s rest =>
      rw [lastAlong]
      cases successor : link a with
      | none =>
        rw [successor] at rest
        cases rest
        cases last
        exact (if_pos (Nat.succ_le_succ (Nat.zero_le fuel))).symm
      | some b =>
        rw [successor] at rest
        have longer : (a :: s).length ≤ fuel + 1 ↔ s.length ≤ fuel := Nat.succ_le_succ_iff
        have same : s.getLast? = some z := by
          cases rest with
          | cell rest => rwa [List.getLast?_cons_cons] at last
        show lastAlong link fuel b = _
        rw [ih rest same]
        simp only [longer]

/-- **A walk among elements that all have a successor** does not end. -/
theorem lastAlong_endless {P : E → Prop} (goesOn : ∀ a, P a → ∃ b, link a = some b ∧ P b)
    (fuel : Nat) {a : E} (start : P a) : lastAlong link fuel a = .error .endless := by
  induction fuel generalizing a with
  | zero => rfl
  | succ fuel ih =>
    obtain ⟨b, successor, holds⟩ := goesOn a start
    rw [lastAlong, successor]
    exact ih holds

end Walk

/-! ### The two insertions -/

section Insertions

variable {m : Memory H E} {a x : E} {s : List E}

/-- `LLE_AddAfter` the last element, store by store. -/
theorem lleAddAfter_last (last : m.next a = none) :
    lleAddAfter a x m =
      { m with
        next := Function.update (Function.update m.next a (some x)) x none
        prev := Function.update m.prev x (some a) } := by
  unfold lleAddAfter
  rw [last]
  rfl

/-- `LLE_AddBefore` the first element, store by store. -/
theorem lleAddBefore_first (first : m.prev a = none) :
    lleAddBefore a x m =
      { m with
        next := Function.update m.next x (some a)
        prev := Function.update (Function.update m.prev a (some x)) x none } := by
  unfold lleAddBefore
  rw [first]
  rfl

/-- `LLE_AddAfter` the last element of a chain appends to it, whatever its first one points back
to. -/
theorem lleAddAfter_chain {before : Option E} (chain : Chain m.next m.prev before s none)
    (nodup : s.Nodup) (last : s.getLast? = some a) (fresh : x ∉ s) :
    Chain (lleAddAfter a x m).next (lleAddAfter a x m).prev before (s ++ [x]) none := by
  have other : a ≠ x := fun same => fresh (same ▸ List.mem_of_getLast? last)
  have ends : m.next a = none := by
    obtain ⟨front, rfl⟩ := List.getLast?_eq_some_iff.mp last
    rw [chain.at.2]
    rfl
  rw [lleAddAfter_last ends]
  have whole : Chain m.next m.prev before (s ++ []) none := by rwa [List.append_nil]
  refine whole.insert ?_ ?_ ?_ ?_ ?_ ?_ ?_ ?_
  · rwa [List.append_nil]
  · rwa [List.append_nil]
  · show Function.update m.prev x (some a) x = _
    rw [Function.update_self, last]
    rfl
  · exact Function.update_self ..
  · intro y is_last
    cases last.symm.trans is_last
    show Function.update (Function.update m.next a (some x)) x none a = _
    rw [Function.update_of_ne other, Function.update_self]
  · exact fun y first => by cases first
  · intro y new inner
    have notLast : y ≠ a := fun same => inner (same ▸ last)
    show Function.update (Function.update m.next a (some x)) x none y = _
    rw [Function.update_of_ne new, Function.update_of_ne notLast]
  · exact fun y new _ => Function.update_of_ne new _ _

end Insertions

/-! ### A chain that grows from one element -/

/-- **The chain of `s`**, whose first element still carries the mark of `LL_InitElement`. -/
structure Headless (m : Memory H E) (s : List E) : Prop where
  nodup : s.Nodup
  chain : Chain m.next m.prev s.head? s none

section Headless

variable {m : Memory H E} {a e x : E} {s : List E}

/-- An element of `LL_InitElement` is a chain. -/
theorem headless_single (a : E) (m : Memory H E) : Headless (llInitElement a m) [a] where
  nodup := List.nodup_singleton a
  chain := ⟨Function.update_self .., Function.update_self .., trivial⟩

/-- `LL_InitElement` of another element leaves the chain alone. -/
theorem Headless.llInitElement (rep : Headless m s) (fresh : x ∉ s) :
    Headless (llInitElement x m) s where
  nodup := rep.nodup
  chain := by
    refine rep.chain.congr fun y inside => ?_
    have other : y ≠ x := fun same => fresh (same ▸ inside)
    exact ⟨Function.update_of_ne other _ _, Function.update_of_ne other _ _⟩

/-- Every element of the chain has one before it, also the first one: itself. -/
theorem Headless.prev_member (rep : Headless m s) (member : e ∈ s) :
    ∃ b, m.prev e = some b ∧ b ∈ s := by
  obtain ⟨front, back, rfl⟩ := List.append_of_mem member
  rw [rep.chain.at.1]
  cases last : front.getLast? with
  | none =>
    obtain rfl := List.getLast?_eq_none_iff.mp last
    exact ⟨e, rfl, member⟩
  | some b => exact ⟨b, rfl, List.mem_append_left _ (List.mem_of_getLast? last)⟩

/-- **`LLE_AddAtEnd`** appends, from whichever element it starts. -/
theorem Headless.addAtEnd (rep : Headless m s) (member : e ∈ s) (fresh : x ∉ s) :
    ∃ rounds ≤ s.length, ∃ m', Headless m' (s ++ [x]) ∧
      ∀ fuel, lleAddAtEnd fuel e x m = if rounds ≤ fuel then .ok m' else .error .endless := by
  obtain ⟨front, back, rfl⟩ := List.append_of_mem member
  have walk : Follows m.next (some e) (e :: back) :=
    (chain_append.mp rep.chain).2.follows_next
  obtain ⟨z, last⟩ : ∃ z, (e :: back).getLast? = some z := ⟨_, List.getLast?_cons⟩
  have whole : (front ++ e :: back).getLast? = some z := by
    rw [List.getLast?_append, last]
    rfl
  refine ⟨(e :: back).length, ?_, lleAddAfter z x m, ⟨?_, ?_⟩, fun fuel => ?_⟩
  · rw [List.length_append]
    exact Nat.le_add_left _ _
  · exact List.nodup_append_comm.mp (List.nodup_cons.mpr ⟨fresh, rep.nodup⟩)
  · have first : (front ++ e :: back ++ [x]).head? = (front ++ e :: back).head? := by
      cases front <;> rfl
    rw [first]
    exact lleAddAfter_chain rep.chain rep.nodup whole fresh
  · unfold lleAddAtEnd
    rw [lastAlong_eq walk last fuel]
    split_ifs <;> rfl

/-- **`LLE_AddAtStart`** goes round and round at the first element, which is before itself. -/
theorem Headless.addAtStart (rep : Headless m s) (member : e ∈ s) (fuel : Nat) :
    lleAddAtStart fuel e x m = .error .endless := by
  unfold lleAddAtStart
  rw [lastAlong_endless (P := (· ∈ s)) (fun b inside => rep.prev_member inside) fuel member]
  rfl

/-- What an element behind the first one points back to, and that it is not itself. -/
theorem Headless.prev_behind {front back : List E} (rep : Headless m (a :: front ++ e :: back)) :
    m.prev e = (a :: front).getLast? ∧ m.prev e ≠ some e := by
  have stored : m.prev e = (a :: front).getLast? := by
    rw [rep.chain.at.1, List.getLast?_cons]
    rfl
  refine ⟨stored, fun itself => ?_⟩
  have twice := List.mem_of_getLast? (stored ▸ itself)
  exact (List.nodup_append.mp rep.nodup).2.2 e twice e List.mem_cons_self rfl

/-- `LL_Prev` sees no more than the elements behind the first one: it takes the mark of the first
element to say that it is in no list. -/
theorem Headless.follows_llPrev (rep : Headless m (a :: s)) :
    Follows (llPrev m) s.getLast? s.reverse := by
  have mark : m.prev a = some a := rep.chain.1
  have nodup := (List.nodup_cons.mp rep.nodup).2
  have rest : Chain m.next (llPrev m) none s none := by
    refine rep.chain.2.2.relink nodup (fun _ _ _ => rfl) ?_ ?_ ?_
    · intro y inside inner
      obtain ⟨front, back, rfl⟩ := List.append_of_mem inside
      obtain ⟨front, b, rfl⟩ : ∃ front' b, front = front' ++ [b] := by
        cases front using List.reverseRecOn with
        | nil => exact absurd rfl inner
        | append_singleton front b => exact ⟨front, b, rfl⟩
      have before : m.prev y = some b := by
        rw [rep.prev_behind.1, ← List.cons_append, List.getLast?_concat]
      have linked : m.prev b ≠ some b := by
        rw [List.append_assoc] at rep
        exact rep.prev_behind.2
      unfold llPrev
      rw [before]
      exact if_neg (llInList_ne_zero.mpr linked)
    · intro y last
      obtain ⟨front, rfl⟩ := List.getLast?_eq_some_iff.mp last
      exact (rep.chain.at (s := a :: front)).2
    · intro y first
      obtain ⟨back, rfl⟩ := List.head?_eq_some_iff.mp first
      have before : m.prev y = some a := rep.chain.2.2.1
      have unlinked : llInList a m = 0 := if_neg (not_not.mpr mark)
      unfold llPrev
      rw [before]
      exact if_pos unlinked
  exact rest.follows_prev

end Headless

/-! ### Sequences of calls -/

/-- A call that extends a chain: the element that it is given, and the new one. -/
inductive HeadlessOp (E : Type) where
  | addAtEnd (element le : E)
  | addAtStart (element le : E)
  deriving DecidableEq

namespace HeadlessOp

/-- The new element is prepared, and the call is made. -/
def step (fuel : Nat) (m : Memory H E) : HeadlessOp E → Except Trap (Memory H E)
  | addAtEnd element le => lleAddAtEnd fuel element le (llInitElement le m)
  | addAtStart element le => lleAddAtStart fuel element le (llInitElement le m)

/-- The chain, as it should be. -/
def chain (s : List E) : HeadlessOp E → List E
  | addAtEnd _ le => s ++ [le]
  | addAtStart _ le => le :: s

/-- The call is given an element of the chain, and a new one. -/
def Admits (s : List E) : HeadlessOp E → Prop
  | addAtEnd element le => element ∈ s ∧ le ∉ s
  | addAtStart element le => element ∈ s ∧ le ∉ s

instance (s : List E) : ∀ op : HeadlessOp E, Decidable (op.Admits s)
  | addAtEnd element le => inferInstanceAs (Decidable (element ∈ s ∧ le ∉ s))
  | addAtStart element le => inferInstanceAs (Decidable (element ∈ s ∧ le ∉ s))

end HeadlessOp

/-- **The promise about a chain** that starts with one element: the calls return, `next` leads from
the first element through the chain to its end, and `prev` leads back through it. -/
def ChainSound (start : E) (m : Memory H E) (ops : List (HeadlessOp E)) : Prop :=
  ∃ fuel m', ops.foldlM (HeadlessOp.step fuel) (llInitElement start m) = .ok m' ∧
    let s := ops.foldl HeadlessOp.chain [start]
    Follows (llNext m') s.head? s ∧ s.reverse.IsChain fun y x => m'.prev y = some x

section Runs

variable {m : Memory H E} {s : List E} {ops : List (HeadlessOp E)}

/-- Calls of `LLE_AddAtEnd` alone extend the chain. -/
theorem headless_run (only : ∀ element le, .addAtStart element le ∉ ops) (rep : Headless m s)
    (run : Admitted HeadlessOp.Admits HeadlessOp.chain s ops) {fuel : Nat}
    (enough : s.length + ops.length ≤ fuel) :
    ∃ m', ops.foldlM (HeadlessOp.step fuel) m = .ok m' ∧
      Headless m' (ops.foldl HeadlessOp.chain s) := by
  induction ops generalizing m s with
  | nil => exact ⟨m, rfl, rep⟩
  | cons op ops ih =>
    have rest : ∀ element le, .addAtStart element le ∉ ops := fun element le member =>
      only element le (List.mem_cons_of_mem op member)
    rw [List.length_cons] at enough
    cases op with
    | addAtStart element le => exact absurd List.mem_cons_self (only element le)
    | addAtEnd element le =>
      obtain ⟨⟨member, fresh⟩, run⟩ := run
      obtain ⟨rounds, few, m', rep', ran⟩ := (rep.llInitElement fresh).addAtEnd member fresh
      have longer : (s ++ [le]).length = s.length + 1 := List.length_append
      obtain ⟨m'', ran', rep''⟩ := ih rest rep' run (by omega)
      refine ⟨m'', ?_, rep''⟩
      rw [List.foldlM_cons, HeadlessOp.step, ran fuel, if_pos (by omega)]
      exact ran'

/-- A run that returns is one of `LLE_AddAtEnd` alone. -/
theorem headless_run_returns (rep : Headless m s)
    (run : Admitted HeadlessOp.Admits HeadlessOp.chain s ops) {fuel : Nat}
    {m' : Memory H E} (ran : ops.foldlM (HeadlessOp.step fuel) m = .ok m') (element le : E) :
    .addAtStart element le ∉ ops := by
  induction ops generalizing m s with
  | nil => exact List.not_mem_nil
  | cons op ops ih =>
    rw [List.foldlM_cons] at ran
    obtain ⟨middle, first, rest⟩ := bind_eq_ok.mp ran
    cases op with
    | addAtStart e x =>
      obtain ⟨⟨member, fresh⟩, _⟩ := run
      rw [HeadlessOp.step, (rep.llInitElement fresh).addAtStart member fuel] at first
      cases first
    | addAtEnd e x =>
      obtain ⟨⟨member, fresh⟩, run⟩ := run
      obtain ⟨rounds, _, m'', rep', called⟩ := (rep.llInitElement fresh).addAtEnd member fresh
      rw [HeadlessOp.step, called fuel] at first
      split_ifs at first
      cases first
      rw [List.mem_cons, not_or]
      refine ⟨fun same => ?_, ih rep' run rest⟩
      cases same

/-- **A chain without a header is extended as it should be exactly when** `LLE_AddAtStart` is never
called on it: that call does not return. -/
theorem chainSound_iff (start : E) (m : Memory H E) (ops : List (HeadlessOp E))
    (run : Admitted HeadlessOp.Admits HeadlessOp.chain [start] ops) :
    ChainSound start m ops ↔ ∀ element le, .addAtStart element le ∉ ops := by
  have rep := headless_single (H := H) start m
  constructor
  · rintro ⟨fuel, m', ran, _⟩ element le
    exact headless_run_returns rep run ran element le
  · intro only
    obtain ⟨m', ran, rep'⟩ := headless_run only rep run le_rfl
    exact ⟨_, m', ran, rep'.chain.follows_next, rep'.chain.backward⟩

/-- Calls of `LLE_AddAtEnd`, each with an element of the chain and a new one. -/
def appendsOf (appends : List (E × E)) : List (HeadlessOp E) :=
  appends.map fun (element, le) => .addAtEnd element le

theorem chain_appendsOf (appends : List (E × E)) (s : List E) :
    (appendsOf appends).foldl HeadlessOp.chain s = s ++ appends.map Prod.snd := by
  induction appends generalizing s with
  | nil => exact (List.append_nil s).symm
  | cons pair appends ih =>
    rw [List.map_cons, List.append_cons]
    exact ih (s ++ [pair.2])

/-- **The walks over a chain without a header**, after every sequence of calls of `LLE_AddAtEnd`:
`LL_Next` sees all of it, but `LL_Prev`, from the last element on, all but the first one, which
carries the mark of being in no list. -/
theorem headless_walks (start : E) (m : Memory H E) (appends : List (E × E))
    (run : Admitted HeadlessOp.Admits HeadlessOp.chain [start] (appendsOf appends)) :
    ∃ m', (appendsOf appends).foldlM (HeadlessOp.step (appends.length + 1))
        (llInitElement start m) = .ok m' ∧
      Follows (llNext m') (some start) (start :: appends.map Prod.snd) ∧
      Follows (llPrev m') (appends.map Prod.snd).getLast? (appends.map Prod.snd).reverse ∧
      llInList start m' = 0 := by
  have only : ∀ element le, .addAtStart element le ∉ appendsOf appends := by
    intro element le
    simp [appendsOf]
  have enough : [start].length + (appendsOf appends).length ≤ appends.length + 1 := by
    rw [appendsOf, List.length_map, List.length_singleton, Nat.add_comm]
  obtain ⟨m', ran, rep⟩ := headless_run only (headless_single start m) run enough
  rw [chain_appendsOf, List.singleton_append] at rep
  have mark : m'.prev start = some start := rep.chain.1
  exact ⟨m', ran, rep.chain.follows_next, rep.follows_llPrev, if_neg (not_not.mpr mark)⟩

/-- Three elements: the walk back ends at the second one. -/
theorem headless_walks_three :
    let m : Memory Unit Nat :=
      ⟨fun _ => none, fun _ => none, fun _ => none, fun _ => none, fun _ => 0⟩
    ∃ m', (appendsOf [(1, 2), (1, 3)]).foldlM (HeadlessOp.step 3) (llInitElement 1 m) = .ok m' ∧
      Follows (llNext m') (some 1) [1, 2, 3] ∧ Follows (llPrev m') (some 3) [3, 2] ∧
      llInList 1 m' = 0 :=
  headless_walks 1 _ [(1, 2), (1, 3)] (by decide)

/-- Two elements are appended, each behind another element of the chain. -/
theorem chainSound_two :
    ChainSound 1 (⟨fun _ => none, fun _ => none, fun _ => none, fun _ => none, fun _ => 0⟩ :
      Memory Unit Nat) [.addAtEnd 1 2, .addAtEnd 1 3] := by
  refine (chainSound_iff 1 _ _ (by decide)).mpr fun element le => ?_
  simp

/-- One element is to be prepended. -/
theorem chainSound_fails_start :
    ¬ ChainSound 1 (⟨fun _ => none, fun _ => none, fun _ => none, fun _ => none, fun _ => 0⟩ :
      Memory Unit Nat) [.addAtStart 1 2] := by
  rintro ⟨fuel, m', ran, _⟩
  have only := headless_run_returns (headless_single 1 _) (by decide) ran 1 2
  exact only List.mem_cons_self

end Runs

end CyberPlatform.LList
