/-
**The sorted list is the stable sort of its members.**

`LListAddSort` scans for the first element the new one belongs before and then takes one of three
paths: append, prepend, or splice in through `LLE_AddBefore` with a count update of its own.
`llistAddSort_linkedIn` says that all three have the one effect `LinkedIn`, between the elements
that are not after the new one and the rest, on any list, sorted or not. On a list that is the
stable sort of its members it is therefore `StableSort.insert`.

The `count` of a list is an `int`. Insertions alone keep it at the length modulo `2 ^ 32`
(`addSort_sorts` needs no bound), so that after `2 ^ 31` of them it is negative
(`sorted_count_wraps`); below that everything agrees over every run (`sorted_list_stable`).
-/

import CyberPlatform.Common.LList.Refinement
import CyberPlatform.Foundation.StableSort
import Mathlib.Tactic.NormNum

set_option linter.unusedSectionVars false

namespace CyberPlatform.LList

open Foundation Foundation.Linked

variable {H E C : Type} [DecidableEq H] [DecidableEq E]

/-- The order of a comparator under a cookie: `a` is not after `b`. -/
def NotAfter (cmp : E → E → C → Int) (cookie : C) (a b : E) : Prop := cmp a b cookie ≤ 0

instance (cmp : E → E → C → Int) (cookie : C) : DecidableRel (NotAfter cmp cookie) :=
  fun a b => inferInstanceAs (Decidable (cmp a b cookie ≤ 0))

/-! ### One insertion -/

section Insertion

open StableSort (before behind)

variable (cmp : E → E → C → Int) (cookie : C) {m : Memory H E} {l : H} {a : E} {s : List E}

/-- **The scan** stops at the first element that the new one belongs before. -/
theorem scanSort_eq {start : Option E} (walk : Follows (llNext m) start s) :
    ∀ {fuel : Nat}, s.length < fuel →
      scanSort cmp a cookie m fuel start = .ok (behind (NotAfter cmp cookie) a s).head? := by
  induction walk with
  | null =>
    intro fuel enough
    obtain ⟨fuel, rfl⟩ := Nat.exists_eq_add_of_lt enough
    rw [show List.length [] + fuel + 1 = (0 + fuel) + 1 from rfl, scanSort]
    rfl
  | @cell b s _ ih =>
    intro fuel enough
    obtain ⟨fuel, rfl⟩ := Nat.exists_eq_succ_of_ne_zero (by omega : fuel ≠ 0)
    rw [scanSort]
    by_cases low : cmp b a cookie ≤ 0
    · rw [if_pos low, ih (by simpa using enough)]
      simp [behind, NotAfter, low]
    · rw [if_neg low]
      simp [behind, NotAfter, low]

/-- An element with others before it is not the head. -/
theorem ListRep.head_ne {front back : List E} {b : E} (rep : ListRep m l (front ++ b :: back))
    (inner : front ≠ []) : m.head l ≠ some b := by
  obtain ⟨c, rest, rfl⟩ := List.exists_cons_of_ne_nil inner
  rw [rep.head]
  intro same
  have nodup := rep.nodup
  rw [List.nodup_append] at nodup
  exact nodup.2.2 c List.mem_cons_self b List.mem_cons_self (Option.some.inj same)

/-- **One insertion.** Whatever the list, `LListAddSort` returns, and links the new element in
between the leading elements that are not after it and the rest. -/
theorem llistAddSort_linkedIn (rep : ListRep m l s) (unlinked : m.prev a = some a) {fuel : Nat}
    (enough : s.length < fuel) :
    ∃ m', llistAddSort fuel ⟨l, cmp⟩ a cookie m = .ok m' ∧
      LinkedIn m m' l a (before (NotAfter cmp cookie) a s) (behind (NotAfter cmp cookie) a s) := by
  have whole : before (NotAfter cmp cookie) a s ++ behind (NotAfter cmp cookie) a s = s :=
    List.takeWhile_append_dropWhile
  unfold llistAddSort
  rw [scanSort_eq cmp cookie rep.follows_next enough]
  generalize before (NotAfter cmp cookie) a s = front at whole ⊢
  generalize behind (NotAfter cmp cookie) a s = back at whole ⊢
  subst whole
  cases back with
  | nil =>
    rw [List.append_nil] at rep
    exact ⟨_, rfl, llistAdd_linkedIn rep unlinked⟩
  | cons b back =>
    by_cases inner : front = []
    · subst inner
      have first : m.head l = some b := rep.head
      refine ⟨_, ?_, llistAddToStart_linkedIn rep unlinked⟩
      show (if m.head l = some b then _ else _) = _
      rw [if_pos first]
      rfl
    · refine ⟨_, ?_, lleAddBefore_linkedIn rep inner unlinked⟩
      show (if m.head l = some b then _ else _) = _
      rw [if_neg (rep.head_ne inner)]
      rfl

end Insertion

/-! ### An element that is linked already -/

/-- The lists of a family are as they were: their headers, and the links of their elements. -/
structure Untouched (hs : List H) (seqs : H → List E) (m m' : Memory H E) : Prop where
  head : ∀ k ∈ hs, m'.head k = m.head k
  tail : ∀ k ∈ hs, m'.tail k = m.tail k
  count : ∀ k ∈ hs, m'.count k = m.count k
  next : ∀ k ∈ hs, ∀ x ∈ seqs k, m'.next x = m.next x
  prev : ∀ k ∈ hs, ∀ x ∈ seqs k, m'.prev x = m.prev x

theorem Untouched.refl (hs : List H) (seqs : H → List E) (m : Memory H E) :
    Untouched hs seqs m m :=
  ⟨fun _ _ => rfl, fun _ _ => rfl, fun _ _ => rfl, fun _ _ _ _ => rfl, fun _ _ _ _ => rfl⟩

section Linked

open StableSort (before behind)

variable (cmp : E → E → C → Int) (cookie : C) {m : Memory H E} {l : H} {a : E} {s : List E}

/-- The new element belongs before the first one or behind the last one. -/
def AtAnEnd (a : E) (s : List E) : Prop :=
  (∀ x ∈ s, cmp x a cookie ≤ 0) ∨ ∃ x, s.head? = some x ∧ 0 < cmp x a cookie

theorem atAnEnd_iff : AtAnEnd cmp cookie a s ↔
    behind (NotAfter cmp cookie) a s = [] ∨ before (NotAfter cmp cookie) a s = [] := by
  have last : (∀ x ∈ s, cmp x a cookie ≤ 0) ↔ behind (NotAfter cmp cookie) a s = [] := by
    rw [behind, List.dropWhile_eq_nil_iff]
    exact forall₂_congr fun _ _ => decide_eq_true_iff.symm
  rw [AtAnEnd, last]
  cases s with
  | nil => simp [behind]
  | cons b s =>
    refine or_congr_right ?_
    by_cases low : cmp b a cookie ≤ 0
    · simp [before, NotAfter, low]
    · simp [before, NotAfter, low]
      omega

/-- **The three paths of `LListAddSort`** with a linked element: the two functions that look for the
mark of `LL_InitElement` do nothing, but `LLE_AddBefore` does not look. -/
theorem llistAddSort_linked (rep : ListRep m l s) (linked : m.prev a ≠ some a) {fuel : Nat}
    (enough : s.length < fuel) :
    AtAnEnd cmp cookie a s ∧ llistAddSort fuel ⟨l, cmp⟩ a cookie m = .ok m ∨
    ¬ AtAnEnd cmp cookie a s ∧
      ∃ m', llistAddSort fuel ⟨l, cmp⟩ a cookie m = .ok m' ∧ m'.count l ≠ m.count l := by
  have whole : before (NotAfter cmp cookie) a s ++ behind (NotAfter cmp cookie) a s = s :=
    List.takeWhile_append_dropWhile
  rw [atAnEnd_iff]
  unfold llistAddSort
  rw [scanSort_eq cmp cookie rep.follows_next enough]
  generalize before (NotAfter cmp cookie) a s = front at whole ⊢
  generalize behind (NotAfter cmp cookie) a s = back at whole ⊢
  subst whole
  cases back with
  | nil => exact .inl ⟨.inl rfl, congrArg Except.ok (llistAdd_of_linked linked)⟩
  | cons b back =>
    by_cases outer : front = []
    · subst outer
      have first : m.head l = some b := rep.head
      refine .inl ⟨.inr rfl, ?_⟩
      show (if m.head l = some b then _ else _) = _
      rw [if_pos first, llistAddToStart_of_linked linked]
      rfl
    · let m' := lleAddBefore b a m
      refine .inr ⟨not_or.mpr ⟨List.cons_ne_nil b back, outer⟩,
        m'.setCount l (m'.count l + 1), ?_, ?_⟩
      · show (if m.head l = some b then _ else _) = _
        rw [if_neg (rep.head_ne outer)]
        rfl
      · have counted : m'.count = m.count := by
          unfold m' lleAddBefore
          simp
        rw [Memory.setCount_count, Function.update_self, counted]
        exact int32_succ_ne _

end Linked

/-- **When `LListAddSort` of a linked element is harmless**, whatever lists there are and whichever
of them the element is in: when it belongs at one of the two ends of the sorted list. -/
theorem llistAddSort_harmless_iff {hs : List H} {es : List E} {m : Memory H E} {seqs : H → List E}
    (rep : Represents hs es m seqs) {l : H} (header : l ∈ hs) {a : E} (linked : InSome hs seqs a)
    (cmp : E → E → C → Int) (cookie : C) {fuel : Nat} (enough : (seqs l).length < fuel) :
    (∃ m', llistAddSort fuel ⟨l, cmp⟩ a cookie m = .ok m' ∧ Untouched hs seqs m m') ↔
      AtAnEnd cmp cookie a (seqs l) := by
  obtain ⟨k, headerK, inside⟩ := linked
  have marked := (rep.list k headerK).linked inside
  rcases llistAddSort_linked cmp cookie (rep.list l header) marked enough with
    ⟨atEnd, ran⟩ | ⟨inner, m', ran, other⟩
  · exact ⟨fun _ => atEnd, fun _ => ⟨m, ran, Untouched.refl hs seqs m⟩⟩
  · refine ⟨fun ⟨_, returned, same⟩ => ?_, fun atEnd => absurd atEnd inner⟩
    cases ran.symm.trans returned
    exact absurd (same.count l header) other

/-! ### Runs -/

/-- A call on a sorted list. -/
inductive SortOp (E : Type) where
  | addSort (element : E)
  | delete (element : E)

/-- The call, as the code makes it. -/
def SortOp.step (fuel : Nat) (llist : SortHeader H E C) (cookie : C) (m : Memory H E) :
    SortOp E → Except Trap (Memory H E)
  | addSort e => llistAddSort fuel llist e cookie m
  | delete e => return llistDelete llist.list e m

/-- The members of the list in the order of their insertion. -/
def memberStep (members : List E) : SortOp E → List E
  | .addSort e => members ++ [e]
  | .delete e => members.erase e

/-- An element to add is unlinked, an element to delete is a member. -/
def SortAdmits (es : List E) (members : List E) : SortOp E → Prop
  | .addSort e => e ∈ es ∧ e ∉ members
  | .delete e => e ∈ members

instance (es members : List E) : ∀ op, Decidable (SortAdmits es members op)
  | .addSort e => inferInstanceAs (Decidable (e ∈ es ∧ e ∉ members))
  | .delete e => inferInstanceAs (Decidable (e ∈ members))

/-- **The memory of a sorted list**: its header represents the stable sort of the members. -/
def Sorts (llist : SortHeader H E C) (cookie : C) (es : List E) (m : Memory H E)
    (members : List E) : Prop :=
  ∃ seqs, Represents [llist.list] es m seqs ∧
    StableSort (NotAfter llist.cmp cookie) members (seqs llist.list)

section Runs

variable {llist : SortHeader H E C} {cookie : C} {es : List E}

/-- **An insertion** keeps the list sorted, whatever its length. -/
theorem addSort_sorts (order : TotalPreorder (NotAfter llist.cmp cookie)) {fuel : Nat}
    (enough : es.length < fuel) {m : Memory H E} {members : List E} {e : E}
    (sorts : Sorts llist cookie es m members) (known : e ∈ es) (fresh : e ∉ members) :
    ∃ m', llistAddSort fuel llist e cookie m = .ok m' ∧
      Sorts llist cookie es m' (members ++ [e]) := by
  obtain ⟨seqs, rep, sort⟩ := sorts
  have header : llist.list ∈ [llist.list] := List.mem_cons_self
  have free : ¬ InSome [llist.list] seqs e := by
    rintro ⟨l, same, inside⟩
    rw [List.mem_singleton.mp same] at inside
    exact fresh (sort.perm.mem_iff.mp inside)
  have short := rep.length_le header
  obtain ⟨m', ran, edit⟩ := llistAddSort_linkedIn llist.cmp cookie (rep.list _ header)
    (rep.unlinked e known free) (lt_of_le_of_lt short enough)
  refine ⟨m', ran, _, rep.linkedIn header known free ?_ edit, ?_⟩
  · exact List.takeWhile_append_dropWhile.symm
  · rw [Function.update_self]
    exact sort.insert order e

/-- **A removal** keeps the list sorted, as long as an `int` counts it. -/
theorem delete_sorts (few : es.length < 2 ^ 31) {m : Memory H E} {members : List E} {e : E}
    (sorts : Sorts llist cookie es m members) (member : e ∈ members) :
    Sorts llist cookie es (llistDelete llist.list e m) (members.erase e) := by
  obtain ⟨seqs, rep, sort⟩ := sorts
  have header : llist.list ∈ [llist.list] := List.mem_cons_self
  have inside : e ∈ seqs llist.list := sort.perm.mem_iff.mpr member
  have known := rep.member _ header e inside
  refine ⟨_, delete_represents rep few header known (.inl inside), ?_⟩
  rw [seqStep, Function.update_self]
  exact sort.erase (rep.list _ header).nodup e

/-- One call, where deletions need the bound on the count and insertions do not. -/
theorem sortStep_sorts (order : TotalPreorder (NotAfter llist.cmp cookie)) {fuel : Nat}
    (enough : es.length < fuel) (m : Memory H E) (members : List E) (op : SortOp E)
    (sorts : Sorts llist cookie es m members)
    (admitted : SortAdmits es members op ∧ (es.length < 2 ^ 31 ∨ ∃ e, op = .addSort e)) :
    ∃ m', op.step fuel llist cookie m = .ok m' ∧
      Sorts llist cookie es m' (memberStep members op) := by
  obtain ⟨admitted, few⟩ := admitted
  cases op with
  | addSort e => exact addSort_sorts order enough sorts admitted.1 admitted.2
  | delete e =>
    have few : es.length < 2 ^ 31 := few.resolve_right fun ⟨_, other⟩ => by cases other
    exact ⟨_, rfl, delete_sorts few sorts admitted⟩

/-- A header prepared by `LL_InitSort` and elements prepared by `LL_InitElement`. -/
def prepareSort (l : H) (cmp : E → E → C → Int) (es : List E) (m : Memory H E) :
    SortHeader H E C × Memory H E :=
  let prepared := llInitSort l cmp m
  (prepared.1, es.foldl (fun m e => llInitElement e m) prepared.2)

/-- A prepared header is the stable sort of no members. -/
theorem prepareSort_sorts (l : H) (cmp : E → E → C → Int) (cookie : C) (es : List E)
    (m : Memory H E) :
    Sorts (prepareSort l cmp es m).1 cookie es (prepareSort l cmp es m).2 [] :=
  ⟨fun _ => [], prepare_represents [l] es m, StableSort.nil⟩

/-- **Every run** from a prepared header, where deletions need the bound on the count. -/
theorem sortRun_sorts (l : H) (cmp : E → E → C → Int) (cookie : C)
    (order : TotalPreorder (NotAfter cmp cookie)) (m₀ : Memory H E) {fuel : Nat}
    (enough : es.length < fuel) (ops : List (SortOp E))
    (run : Admitted (fun members op => SortAdmits es members op ∧
      (es.length < 2 ^ 31 ∨ ∃ e, op = .addSort e)) memberStep [] ops) :
    ∃ m, ops.foldlM (SortOp.step fuel ⟨l, cmp⟩ cookie) (prepareSort l cmp es m₀).2 = .ok m ∧
      Sorts ⟨l, cmp⟩ cookie es m (ops.foldl memberStep []) :=
  foldlM_simulates (fun m members op => sortStep_sorts order enough m members op) ops
    (prepareSort_sorts l cmp cookie es m₀) run

end Runs

/-- **The sorted list is the stable sort of its members.** For every comparator that is a total
preorder under the cookie, every run of `LListAddSort` on unlinked elements and `LListDelete` on
members returns, with fewer than `2 ^ 31` elements; the walks over the header then see, forward and
backward, one duplicate-free sequence that is the stable sort of the members in the order of their
insertion, and `LL_Count` is its length. -/
theorem sorted_list_stable (l : H) (cmp : E → E → C → Int) (cookie : C)
    (order : TotalPreorder (NotAfter cmp cookie)) (es : List E) (few : es.length < 2 ^ 31)
    (m₀ : Memory H E) (ops : List (SortOp E))
    (run : Admitted (SortAdmits es) memberStep [] ops) (fuel : Nat) (enough : es.length < fuel) :
    let members := ops.foldl memberStep []
    ∃ m s, ops.foldlM (SortOp.step fuel (prepareSort l cmp es m₀).1 cookie)
          (prepareSort l cmp es m₀).2 = .ok m ∧
      StableSort (NotAfter cmp cookie) members s ∧ s.Nodup ∧
      Follows (llNext m) (llFirst l m) s ∧ Follows (llPrev m) (llLast l m) s.reverse ∧
      llCount l m = members.length := by
  intro members
  obtain ⟨m, ran, seqs, rep, sort⟩ := sortRun_sorts l cmp cookie order m₀ enough ops
    (run.mono fun _ _ admitted => ⟨admitted, .inl few⟩)
  have header : l ∈ [l] := List.mem_cons_self
  have list := rep.list l header
  have short := rep.length_le header
  have count := list.llCount_eq (lt_of_le_of_lt short few)
  rw [sort.perm.length_eq] at count
  exact ⟨m, seqs l, ran, sort, list.nodup, list.follows_next, list.follows_prev, count⟩

/-- A comparator of numbers that looks at their tens only. -/
def byTens (a b : Nat) (_ : Unit) : Int := (a / 10 : Nat) - (b / 10 : Nat)

theorem totalPreorder_byTens : TotalPreorder (NotAfter byTens ()) := by
  refine ⟨fun a b => ?_, fun a b c => ?_⟩
  · simp only [NotAfter, byTens]
    omega
  · simp only [NotAfter, byTens]
    omega

/-- Four elements sorted by their tens: the two of equal key stay in the order of their insertion,
and the deleted one is gone. -/
theorem sorted_list_stable_tens :
    ∃ m s, [SortOp.addSort 21, .addSort 10, .addSort 20, .addSort 30, .delete 10].foldlM
        (SortOp.step 5 (prepareSort () byTens [10, 20, 21, 30] ⟨fun _ => none, fun _ => none,
          fun _ => none, fun _ => none, fun _ => 0⟩).1 ())
        (prepareSort () byTens [10, 20, 21, 30] ⟨fun _ => none, fun _ => none, fun _ => none,
          fun _ => none, fun _ => 0⟩).2 = .ok m ∧
      List.Sublist [21, 20] s ∧ llCount () m = 3 := by
  obtain ⟨m, s, ran, sort, _, _, _, count⟩ := sorted_list_stable () byTens ()
    totalPreorder_byTens [10, 20, 21, 30] (by decide)
    ⟨fun _ => none, fun _ => none, fun _ => none, fun _ => none, fun _ => 0⟩
    [.addSort 21, .addSort 10, .addSort 20, .addSort 30, .delete 10] (by decide) 5 (by decide)
  exact ⟨m, s, ran, sort.stable 21 20 (by decide) (by decide) (by decide), count⟩

/-- Three elements are added sorted by their tens, and the one of the greatest key once more. -/
theorem llistAddSort_harmless_last :
    ∃ m m' seqs, [SortOp.addSort 21, .addSort 30, .addSort 10].foldlM
        (SortOp.step 4 (prepareSort () byTens [10, 21, 30] ⟨fun _ => none, fun _ => none,
          fun _ => none, fun _ => none, fun _ => 0⟩).1 ())
        (prepareSort () byTens [10, 21, 30] ⟨fun _ => none, fun _ => none, fun _ => none,
          fun _ => none, fun _ => 0⟩).2 = .ok m ∧
      Represents [()] [10, 21, 30] m seqs ∧ (seqs ()).Perm [21, 30, 10] ∧
      llistAddSort 4 ⟨(), byTens⟩ 30 () m = .ok m' ∧ Untouched [()] seqs m m' := by
  have run : Admitted (SortAdmits [10, 21, 30]) memberStep []
      [.addSort 21, .addSort 30, .addSort 10] := by decide
  obtain ⟨m, ran, seqs, rep, sort⟩ := sortRun_sorts () byTens () totalPreorder_byTens
    ⟨fun _ => none, fun _ => none, fun _ => none, fun _ => none, fun _ => 0⟩
    (show [10, 21, 30].length < 4 by decide) _
    (run.mono fun _ _ admitted => ⟨admitted, .inl (by decide)⟩)
  have members : (seqs ()).Perm [21, 30, 10] := sort.perm
  have linked : InSome [()] seqs 30 := ⟨(), by decide, members.mem_iff.mpr (by decide)⟩
  have enough : (seqs ()).length < 4 := by
    rw [members.length_eq]
    decide
  have last : AtAnEnd byTens () 30 (seqs ()) := by
    have first : ∀ x ∈ [21, 30, 10], byTens x 30 () ≤ 0 := by decide
    exact .inl fun x inside => first x (members.mem_iff.mp inside)
  have harmless := llistAddSort_harmless_iff rep (by decide) linked byTens () enough
  obtain ⟨m', added, same⟩ := harmless.mpr last
  exact ⟨m, m', seqs, ran, rep, members, added, same⟩

/-- The first of two sorted elements is added again, and goes before the second one: it is then its
own successor, its mark says that it is in no list, and the count is 3. -/
theorem llistAddSort_corrupts_sorted :
    ∃ m m', [SortOp.addSort 10, .addSort 20].foldlM
        (SortOp.step 3 (prepareSort () byTens [10, 20] ⟨fun _ => none, fun _ => none,
          fun _ => none, fun _ => none, fun _ => 0⟩).1 ())
        (prepareSort () byTens [10, 20] ⟨fun _ => none, fun _ => none, fun _ => none,
          fun _ => none, fun _ => 0⟩).2 = .ok m ∧
      Follows (llNext m) (llFirst () m) [10, 20] ∧ llInList 10 m ≠ 0 ∧
      llistAddSort 3 ⟨(), byTens⟩ 10 () m = .ok m' ∧
      llNext m' 10 = some 10 ∧ llInList 10 m' = 0 ∧ llCount () m' = 3 ∧
      ¬ Untouched [()] (fun _ => [10, 20]) m m' := by
  refine ⟨_, _, rfl, .cell (.cell .null), by decide, rfl, by decide, by decide, by decide, ?_⟩
  intro same
  exact absurd (same.count () (by decide)) (by decide)

/-! ### The counter is an `int` -/

/-- Inserting fresh elements one after the other is an admitted run, and they are the members. -/
theorem admitted_addSort (es : List E) : ∀ (new members : List E), (members ++ new).Nodup →
    new ⊆ es →
    Admitted (fun members op => SortAdmits es members op ∧
        (es.length < 2 ^ 31 ∨ ∃ e, op = .addSort e)) memberStep members (new.map .addSort) ∧
      (new.map .addSort).foldl memberStep members = members ++ new
  | [], members, _, _ => ⟨trivial, (List.append_nil _).symm⟩
  | e :: new, members, nodup, known => by
    have fresh : e ∉ members := fun twice =>
      (List.nodup_append.mp nodup).2.2 e twice e List.mem_cons_self rfl
    have shift : members ++ e :: new = memberStep members (.addSort e) ++ new := by
      simp [memberStep]
    obtain ⟨run, last⟩ := admitted_addSort es new (memberStep members (.addSort e))
      (shift ▸ nodup) (fun x inside => known (List.mem_cons_of_mem _ inside))
    exact ⟨⟨⟨⟨known List.mem_cons_self, fresh⟩, .inr ⟨e, rfl⟩⟩, run⟩, shift ▸ last⟩

/-- Inserting the numbers below `n` is an admitted run, it makes `n` members, and the count is `n`
as an `int`. -/
theorem count_addSort (n : Nat) (cmp : Nat → Nat → C → Int) (cookie : C)
    (order : TotalPreorder (NotAfter cmp cookie)) (l : H) (m₀ : Memory H Nat) :
    Admitted (SortAdmits (List.range n)) memberStep [] ((List.range n).map .addSort) ∧
      (((List.range n).map .addSort).foldl memberStep []).length = n ∧
      ∃ m, ((List.range n).map .addSort).foldlM
          (SortOp.step (n + 1) (prepareSort l cmp (List.range n) m₀).1 cookie)
          (prepareSort l cmp (List.range n) m₀).2 = .ok m ∧ llCount l m = int32 n := by
  obtain ⟨run, last⟩ := admitted_addSort (List.range n) (List.range n) []
    (by simpa using List.nodup_range) (List.Subset.refl _)
  obtain ⟨m, ran, seqs, rep, sort⟩ := sortRun_sorts l cmp cookie order m₀
    (by simp : (List.range n).length < n + 1) _ run
  refine ⟨run.mono fun _ _ admitted => admitted.1, by rw [last]; simp, m, ran, ?_⟩
  unfold llCount
  rw [(rep.list l List.mem_cons_self).count, sort.perm.length_eq, last]
  simp

/-- **An `int` cannot count `2 ^ 31` members**: after as many insertions of fresh elements, all of
them equal to the comparator, `LL_Count` is `-2 ^ 31`. -/
theorem sorted_count_wraps :
    TotalPreorder (NotAfter (fun _ _ _ => 0 : Nat → Nat → Unit → Int) ()) ∧
      Admitted (SortAdmits (List.range (2 ^ 31))) memberStep []
        ((List.range (2 ^ 31)).map .addSort) ∧
      (((List.range (2 ^ 31)).map .addSort).foldl memberStep []).length = 2 ^ 31 ∧
      ∃ m, ((List.range (2 ^ 31)).map .addSort).foldlM
          (SortOp.step (2 ^ 31 + 1) (prepareSort () (fun _ _ (_ : Unit) => 0)
            (List.range (2 ^ 31)) ⟨fun _ => none, fun _ => none, fun _ => none, fun _ => none,
              fun _ => 0⟩).1 ())
          (prepareSort () (fun _ _ (_ : Unit) => 0) (List.range (2 ^ 31)) ⟨fun _ => none,
            fun _ => none, fun _ => none, fun _ => none, fun _ => 0⟩).2 = .ok m ∧
        llCount () m = -2 ^ 31 := by
  have wraps : int32 ((2 ^ 31 : Nat) : Int) = -2 ^ 31 := by norm_num [int32, Int.bmod]
  have order : TotalPreorder (NotAfter (fun _ _ _ => 0 : Nat → Nat → Unit → Int) ()) :=
    ⟨fun _ _ => .inl (le_refl 0), fun _ _ _ _ _ => le_refl 0⟩
  have general := count_addSort (2 ^ 31) (fun _ _ (_ : Unit) => 0) () order ()
    ⟨fun _ => none, fun _ => none, fun _ => none, fun _ => none, fun _ => 0⟩
  rw [wraps] at general
  exact ⟨order, general⟩

end CyberPlatform.LList
