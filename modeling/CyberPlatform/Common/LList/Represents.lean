/-
**What a list header represents, and what one edit does to it.**

* `ListRep m l s` — the header `l` represents the duplicate-free sequence `s`: its elements are
  chained both ways, `head` and `tail` are its two ends, and `count` is its length as an `int`.
* `LinkedIn m m' l a s t` — the memory `m'` is `m` with the element `a` linked into `l` between `s`
  and `t`, whatever the order of the stores. `LListAdd`, `LListAddToStart` and
  `LLE_AddBefore` with its count update all have this effect (`llistAdd_linkedIn`,
  `llistAddToStart_linkedIn`, `lleAddBefore_linkedIn`).
* `LinkedOut m m' l a s t` — the same for the removal of `a` (`llistDelete_linkedOut`).
* `ListRep.linkedIn`, `ListRep.linkedOut` and their frames `..._other` — the only places where the
  representation is re-established.
-/

import CyberPlatform.Foundation.Linked
import CyberPlatform.Common.LList.Basic

set_option linter.unusedSectionVars false

namespace CyberPlatform.LList

open Foundation Foundation.Linked

variable {H E : Type}

/-- **The header `l` represents the sequence `s`.** -/
structure ListRep (m : Memory H E) (l : H) (s : List E) : Prop where
  nodup : s.Nodup
  chain : Chain m.next m.prev none s none
  head : m.head l = s.head?
  tail : m.tail l = s.getLast?
  count : m.count l = int32 s.length

variable [DecidableEq H] [DecidableEq E]

/-! ### The two edits -/

/-- The memory `m'` is `m` with `a` linked into the list `l` between `s` and `t`. -/
structure LinkedIn (m m' : Memory H E) (l : H) (a : E) (s t : List E) : Prop where
  prevNew : m'.prev a = s.getLast?
  nextNew : m'.next a = t.head?
  nextLeft : ∀ x, s.getLast? = some x → m'.next x = some a
  prevRight : ∀ x, t.head? = some x → m'.prev x = some a
  nextFrame : ∀ x, x ≠ a → s.getLast? ≠ some x → m'.next x = m.next x
  prevFrame : ∀ x, x ≠ a → t.head? ≠ some x → m'.prev x = m.prev x
  head : m'.head = Function.update m.head l (s ++ a :: t).head?
  tail : m'.tail = Function.update m.tail l (s ++ a :: t).getLast?
  count : m'.count = Function.update m.count l (int32 (m.count l + 1))

/-- The memory `m'` is `m` with `a` unlinked from the list `l`, where it stood between `s` and
`t`. -/
structure LinkedOut (m m' : Memory H E) (l : H) (a : E) (s t : List E) : Prop where
  prevOld : m'.prev a = some a
  nextOld : m'.next a = none
  nextLeft : ∀ x, s.getLast? = some x → m'.next x = t.head?
  prevRight : ∀ x, t.head? = some x → m'.prev x = s.getLast?
  nextFrame : ∀ x, x ≠ a → s.getLast? ≠ some x → m'.next x = m.next x
  prevFrame : ∀ x, x ≠ a → t.head? ≠ some x → m'.prev x = m.prev x
  head : m'.head = Function.update m.head l (s ++ t).head?
  tail : m'.tail = Function.update m.tail l (s ++ t).getLast?
  count : m'.count = Function.update m.count l (int32 (m.count l - 1))

section Edits

variable {m m' : Memory H E} {l k : H} {a : E} {s t u : List E}

/-- A represented element is linked. -/
theorem ListRep.linked (rep : ListRep m l s) (inside : a ∈ s) : m.prev a ≠ some a :=
  rep.chain.prev_ne_self rep.nodup inside

/-- An unlinked element is in no represented sequence. -/
theorem ListRep.fresh (rep : ListRep m l s) (unlinked : m.prev a = some a) : a ∉ s :=
  fun inside => rep.linked inside unlinked

/-- **Linking in: the list.** -/
theorem ListRep.linkedIn (rep : ListRep m l (s ++ t)) (fresh : a ∉ s ++ t)
    (edit : LinkedIn m m' l a s t) : ListRep m' l (s ++ a :: t) where
  nodup := by
    have perm : (s ++ a :: t).Perm (a :: (s ++ t)) := List.perm_middle
    exact perm.nodup_iff.mpr (List.nodup_cons.mpr ⟨fresh, rep.nodup⟩)
  chain := by
    have back : m'.prev a = s.getLast?.or none := by rw [Option.or_none, edit.prevNew]
    have onward : m'.next a = t.head?.or none := by rw [Option.or_none, edit.nextNew]
    exact rep.chain.insert rep.nodup fresh back onward edit.nextLeft edit.prevRight edit.nextFrame
      edit.prevFrame
  head := by rw [edit.head, Function.update_self]
  tail := by rw [edit.tail, Function.update_self]
  count := by
    rw [edit.count, Function.update_self, rep.count, int32_int32_add]
    congr 1
    simp only [List.length_append, List.length_cons]
    omega

/-- **Linking in: every other list.** -/
theorem ListRep.linkedIn_other (rep : ListRep m k u) (other : k ≠ l) (fresh : a ∉ u)
    (apart : ∀ x ∈ s ++ t, x ∉ u) (edit : LinkedIn m m' l a s t) : ListRep m' k u where
  nodup := rep.nodup
  chain := by
    refine rep.chain.congr fun x inside => ⟨?_, ?_⟩
    · refine edit.nextFrame x (fun same => fresh (same ▸ inside)) fun last => ?_
      exact apart x (List.mem_append_left _ (List.mem_of_getLast? last)) inside
    · refine edit.prevFrame x (fun same => fresh (same ▸ inside)) fun first => ?_
      exact apart x (List.mem_append_right _ (List.mem_of_mem_head? first)) inside
  head := by rw [edit.head, Function.update_of_ne other, rep.head]
  tail := by rw [edit.tail, Function.update_of_ne other, rep.tail]
  count := by rw [edit.count, Function.update_of_ne other, rep.count]

/-- **Linking out: the list.** -/
theorem ListRep.linkedOut (rep : ListRep m l (s ++ a :: t)) (edit : LinkedOut m m' l a s t) :
    ListRep m' l (s ++ t) where
  nodup := rep.nodup.sublist (List.Sublist.append_left (List.sublist_cons_self a t) s)
  chain := rep.chain.erase rep.nodup edit.nextLeft edit.prevRight edit.nextFrame edit.prevFrame
  head := by rw [edit.head, Function.update_self]
  tail := by rw [edit.tail, Function.update_self]
  count := by
    rw [edit.count, Function.update_self, rep.count, Int.sub_eq_add_neg, int32_int32_add]
    congr 1
    simp only [List.length_append, List.length_cons]
    omega

/-- **Linking out: every other list.** -/
theorem ListRep.linkedOut_other (rep : ListRep m k u) (other : k ≠ l)
    (apart : ∀ x ∈ s ++ a :: t, x ∉ u) (edit : LinkedOut m m' l a s t) : ListRep m' k u where
  nodup := rep.nodup
  chain := by
    have notGone : ∀ x ∈ u, x ≠ a := fun x inside same =>
      apart a (List.mem_append_right _ List.mem_cons_self) (same ▸ inside)
    refine rep.chain.congr fun x inside => ⟨?_, ?_⟩
    · refine edit.nextFrame x (notGone x inside) fun last => ?_
      exact apart x (List.mem_append_left _ (List.mem_of_getLast? last)) inside
    · refine edit.prevFrame x (notGone x inside) fun first => ?_
      exact apart x (List.mem_append_right _ (List.mem_cons_of_mem _
        (List.mem_of_mem_head? first))) inside
  head := by rw [edit.head, Function.update_of_ne other, rep.head]
  tail := by rw [edit.tail, Function.update_of_ne other, rep.tail]
  count := by rw [edit.count, Function.update_of_ne other, rep.count]

/-- An edit that links `a` in leaves every unlinked element but `a` unlinked. -/
theorem LinkedIn.prev_unlinked (edit : LinkedIn m m' l a s t) {x : E} (other : x ≠ a)
    (unlinked : m.prev x = some x) (apart : x ∉ t) : m'.prev x = some x := by
  rw [edit.prevFrame x other fun first => apart (List.mem_of_mem_head? first), unlinked]

/-- An edit that links `a` out leaves every unlinked element unlinked. -/
theorem LinkedOut.prev_unlinked (edit : LinkedOut m m' l a s t) {x : E}
    (unlinked : m.prev x = some x) (apart : x ∉ t) : m'.prev x = some x := by
  by_cases same : x = a
  · rw [same, edit.prevOld]
  · rw [edit.prevFrame x same fun first => apart (List.mem_of_mem_head? first), unlinked]

end Edits

/-! ### The operations are these edits -/

section Operations

variable {m : Memory H E} {l : H} {a : E} {s t : List E}

/-- `LListAdd` of a linked element is no store at all. -/
theorem llistAdd_of_linked (linked : m.prev a ≠ some a) : llistAdd l a m = m := by
  unfold llistAdd
  rw [if_pos linked]

/-- `LListAddToStart` of a linked element is no store at all. -/
theorem llistAddToStart_of_linked (linked : m.prev a ≠ some a) : llistAddToStart l a m = m := by
  unfold llistAddToStart
  rw [if_pos linked]

/-- `LListDelete` of an unlinked element is no store at all. -/
theorem llistDelete_of_unlinked (unlinked : m.prev a = some a) : llistDelete l a m = m := by
  unfold llistDelete
  rw [if_pos unlinked, ite_self]

/-- `LListAdd` of an unlinked element, store by store. -/
theorem llistAdd_eq (unlinked : m.prev a = some a) :
    llistAdd l a m =
      { next := fun x => if m.tail l = some x then some a else if x = a then none else m.next x
        prev := Function.update m.prev a (m.tail l)
        head := Function.update m.head l (some ((m.head l).getD a))
        tail := Function.update m.tail l (some a)
        count := Function.update m.count l (int32 (m.count l + 1)) } := by
  unfold llistAdd
  rw [if_neg (not_not.mpr unlinked)]
  cases first : m.head l with
  | none => ext <;> simp [first, Function.update_apply]
  | some b =>
    have same : m.head = Function.update m.head l (some b) := by
      rw [← first, Function.update_eq_self]
    ext x
    case head => simpa [first] using congrArg (· x = some _) same
    all_goals simp [first, Function.update_apply]

/-- `LListAdd` links an unlinked element in at the end. -/
theorem llistAdd_linkedIn (rep : ListRep m l s) (unlinked : m.prev a = some a) :
    LinkedIn m (llistAdd l a m) l a s [] := by
  have notLast : s.getLast? ≠ some a := fun last =>
    rep.fresh unlinked (List.mem_of_getLast? last)
  rw [llistAdd_eq unlinked, rep.tail, rep.head]
  refine ⟨?_, ?_, ?_, ?_, ?_, ?_, ?_, ?_, rfl⟩
  · simp
  · simp [notLast]
  · exact fun x last => by simp [last]
  · exact fun x first => by cases first
  · exact fun x other inner => by simp [inner, other]
  · exact fun x other _ => by simp [other]
  · cases s <;> simp
  · simp

/-- `LListAddToStart` of an unlinked element, store by store. -/
theorem llistAddToStart_eq (unlinked : m.prev a = some a) :
    llistAddToStart l a m =
      { next := Function.update m.next a (m.head l)
        prev := fun x => if m.head l = some x then some a else if x = a then none else m.prev x
        head := Function.update m.head l (some a)
        tail := if m.head l = none then Function.update m.tail l (some a) else m.tail
        count := Function.update m.count l (int32 (m.count l + 1)) } := by
  unfold llistAddToStart
  rw [if_neg (not_not.mpr unlinked)]
  cases first : m.head l with
  | none => ext <;> simp [first, Function.update_apply]
  | some b => ext <;> simp [first, Function.update_apply, eq_comm]

/-- `LListAddToStart` links an unlinked element in at the front. -/
theorem llistAddToStart_linkedIn (rep : ListRep m l s) (unlinked : m.prev a = some a) :
    LinkedIn m (llistAddToStart l a m) l a [] s := by
  have notFirst : s.head? ≠ some a := fun first =>
    rep.fresh unlinked (List.mem_of_mem_head? first)
  rw [llistAddToStart_eq unlinked, rep.head]
  refine ⟨?_, ?_, ?_, ?_, ?_, ?_, ?_, ?_, rfl⟩
  · simp [notFirst]
  · simp
  · exact fun x last => by cases last
  · exact fun x first => by simp [first]
  · exact fun x other _ => by simp [other]
  · exact fun x other inner => by simp [inner, other]
  · simp
  · cases s with
    | nil => simp
    | cons b s =>
      have last : ([] ++ a :: b :: s).getLast? = m.tail l := by
        rw [rep.tail, List.nil_append, List.getLast?_cons_cons]
      rw [last, Function.update_eq_self]
      simp

/-- `LLE_AddBefore` in the middle of a list, with the count update of its caller, links an unlinked
element in before the given one. -/
theorem lleAddBefore_linkedIn {b : E} (rep : ListRep m l (s ++ b :: t)) (inner : s ≠ [])
    (unlinked : m.prev a = some a) :
    LinkedIn m ((lleAddBefore b a m).setCount l ((lleAddBefore b a m).count l + 1)) l a s
      (b :: t) := by
  have fresh := rep.fresh unlinked
  rw [List.mem_append, List.mem_cons, not_or, not_or] at fresh
  have back : m.prev b = s.getLast? := by rw [rep.chain.at.1, Option.or_none]
  have notLast : s.getLast? ≠ some a := fun last => fresh.1 (List.mem_of_getLast? last)
  have apart : a ≠ b := fresh.2.1
  unfold lleAddBefore
  refine ⟨?_, ?_, ?_, ?_, ?_, ?_, ?_, ?_, ?_⟩
  · simp [back]
  · simp [back, notLast]
  · exact fun x last => by simp [back, last]
  · intro x first
    cases first
    simp [apart.symm]
  · exact fun x other inner => by simp [back, inner, other]
  · intro x other notNext
    have ne : x ≠ b := fun same => notNext (by rw [same]; rfl)
    simp [other, ne]
  · have first : (s ++ a :: b :: t).head? = m.head l := by
      rw [rep.head]
      obtain ⟨c, rest, rfl⟩ := List.exists_cons_of_ne_nil inner
      rfl
    simp [first]
  · have last : (s ++ a :: b :: t).getLast? = m.tail l := by
      rw [rep.tail]
      simp
    simp [last]
  · simp

/-- `LListDelete` of a linked element, store by store. -/
theorem llistDelete_eq (counted : m.count l ≠ 0) (linked : m.prev a ≠ some a) :
    llistDelete l a m =
      { next := fun x => if x = a then none else if m.prev a = some x then m.next a else m.next x
        prev := fun x => if x = a then some a else if m.next a = some x then m.prev a else m.prev x
        head := if m.head l = some a then Function.update m.head l (m.next a) else m.head
        tail := if m.tail l = some a then Function.update m.tail l (m.prev a) else m.tail
        count := if m.count l > 0 then Function.update m.count l (int32 (m.count l - 1))
          else m.count } := by
  unfold llistDelete llInitElement
  rw [if_neg counted, if_neg linked]
  ext <;> simp [linked, apply_ite Memory.next, apply_ite Memory.prev,
    apply_ite Memory.head, apply_ite Memory.tail, apply_ite Memory.count, Function.update_apply]

/-- `LListDelete` leaves the ends of every other header alone. -/
theorem llistDelete_ends (counted : m.count l ≠ 0) (linked : m.prev a ≠ some a)
    (other : k ≠ l) :
    (llistDelete l a m).head k = m.head k ∧ (llistDelete l a m).tail k = m.tail k := by
  rw [llistDelete_eq counted linked]
  constructor
  · show (if m.head l = some a then _ else _ : H → Option E) k = _
    split_ifs
    · exact Function.update_of_ne other _ _
    · rfl
  · show (if m.tail l = some a then _ else _ : H → Option E) k = _
    split_ifs
    · exact Function.update_of_ne other _ _
    · rfl

/-- **The links behind `LListDelete`** of an element of a chain, through any header that counts
something. -/
theorem llistDelete_links (chain : Chain m.next m.prev none (s ++ a :: t) none)
    (nodup : (s ++ a :: t).Nodup) (counted : m.count l ≠ 0) :
    ((llistDelete l a m).prev a = some a ∧ (llistDelete l a m).next a = none) ∧
      (∀ x, s.getLast? = some x → (llistDelete l a m).next x = t.head?) ∧
      (∀ x, t.head? = some x → (llistDelete l a m).prev x = s.getLast?) ∧
      (∀ x, x ≠ a → s.getLast? ≠ some x → (llistDelete l a m).next x = m.next x) ∧
      ∀ x, x ≠ a → t.head? ≠ some x → (llistDelete l a m).prev x = m.prev x := by
  have linked : m.prev a ≠ some a := chain.prev_ne_self nodup (by simp)
  rw [List.nodup_append, List.nodup_cons] at nodup
  obtain ⟨_, ⟨notRight, _⟩, apart⟩ := nodup
  have back : m.prev a = s.getLast? := chain.at.1.trans Option.or_none
  have onward : m.next a = t.head? := chain.at.2.trans Option.or_none
  have neLast : ∀ x, s.getLast? = some x → x ≠ a := fun x last =>
    apart x (List.mem_of_getLast? last) a List.mem_cons_self
  have neHead : ∀ x, t.head? = some x → x ≠ a := fun x first same =>
    notRight (same ▸ List.mem_of_mem_head? first)
  rw [llistDelete_eq counted linked, back, onward]
  refine ⟨⟨?_, ?_⟩, ?_, ?_, ?_, ?_⟩
  · simp
  · simp
  · exact fun x last => by simp [last, neLast x last]
  · exact fun x first => by simp [first, neHead x first]
  · exact fun x other inner => by simp [other, inner]
  · exact fun x other inner => by simp [other, inner]

/-- `LListDelete` links an element of the list out, whatever the header counts, unless it counts
nothing. -/
theorem llistDelete_unlinks {c : H → Int} (rep : ListRep { m with count := c } l (s ++ a :: t))
    (counted : m.count l ≠ 0) :
    LinkedOut { m with count := c }
      { llistDelete l a m with count := Function.update c l (int32 (c l - 1)) } l a s t := by
  have linked : m.prev a ≠ some a := rep.linked (by simp)
  have chain : Chain m.next m.prev none (s ++ a :: t) none := rep.chain
  have first : m.head l = (s ++ a :: t).head? := rep.head
  have last : m.tail l = (s ++ a :: t).getLast? := rep.tail
  have stores := llistDelete_eq counted linked
  have head : (llistDelete l a m).head =
      if m.head l = some a then Function.update m.head l t.head? else m.head := by
    rw [stores, ← Option.or_none (o := t.head?), ← chain.at.2]
  have tail : (llistDelete l a m).tail =
      if m.tail l = some a then Function.update m.tail l s.getLast? else m.tail := by
    rw [stores, ← Option.or_none (o := s.getLast?), ← chain.at.1]
  obtain ⟨⟨prevOld, nextOld⟩, nextLeft, prevRight, nextFrame, prevFrame⟩ :=
    llistDelete_links chain rep.nodup counted
  have split := rep.nodup
  rw [List.nodup_append, List.nodup_cons] at split
  obtain ⟨_, ⟨notRight, _⟩, apart⟩ := split
  refine ⟨prevOld, nextOld, nextLeft, prevRight, nextFrame, prevFrame, ?_, ?_, rfl⟩
  · refine head.trans ?_
    cases s with
    | nil => simp [first]
    | cons b s =>
      have atFront : ¬ m.head l = some a := by
        rw [first]
        simpa using fun same => (apart b List.mem_cons_self a List.mem_cons_self same)
      have kept : (b :: s ++ t).head? = m.head l := by rw [first]; rfl
      rw [if_neg atFront, kept, Function.update_eq_self]
  · refine tail.trans ?_
    cases t with
    | nil => simp [last]
    | cons b t =>
      have whole : (s ++ a :: b :: t).getLast? = (b :: t).getLast? := by simp [List.getLast?_cons]
      have kept : (s ++ b :: t).getLast? = (b :: t).getLast? := by simp [List.getLast?_cons]
      have atEnd : ¬ m.tail l = some a := by
        rw [last, whole]
        exact fun same => notRight (List.mem_of_getLast? same)
      rw [if_neg atEnd, kept, ← whole, ← last, Function.update_eq_self]

/-- `LListDelete` links an element of the list out. The count must be a positive `int`, as it is
for a list of fewer than `2 ^ 31` elements. -/
theorem llistDelete_linkedOut (rep : ListRep m l (s ++ a :: t)) (counted : 0 < m.count l) :
    LinkedOut m (llistDelete l a m) l a s t := by
  have linked : m.prev a ≠ some a := rep.linked (by simp)
  have count : (llistDelete l a m).count = Function.update m.count l (int32 (m.count l - 1)) := by
    rw [llistDelete_eq (by omega) linked]
    exact if_pos counted
  have edit := llistDelete_unlinks (c := m.count) rep (by omega)
  rw [← count] at edit
  exact edit

end Operations

/-! ### What a program sees of a represented list -/

section Views

variable {m : Memory H E} {l : H} {s : List E}

theorem llInList_ne_zero {e : E} : llInList e m ≠ 0 ↔ m.prev e ≠ some e := by
  unfold llInList
  split_ifs with linked <;> simp_all

/-- On a represented element `LL_Prev` is the stored pointer: its predecessor is in the list too. -/
theorem ListRep.llPrev_eq (rep : ListRep m l s) {e : E} (inside : e ∈ s) :
    llPrev m e = m.prev e := by
  obtain ⟨front, back, rfl⟩ := List.append_of_mem inside
  have stored : m.prev e = front.getLast? := by rw [rep.chain.at.1, Option.or_none]
  unfold llPrev
  cases last : m.prev e with
  | none => rfl
  | some p =>
    have member : p ∈ front := List.mem_of_getLast? (stored.symm.trans last)
    have linked := rep.linked (List.mem_append_left (e :: back) member)
    simp [llInList_ne_zero.mpr linked]

/-- **Forward**: `LL_First` and `LL_Next` walk the sequence and end in null. -/
theorem ListRep.follows_next (rep : ListRep m l s) : Follows (llNext m) (llFirst l m) s := by
  unfold llFirst
  rw [rep.head]
  exact rep.chain.follows_next

/-- **Backward**: `LL_Last` and `LL_Prev` walk the sequence in reverse and end in null. -/
theorem ListRep.follows_prev (rep : ListRep m l s) :
    Follows (llPrev m) (llLast l m) s.reverse := by
  unfold llLast
  rw [rep.tail]
  exact rep.chain.follows_prev.congr fun e inside => rep.llPrev_eq (List.mem_reverse.mp inside)

/-- The walk forward from the header comes to the element. -/
def Forward (l : H) (m : Memory H E) (a : E) : Prop := Leads m.next a (m.head l)

/-- The walk backward from the header comes to the element. -/
def Backward (l : H) (m : Memory H E) (a : E) : Prop := Leads m.prev a (m.tail l)

/-- The walk forward comes to what is represented. -/
theorem ListRep.forward_iff (rep : ListRep m l s) {e : E} : Forward l m e ↔ e ∈ s :=
  rep.follows_next.leads_iff

/-- The walk backward comes to what is represented. -/
theorem ListRep.backward_iff (rep : ListRep m l s) {e : E} : Backward l m e ↔ e ∈ s := by
  have walk : Follows m.prev (m.tail l) s.reverse := rep.tail ▸ rep.chain.follows_prev
  exact walk.leads_iff.trans List.mem_reverse

/-- **The count**, of a list that an `int` can count. -/
theorem ListRep.llCount_eq (rep : ListRep m l s) (few : s.length < 2 ^ 31) :
    llCount l m = s.length := by
  unfold llCount
  rw [rep.count, int32_of_range] <;> omega

/-- A header that is as `LL_Init` leaves it. -/
structure Fresh (l : H) (m : Memory H E) : Prop where
  head : m.head l = none
  tail : m.tail l = none
  count : m.count l = 0

/-- A header fresh from `LL_Init` represents the empty sequence. -/
theorem Fresh.rep (fresh : Fresh l m) : ListRep m l [] where
  nodup := List.nodup_nil
  chain := trivial
  head := fresh.head
  tail := fresh.tail
  count := by simp [fresh.count]

theorem llInit_fresh (l : H) (m : Memory H E) : Fresh l (llInit l m) := by
  constructor <;> simp [llInit]

/-- `LL_Init` of any header keeps a fresh header fresh. -/
theorem Fresh.llInit (fresh : Fresh l m) (k : H) : Fresh l (llInit k m) := by
  constructor <;>
    simp [LList.llInit, Function.update_apply, fresh.head, fresh.tail, fresh.count]

/-- `LL_InitElement` does not touch a header. -/
theorem Fresh.llInitElement (fresh : Fresh l m) (e : E) : Fresh l (llInitElement e m) :=
  ⟨fresh.head, fresh.tail, fresh.count⟩

/-- `LL_InitElement` of an element outside of a list leaves the list alone. -/
theorem ListRep.llInitElement {e : E} (rep : ListRep m l s) (outside : e ∉ s) :
    ListRep (llInitElement e m) l s where
  nodup := rep.nodup
  chain := by
    refine rep.chain.congr fun x inside => ?_
    have other : x ≠ e := fun same => outside (same ▸ inside)
    exact ⟨Function.update_of_ne other _ _, Function.update_of_ne other _ _⟩
  head := rep.head
  tail := rep.tail
  count := rep.count

theorem llInitElement_prev (e : E) (m : Memory H E) :
    (llInitElement e m).prev = Function.update m.prev e (some e) := rfl

end Views

end CyberPlatform.LList
