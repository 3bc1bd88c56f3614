/-
**Elements and the destruction of their list.**

`LL_InList` looks at the element alone, and `LL_Destroy` writes to the header alone. A run is one of
adds, deletes and destructions on a family of lists, and the question is whether `LL_InList` goes
on telling what is in a list.

* `Faithful hs es m` — an element is marked as linked exactly when it can be reached from a header,
  and one that is not can be added to a list.
* `Shaped hs es m` — the headers represent sequences, whatever their counts are. The promise
  follows from it (`Shaped.faithful`).
* `LifeOp.Harmless` — the calls that keep the lists in shape: no list with an element is destroyed,
  and no element is deleted through the wrong header, if it is at an end of its own list.
* `always_faithful_iff` — the promise holds throughout a run exactly when its calls are these.
-/

import CyberPlatform.Common.LList.Traversal

set_option linter.unusedSectionVars false

namespace CyberPlatform.LList

open Foundation Foundation.Linked

variable {H E κ : Type} [DecidableEq H] [DecidableEq E]

/-! ### The calls -/

/-- A call on a family of lists. A callback that does not touch the elements reads the memory and
works on its cookie. -/
inductive LifeOp (H E κ : Type) where
  | add (l : H) (e : E)
  | addToStart (l : H) (e : E)
  | delete (l : H) (e : E)
  | destroy (l : H) (func : Option (E → Memory H E × κ → Int × κ))

/-- The callback, as `LL_Destroy` calls it. -/
def untouching (func : E → Memory H E × κ → Int × κ) (e : E) (st : Memory H E × κ) :
    Except Trap (Int × Memory H E × κ) :=
  .ok ((func e st).1, st.1, (func e st).2)

namespace LifeOp

/-- The call, as the code makes it. -/
def step (fuel : Nat) (st : Memory H E × κ) : LifeOp H E κ → Except Trap (Memory H E × κ)
  | add l e => .ok (llistAdd l e st.1, st.2)
  | addToStart l e => .ok (llistAddToStart l e st.1, st.2)
  | delete l e => .ok (llistDelete l e st.1, st.2)
  | destroy l func => llDestroy fuel l (func.map untouching) st

/-- The call is on a header and an element of the family. -/
def OnFamily (hs : List H) (es : List E) : LifeOp H E κ → Prop
  | add l e | addToStart l e | delete l e => l ∈ hs ∧ e ∈ es
  | destroy l _ => l ∈ hs

/-- **The calls that keep the lists in shape**: a list that is destroyed is empty, and an element
that is deleted is not the first or the last one of another list (unless the header counts nothing,
so that the call does nothing). -/
def Harmless (hs : List H) (m : Memory H E) : LifeOp H E κ → Prop
  | add _ _ | addToStart _ _ => True
  | delete l e => m.count l = 0 ∨ ∀ k ∈ hs, k ≠ l → m.head k ≠ some e ∧ m.tail k ≠ some e
  | destroy l _ => m.head l = none

end LifeOp

/-! ### The promise -/

/-- The element can be reached from a header of the family. -/
def Reachable (hs : List H) (m : Memory H E) (e : E) : Prop :=
  ∃ l ∈ hs, Forward l m e ∨ Backward l m e

/-- The walks from the header come to the element. -/
def ReallyIn (l : H) (m : Memory H E) (e : E) : Prop := Forward l m e ∧ Backward l m e

/-- **The promise about the elements**: one is marked as linked exactly when it can be reached, and
one that is not is really in a list after it has been added to it. -/
structure Faithful (hs : List H) (es : List E) (m : Memory H E) : Prop where
  marked : ∀ e ∈ es, llInList e m ≠ 0 ↔ Reachable hs m e
  added : ∀ e ∈ es, ¬ Reachable hs m e → ∀ l ∈ hs,
    ReallyIn l (llistAdd l e m) e ∧ ReallyIn l (llistAddToStart l e m) e

/-- **The lists are in shape**, whatever their headers count. -/
def Shaped (hs : List H) (es : List E) (m : Memory H E) : Prop :=
  ∃ c seqs, Represents hs es { m with count := c } seqs

section Family

variable {hs : List H} {es : List E} {m : Memory H E} {c : H → Int} {seqs : H → List E} {l k : H}
  {e : E} {s t : List E} {fuel : Nat}

/-! ### The calls on lists in shape -/

/-- What `LListAdd` makes of the links does not depend on the counts. -/
theorem llistAdd_counts (l : H) (e : E) (m : Memory H E) (c : H → Int) :
    ∃ c', llistAdd l e { m with count := c } = { llistAdd l e m with count := c' } := by
  by_cases linked : m.prev e = some e
  · refine ⟨Function.update c l (int32 (c l + 1)), ?_⟩
    rw [llistAdd_eq linked, llistAdd_eq (m := { m with count := c }) linked]
  · refine ⟨c, ?_⟩
    rw [llistAdd_of_linked linked, llistAdd_of_linked (m := { m with count := c }) linked]

/-- What `LListAddToStart` makes of the links does not depend on the counts. -/
theorem llistAddToStart_counts (l : H) (e : E) (m : Memory H E) (c : H → Int) :
    ∃ c', llistAddToStart l e { m with count := c } =
      { llistAddToStart l e m with count := c' } := by
  by_cases linked : m.prev e = some e
  · refine ⟨Function.update c l (int32 (c l + 1)), ?_⟩
    rw [llistAddToStart_eq linked, llistAddToStart_eq (m := { m with count := c }) linked]
  · refine ⟨c, ?_⟩
    rw [llistAddToStart_of_linked linked,
      llistAddToStart_of_linked (m := { m with count := c }) linked]

/-- `LListAdd` keeps the lists in shape. -/
theorem Represents.shaped_add (rep : Represents hs es { m with count := c } seqs)
    (header : l ∈ hs) (known : e ∈ es) :
    ∃ c', Represents hs es { llistAdd l e m with count := c' } (seqStep hs seqs (.add l e)) := by
  obtain ⟨c', same⟩ := llistAdd_counts l e m c
  exact ⟨c', same ▸ add_represents rep header known⟩

/-- `LListAddToStart` keeps the lists in shape. -/
theorem Represents.shaped_addToStart (rep : Represents hs es { m with count := c } seqs)
    (header : l ∈ hs) (known : e ∈ es) :
    ∃ c', Represents hs es { llistAddToStart l e m with count := c' }
      (seqStep hs seqs (.addToStart l e)) := by
  obtain ⟨c', same⟩ := llistAddToStart_counts l e m c
  exact ⟨c', same ▸ addToStart_represents rep header known⟩

/-- `LListDelete` of an inner element links it out through any header; only the counts are not
those of its list. -/
theorem llistDelete_inner (rep : ListRep { m with count := c } k (s ++ e :: t))
    (left : s ≠ []) (right : t ≠ []) (counted : m.count l ≠ 0) (front : m.head l ≠ some e)
    (back : m.tail l ≠ some e) :
    LinkedOut { m with count := c }
      { llistDelete l e m with count := Function.update c k (int32 (c k - 1)) } k e s t := by
  have linked : m.prev e ≠ some e := rep.linked (by simp)
  have first : m.head k = (s ++ e :: t).head? := rep.head
  have last : m.tail k = (s ++ e :: t).getLast? := rep.tail
  have stores := llistDelete_eq counted linked
  have head : (llistDelete l e m).head = m.head := by
    rw [stores]
    exact if_neg front
  have tail : (llistDelete l e m).tail = m.tail := by
    rw [stores]
    exact if_neg back
  have chain : Chain m.next m.prev none (s ++ e :: t) none := rep.chain
  obtain ⟨⟨prevOld, nextOld⟩, nextLeft, prevRight, nextFrame, prevFrame⟩ :=
    llistDelete_links chain rep.nodup counted
  refine ⟨prevOld, nextOld, nextLeft, prevRight, nextFrame, prevFrame, ?_, ?_, rfl⟩
  · have kept : (s ++ t).head? = m.head k := by
      obtain ⟨b, s, rfl⟩ := List.exists_cons_of_ne_nil left
      rw [first]
      rfl
    show (llistDelete l e m).head = Function.update m.head k _
    rw [head, kept, Function.update_eq_self]
  · have kept : (s ++ t).getLast? = m.tail k := by
      obtain ⟨b, t, rfl⟩ := List.exists_cons_of_ne_nil right
      rw [last]
      simp [List.getLast?_cons]
    show (llistDelete l e m).tail = Function.update m.tail k _
    rw [tail, kept, Function.update_eq_self]

/-- **`LListDelete`** keeps the lists in shape, unless it takes an end from another list. -/
theorem Represents.shaped_delete (rep : Represents hs es { m with count := c } seqs)
    (header : l ∈ hs) (known : e ∈ es)
    (harmless : m.count l = 0 ∨ ∀ k ∈ hs, k ≠ l → m.head k ≠ some e ∧ m.tail k ≠ some e) :
    Shaped hs es (llistDelete l e m) := by
  by_cases counted : m.count l = 0
  · have nothing : llistDelete l e m = m := if_pos counted
    rw [nothing]
    exact ⟨c, seqs, rep⟩
  have apart := harmless.resolve_left counted
  by_cases free : InSome hs seqs e
  · obtain ⟨k, headerK, inside⟩ := free
    obtain ⟨s, t, sequence⟩ := List.append_of_mem inside
    have list := sequence ▸ rep.list k headerK
    by_cases own : k = l
    · subst own
      exact ⟨_, _, rep.linkedOut headerK sequence (llistDelete_unlinks list counted)⟩
    · obtain ⟨notFirst, notLast⟩ := apart k headerK own
      have first : m.head k = (s ++ e :: t).head? := list.head
      have last : m.tail k = (s ++ e :: t).getLast? := list.tail
      have left : s ≠ [] := by
        rintro rfl
        exact notFirst first
      have right : t ≠ [] := by
        rintro rfl
        exact notLast (last.trans List.getLast?_concat)
      have elsewhere : e ∉ seqs l := rep.apart k headerK l header (Ne.symm own) e inside
      have front : m.head l ≠ some e := fun there => by
        have head : m.head l = (seqs l).head? := (rep.list l header).head
        exact elsewhere (List.mem_of_mem_head? (head ▸ there))
      have back : m.tail l ≠ some e := fun there => by
        have tail : m.tail l = (seqs l).getLast? := (rep.list l header).tail
        exact elsewhere (List.mem_of_getLast? (tail ▸ there))
      exact ⟨_, _, rep.linkedOut headerK sequence
        (llistDelete_inner list left right counted front back)⟩
  · have unlinked : m.prev e = some e := rep.unlinked e known free
    rw [llistDelete_of_unlinked unlinked]
    exact ⟨c, seqs, rep⟩

/-- The loop of `LL_Destroy`, with a callback that does not touch the elements. -/
theorem destroyFrom_untouching (func : E → Memory H E × κ → Int × κ) {start : Option E}
    (walk : Follows m.next start s) (linked : ∀ e ∈ s, m.prev e ≠ some e)
    (enough : s.length < fuel) (cookie : κ) :
    ∃ cookie',
      destroyFrom Prod.fst (untouching func) fuel start (m, cookie) = .ok (m, cookie') := by
  obtain ⟨fuel, rfl⟩ : ∃ rounds, fuel = rounds + 1 := ⟨fuel - 1, by omega⟩
  induction s generalizing start cookie fuel with
  | nil =>
    cases walk
    exact ⟨cookie, rfl⟩
  | cons e s ih =>
    obtain ⟨fuel, rfl⟩ : ∃ rounds, fuel = rounds + 1 := ⟨fuel - 1, by simp at enough; omega⟩
    cases walk with
    | cell walk =>
      have here : llInList e m ≠ 0 := llInList_ne_zero.mpr (linked e List.mem_cons_self)
      obtain ⟨cookie', ran⟩ := ih walk (fun x inside => linked x (List.mem_cons_of_mem e inside))
        (func e (m, cookie)).2 fuel (by simpa using enough)
      refine ⟨cookie', ?_⟩
      rw [destroyFrom, if_neg here]
      exact ran

/-- **`LL_Destroy`** of a list in shape returns, and has initialised the header. -/
theorem Represents.destroy_eq (rep : Represents hs es { m with count := c } seqs)
    (header : l ∈ hs) (enough : es.length < fuel)
    (func : Option (E → Memory H E × κ → Int × κ)) (cookie : κ) :
    ∃ cookie', llDestroy fuel l (func.map untouching) (m, cookie) =
      .ok (llInit l m, cookie') := by
  cases func with
  | none => exact ⟨cookie, rfl⟩
  | some func =>
    have list := rep.list l header
    have short := lt_of_le_of_lt (rep.length_le header) enough
    obtain ⟨cookie', ran⟩ := destroyFrom_untouching (m := m) func list.follows_next
      (fun e inside => list.linked inside) short cookie
    refine ⟨cookie', ?_⟩
    have start : llFirst l { m with count := c } = m.head l := rfl
    rw [start] at ran
    unfold llDestroy
    rw [Option.map_some]
    simp only [ran, ok_bind]
    rfl

/-- `LL_Destroy` of an empty list keeps the lists in shape. -/
theorem Represents.shaped_destroy (rep : Represents hs es { m with count := c } seqs)
    (header : l ∈ hs) (empty : m.head l = none) : Shaped hs es (llInit l m) := by
  have list := rep.list l header
  have nothing : seqs l = [] := List.head?_eq_none_iff.mp (list.head.symm.trans empty)
  have tail : m.tail l = none := list.tail.trans (nothing ▸ rfl)
  have same : { llInit l m with count := c } = { m with count := c } := by
    have headSame : Function.update m.head l none = m.head := by
      rw [← empty, Function.update_eq_self]
    have tailSame : Function.update m.tail l none = m.tail := by
      rw [← tail, Function.update_eq_self]
    show ({ m with
      head := Function.update m.head l none
      tail := Function.update m.tail l none
      count := c } : Memory H E) = _
    rw [headSame, tailSame]
  exact ⟨c, seqs, same ▸ rep⟩

/-! ### What the shape promises -/

/-- In lists in shape, what can be reached is what is represented. -/
theorem Represents.reachable_iff (rep : Represents hs es { m with count := c } seqs) :
    Reachable hs m e ↔ InSome hs seqs e := by
  constructor
  · rintro ⟨l, header, forward | backward⟩
    · exact ⟨l, header, (rep.list l header).forward_iff.mp forward⟩
    · exact ⟨l, header, (rep.list l header).backward_iff.mp backward⟩
  · rintro ⟨l, header, inside⟩
    exact ⟨l, header, .inl ((rep.list l header).forward_iff.mpr inside)⟩

/-- What is represented is really in the list. -/
theorem ListRep.reallyIn (rep : ListRep { m with count := c } l s) (inside : e ∈ s) :
    ReallyIn l m e :=
  ⟨rep.forward_iff.mpr inside, rep.backward_iff.mpr inside⟩

/-- **Lists in shape keep the promise.** -/
theorem Shaped.faithful (shaped : Shaped hs es m) : Faithful hs es m := by
  obtain ⟨c, seqs, rep⟩ := shaped
  constructor
  · intro e known
    rw [rep.reachable_iff, ← rep.linked_iff known]
    exact llInList_ne_zero
  · intro e known outside l header
    rw [rep.reachable_iff] at outside
    obtain ⟨c₁, added⟩ := rep.shaped_add header known
    obtain ⟨c₂, addedFirst⟩ := rep.shaped_addToStart header known
    rw [seqStep, if_neg outside] at added
    rw [seqStep, if_neg outside] at addedFirst
    refine ⟨(added.list l header).reallyIn ?_, (addedFirst.list l header).reallyIn ?_⟩
    · rw [Function.update_self]
      exact List.mem_append_right _ List.mem_cons_self
    · rw [Function.update_self]
      exact List.mem_cons_self

/-! ### The calls that break it -/

/-- An element of a list that is destroyed is still marked, and cannot be reached any more. -/
theorem Represents.destroy_breaks (rep : Represents hs es { m with count := c } seqs)
    (header : l ∈ hs) (full : m.head l ≠ none) : ¬ Faithful hs es (llInit l m) := by
  intro faithful
  obtain ⟨e, first⟩ := Option.ne_none_iff_exists'.mp full
  have inside : e ∈ seqs l := List.mem_of_mem_head? ((rep.list l header).head.symm.trans first)
  have known := rep.member l header e inside
  have linked : llInList e (llInit l m) ≠ 0 :=
    llInList_ne_zero.mpr ((rep.list l header).linked inside)
  obtain ⟨k, headerK, reached⟩ := (faithful.marked e known).mp linked
  have fresh := llInit_fresh l m
  by_cases same : k = l
  · subst same
    unfold Forward Backward at reached
    rw [fresh.head, fresh.tail] at reached
    exact reached.elim not_leads_null not_leads_null
  · have head : (llInit l m).head k = m.head k := Function.update_of_ne same _ _
    have tail : (llInit l m).tail k = m.tail k := Function.update_of_ne same _ _
    have before : Forward k m e ∨ Backward k m e := by
      unfold Forward Backward at reached ⊢
      rwa [head, tail] at reached
    have there : e ∈ seqs k := before.elim (rep.list k headerK).forward_iff.mp
      (rep.list k headerK).backward_iff.mp
    exact rep.apart l header k headerK same e inside there

/-- An end of a list that is deleted through another header is not marked any more, and can still
be reached. -/
theorem Represents.delete_breaks (rep : Represents hs es { m with count := c } seqs)
    (known : e ∈ es) (counted : m.count l ≠ 0) (headerK : k ∈ hs) (other : k ≠ l)
    (atEnd : m.head k = some e ∨ m.tail k = some e) : ¬ Faithful hs es (llistDelete l e m) := by
  intro faithful
  have inside : e ∈ seqs k := by
    rcases atEnd with first | last
    · exact List.mem_of_mem_head? ((rep.list k headerK).head.symm.trans first)
    · exact List.mem_of_getLast? ((rep.list k headerK).tail.symm.trans last)
  have linked : m.prev e ≠ some e := (rep.list k headerK).linked inside
  have mark : (llistDelete l e m).prev e = some e := by
    rw [llistDelete_eq counted linked]
    exact if_pos rfl
  refine (faithful.marked e known).not.mp ?_ ⟨k, headerK, ?_⟩
  · rw [llInList_ne_zero]
    exact not_not.mpr mark
  · obtain ⟨head, tail⟩ := llistDelete_ends counted linked other
    unfold Forward Backward
    rw [head, tail]
    rcases atEnd with first | last
    · exact .inl (first ▸ .here)
    · exact .inr (last ▸ .here)

end Family

/-! ### Runs -/

section Runs

variable {hs : List H} {es : List E} {fuel : Nat}

/-- **A harmless call** keeps the lists in shape. -/
theorem LifeOp.step_shaped (enough : es.length < fuel) (st : Memory H E × κ) (op : LifeOp H E κ)
    (family : op.OnFamily hs es) (shaped : Shaped hs es st.1) (harmless : op.Harmless hs st.1) :
    ∃ st', op.step fuel st = .ok st' ∧ Shaped hs es st'.1 := by
  obtain ⟨m, cookie⟩ := st
  obtain ⟨c, seqs, rep⟩ := shaped
  cases op with
  | add l e =>
    obtain ⟨c', added⟩ := rep.shaped_add family.1 family.2
    exact ⟨_, rfl, c', _, added⟩
  | addToStart l e =>
    obtain ⟨c', added⟩ := rep.shaped_addToStart family.1 family.2
    exact ⟨_, rfl, c', _, added⟩
  | delete l e => exact ⟨_, rfl, rep.shaped_delete family.1 family.2 harmless⟩
  | destroy l func =>
    obtain ⟨cookie', ran⟩ := rep.destroy_eq family enough func cookie
    exact ⟨_, ran, rep.shaped_destroy family harmless⟩

/-- **Any other call** breaks the promise. -/
theorem LifeOp.step_breaks (enough : es.length < fuel) (st : Memory H E × κ) (op : LifeOp H E κ)
    (st' : Memory H E × κ) (family : op.OnFamily hs es) (shaped : Shaped hs es st.1)
    (harmful : ¬ op.Harmless hs st.1) (ran : op.step fuel st = .ok st') :
    ¬ Faithful hs es st'.1 := by
  obtain ⟨m, cookie⟩ := st
  obtain ⟨c, seqs, rep⟩ := shaped
  cases op with
  | add l e => exact absurd trivial harmful
  | addToStart l e => exact absurd trivial harmful
  | delete l e =>
    obtain rfl := Except.ok.inj ran
    obtain ⟨counted, other⟩ := not_or.mp harmful
    push Not at other
    obtain ⟨k, headerK, ne, atEnd⟩ := other
    exact rep.delete_breaks family.2 counted headerK ne (or_iff_not_imp_left.mpr atEnd)
  | destroy l func =>
    obtain ⟨cookie', returned⟩ := rep.destroy_eq family enough func cookie
    obtain rfl := Except.ok.inj (returned.symm.trans ran)
    exact rep.destroy_breaks family harmful

/-- Memory that has been prepared is in shape. -/
theorem prepare_shaped (hs : List H) (es : List E) (m : Memory H E) :
    Shaped hs es (prepare hs es m) :=
  ⟨_, _, prepare_represents hs es m⟩

/-- **The elements of a family of lists keep their promise throughout a run exactly when** every
list that it destroys is empty, and no element that it deletes is the first or the last one of a
list other than the one that the call is given. -/
theorem always_faithful_iff (enough : es.length < fuel) (m₀ : Memory H E) (cookie : κ)
    (ops : List (LifeOp H E κ)) (family : ∀ op ∈ ops, op.OnFamily hs es) :
    Always (LifeOp.step fuel) (fun st => Faithful hs es st.1) (prepare hs es m₀, cookie) ops ↔
      AdmittedM (fun st op => op.Harmless hs st.1) (LifeOp.step fuel) (prepare hs es m₀, cookie)
        ops := by
  refine always_iff (I := fun st : Memory H E × κ => Shaped hs es st.1)
    (Q := fun op : LifeOp H E κ => op.OnFamily hs es) ?_ ?_ ?_ family (prepare_shaped hs es m₀)
  · exact fun _ shaped => shaped.faithful
  · exact fun st op family shaped harmless => op.step_shaped enough st family shaped harmless
  · exact fun st op st' family shaped harmful ran =>
      op.step_breaks enough st st' family shaped harmful ran

/-- Memory before anything is prepared. -/
def unprepared : Memory Unit Nat :=
  ⟨fun _ => none, fun _ => none, fun _ => some 7, fun _ => some 7, fun _ => 7⟩

/-- An element is deleted before its list is destroyed, and added again. -/
theorem always_faithful_deleted :
    Always (LifeOp.step 2) (fun st => Faithful [()] [1] st.1) (prepare [()] [1] unprepared, ())
      [.add () 1, .delete () 1, .destroy () none, .add () 1] := by
  refine (always_faithful_iff (by decide) unprepared () _ ?_).mpr ?_
  · simp [LifeOp.OnFamily]
  · refine ⟨trivial, fun st₁ ran => ?_⟩
    obtain rfl := Except.ok.inj ran
    refine ⟨.inr fun k _ other => absurd rfl other, fun st₂ ran => ?_⟩
    obtain rfl := Except.ok.inj ran
    refine ⟨rfl, fun st₃ ran => ⟨trivial, fun _ _ => trivial⟩⟩

/-- An element whose list is destroyed is still marked as linked. -/
theorem always_faithful_fails_destroyed :
    ¬ Always (LifeOp.step 2) (fun st => Faithful [()] [1] st.1) (prepare [()] [1] unprepared, ())
      [.add () 1, .destroy () none] := by
  intro always
  obtain ⟨st, ran, faithful⟩ := always _ List.prefix_rfl
  obtain rfl := Except.ok.inj ran
  obtain ⟨l, _, reached⟩ := (faithful.marked 1 (by decide)).mp (by decide)
  exact reached.elim not_leads_null not_leads_null

end Runs

end CyberPlatform.LList
