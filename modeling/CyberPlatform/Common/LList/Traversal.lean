/-
**Traversals of a list that its callback takes apart.**

`LL_ForEach` and `LL_Destroy` read the successor of an element before they call the callback on it,
and the element not at all afterwards. `forEachTrace` and `destroyTrace` are the two loops with a
record of what they read and call; `forEachFrom_erase` and `destroyFrom_erase` say that they are
the loops of `llist.c`.

* `Deed` — what a callback may do with the element it is called on.
* `Deed.represents` — what one call leaves of the lists.
* `forEachTrace_rule` — the rule for a traversal: an invariant relates the elements that are done to
  those ahead of the cursor.
* `traversal_under_mutation` — the two traversals.
-/

import CyberPlatform.Common.LList.Sorted

set_option linter.unusedSectionVars false

namespace CyberPlatform.LList

open Foundation Foundation.Linked

variable {H E : Type} [DecidableEq H] [DecidableEq E]

/-! ### What a traversal reads and calls -/

/-- An access of a traversal itself. -/
inductive Access (E : Type) where
  | readsPrev (element : E)
  | readsNext (element : E)
  | calls (element : E)
  deriving DecidableEq

section Trace

variable {σ : Type} (memory : σ → Memory H E) (func : E → σ → Except Trap (Int × σ))

/-- The loop of `LL_ForEach`, with its accesses. -/
def forEachTrace : Nat → Option E → σ → Except Trap (Option E × σ × List (Access E))
  | 0, _, _ => .error .endless
  | _ + 1, none, st => .ok (none, st, [])
  | fuel + 1, some element, st =>
    if llInList element (memory st) = 0 then .ok (none, st, [.readsPrev element])
    else do
      let here : List (Access E) := [.readsPrev element, .readsNext element, .calls element]
      let safeNext := (memory st).next element
      let (stop, st) ← func element st
      if stop ≠ 0 then return (some element, st, here)
      let (found, st, accesses) ← forEachTrace fuel safeNext st
      return (found, st, here ++ accesses)

/-- The loop of `LL_Destroy`, with its accesses. -/
def destroyTrace : Nat → Option E → σ → Except Trap (σ × List (Access E))
  | 0, _, _ => .error .endless
  | _ + 1, none, st => .ok (st, [])
  | fuel + 1, some element, st =>
    if llInList element (memory st) = 0 then .ok (st, [.readsPrev element])
    else do
      let here : List (Access E) := [.readsPrev element, .readsNext element, .calls element]
      let safeNext := (memory st).next element
      let (_, st) ← func element st
      let (st, accesses) ← destroyTrace fuel safeNext st
      return (st, here ++ accesses)

/-- Without its accesses it is the loop of `LL_ForEach`. -/
theorem forEachFrom_erase : ∀ (fuel : Nat) (start : Option E) (st : σ),
    forEachFrom memory func fuel start st =
      (forEachTrace memory func fuel start st).map fun out => (out.1, out.2.1) := by
  intro fuel
  induction fuel with
  | zero => exact fun _ _ => rfl
  | succ fuel ih =>
    intro start st
    cases start with
    | none => rfl
    | some element =>
      rw [forEachFrom, forEachTrace]
      by_cases outside : llInList element (memory st) = 0
      · rw [if_pos outside, if_pos outside]
        rfl
      · rw [if_neg outside, if_neg outside]
        cases called : func element st with
        | error trap => rfl
        | ok out =>
          obtain ⟨ret, middle⟩ := out
          simp only [ok_bind, ih]
          by_cases stop : ret ≠ 0
          · rw [if_pos stop, if_pos stop]
            rfl
          · rw [if_neg stop, if_neg stop]
            cases forEachTrace memory func fuel ((memory st).next element) middle <;> rfl

/-- Without its accesses it is the loop of `LL_Destroy`. -/
theorem destroyFrom_erase : ∀ (fuel : Nat) (start : Option E) (st : σ),
    destroyFrom memory func fuel start st =
      (destroyTrace memory func fuel start st).map Prod.fst := by
  intro fuel
  induction fuel with
  | zero => exact fun _ _ => rfl
  | succ fuel ih =>
    intro start st
    cases start with
    | none => rfl
    | some element =>
      rw [destroyFrom, destroyTrace]
      by_cases outside : llInList element (memory st) = 0
      · rw [if_pos outside, if_pos outside]
        rfl
      · rw [if_neg outside, if_neg outside]
        cases called : func element st with
        | error trap => rfl
        | ok out =>
          obtain ⟨ret, middle⟩ := out
          simp only [ok_bind, ih]
          cases destroyTrace memory func fuel ((memory st).next element) middle <;> rfl

/-- A callback whose value is ignored. -/
def ignoring (element : E) (st : σ) : Except Trap (Int × σ) := do
  let (_, st) ← func element st
  return (0, st)

/-- `LL_Destroy` goes on whatever its callback returns. -/
theorem destroyTrace_eq : ∀ (fuel : Nat) (start : Option E) (st : σ),
    destroyTrace memory func fuel start st =
      (forEachTrace memory (ignoring func) fuel start st).map Prod.snd := by
  intro fuel
  induction fuel with
  | zero => exact fun _ _ => rfl
  | succ fuel ih =>
    intro start st
    cases start with
    | none => rfl
    | some element =>
      rw [forEachTrace, destroyTrace]
      by_cases outside : llInList element (memory st) = 0
      · rw [if_pos outside, if_pos outside]
        rfl
      · rw [if_neg outside, if_neg outside]
        cases called : func element st with
        | error trap =>
          rw [ignoring, called]
          rfl
        | ok out =>
          obtain ⟨ret, middle⟩ := out
          have ignored : ignoring func element st = .ok (0, middle) := by
            rw [ignoring, called]
            rfl
          simp only [ignored, ok_bind, ih, ne_eq, not_true_eq_false, if_false]
          cases forEachTrace memory (ignoring func) fuel ((memory st).next element) middle <;> rfl

end Trace

/-! ### What a callback does -/

/-- What is left in the memory of an element that is freed: anything. -/
def Memory.overwrite (m : Memory H E) (e : E) (next prev : Option E) : Memory H E :=
  (m.setNext e next).setPrev e prev

/-- What a callback does with the element it is called on; `other` are the other lists. -/
inductive Deed (E C : Type) {H : Type} (other : H → Prop) where
  | leave
  | delete
  | deleteAdd (k : H) (apart : other k)
  | deleteAddToStart (k : H) (apart : other k)
  | deleteAddSort (k : H) (apart : other k) (cmp : E → E → C → Int) (cookie : C)
  | deleteFree (next prev : Option E)

namespace Deed

variable {C : Type} {other : H → Prop}

/-- The element stays in the list. -/
def stays : Deed E C other → Bool
  | leave => true
  | _ => false

/-- The deed, on an element `e` of the list `l`. -/
def run (fuel : Nat) (l : H) (e : E) (deed : Deed E C other) (m : Memory H E) :
    Except Trap (Memory H E) :=
  match deed with
  | leave => .ok m
  | delete => .ok (llistDelete l e m)
  | deleteAdd k _ => .ok (llistAdd k e (llistDelete l e m))
  | deleteAddToStart k _ => .ok (llistAddToStart k e (llistDelete l e m))
  | deleteAddSort k _ cmp cookie => llistAddSort fuel ⟨k, cmp⟩ e cookie (llistDelete l e m)
  | deleteFree next prev => .ok ((llistDelete l e m).overwrite e next prev)

end Deed

/-- A call of a callback, with what it did. -/
structure Call (E D : Type) where
  element : E
  ret : Int
  deed : D

/-- The callback that chooses what to do from the memory and its cookie, with a record of its
calls. -/
def callback {D κ : Type} (run : E → D → Memory H E → Except Trap (Memory H E))
    (choose : E → Memory H E × κ → Int × D × κ) (e : E)
    (st : Memory H E × κ × List (Call E D)) :
    Except Trap (Int × Memory H E × κ × List (Call E D)) := do
  let (m, cookie, calls) := st
  let (ret, deed, cookie) := choose e (m, cookie)
  let m ← run e deed m
  return (ret, m, cookie, calls ++ [⟨e, ret, deed⟩])

/-- A callback that frees its element, which stays linked. -/
def freeLinked (e : E) (left : Option E × Option E) (m : Memory H E) : Except Trap (Memory H E) :=
  .ok (m.overwrite e left.1 left.2)

section Deeds

variable {hs : List H} {es : List E} {m : Memory H E} {seqs : H → List E} {l : H} {x : E}
  {kept ahead : List E}

/-- The memory of another element does not matter to a list. -/
theorem ListRep.overwrite {s : List E} (rep : ListRep m l s) (outside : x ∉ s)
    (next prev : Option E) : ListRep (m.overwrite x next prev) l s where
  nodup := rep.nodup
  chain := by
    refine rep.chain.congr fun y inside => ?_
    have other : y ≠ x := fun same => outside (same ▸ inside)
    exact ⟨Function.update_of_ne other _ _, Function.update_of_ne other _ _⟩
  head := rep.head
  tail := rep.tail
  count := rep.count

/-- An element in no list is freed: it leaves the family. -/
theorem Represents.overwrite (rep : Represents hs es m seqs) (free : ¬ InSome hs seqs x)
    (next prev : Option E) :
    Represents hs (es.filter (· ≠ x)) (m.overwrite x next prev) seqs where
  list k header := (rep.list k header).overwrite (fun inside => free ⟨k, header, inside⟩) next prev
  member k header y inside := by
    refine List.mem_filter.mpr ⟨rep.member k header y inside, decide_eq_true fun same => ?_⟩
    exact free ⟨k, header, same ▸ inside⟩
  apart := rep.apart
  unlinked y known outside := by
    obtain ⟨known, other⟩ := List.mem_filter.mp known
    rw [← rep.unlinked y known outside]
    exact Function.update_of_ne (of_decide_eq_true other) _ _

/-- `LListDelete` of an element of a list: it is in no list any more. -/
theorem Represents.deleted (few : es.length < 2 ^ 31) (rep : Represents hs es m seqs)
    (header : l ∈ hs) (sequence : seqs l = kept ++ x :: ahead) :
    Represents hs es (llistDelete l x m) (Function.update seqs l (kept ++ ahead)) ∧
      ¬ InSome hs (Function.update seqs l (kept ++ ahead)) x := by
  have inside : x ∈ seqs l := sequence ▸ List.mem_append_right kept List.mem_cons_self
  have counted := rep.count_pos few header inside
  refine ⟨rep.linkedOut header sequence
    (llistDelete_linkedOut (sequence ▸ rep.list l header) counted), ?_⟩
  rintro ⟨k, headerK, still⟩
  by_cases same : k = l
  · subst same
    rw [Function.update_self] at still
    have nodup := List.nodup_middle.mp (sequence ▸ (rep.list k header).nodup)
    exact (List.nodup_cons.mp nodup).1 still
  · rw [Function.update_of_ne same] at still
    exact rep.apart l header k headerK same x inside still

/-- **One call** of a callback on an element of the list leaves well-formed lists, and the list
without the element, unless it stays. -/
theorem Deed.represents {C : Type} (few : es.length < 2 ^ 31) (rep : Represents hs es m seqs)
    (header : l ∈ hs) (sequence : seqs l = kept ++ x :: ahead) {fuel : Nat}
    (enough : es.length < fuel) (deed : Deed E C fun k => k ∈ hs ∧ k ≠ l) :
    ∃ m' es' seqs', deed.run fuel l x m = .ok m' ∧ es'.length ≤ es.length ∧
      Represents hs es' m' seqs' ∧
      seqs' l = (if deed.stays then kept ++ [x] else kept) ++ ahead := by
  have known : x ∈ es :=
    rep.member l header x (sequence ▸ List.mem_append_right kept List.mem_cons_self)
  obtain ⟨deleted, free⟩ := rep.deleted few header sequence
  have elsewhere : ∀ {k : H} {s : List E}, k ≠ l →
      Function.update (Function.update seqs l (kept ++ ahead)) k s l = kept ++ ahead := by
    intro k s other
    rw [Function.update_of_ne other.symm, Function.update_self]
  cases deed with
  | leave =>
    refine ⟨m, es, seqs, rfl, le_rfl, rep, ?_⟩
    rw [sequence, stays, if_pos rfl, List.append_assoc]
    rfl
  | delete => exact ⟨_, es, _, rfl, le_rfl, deleted, Function.update_self ..⟩
  | deleteAdd k apart =>
    have added := add_represents deleted apart.1 known
    rw [seqStep, if_neg free] at added
    exact ⟨_, es, _, rfl, le_rfl, added, elsewhere apart.2⟩
  | deleteAddToStart k apart =>
    have added := addToStart_represents deleted apart.1 known
    rw [seqStep, if_neg free] at added
    exact ⟨_, es, _, rfl, le_rfl, added, elsewhere apart.2⟩
  | deleteAddSort k apart cmp cookie =>
    have short := deleted.length_le apart.1
    obtain ⟨m', ran, edit⟩ := llistAddSort_linkedIn cmp cookie (deleted.list k apart.1)
      (deleted.unlinked x known free) (lt_of_le_of_lt short enough)
    refine ⟨m', es, _, ran, le_rfl, deleted.linkedIn apart.1 known free ?_ edit, elsewhere apart.2⟩
    exact List.takeWhile_append_dropWhile.symm
  | deleteFree next prev =>
    exact ⟨_, _, _, rfl, List.length_filter_le _ _, deleted.overwrite free next prev,
      Function.update_self ..⟩

end Deeds

/-! ### The rule for a traversal -/

/-- How a traversal ends: at the first call that returns nonzero, or behind the last element. -/
def Ended (seen : List (E × Int)) (rest : List E) (stop : Option E) : Prop :=
  (stop = none ∧ rest = [] ∧ ∀ call ∈ seen, call.2 = 0) ∨
  ∃ front x ret, seen = front ++ [(x, ret)] ∧ ret ≠ 0 ∧ stop = some x ∧ ∀ call ∈ front, call.2 = 0

/-- The accesses to one element. -/
def accesses (x : E) : List (Access E) := [.readsPrev x, .readsNext x, .calls x]

/-- No element is read behind the call on it. -/
def ReadsBefore (trace : List (Access E)) : Prop :=
  trace.Pairwise fun a b => ∀ x, a = .calls x → b ≠ .readsPrev x ∧ b ≠ .readsNext x

theorem readsBefore_accesses {s : List E} (nodup : s.Nodup) :
    ReadsBefore (s.flatMap accesses) := by
  unfold ReadsBefore
  rw [List.pairwise_flatMap]
  constructor
  · intro x _
    simp [accesses]
  · refine nodup.imp fun {x y} other a first b second z call => ?_
    simp only [accesses, List.mem_cons, List.not_mem_nil, or_false] at first second
    subst call
    have here : z = x := by simpa using first
    subst here
    rcases second with rfl | rfl | rfl <;> simp [other.symm]

section Rule

variable {σ : Type} {memory : σ → Memory H E} {func : E → σ → Except Trap (Int × σ)}

/-- **The rule for a traversal under mutation**: `P` relates the calls that are done, the elements
ahead of the cursor, and the state. It makes sure that the next element can be read, and every call
keeps it. -/
theorem forEachTrace_rule {P : List (E × Int) → List E → σ → Prop}
    (ready : ∀ done x ahead st, P done (x :: ahead) st →
      llInList x (memory st) ≠ 0 ∧ (memory st).next x = ahead.head?)
    (one : ∀ done x ahead st, P done (x :: ahead) st →
      ∃ ret st', func x st = .ok (ret, st') ∧ P (done ++ [(x, ret)]) ahead st') :
    ∀ (ahead : List E) (done : List (E × Int)) (fuel : Nat) (st : σ), ahead.length < fuel →
      P done ahead st → ∃ stop st' seen rest,
        forEachTrace memory func fuel ahead.head? st =
          .ok (stop, st', (seen.map Prod.fst).flatMap accesses) ∧
        ahead = seen.map Prod.fst ++ rest ∧ Ended seen rest stop ∧ P (done ++ seen) rest st' := by
  intro ahead
  induction ahead with
  | nil =>
    intro done fuel st enough holds
    obtain ⟨fuel, rfl⟩ : ∃ k, fuel = k + 1 := ⟨fuel - 1, by simp at enough; omega⟩
    refine ⟨none, st, [], [], rfl, rfl, .inl ⟨rfl, rfl, fun _ none => ?_⟩, ?_⟩
    · exact absurd none List.not_mem_nil
    · rwa [List.append_nil]
  | cons x ahead ih =>
    intro done fuel st enough holds
    obtain ⟨fuel, rfl⟩ : ∃ k, fuel = k + 1 := ⟨fuel - 1, by simp at enough; omega⟩
    obtain ⟨linked, successor⟩ := ready done x ahead st holds
    obtain ⟨ret, middle, called, holds⟩ := one done x ahead st holds
    rw [List.head?_cons, forEachTrace, if_neg linked, called, ok_bind, successor]
    by_cases stop : ret ≠ 0
    · refine ⟨some x, middle, [(x, ret)], ahead, if_pos stop, rfl, ?_, holds⟩
      exact .inr ⟨[], x, ret, rfl, stop, rfl, fun _ none => absurd none List.not_mem_nil⟩
    · obtain ⟨found, st', seen, rest, ran, split, ended, after⟩ :=
        ih (done ++ [(x, ret)]) fuel middle (by simpa using enough) holds
      refine ⟨found, st', (x, ret) :: seen, rest, ?_, ?_, ?_, ?_⟩
      · simp only [if_neg stop, ran, ok_bind]
        rfl
      · rw [split]
        rfl
      · rcases ended with ⟨rfl, rfl, zero⟩ | ⟨front, y, code, rfl, nonzero, rfl, zero⟩
        · exact .inl ⟨rfl, rfl, List.forall_mem_cons.mpr ⟨not_not.mp stop, zero⟩⟩
        · exact .inr ⟨(x, ret) :: front, y, code, rfl, nonzero, rfl,
            List.forall_mem_cons.mpr ⟨not_not.mp stop, zero⟩⟩
      · rwa [List.append_assoc] at after

/-- The rule for `LL_Destroy`, which sees all elements and leaves an empty header. -/
theorem llDestroy_rule {κ : Type} {func : E → Memory H E × κ → Except Trap (Int × Memory H E × κ)}
    {P : List E → List E → Memory H E × κ → Prop}
    (ready : ∀ done x ahead st, P done (x :: ahead) st →
      llInList x st.1 ≠ 0 ∧ st.1.next x = ahead.head?)
    (one : ∀ done x ahead st, P done (x :: ahead) st →
      ∃ ret st', func x st = .ok (ret, st') ∧ P (done ++ [x]) ahead st')
    {s : List E} {l : H} {fuel : Nat} {st : Memory H E × κ} (head : st.1.head l = s.head?)
    (enough : s.length < fuel) (start : P [] s st) :
    ∃ st' m', destroyTrace Prod.fst func fuel (st.1.head l) st = .ok (st', s.flatMap accesses) ∧
      llDestroy fuel l (some func) st = .ok (m', st'.2) ∧ Fresh l m' ∧ P s [] st' := by
  have step : ∀ (done : List (E × Int)) x ahead st,
      ((∀ call ∈ done, call.2 = 0) ∧ P (done.map Prod.fst) (x :: ahead) st) →
      ∃ ret st', ignoring func x st = .ok (ret, st') ∧
        (∀ call ∈ done ++ [(x, ret)], call.2 = 0) ∧
        P ((done ++ [(x, ret)]).map Prod.fst) ahead st' := by
    rintro done x ahead st ⟨zero, holds⟩
    obtain ⟨ret, st', called, holds⟩ := one _ x ahead st holds
    refine ⟨0, st', ?_, ?_, ?_⟩
    · rw [ignoring, called]
      rfl
    · rw [List.forall_mem_append, List.forall_mem_singleton]
      exact ⟨zero, rfl⟩
    · rwa [List.map_append]
  obtain ⟨stop, st', seen, rest, ran, split, ended, zero, holds⟩ := forEachTrace_rule
    (P := fun done ahead st => (∀ call ∈ done, call.2 = 0) ∧ P (done.map Prod.fst) ahead st)
    (fun done x ahead st holds => ready _ x ahead st holds.2) step s [] fuel st enough
    ⟨fun _ none => absurd none List.not_mem_nil, start⟩
  rcases ended with ⟨rfl, rfl, _⟩ | ⟨front, x, ret, rfl, nonzero, _⟩
  · rw [List.append_nil] at split
    rw [List.nil_append, ← split] at holds
    have walked : destroyTrace Prod.fst func fuel (st.1.head l) st =
        .ok (st', s.flatMap accesses) := by
      rw [destroyTrace_eq, head, ran, split]
      rfl
    refine ⟨st', llInit l st'.1, walked, ?_, llInit_fresh l st'.1, holds⟩
    unfold llDestroy
    simp only [destroyFrom_erase, walked]
    rfl
  · exact absurd (zero (x, ret) (by simp)) nonzero

end Rule

/-! ### The two traversals -/

/-- The elements that their calls left in the list. -/
def stayed {C : Type} {other : H → Prop} (calls : List (Call E (Deed E C other))) : List E :=
  (calls.filter (·.deed.stays)).map (·.element)

section Callbacks

variable {D κ : Type} {run : E → D → Memory H E → Except Trap (Memory H E)}
  (choose : E → Memory H E × κ → Int × D × κ)

/-- A callback whose deed is done returns what it chose, and records the call. -/
theorem callback_eq {x : E} {m m' : Memory H E} {cookie : κ} (calls : List (Call E D))
    (done : run x (choose x (m, cookie)).2.1 m = .ok m') :
    let chosen := choose x (m, cookie)
    callback run choose x (m, cookie, calls) =
      .ok (chosen.1, m', chosen.2.2, calls ++ [⟨x, chosen.1, chosen.2.1⟩]) := by
  intro chosen
  unfold callback
  simp only [done, ok_bind]
  rfl

end Callbacks

section Traversals

variable {hs : List H} {es : List E} {m : Memory H E} {seqs : H → List E} {l : H} {C κ : Type}

/-- Behind some calls, which are seen as `done`: the list is the elements that stayed and those
ahead. -/
def Dismantled {β : Type} (hs : List H) (es : List E) (l : H)
    (view : Call E (Deed E C fun k => k ∈ hs ∧ k ≠ l) → β) (done : List β) (ahead : List E)
    (st : Memory H E × κ × List (Call E (Deed E C fun k => k ∈ hs ∧ k ≠ l))) : Prop :=
  done = st.2.2.map view ∧ ∃ es' seqs', es'.length ≤ es.length ∧
    Represents hs es' st.1 seqs' ∧ seqs' l = stayed st.2.2 ++ ahead

section Dismantle

variable {β : Type} {view : Call E (Deed E C fun k => k ∈ hs ∧ k ≠ l) → β} {done : List β}
  {ahead : List E} {x : E}
  {st : Memory H E × κ × List (Call E (Deed E C fun k => k ∈ hs ∧ k ≠ l))}

/-- The next element can be read. -/
theorem Dismantled.ready (header : l ∈ hs) (holds : Dismantled hs es l view done (x :: ahead) st) :
    llInList x st.1 ≠ 0 ∧ st.1.next x = ahead.head? := by
  obtain ⟨_, _, seqs', _, rep, sequence⟩ := holds
  have list := sequence ▸ rep.list l header
  refine ⟨llInList_ne_zero.mpr (list.linked (List.mem_append_right _ List.mem_cons_self)), ?_⟩
  rw [list.chain.at.2, Option.or_none]

/-- A call keeps the invariant. -/
theorem Dismantled.call (few : es.length < 2 ^ 31) {fuel : Nat} (enough : es.length < fuel)
    (header : l ∈ hs)
    (choose : E → Memory H E × κ → Int × Deed E C (fun k => k ∈ hs ∧ k ≠ l) × κ)
    (holds : Dismantled hs es l view done (x :: ahead) st) :
    ∃ call st', callback (fun e deed => deed.run fuel l e) choose x st = .ok (call.ret, st') ∧
      call.element = x ∧ Dismantled hs es l view (done ++ [view call]) ahead st' := by
  obtain ⟨m, cookie, calls⟩ := st
  obtain ⟨rfl, es', seqs', less, rep, sequence⟩ := holds
  obtain ⟨m', es'', seqs'', ran, less', rep', sequence'⟩ :=
    (choose x (m, cookie)).2.1.represents (lt_of_le_of_lt less few) rep header sequence
      (lt_of_le_of_lt less enough)
  refine ⟨⟨x, _, (choose x (m, cookie)).2.1⟩, _, callback_eq choose calls ran, rfl, ?_, es'',
    seqs'', less'.trans less, rep', sequence'.trans ?_⟩
  · rw [List.map_append]
    rfl
  · congr 1
    unfold stayed
    rw [List.filter_append, List.map_append]
    cases stays : (choose x (m, cookie)).2.1.stays <;> simp [stays]

end Dismantle

/-- Behind some calls that free their elements: those ahead are linked as they were. -/
def Abandoned (done ahead : List E)
    (st : Memory H E × κ × List (Call E (Option E × Option E))) : Prop :=
  done = st.2.2.map (·.element) ∧ (done ++ ahead).Nodup ∧
    Chain st.1.next st.1.prev done.getLast? ahead none

section Abandon

variable {done ahead : List E} {x : E}
  {st : Memory H E × κ × List (Call E (Option E × Option E))}

/-- The next element can be read. -/
theorem Abandoned.ready (holds : Abandoned done (x :: ahead) st) :
    llInList x st.1 ≠ 0 ∧ st.1.next x = ahead.head? := by
  obtain ⟨_, nodup, chain⟩ := holds
  refine ⟨llInList_ne_zero.mpr ?_, by rw [chain.2.1, Option.or_none]⟩
  rw [chain.1]
  intro last
  exact (List.nodup_append.mp nodup).2.2 x (List.mem_of_getLast? last) x List.mem_cons_self rfl

/-- A call keeps the invariant. -/
theorem Abandoned.call (choose : E → Memory H E × κ → Int × (Option E × Option E) × κ)
    (holds : Abandoned done (x :: ahead) st) :
    ∃ ret st', callback freeLinked choose x st = .ok (ret, st') ∧
      Abandoned (done ++ [x]) ahead st' := by
  obtain ⟨m, cookie, calls⟩ := st
  obtain ⟨rfl, nodup, chain⟩ := holds
  refine ⟨_, _, callback_eq choose calls rfl, ?_, ?_, ?_⟩
  · rw [List.map_append]
    rfl
  · rw [List.append_assoc]
    exact nodup
  · rw [List.getLast?_concat]
    refine chain.2.2.congr fun y inside => ?_
    have other : y ≠ x := fun same =>
      (List.nodup_cons.mp (List.nodup_append.mp nodup).2.1).1 (same ▸ inside)
    exact ⟨Function.update_of_ne other _ _, Function.update_of_ne other _ _⟩

end Abandon

/-- **Traversal under mutation.** For every list of a well-formed family, every callback that leaves
each element alone, deletes it, or deletes it and adds it to another list or frees it, as it likes:
`LL_ForEach` calls it on the elements in their order, each once, up to the first call that returns
nonzero, and leaves the list without the elements that were deleted. `LL_Destroy` calls it on all
elements, also one that frees them while they are linked, and leaves an empty header. Neither of
them reads an element behind the call on it. -/
theorem traversal_under_mutation (few : es.length < 2 ^ 31) (rep : Represents hs es m seqs)
    (header : l ∈ hs) (cookie : κ) {fuel : Nat} (enough : es.length < fuel) :
    (∀ choose : E → Memory H E × κ → Int × Deed E C (fun k => k ∈ hs ∧ k ≠ l) × κ,
      let func := callback (fun e deed => deed.run fuel l e) choose
      ∃ stop m' cookie' calls rest trace,
        llForEach Prod.fst func fuel l (m, cookie, []) = .ok (stop, m', cookie', calls) ∧
        forEachTrace Prod.fst func fuel (m.head l) (m, cookie, []) =
          .ok (stop, (m', cookie', calls), trace) ∧
        seqs l = calls.map (·.element) ++ rest ∧
        Ended (calls.map fun call => (call.element, call.ret)) rest stop ∧
        ListRep m' l (stayed calls ++ rest) ∧ llCount l m' = (stayed calls ++ rest).length ∧
        ReadsBefore trace) ∧
    (∀ choose : E → Memory H E × κ → Int × Deed E C (fun k => k ∈ hs ∧ k ≠ l) × κ,
      let func := callback (fun e deed => deed.run fuel l e) choose
      ∃ m' st' trace, llDestroy fuel l (some func) (m, cookie, []) = .ok (m', st'.2) ∧
        destroyTrace Prod.fst func fuel (m.head l) (m, cookie, []) = .ok (st', trace) ∧
        st'.2.2.map (·.element) = seqs l ∧ Fresh l m' ∧ ReadsBefore trace) ∧
    ∀ choose : E → Memory H E × κ → Int × (Option E × Option E) × κ,
      let func := callback freeLinked choose
      ∃ m' st' trace, llDestroy fuel l (some func) (m, cookie, []) = .ok (m', st'.2) ∧
        destroyTrace Prod.fst func fuel (m.head l) (m, cookie, []) = .ok (st', trace) ∧
        st'.2.2.map (·.element) = seqs l ∧ Fresh l m' ∧ ReadsBefore trace := by
  have list := rep.list l header
  have short := lt_of_le_of_lt (rep.length_le header) enough
  have reads := readsBefore_accesses list.nodup
  refine ⟨fun choose => ?_, fun choose => ?_, fun choose => ?_⟩
  · intro func
    obtain ⟨stop, ⟨m', cookie', calls⟩, seen, rest, ran, split, ended, rfl, es', seqs', less, rep',
      sequence⟩ := forEachTrace_rule
      (P := Dismantled hs es l fun call => (call.element, call.ret))
      (fun _ _ _ _ holds => holds.ready header)
      (fun _ x _ _ holds =>
        have ⟨call, st', ran, same, kept⟩ := holds.call few enough header choose
        ⟨call.ret, st', ran, same ▸ kept⟩)
      (seqs l) [] fuel (m, cookie, []) short ⟨rfl, es, seqs, le_rfl, rep, rfl⟩
    have list' := sequence ▸ rep'.list l header
    have counted : (stayed calls ++ rest).length < 2 ^ 31 := by
      have short' := rep'.length_le header
      rw [sequence] at short'
      exact lt_of_le_of_lt (short'.trans less) few
    refine ⟨stop, m', cookie', calls, rest, _, ?_, list.head ▸ ran, ?_, ended, list',
      list'.llCount_eq counted, ?_⟩
    · unfold llForEach
      rw [forEachFrom_erase, list.head, ran]
      rfl
    · rwa [List.map_map] at split
    · refine readsBefore_accesses (list.nodup.sublist ?_)
      rw [split]
      exact List.sublist_append_left _ _
  · intro func
    have start : Dismantled hs es l
        (fun call : Call E (Deed E C fun k => k ∈ hs ∧ k ≠ l) => call.element) [] (seqs l)
        (m, cookie, []) := ⟨rfl, es, seqs, le_rfl, rep, rfl⟩
    obtain ⟨st', m', walked, ran, fresh, calls_eq, _⟩ := llDestroy_rule
      (P := Dismantled hs es l fun call => call.element)
      (fun _ _ _ _ holds => holds.ready header)
      (fun _ x _ _ holds =>
        have ⟨call, st', ran, same, kept⟩ := holds.call few enough header choose
        ⟨call.ret, st', ran, same ▸ kept⟩)
      (by exact list.head) short start
    exact ⟨m', st', _, ran, walked, calls_eq.symm, fresh, reads⟩
  · intro func
    have start : Abandoned [] (seqs l) (m, cookie, []) := ⟨rfl, list.nodup, list.chain⟩
    obtain ⟨st', m', walked, ran, fresh, calls_eq, _⟩ := llDestroy_rule (P := Abandoned)
      (fun _ _ _ _ holds => holds.ready) (fun _ _ _ _ holds => holds.call choose)
      (by exact list.head) short start
    exact ⟨m', st', _, ran, walked, calls_eq.symm, fresh, reads⟩

/-- The first element stays, the second one is moved to the other list, and the third one stops the
traversal. -/
def moveSecond (e : Nat) (st : Memory Bool Nat × Unit) :
    Int × Deed Nat Unit (fun k => k ∈ [false, true] ∧ k ≠ false) × Unit :=
  if e = 2 then (0, .deleteAdd true (by decide), st.2)
  else (if e = 3 then 1 else 0, .leave, st.2)

theorem traversal_under_mutation_moved :
    let m := [Op.add false 1, .add false 2, .add false 3].foldl Op.step
      (prepare [false, true] [1, 2, 3] ⟨fun _ => none, fun _ => none, fun _ => none, fun _ => none,
        fun _ => 0⟩)
    ∃ m' calls, llForEach Prod.fst (callback (fun e deed => deed.run 4 false e) moveSecond) 4 false
          (m, (), []) = .ok (some 3, m', (), calls) ∧
      calls.map (·.element) = [1, 2, 3] ∧ ListRep m' false [1, 3] ∧ llCount false m' = 2 := by
  intro m
  have rep : Represents [false, true] [1, 2, 3] m
      ([Op.add false 1, .add false 2, .add false 3].foldl (seqStep [false, true]) fun _ => []) :=
    run_represents (by decide) _ _ (by decide)
  have enough : [1, 2, 3].length < 4 := by decide
  obtain ⟨stop, m', cookie', calls, rest, _, ran, _, split, _, list, count, _⟩ :=
    (traversal_under_mutation (C := Unit) (κ := Unit) (by decide) rep (l := false) (by decide) ()
      enough).1 moveSecond
  obtain ⟨last, concrete⟩ : ∃ last, llForEach Prod.fst
      (callback (fun e deed => deed.run 4 false e) moveSecond) 4 false (m, (), []) =
        .ok (some 3, last, (), [⟨1, 0, .leave⟩, ⟨2, 0, .deleteAdd true (by decide)⟩,
          ⟨3, 1, .leave⟩]) := ⟨_, rfl⟩
  cases concrete.symm.trans ran
  have whole : [1, 2, 3] ++ [] = [1, 2, 3] ++ rest := split
  obtain rfl := List.append_cancel_left whole
  exact ⟨m', _, concrete, rfl, list, count⟩

end Traversals

end CyberPlatform.LList
