/-
**`common/llist`: the intrusive doubly linked list.**

The memory of the list library is the `next` and `prev` pointers of every element, and the `head`,
`tail` and `count` of every list header. `E` is the type of the addresses of elements, `H` the type
of the addresses of headers, and a pointer to an element is an `Option E`. Every function below is
the function of `llist.c` with its assignments in the order of the source.

An element that is in no list has its own address in `prev` (`LL_InitElement`), and that is the
only thing `LL_InList` looks at.
-/

import CyberPlatform.Foundation.Trap
import Mathlib.Logic.Function.Basic
import Mathlib.Tactic.Simps.Basic

set_option linter.unusedSectionVars false

namespace CyberPlatform.LList

open Foundation

/-- The link cells and the list headers in memory (`LL_ELEMENT_T` and `LL_T`). -/
@[ext]
structure Memory (H E : Type) where
  next : E → Option E
  prev : E → Option E
  head : H → Option E
  tail : H → Option E
  count : H → Int

variable {H E : Type} [DecidableEq H] [DecidableEq E]

namespace Memory

/-! ### Stores -/

/-- `element->next = v` -/
@[simps -fullyApplied]
def setNext (m : Memory H E) (element : E) (v : Option E) : Memory H E :=
  { m with next := Function.update m.next element v }

/-- `element->prev = v` -/
@[simps -fullyApplied]
def setPrev (m : Memory H E) (element : E) (v : Option E) : Memory H E :=
  { m with prev := Function.update m.prev element v }

/-- `list->head = v` -/
@[simps -fullyApplied]
def setHead (m : Memory H E) (list : H) (v : Option E) : Memory H E :=
  { m with head := Function.update m.head list v }

/-- `list->tail = v` -/
@[simps -fullyApplied]
def setTail (m : Memory H E) (list : H) (v : Option E) : Memory H E :=
  { m with tail := Function.update m.tail list v }

/-- `list->count = v` -/
@[simps -fullyApplied]
def setCount (m : Memory H E) (list : H) (v : Int) : Memory H E :=
  { m with count := Function.update m.count list (int32 v) }

/-- `if (p != NULL) p->next = v` -/
def setNextOf (m : Memory H E) : Option E → Option E → Memory H E
  | none, _ => m
  | some p, v => m.setNext p v

/-- `if (p != NULL) p->prev = v` -/
def setPrevOf (m : Memory H E) : Option E → Option E → Memory H E
  | none, _ => m
  | some p, v => m.setPrev p v

section GuardedStores

variable (m : Memory H E) (p v : Option E)

@[simp] theorem setNextOf_next (x : E) :
    (m.setNextOf p v).next x = if p = some x then v else m.next x := by
  cases p with
  | none => simp [setNextOf]
  | some y => simp [setNextOf, Function.update_apply, eq_comm]

@[simp] theorem setPrevOf_prev (x : E) :
    (m.setPrevOf p v).prev x = if p = some x then v else m.prev x := by
  cases p with
  | none => simp [setPrevOf]
  | some y => simp [setPrevOf, Function.update_apply, eq_comm]

@[simp] theorem setNextOf_prev : (m.setNextOf p v).prev = m.prev := by cases p <;> rfl
@[simp] theorem setNextOf_head : (m.setNextOf p v).head = m.head := by cases p <;> rfl
@[simp] theorem setNextOf_tail : (m.setNextOf p v).tail = m.tail := by cases p <;> rfl
@[simp] theorem setNextOf_count : (m.setNextOf p v).count = m.count := by cases p <;> rfl
@[simp] theorem setPrevOf_next : (m.setPrevOf p v).next = m.next := by cases p <;> rfl
@[simp] theorem setPrevOf_head : (m.setPrevOf p v).head = m.head := by cases p <;> rfl
@[simp] theorem setPrevOf_tail : (m.setPrevOf p v).tail = m.tail := by cases p <;> rfl
@[simp] theorem setPrevOf_count : (m.setPrevOf p v).count = m.count := by cases p <;> rfl

end GuardedStores

end Memory

/-! ### Headers and elements -/

/-- `LL_Init` -/
def llInit (llist : H) (m : Memory H E) : Memory H E :=
  let m := m.setHead llist none
  let m := m.setTail llist none
  m.setCount llist 0

/-- `LL_Detach` -/
def llDetach (llist : H) (m : Memory H E) : Memory H E :=
  let m := m.setHead llist none
  let m := m.setTail llist none
  m.setCount llist 0

/-- `LL_InitElement` -/
def llInitElement (element : E) (m : Memory H E) : Memory H E :=
  let m := m.setNext element none
  m.setPrev element (some element)

/-- `LL_InList`: nonzero when the element belongs to any list. -/
def llInList (element : E) (m : Memory H E) : Int :=
  if m.prev element ≠ some element then 1 else 0

/-- `LL_First` -/
def llFirst (list : H) (m : Memory H E) : Option E := m.head list

/-- `LL_Last` -/
def llLast (list : H) (m : Memory H E) : Option E := m.tail list

/-- `LL_Next` -/
def llNext (m : Memory H E) (element : E) : Option E := m.next element

/-- `LL_Prev` -/
def llPrev (m : Memory H E) (element : E) : Option E :=
  match m.prev element with
  | none => none
  | some p => if llInList p m = 0 then none else some p

/-- `LL_Count` -/
def llCount (list : H) (m : Memory H E) : Int := m.count list

/-- The loop of `LL_Retach`. -/
def retachFrom (llist : H) : Nat → Option E → Memory H E → Except Trap (Memory H E)
  | 0, _, _ => .error .endless
  | _ + 1, none, m => .ok m
  | fuel + 1, some element, m =>
    if llInList element m = 0 then .ok m
    else
      let m := m.setTail llist (some element)
      let m := m.setCount llist (m.count llist + 1)
      retachFrom llist fuel (llNext m element) m

/-- `LL_Retach` -/
def llRetach (fuel : Nat) (llist : H) (element : Option E) (m : Memory H E) :
    Except Trap (Memory H E) :=
  let m := m.setHead llist element
  let m := m.setTail llist element
  retachFrom llist fuel element m

/-! ### Adding and deleting -/

/-- `LListAdd` -/
def llistAdd (llist : H) (element : E) (m : Memory H E) : Memory H E :=
  if m.prev element ≠ some element then m
  else
    let m := m.setNext element none
    let m := m.setPrev element (m.tail llist)
    let m := m.setNextOf (m.tail llist) (some element)
    let m := m.setTail llist (some element)
    let m := if m.head llist = none then m.setHead llist (some element) else m
    m.setCount llist (m.count llist + 1)

/-- `LListAddToStart` -/
def llistAddToStart (list : H) (element : E) (m : Memory H E) : Memory H E :=
  if m.prev element ≠ some element then m
  else
    let m := m.setPrev element none
    let m :=
      match m.head list with
      | some first =>
        let m := m.setNext element (some first)
        let m := m.setPrev first (some element)
        m.setHead list (some element)
      | none =>
        let m := m.setNext element none
        let m := m.setHead list (some element)
        m.setTail list (some element)
    m.setCount list (m.count list + 1)

/-- `LListDelete` -/
def llistDelete (list : H) (element : E) (m : Memory H E) : Memory H E :=
  if m.count list = 0 then m
  else if m.prev element = some element then m
  else
    let m := m.setPrevOf (m.next element) (m.prev element)
    let m := m.setNextOf (m.prev element) (m.next element)
    let m := if m.head list = some element then m.setHead list (m.next element) else m
    let m := if m.tail list = some element then m.setTail list (m.prev element) else m
    let m := if m.count list > 0 then m.setCount list (m.count list - 1) else m
    llInitElement element m

/-- `LLE_AddBefore` -/
def lleAddBefore (element le : E) (m : Memory H E) : Memory H E :=
  let tmp := m.prev element
  let m := m.setPrev element (some le)
  let m := m.setNext le (some element)
  let m := m.setPrev le tmp
  m.setNextOf tmp (some le)

/-! ### Lists without a header -/

/-- `LLE_AddAfter` -/
def lleAddAfter (element le : E) (m : Memory H E) : Memory H E :=
  let tmp := m.next element
  let m := m.setNext element (some le)
  let m := m.setNext le tmp
  let m := m.setPrev le (some element)
  m.setPrevOf tmp (some le)

/-- `while (element->link != NULL) element = element->link;` -/
def lastAlong (link : E → Option E) : Nat → E → Except Trap E
  | 0, _ => .error .endless
  | fuel + 1, element =>
    match link element with
    | none => .ok element
    | some other => lastAlong link fuel other

/-- `LLE_AddAtEnd` -/
def lleAddAtEnd (fuel : Nat) (element le : E) (m : Memory H E) : Except Trap (Memory H E) := do
  let element ← lastAlong m.next fuel element
  return lleAddAfter element le m

/-- `LLE_AddAtStart` -/
def lleAddAtStart (fuel : Nat) (element le : E) (m : Memory H E) : Except Trap (Memory H E) := do
  let element ← lastAlong m.prev fuel element
  return lleAddBefore element le m

/-! ### The sorted list -/

section Sorted

variable {C : Type}

/-- A sorted list header (`LL_SORT_T`): the address of its list header, and its comparator. -/
structure SortHeader (H E C : Type) where
  list : H
  cmp : E → E → C → Int

/-- `LL_InitSort` of a header and a comparator that are not null. -/
def llInitSort (llist : H) (cmp : E → E → C → Int) (m : Memory H E) :
    SortHeader H E C × Memory H E :=
  ({ list := llist, cmp := cmp }, llInit llist m)

/-- The scan of `LListAddSort`: the first element that the new one belongs before. -/
def scanSort (cmp : E → E → C → Int) (element : E) (cookie : C) (m : Memory H E) :
    Nat → Option E → Except Trap (Option E)
  | 0, _ => .error .endless
  | _ + 1, none => .ok none
  | fuel + 1, some curr =>
    if cmp curr element cookie ≤ 0 then scanSort cmp element cookie m fuel (llNext m curr)
    else .ok (some curr)

/-- `LListAddSort` -/
def llistAddSort (fuel : Nat) (llist : SortHeader H E C) (element : E) (cookie : C)
    (m : Memory H E) : Except Trap (Memory H E) := do
  match ← scanSort llist.cmp element cookie m fuel (llFirst llist.list m) with
  | none => return llistAdd llist.list element m
  | some curr =>
    if m.head llist.list = some curr then return llistAddToStart llist.list element m
    else
      let m := lleAddBefore curr element m
      return m.setCount llist.list (m.count llist.list + 1)

end Sorted

/-! ### Doing a function over all elements -/

section ForEach

variable {σ : Type} (memory : σ → Memory H E) (func : E → σ → Except Trap (Int × σ))

/-- The loop of `LL_ForEach`. The callback may change the whole state, the links included; the
successor is read before it is called. -/
def forEachFrom : Nat → Option E → σ → Except Trap (Option E × σ)
  | 0, _, _ => .error .endless
  | _ + 1, none, st => .ok (none, st)
  | fuel + 1, some element, st =>
    if llInList element (memory st) = 0 then .ok (none, st)
    else do
      let safeNext := (memory st).next element
      let (stop, st) ← func element st
      if stop ≠ 0 then .ok (some element, st) else forEachFrom fuel safeNext st

/-- `LL_ForEach`: the element where the callback stopped, or null. -/
def llForEach (fuel : Nat) (list : H) (st : σ) : Except Trap (Option E × σ) :=
  forEachFrom memory func fuel ((memory st).head list) st

/-- The loop of `LL_Destroy`. -/
def destroyFrom : Nat → Option E → σ → Except Trap σ
  | 0, _, _ => .error .endless
  | _ + 1, none, st => .ok st
  | fuel + 1, some element, st =>
    if llInList element (memory st) = 0 then .ok st
    else do
      let safeNext := (memory st).next element
      let (_, st) ← func element st
      destroyFrom fuel safeNext st

end ForEach

/-- `LL_Destroy`; the function may be null. -/
def llDestroy {κ : Type} (fuel : Nat) (llist : H)
    (func : Option (E → Memory H E × κ → Except Trap (Int × Memory H E × κ)))
    (st : Memory H E × κ) : Except Trap (Memory H E × κ) := do
  let (m, cookie) ← match func with
    | none => pure st
    | some func => destroyFrom Prod.fst func fuel (st.1.head llist) st
  let m := m.setHead llist none
  let m := m.setTail llist none
  return (m.setCount llist 0, cookie)

end CyberPlatform.LList
