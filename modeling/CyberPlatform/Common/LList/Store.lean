/-
**Lists of allocated structures.**

A structure that is linked into a list begins with its `LL_ELEMENT_T`, so the address of the
structure is the address of the element. `Store H P` is the memory of a program that keeps such
structures: the links, the content of the structures of each list, and the addresses that
`malloc` has returned so far. `malloc` does not clear what it returns: the content of a fresh
address is whatever the store holds there.

* `Lists hs st contents` — each list of `hs` is well-formed, and its structures have the given
  contents, in order.
* `Lists.push` — linking a structure that has just been allocated appends its content.
* `llForEach_loop` — `LL_ForEach`, for a callback that does not touch the links, is a loop over the
  elements.
-/

import CyberPlatform.Common.LList.Refinement
import CyberPlatform.Foundation.Loop
import Mathlib.Data.List.Range

set_option linter.unusedSectionVars false

namespace CyberPlatform.LList

open Foundation Foundation.Linked

/-- The memory of a program with lists of structures; those of the list `l` have type `P l`. -/
structure Store (H : Type) (P : H → Type) where
  links : Memory H Nat
  payload : ∀ l, Nat → P l
  fresh : Nat

variable {H : Type} {P : H → Type} [DecidableEq H]

namespace Store

/-- `malloc` of a structure, and `LL_InitElement` of its element. -/
def alloc (st : Store H P) : Store H P :=
  { st with links := llInitElement st.fresh st.links, fresh := st.fresh + 1 }

/-- A store to the structure at `e`. -/
def write (st : Store H P) (l : H) (e : Nat) (p : P l) : Store H P :=
  { st with payload := Function.update st.payload l (Function.update (st.payload l) e p) }

/-- `LListAdd` -/
def link (st : Store H P) (l : H) (e : Nat) : Store H P :=
  { st with links := llistAdd l e st.links }

/-- A new structure, linked into the list `l`. -/
def push (st : Store H P) (l : H) (p : P l) : Store H P :=
  (st.alloc.write l st.fresh p).link l st.fresh

end Store

/-- **The lists are well-formed and have these contents.** Their elements are some of the addresses
that `malloc` has returned. -/
def Lists (hs : List H) (st : Store H P) (contents : ∀ l, List (P l)) : Prop :=
  ∃ es seqs, (∀ e ∈ es, e < st.fresh) ∧ Represents hs es st.links seqs ∧
    ∀ l ∈ hs, (seqs l).map (st.payload l) = contents l

section Family

variable {hs : List H} {st : Store H P} {contents : ∀ l, List (P l)} {seqs : H → List Nat}
  {es : List Nat}

/-- `LL_Init` of every header makes every list empty, whatever the memory held. -/
theorem Lists.init (st : Store H P) (hs : List H) :
    Lists hs { st with links := hs.foldl (fun m l => llInit l m) st.links } fun _ => [] := by
  refine ⟨[], fun _ => [], fun _ none => absurd none List.not_mem_nil, ?_, fun _ _ => rfl⟩
  exact prepare_represents hs [] st.links

/-- The count of a list, if an `int` holds it. -/
theorem Lists.count (lists : Lists hs st contents) {l : H} (header : l ∈ hs)
    (few : (contents l).length < 2 ^ 31) : llCount l st.links = (contents l).length := by
  obtain ⟨es, seqs, _, rep, same⟩ := lists
  have length : (seqs l).length = (contents l).length := by rw [← same l header, List.length_map]
  rw [← length] at few ⊢
  exact (rep.list l header).llCount_eq few

/-- An address outside of the family is in no list. -/
theorem Represents.outside {m : Memory H Nat} (rep : Represents hs es m seqs) {e : Nat}
    (new : e ∉ es) {l : H} (header : l ∈ hs) : e ∉ seqs l :=
  fun inside => new (rep.member l header e inside)

/-- `LL_InitElement` of a new element adds it to the family. -/
theorem Represents.grow {m : Memory H Nat} (rep : Represents hs es m seqs) {e : Nat}
    (new : e ∉ es) : Represents hs (e :: es) (LList.llInitElement e m) seqs where
  list l header := (rep.list l header).llInitElement (rep.outside new header)
  member l header x inside := List.mem_cons_of_mem e (rep.member l header x inside)
  apart := rep.apart
  unlinked x known free := by
    rw [llInitElement_prev, Function.update_apply]
    by_cases same : x = e
    · rw [if_pos same, same]
    · rw [if_neg same]
      exact rep.unlinked x ((List.mem_cons.mp known).resolve_left same) free

/-- A fresh address is new. -/
theorem fresh_new (below : ∀ e ∈ es, e < st.fresh) : st.fresh ∉ es :=
  fun inside => absurd (below _ inside) (lt_irrefl _)

theorem alloc_below (below : ∀ e ∈ es, e < st.fresh) :
    ∀ e ∈ st.fresh :: es, e < st.alloc.fresh := by
  intro e known
  show e < st.fresh + 1
  rcases List.mem_cons.mp known with rfl | known
  · exact Nat.lt_succ_self _
  · exact Nat.lt_succ_of_lt (below e known)

/-- A structure that is stored twice holds what was stored last. -/
theorem Store.write_write (st : Store H P) (l : H) (e : Nat) (p q : P l) :
    (st.write l e p).write l e q = st.write l e q := by
  simp only [write, Function.update_self, Function.update_idem]

theorem Store.write_self (st : Store H P) (l : H) (e : Nat) (p : P l) :
    (st.write l e p).payload l e = p := by
  show Function.update st.payload l (Function.update (st.payload l) e p) l e = p
  rw [Function.update_self, Function.update_self]

theorem Store.write_payload (st : Store H P) (l k : H) (e : Nat) (p : P l) {s : List Nat}
    (outside : k = l → e ∉ s) : s.map ((st.write l e p).payload k) = s.map (st.payload k) := by
  apply List.map_congr_left
  intro x inside
  by_cases same : k = l
  · subst same
    have other : x ≠ e := fun hit => outside rfl (hit ▸ inside)
    show Function.update st.payload k (Function.update (st.payload k) e p) k x = _
    rw [Function.update_self, Function.update_of_ne other]
  · show Function.update st.payload l (Function.update (st.payload l) e p) k x = _
    rw [Function.update_of_ne same]

/-- **Linking a new structure** appends its content to those of its list. -/
theorem Lists.push (lists : Lists hs st contents) {l : H} (header : l ∈ hs) (p : P l) :
    Lists hs (st.push l p) (Function.update contents l (contents l ++ [p])) := by
  obtain ⟨es, seqs, below, rep, same⟩ := lists
  have new := fresh_new below
  have free : ¬ InSome hs seqs st.fresh := fun ⟨k, headerK, inside⟩ =>
    rep.outside new headerK inside
  have linked := add_represents (rep.grow new) header List.mem_cons_self
  rw [seqStep, if_neg free] at linked
  refine ⟨_, _, alloc_below below, linked, fun k headerK => ?_⟩
  show (Function.update seqs l (seqs l ++ [st.fresh]) k).map
    ((st.alloc.write l st.fresh p).payload k) = _
  by_cases here : k = l
  · subst here
    have old := Store.write_payload st.alloc k k st.fresh p fun _ => rep.outside new header
    have stored := Store.write_self st.alloc k st.fresh p
    rw [Function.update_self, Function.update_self, List.map_append, old, List.map_singleton,
      stored]
    exact congrArg (· ++ [p]) (same k header)
  · rw [Function.update_of_ne here, Function.update_of_ne here,
      Store.write_payload st.alloc l k st.fresh p fun hit => absurd hit here]
    exact same k headerK

/-- **Linking new structures**, one after the other. -/
theorem Lists.pushAll {l : H} (header : l ∈ hs) : ∀ (ps : List (P l)) {st : Store H P}
    {contents : ∀ l, List (P l)}, Lists hs st contents →
    Lists hs (ps.foldl (fun st p => st.push l p) st)
      (Function.update contents l (contents l ++ ps)) := by
  intro ps
  induction ps with
  | nil =>
    intro st contents lists
    rw [List.append_nil, Function.update_eq_self]
    exact lists
  | cons p ps ih =>
    intro st contents lists
    have rest := ih (lists.push header p)
    rw [Function.update_self, Function.update_idem, List.append_assoc] at rest
    exact rest

end Family

/-! ### Doing a function over all structures -/

section ForEach

variable {E σ : Type} [DecidableEq E] {memory : σ → Memory H E}
  {func : E → σ → Except Trap (Int × σ)}

/-- The loop of `LL_ForEach`, from anywhere in the list. -/
theorem forEachFrom_loop
    (keeps : ∀ e st ret st', func e st = .ok (ret, st') → memory st' = memory st) {l : H} :
    ∀ (back front : List E) (fuel : Nat) (st : σ), ListRep (memory st) l (front ++ back) →
    back.length < fuel →
    (∃ trap, loop func back st = .error trap ∧
        forEachFrom memory func fuel back.head? st = .error trap) ∨
    (∃ st', loop func back st = .ok (0, st') ∧
        forEachFrom memory func fuel back.head? st = .ok (none, st')) ∨
    ∃ ret st' e, loop func back st = .ok (ret, st') ∧ ret ≠ 0 ∧
        forEachFrom memory func fuel back.head? st = .ok (some e, st') := by
  intro back
  induction back with
  | nil =>
    intro front fuel st _ enough
    obtain ⟨fuel, rfl⟩ : ∃ k, fuel = k + 1 := ⟨fuel - 1, by simp at enough; omega⟩
    exact .inr (.inl ⟨st, rfl, rfl⟩)
  | cons e back ih =>
    intro front fuel st rep enough
    obtain ⟨fuel, rfl⟩ : ∃ k, fuel = k + 1 := ⟨fuel - 1, by simp at enough; omega⟩
    have linked := rep.linked (List.mem_append_right front List.mem_cons_self)
    have successor : (memory st).next e = back.head? := by
      rw [rep.chain.at.2, Option.or_none]
    rw [List.head?_cons, forEachFrom, if_neg (llInList_ne_zero.mpr linked), successor]
    cases called : func e st with
    | error trap => exact .inl ⟨trap, loop_cons_error called back, rfl⟩
    | ok out =>
      obtain ⟨ret, st'⟩ := out
      by_cases stop : ret = 0
      · subst stop
        rw [loop_cons_zero called]
        have rep' : ListRep (memory st') l (front ++ [e] ++ back) := by
          rw [keeps e st 0 st' called, List.append_assoc]
          exact rep
        exact ih (front ++ [e]) fuel st' rep' (by simpa using enough)
      · refine .inr (.inr ⟨ret, st', e, loop_cons_leaves called stop back, stop, ?_⟩)
        exact if_pos stop

/-- **`LL_ForEach` is a loop over the elements**, for a callback that does not touch the links: it
goes wrong where the loop does, and returns an element exactly when the loop is left. -/
theorem llForEach_loop
    (keeps : ∀ e st ret st', func e st = .ok (ret, st') → memory st' = memory st) {l : H}
    {s : List E} {fuel : Nat} {st : σ} (rep : ListRep (memory st) l s) (enough : s.length < fuel) :
    (∃ trap, loop func s st = .error trap ∧ llForEach memory func fuel l st = .error trap) ∨
    (∃ st', loop func s st = .ok (0, st') ∧ llForEach memory func fuel l st = .ok (none, st')) ∨
    ∃ ret st' e, loop func s st = .ok (ret, st') ∧ ret ≠ 0 ∧
        llForEach memory func fuel l st = .ok (some e, st') := by
  unfold llForEach
  rw [rep.head]
  exact forEachFrom_loop keeps s [] fuel st rep enough

end ForEach

section Visit

variable {hs : List H} {st : Store H P} {contents : ∀ l, List (P l)} {σ : Type}

/-- `LL_ForEach` with a callback that reads the structures of a store and works on a cookie. No list
has more elements than were allocated, so the walk needs no more rounds. -/
def visit (st : Store H P) (l : H) (func : P l → σ → Except Trap (Int × σ)) (cookie : σ) :
    Except Trap (Option Nat × σ) :=
  llForEach (fun _ => st.links) (fun e => func (st.payload l e)) (st.fresh + 1) l cookie

/-- **The visit is a loop over the contents.** -/
theorem Lists.visit_loop (lists : Lists hs st contents) {l : H} (header : l ∈ hs)
    (func : P l → σ → Except Trap (Int × σ)) (cookie : σ) :
    (∃ trap, loop func (contents l) cookie = .error trap ∧
        visit st l func cookie = .error trap) ∨
    (∃ cookie', loop func (contents l) cookie = .ok (0, cookie') ∧
        visit st l func cookie = .ok (none, cookie')) ∨
    ∃ ret cookie' e, loop func (contents l) cookie = .ok (ret, cookie') ∧ ret ≠ 0 ∧
        visit st l func cookie = .ok (some e, cookie') := by
  obtain ⟨es, seqs, below, rep, same⟩ := lists
  have short : (seqs l).length ≤ st.fresh := by
    have within : seqs l ⊆ List.range st.fresh := fun e inside =>
      List.mem_range.mpr (below e (rep.member l header e inside))
    have bound := (rep.list l header).nodup.length_le_of_subset within
    rwa [List.length_range] at bound
  rw [← same l header, loop_map]
  exact llForEach_loop (fun _ _ _ _ _ => rfl) (rep.list l header) (by omega)

/-- A visit that is left with -1 when the callback stops it, before the rest of a function. -/
theorem Lists.visit_then (lists : Lists hs st contents) {l : H} (header : l ∈ hs)
    (func : P l → σ → Except Trap (Int × σ)) (rest : σ → Except Trap (Int × σ)) (cookie : σ) :
    (visit st l func cookie >>= fun out => if out.1 ≠ none then .ok (-1, out.2) else rest out.2) =
      loop func (contents l) cookie >>= fun out =>
        if out.1 ≠ 0 then .ok (-1, out.2) else rest out.2 := by
  rcases lists.visit_loop header func cookie with ⟨trap, ran, visited⟩ | ⟨cookie', ran, visited⟩ |
    ⟨ret, cookie', e, ran, leaves, visited⟩
  · rw [ran, visited]
    rfl
  · rw [ran, visited]
    rfl
  · rw [ran, visited, ok_bind, ok_bind, if_pos (Option.some_ne_none e), if_pos leaves]

end Visit

end CyberPlatform.LList
