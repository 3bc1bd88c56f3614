/-
**The list library refines a family of sequences.**

The abstract machine keeps one sequence of elements for every list header. `LListAdd` appends,
`LListAddToStart` prepends, both only to an element that is in no sequence; `LListDelete` erases.
`Represents hs es m seqs` ties the memory to it: each header represents its sequence, no element is
in two of them, and an element that is in none carries the mark of `LL_InitElement`.

* `Represents.linkedIn`, `Represents.linkedOut` — one edit of one list, seen by the whole family.
* `step_represents` — one call.
* `run_represents` — every admitted run from memory prepared by `LL_Init` and `LL_InitElement`.
-/

import CyberPlatform.Common.LList.Represents
import CyberPlatform.Foundation.Run

set_option linter.unusedSectionVars false

namespace CyberPlatform.LList

open Foundation Foundation.Linked

variable {H E : Type} [DecidableEq H] [DecidableEq E]

/-! ### The abstract machine -/

/-- A call of the list library. -/
inductive Op (H E : Type) where
  | add (llist : H) (element : E)
  | addToStart (list : H) (element : E)
  | delete (list : H) (element : E)

/-- The call, as the code makes it. -/
def Op.step (m : Memory H E) : Op H E → Memory H E
  | add l e => llistAdd l e m
  | addToStart l e => llistAddToStart l e m
  | delete l e => llistDelete l e m

/-- The element is in one of the sequences. -/
def InSome (hs : List H) (seqs : H → List E) (e : E) : Prop := ∃ l ∈ hs, e ∈ seqs l

instance (hs : List H) (seqs : H → List E) (e : E) : Decidable (InSome hs seqs e) :=
  inferInstanceAs (Decidable (∃ l ∈ hs, e ∈ seqs l))

/-- The call, as it acts on the sequences. -/
def seqStep (hs : List H) (seqs : H → List E) : Op H E → H → List E
  | .add l e => if InSome hs seqs e then seqs else Function.update seqs l (seqs l ++ [e])
  | .addToStart l e => if InSome hs seqs e then seqs else Function.update seqs l (e :: seqs l)
  | .delete l e => Function.update seqs l ((seqs l).erase e)

/-- The call is on the family, and an element to delete is in that list or in none. -/
def Admits (hs : List H) (es : List E) (seqs : H → List E) : Op H E → Prop
  | .add l e => l ∈ hs ∧ e ∈ es
  | .addToStart l e => l ∈ hs ∧ e ∈ es
  | .delete l e => l ∈ hs ∧ e ∈ es ∧ (e ∈ seqs l ∨ ¬ InSome hs seqs e)

instance (hs : List H) (es : List E) (seqs : H → List E) :
    ∀ op, Decidable (Admits hs es seqs op)
  | .add l e => inferInstanceAs (Decidable (l ∈ hs ∧ e ∈ es))
  | .addToStart l e => inferInstanceAs (Decidable (l ∈ hs ∧ e ∈ es))
  | .delete l e =>
    inferInstanceAs (Decidable (l ∈ hs ∧ e ∈ es ∧ (e ∈ seqs l ∨ ¬ InSome hs seqs e)))

/-! ### The representation of a family -/

/-- **The headers of `hs` represent their sequences**, made of the elements of `es`. -/
structure Represents (hs : List H) (es : List E) (m : Memory H E) (seqs : H → List E) :
    Prop where
  list : ∀ l ∈ hs, ListRep m l (seqs l)
  member : ∀ l ∈ hs, ∀ e ∈ seqs l, e ∈ es
  apart : ∀ l ∈ hs, ∀ k ∈ hs, k ≠ l → ∀ e ∈ seqs l, e ∉ seqs k
  unlinked : ∀ e ∈ es, ¬ InSome hs seqs e → m.prev e = some e

section Family

variable {hs : List H} {es : List E} {m m' : Memory H E} {seqs : H → List E} {l : H} {a : E}
  {s t : List E}

/-- The mark of `LL_InitElement` is exactly on the elements that are in no list. -/
theorem Represents.linked_iff (rep : Represents hs es m seqs) (known : a ∈ es) :
    m.prev a ≠ some a ↔ InSome hs seqs a := by
  constructor
  · intro linked
    by_contra outside
    exact linked (rep.unlinked a known outside)
  · rintro ⟨l, header, inside⟩
    exact (rep.list l header).linked inside

/-- A sequence has no more elements than the family. -/
theorem Represents.length_le (rep : Represents hs es m seqs) (header : l ∈ hs) :
    (seqs l).length ≤ es.length :=
  (rep.list l header).nodup.length_le_of_subset (rep.member l header)

/-- An element in some sequence still is, when one sequence is replaced by one that keeps it. -/
theorem inSome_update {u : List E} {x : E} (kept : x ∈ seqs l → x ∈ u) (before : InSome hs seqs x) :
    InSome hs (Function.update seqs l u) x := by
  obtain ⟨k, headerK, inside⟩ := before
  refine ⟨k, headerK, ?_⟩
  by_cases same : k = l
  · subst same
    rw [Function.update_self]
    exact kept inside
  · rwa [Function.update_of_ne same]

/-- The elements of a sequence that is replaced by one of elements of the family. -/
theorem Represents.member_update (rep : Represents hs es m seqs) {u : List E}
    (known : ∀ x ∈ u, x ∈ es) : ∀ k ∈ hs, ∀ x ∈ Function.update seqs l u k, x ∈ es := by
  intro k headerK x inside
  by_cases same : k = l
  · subst same
    rw [Function.update_self] at inside
    exact known x inside
  · rw [Function.update_of_ne same] at inside
    exact rep.member k headerK x inside

/-- The sequences stay apart, when one is replaced by one of its own elements and of elements in no
sequence. -/
theorem Represents.apart_update (rep : Represents hs es m seqs) (header : l ∈ hs) {u : List E}
    (within : ∀ x ∈ u, x ∈ seqs l ∨ ¬ InSome hs seqs x) :
    ∀ k ∈ hs, ∀ j ∈ hs, j ≠ k →
      ∀ x ∈ Function.update seqs l u k, x ∉ Function.update seqs l u j := by
  intro k headerK j headerJ other x inside
  by_cases same : k = l
  · subst same
    rw [Function.update_self] at inside
    rw [Function.update_of_ne other]
    rcases within x inside with old | new
    · exact rep.apart k header j headerJ other x old
    · exact fun there => new ⟨j, headerJ, there⟩
  · rw [Function.update_of_ne same] at inside
    by_cases same' : j = l
    · subst same'
      rw [Function.update_self]
      intro inside'
      rcases within x inside' with old | new
      · exact rep.apart k headerK j header other x inside old
      · exact new ⟨k, headerK, inside⟩
    · rw [Function.update_of_ne same']
      exact rep.apart k headerK j headerJ other x inside

/-- **Linking in**, seen by the family. -/
theorem Represents.linkedIn (rep : Represents hs es m seqs) (header : l ∈ hs) (known : a ∈ es)
    (free : ¬ InSome hs seqs a) (sequence : seqs l = s ++ t) (edit : LinkedIn m m' l a s t) :
    Represents hs es m' (Function.update seqs l (s ++ a :: t)) := by
  have fresh : ∀ k ∈ hs, a ∉ seqs k := fun k header inside => free ⟨k, header, inside⟩
  have grown : ∀ x, x ∈ s ++ a :: t ↔ x = a ∨ x ∈ seqs l := fun x => by
    rw [sequence]
    simp only [List.mem_append, List.mem_cons]
    tauto
  constructor
  case list =>
    intro k headerK
    by_cases same : k = l
    · subst same
      rw [Function.update_self]
      exact (sequence ▸ rep.list k header).linkedIn (sequence ▸ fresh k header) edit
    · rw [Function.update_of_ne same]
      refine (rep.list k headerK).linkedIn_other same (fresh k headerK) ?_ edit
      exact fun x inside => rep.apart l header k headerK same x (sequence ▸ inside)
  case member =>
    apply rep.member_update
    intro x inside
    rcases (grown x).mp inside with rfl | old
    · exact known
    · exact rep.member l header x old
  case apart =>
    apply rep.apart_update header
    intro x inside
    rcases (grown x).mp inside with rfl | old
    · exact .inr free
    · exact .inl old
  case unlinked =>
    intro x knownX outside
    have notNew : x ≠ a := fun same =>
      outside ⟨l, header, by rw [Function.update_self, grown]; exact .inl same⟩
    have before : ¬ InSome hs seqs x := fun there =>
      outside (inSome_update (fun old => (grown x).mpr (.inr old)) there)
    refine edit.prev_unlinked notNew (rep.unlinked x knownX before) fun inside => ?_
    exact before ⟨l, header, sequence ▸ List.mem_append_right s inside⟩

/-- **Linking out**, seen by the family. -/
theorem Represents.linkedOut (rep : Represents hs es m seqs) (header : l ∈ hs)
    (sequence : seqs l = s ++ a :: t) (edit : LinkedOut m m' l a s t) :
    Represents hs es m' (Function.update seqs l (s ++ t)) := by
  have shrunk : ∀ x, x ∈ seqs l ↔ x = a ∨ x ∈ s ++ t := fun x => by
    rw [sequence]
    simp only [List.mem_append, List.mem_cons]
    tauto
  constructor
  case list =>
    intro k headerK
    by_cases same : k = l
    · subst same
      rw [Function.update_self]
      exact (sequence ▸ rep.list k header).linkedOut edit
    · rw [Function.update_of_ne same]
      refine (rep.list k headerK).linkedOut_other same ?_ edit
      exact fun x inside => rep.apart l header k headerK same x (sequence ▸ inside)
  case member =>
    apply rep.member_update
    exact fun x inside => rep.member l header x ((shrunk x).mpr (.inr inside))
  case apart =>
    apply rep.apart_update header
    exact fun x inside => .inl ((shrunk x).mpr (.inr inside))
  case unlinked =>
    intro x known outside
    by_cases gone : x = a
    · rw [gone, edit.prevOld]
    · have before : ¬ InSome hs seqs x := fun there =>
        outside (inSome_update (fun old => ((shrunk x).mp old).resolve_left gone) there)
      refine edit.prev_unlinked (rep.unlinked x known before) fun inside => ?_
      exact before ⟨l, header, (shrunk x).mpr (.inr (List.mem_append_right s inside))⟩

/-! ### One call -/

theorem add_represents (rep : Represents hs es m seqs) (header : l ∈ hs) (known : a ∈ es) :
    Represents hs es (llistAdd l a m) (seqStep hs seqs (.add l a)) := by
  rw [seqStep]
  by_cases linked : InSome hs seqs a
  · rw [if_pos linked, llistAdd_of_linked ((rep.linked_iff known).mpr linked)]
    exact rep
  · rw [if_neg linked]
    have edit := llistAdd_linkedIn (rep.list l header) (rep.unlinked a known linked)
    exact rep.linkedIn header known linked (List.append_nil _).symm edit

theorem addToStart_represents (rep : Represents hs es m seqs) (header : l ∈ hs)
    (known : a ∈ es) :
    Represents hs es (llistAddToStart l a m) (seqStep hs seqs (.addToStart l a)) := by
  rw [seqStep]
  by_cases linked : InSome hs seqs a
  · rw [if_pos linked, llistAddToStart_of_linked ((rep.linked_iff known).mpr linked)]
    exact rep
  · rw [if_neg linked]
    have edit := llistAddToStart_linkedIn (rep.list l header) (rep.unlinked a known linked)
    exact rep.linkedIn header known linked (List.nil_append _).symm edit

/-- The count of a list with an element is positive, as long as an `int` holds it. -/
theorem Represents.count_pos (rep : Represents hs es m seqs) (few : es.length < 2 ^ 31)
    (header : l ∈ hs) (inside : a ∈ seqs l) : 0 < m.count l := by
  have short := rep.length_le header
  have some := List.length_pos_of_mem inside
  have count := (rep.list l header).llCount_eq (by omega)
  unfold llCount at count
  omega

theorem delete_represents (rep : Represents hs es m seqs) (few : es.length < 2 ^ 31)
    (header : l ∈ hs) (known : a ∈ es) (member : a ∈ seqs l ∨ ¬ InSome hs seqs a) :
    Represents hs es (llistDelete l a m) (seqStep hs seqs (.delete l a)) := by
  rw [seqStep]
  by_cases inside : a ∈ seqs l
  · have counted := rep.count_pos few header inside
    obtain ⟨s, t, sequence⟩ := List.append_of_mem inside
    have nodup := sequence ▸ (rep.list l header).nodup
    have notLeft : a ∉ s := fun twice =>
      (List.nodup_append.mp nodup).2.2 a twice a List.mem_cons_self rfl
    have erased : (seqs l).erase a = s ++ t := by
      rw [sequence, List.erase_append_right _ notLeft, List.erase_cons_head]
    rw [erased]
    exact rep.linkedOut header sequence
      (llistDelete_linkedOut (sequence ▸ rep.list l header) counted)
  · have outside := member.resolve_left inside
    rw [llistDelete_of_unlinked (rep.unlinked a known outside), List.erase_of_not_mem inside,
      Function.update_eq_self]
    exact rep

/-- **One call.** -/
theorem step_represents (few : es.length < 2 ^ 31) (m : Memory H E) (seqs : H → List E)
    (op : Op H E) (rep : Represents hs es m seqs) (admitted : Admits hs es seqs op) :
    Represents hs es (op.step m) (seqStep hs seqs op) := by
  cases op with
  | add l e => exact add_represents rep admitted.1 admitted.2
  | addToStart l e => exact addToStart_represents rep admitted.1 admitted.2
  | delete l e => exact delete_represents rep few admitted.1 admitted.2.1 admitted.2.2

/-! ### Whole runs -/

/-- `LL_Init` on every header and `LL_InitElement` on every element of the family. -/
def prepare (hs : List H) (es : List E) (m : Memory H E) : Memory H E :=
  es.foldl (fun m e => llInitElement e m) (hs.foldl (fun m l => llInit l m) m)

/-- Prepared memory represents the empty sequences. -/
theorem prepare_represents (hs : List H) (es : List E) (m : Memory H E) :
    Represents hs es (prepare hs es m) fun _ => [] where
  list l header := by
    have fresh : Fresh l (hs.foldl (fun m l => llInit l m) m) :=
      foldl_establishes (P := Fresh) (fun m l => llInit_fresh l m)
        (fun _ _ k fresh => fresh.llInit k) hs m header
    exact (foldl_keeps (P := Fresh l) (fun _ e fresh => fresh.llInitElement e) es fresh).rep
  member l _ e inside := by cases inside
  apart l _ k _ _ e inside := by cases inside
  unlinked e known _ := by
    refine foldl_establishes (P := fun e (m : Memory H E) => m.prev e = some e) ?_ ?_ es _ known
    · exact fun m e => by rw [llInitElement_prev, Function.update_self]
    · intro m e f unlinked
      rw [llInitElement_prev, Function.update_apply]
      split_ifs with same
      · rw [same]
      · exact unlinked

/-- **Every admitted run** from prepared memory. -/
theorem run_represents (few : es.length < 2 ^ 31) (m : Memory H E) (ops : List (Op H E))
    (run : Admitted (Admits hs es) (seqStep hs) (fun _ => []) ops) :
    Represents hs es (ops.foldl Op.step (prepare hs es m)) (ops.foldl (seqStep hs) fun _ => []) :=
  foldl_simulates (step_represents few) ops (prepare_represents hs es m) run

end Family

/-- **The list library is a family of duplicate-free sequences.** For every admitted run of calls
on prepared headers and elements, with fewer than `2 ^ 31` elements: the walks over a header see its
sequence, forward and backward, and `LL_Count` its length; `LL_InList` says whether an element is in
one of the sequences, and it is then in exactly one; and adding a linked element or deleting an
unlinked one is no store at all. The run of `seqStep` says what the sequences are. -/
theorem llist_refines_sequences (hs : List H) (es : List E) (few : es.length < 2 ^ 31)
    (m₀ : Memory H E) (ops : List (Op H E))
    (run : Admitted (Admits hs es) (seqStep hs) (fun _ => []) ops) :
    let m := ops.foldl Op.step (prepare hs es m₀)
    let seqs := ops.foldl (seqStep hs) fun _ => []
    (∀ l ∈ hs, (seqs l).Nodup ∧ (∀ e ∈ seqs l, e ∈ es) ∧
      Follows (llNext m) (llFirst l m) (seqs l) ∧
      Follows (llPrev m) (llLast l m) (seqs l).reverse ∧ llCount l m = (seqs l).length) ∧
    (∀ e ∈ es, (llInList e m ≠ 0 ↔ InSome hs seqs e) ∧
      ∀ l ∈ hs, ∀ k ∈ hs, e ∈ seqs l → e ∈ seqs k → k = l) ∧
    (∀ e ∈ es, ∀ l ∈ hs, InSome hs seqs e → llistAdd l e m = m ∧ llistAddToStart l e m = m) ∧
    ∀ e ∈ es, ∀ l ∈ hs, ¬ InSome hs seqs e → llistDelete l e m = m := by
  intro m seqs
  have rep : Represents hs es m seqs := run_represents few m₀ ops run
  refine ⟨?_, ?_, ?_, ?_⟩
  · intro l header
    have list := rep.list l header
    have short := rep.length_le header
    exact ⟨list.nodup, rep.member l header, list.follows_next, list.follows_prev,
      list.llCount_eq (by omega)⟩
  · intro e known
    refine ⟨llInList_ne_zero.trans (rep.linked_iff known), ?_⟩
    intro l header k headerK inside insideK
    by_contra other
    exact rep.apart l header k headerK other e inside insideK
  · intro e known l _ linked
    have mark := (rep.linked_iff known).mpr linked
    exact ⟨llistAdd_of_linked mark, llistAddToStart_of_linked mark⟩
  · intro e known l _ outside
    exact llistDelete_of_unlinked (rep.unlinked e known outside)

/-- Two lists and three elements: one is moved from the first list to the second, one is added twice
and one is deleted although it is in no list. -/
theorem llist_refines_sequences_moved :
    let m := [Op.add false 1, .addToStart false 2, .add true 1, .delete false 1, .add true 1,
      .delete true 3].foldl Op.step (prepare [false, true] [1, 2, 3] ⟨fun _ => none, fun _ => none,
        fun _ => some 7, fun _ => some 7, fun _ => 7⟩)
    Follows (llNext m) (llFirst false m) [2] ∧ Follows (llNext m) (llFirst true m) [1] ∧
      llInList 3 m = 0 := by
  intro m
  have refines := llist_refines_sequences [false, true] [1, 2, 3] (by decide)
    ⟨fun _ => none, fun _ => none, fun _ => some 7, fun _ => some 7, fun _ => 7⟩
    [.add false 1, .addToStart false 2, .add true 1, .delete false 1, .add true 1, .delete true 3]
    (by decide)
  refine ⟨(refines.1 false (by decide)).2.2.1, (refines.1 true (by decide)).2.2.1, ?_⟩
  by_contra linked
  have inside := (refines.2.1 3 (by decide)).1.mp linked
  exact absurd inside (by decide)

end CyberPlatform.LList
