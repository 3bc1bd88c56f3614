/-
**Header-less insertions into a list with a header.**

`LListAdd` and `LListAddToStart` keep the header of a list up to date. `LLE_AddAtEnd` and
`LLE_AddAtStart`, given the first element of the list, link the new element in at the same places,
but they do not know of the header.

* `MixedOp.step_reaches` — what a walk over the list can come to behind a call: the new element at
  most, besides what it came to before; and behind a header-less insertion one of the two walks does
  not come to the new element.
* `step_lost` — an element that a walk has lost stays lost.
* `mixedSound_iff` — the list is what the calls should make of it exactly when none of them is
  header-less.
-/

import CyberPlatform.Common.LList.Headless

set_option linter.unusedSectionVars false

namespace CyberPlatform.LList

open Foundation Foundation.Linked

variable {H E : Type} [DecidableEq H] [DecidableEq E]

/-! ### The calls -/

/-- A call on a list with a header, and the new element that it is given. -/
inductive MixedOp (E : Type) where
  | add (element : E)
  | addToStart (element : E)
  | addAtEnd (le : E)
  | addAtStart (le : E)
  deriving DecidableEq

namespace MixedOp

/-- A call on `LL_First(list)`, which must not be null. -/
def onFirst (list : H) (call : E → Memory H E → Except Trap (Memory H E)) (m : Memory H E) :
    Except Trap (Memory H E) :=
  match llFirst list m with
  | none => .error .nullPointer
  | some first => call first m

/-- The new element is prepared, and the call is made. -/
def step (fuel : Nat) (list : H) (m : Memory H E) : MixedOp E → Except Trap (Memory H E)
  | add element => .ok (llistAdd list element (llInitElement element m))
  | addToStart element => .ok (llistAddToStart list element (llInitElement element m))
  | addAtEnd le => onFirst list (lleAddAtEnd fuel · le) (llInitElement le m)
  | addAtStart le => onFirst list (lleAddAtStart fuel · le) (llInitElement le m)

/-- The sequence, as it should be. -/
def sequence (s : List E) : MixedOp E → List E
  | add element => s ++ [element]
  | addToStart element => element :: s
  | addAtEnd le => s ++ [le]
  | addAtStart le => le :: s

/-- The element is new, and a header-less call is made on a list with an element. -/
def Admits (s : List E) : MixedOp E → Prop
  | add element => element ∉ s
  | addToStart element => element ∉ s
  | addAtEnd le => le ∉ s ∧ s ≠ []
  | addAtStart le => le ∉ s ∧ s ≠ []

instance (s : List E) : ∀ op : MixedOp E, Decidable (op.Admits s)
  | add element => inferInstanceAs (Decidable (element ∉ s))
  | addToStart element => inferInstanceAs (Decidable (element ∉ s))
  | addAtEnd le => inferInstanceAs (Decidable (le ∉ s ∧ s ≠ []))
  | addAtStart le => inferInstanceAs (Decidable (le ∉ s ∧ s ≠ []))

/-- The new element. -/
def element : MixedOp E → E
  | add element => element
  | addToStart element => element
  | addAtEnd le => le
  | addAtStart le => le

/-- The call is one that knows of the header. -/
def Headed : MixedOp E → Prop
  | add _ | addToStart _ => True
  | addAtEnd _ | addAtStart _ => False

instance : ∀ op : MixedOp E, Decidable op.Headed
  | add _ | addToStart _ => .isTrue trivial
  | addAtEnd _ | addAtStart _ => .isFalse id

theorem mem_sequence {s : List E} (op : MixedOp E) {a : E} :
    a ∈ op.sequence s ↔ a = op.element ∨ a ∈ s := by
  cases op <;> simp [sequence, element, or_comm]

theorem Admits.fresh {s : List E} {op : MixedOp E} (admitted : op.Admits s) : op.element ∉ s := by
  cases op with
  | add _ => exact admitted
  | addToStart _ => exact admitted
  | addAtEnd _ => exact admitted.1
  | addAtStart _ => exact admitted.1

end MixedOp

/-- **The promise about a list with a header**, prepared by `LL_Init`: the calls return, and the
walks from both of its ends visit all elements that were added, in their order. -/
def MixedSound (list : H) (m : Memory H E) (ops : List (MixedOp E)) : Prop :=
  ∃ fuel m', ops.foldlM (MixedOp.step fuel list) (llInit list m) = .ok m' ∧
    let s := ops.foldl MixedOp.sequence []
    Follows (llNext m') (llFirst list m') s ∧ Follows (llPrev m') (llLast list m') s.reverse

/-! ### Calls that know of the header -/

section Headed

variable {m : Memory H E} {list : H} {s : List E}

/-- `LListAdd` and `LListAddToStart` of a new element keep the representation. -/
theorem headed_represents (fuel : Nat) (m : Memory H E) (s : List E) (op : MixedOp E)
    (rep : ListRep m list s) (admitted : op.Admits s ∧ op.Headed) :
    ∃ m', op.step fuel list m = .ok m' ∧ ListRep m' list (op.sequence s) := by
  obtain ⟨admitted, headed⟩ := admitted
  have fresh := admitted.fresh
  have mark : (llInitElement op.element m).prev op.element = some op.element := by
    rw [llInitElement_prev, Function.update_self]
  have prepared := rep.llInitElement fresh
  cases op with
  | add x =>
    refine ⟨_, rfl, ?_⟩
    have whole : ListRep (llInitElement x m) list (s ++ []) := by rwa [List.append_nil]
    exact whole.linkedIn (by rwa [List.append_nil]) (llistAdd_linkedIn prepared mark)
  | addToStart x =>
    exact ⟨_, rfl, prepared.linkedIn (s := []) fresh (llistAddToStart_linkedIn prepared mark)⟩
  | addAtEnd x => exact headed.elim
  | addAtStart x => exact headed.elim

end Headed

/-! ### What the walks come to -/

section Walks

variable {m m' : Memory H E} {list : H} {x : E} {s : List E}

/-- Where a walk to a null pointer ends. -/
theorem lastAlong_ok {link : E → Option E} {fuel : Nat} {a z : E}
    (ran : lastAlong link fuel a = .ok z) : link z = none := by
  induction fuel generalizing a with
  | zero => cases ran
  | succ fuel ih =>
    rw [lastAlong] at ran
    cases successor : link a with
    | none =>
      rw [successor] at ran
      cases ran
      exact successor
    | some b =>
      rw [successor] at ran
      exact ih ran

/-- The link of another element is none of those that `LL_InitElement` sets. -/
theorem llInitElement_next_of_ne {b : E} (other : b ≠ x) :
    (llInitElement x m).next b = m.next b := Function.update_of_ne other _ _

theorem llInitElement_prev_of_ne {b : E} (other : b ≠ x) :
    (llInitElement x m).prev b = m.prev b := Function.update_of_ne other _ _

/-- `LListAdd` of a new element: both walks come to it at most. -/
theorem llistAdd_reaches (back : ¬ Backward list m x) :
    let m' := llistAdd list x (llInitElement x m)
    (∀ a, Forward list m' a → a = x ∨ Forward list m a) ∧
      ∀ a, Backward list m' a → a = x ∨ Backward list m a := by
  have mark : (llInitElement x m).prev x = some x := Function.update_self ..
  have notTail : m.tail list ≠ some x := fun last => back (leads_of_eq last)
  intro m'
  have stores : m' = _ := llistAdd_eq mark
  constructor
  · have next : ∀ b, m'.next b = if m.tail list = some b then some x else if b = x then none
        else (llInitElement x m).next b := fun b => by rw [stores]; rfl
    have head : m'.head list = some ((m.head list).getD x) := by
      rw [stores]
      exact Function.update_self ..
    refine fun a => leads_linked ?_ (.inl ?_) fun b other => ?_
    · rw [head]
      cases m.head list with
      | none => exact .inr rfl
      | some h => exact .inl rfl
    · rw [next, if_neg notTail, if_pos rfl]
    · rw [next, if_neg other, llInitElement_next_of_ne other]
      split_ifs
      · exact .inr rfl
      · exact .inl rfl
  · have prev : m'.prev = Function.update (llInitElement x m).prev x (m.tail list) := by
      rw [stores]
      rfl
    have tail : m'.tail list = some x := by
      rw [stores]
      exact Function.update_self ..
    refine fun a => leads_linked (.inr tail) (.inr ?_) fun b other => .inl ?_
    · rw [prev, Function.update_self]
    · rw [prev, Function.update_of_ne other, llInitElement_prev_of_ne other]

/-- `LListAddToStart` of a new element: both walks come to it at most. -/
theorem llistAddToStart_reaches (front : ¬ Forward list m x) :
    let m' := llistAddToStart list x (llInitElement x m)
    (∀ a, Forward list m' a → a = x ∨ Forward list m a) ∧
      ∀ a, Backward list m' a → a = x ∨ Backward list m a := by
  have mark : (llInitElement x m).prev x = some x := Function.update_self ..
  have notHead : m.head list ≠ some x := fun first => front (leads_of_eq first)
  intro m'
  have stores : m' = _ := llistAddToStart_eq mark
  constructor
  · have next : m'.next = Function.update (llInitElement x m).next x (m.head list) := by
      rw [stores]
      rfl
    have head : m'.head list = some x := by
      rw [stores]
      exact Function.update_self ..
    refine fun a => leads_linked (.inr head) (.inr ?_) fun b other => .inl ?_
    · rw [next, Function.update_self]
    · rw [next, Function.update_of_ne other, llInitElement_next_of_ne other]
  · have prev : ∀ b, m'.prev b = if m.head list = some b then some x else if b = x then none
        else (llInitElement x m).prev b := fun b => by rw [stores]; rfl
    have tail : m'.tail list = m.tail list ∨ m'.tail list = some x := by
      rw [stores]
      show (if m.head list = none then _ else _ : H → Option E) list = _ ∨
        (if m.head list = none then _ else _ : H → Option E) list = _
      split_ifs
      · exact .inr (Function.update_self ..)
      · exact .inl rfl
    refine fun a => leads_linked tail (.inl ?_) fun b other => ?_
    · rw [prev, if_neg notHead, if_pos rfl]
    · rw [prev, if_neg other, llInitElement_prev_of_ne other]
      split_ifs
      · exact .inr rfl
      · exact .inl rfl

/-- `LLE_AddAtEnd` of a new element: the walk forward comes to it at most, and the walk backward
does not. -/
theorem lleAddAtEnd_reaches {fuel : Nat} {e : E} (back : ¬ Backward list m x)
    (ran : lleAddAtEnd fuel e x (llInitElement x m) = .ok m') :
    (∀ a, Forward list m' a → a = x ∨ Forward list m a) ∧
      ∀ a, Backward list m' a → Backward list m a := by
  obtain ⟨z, walked, added⟩ := bind_eq_ok.mp ran
  have stores := (Except.ok.inj added).symm.trans (lleAddAfter_last (lastAlong_ok walked))
  have head : m'.head = m.head := by rw [stores]; rfl
  have tail : m'.tail = m.tail := by rw [stores]; rfl
  have next : m'.next =
      Function.update (Function.update (llInitElement x m).next z (some x)) x none := by
    rw [stores]
  have prev : m'.prev = Function.update (llInitElement x m).prev x (some z) := by rw [stores]
  constructor
  · refine fun a => leads_linked (.inl (congrFun head list)) (.inl ?_) fun b other => ?_
    · rw [next, Function.update_self]
    · rw [next, Function.update_of_ne other]
      by_cases last : b = z
      · rw [last, Function.update_self]
        exact .inr rfl
      · rw [Function.update_of_ne last, llInitElement_next_of_ne other]
        exact .inl rfl
  · refine fun a => leads_unchanged back (congrFun tail list) fun b other => ?_
    rw [prev, Function.update_of_ne other, llInitElement_prev_of_ne other]

/-- `LLE_AddAtStart` of a new element: the walk backward comes to it at most, and the walk forward
does not. -/
theorem lleAddAtStart_reaches {fuel : Nat} {e : E} (front : ¬ Forward list m x)
    (ran : lleAddAtStart fuel e x (llInitElement x m) = .ok m') :
    (∀ a, Forward list m' a → Forward list m a) ∧
      ∀ a, Backward list m' a → a = x ∨ Backward list m a := by
  obtain ⟨z, walked, added⟩ := bind_eq_ok.mp ran
  have stores := (Except.ok.inj added).symm.trans (lleAddBefore_first (lastAlong_ok walked))
  have head : m'.head = m.head := by rw [stores]; rfl
  have tail : m'.tail = m.tail := by rw [stores]; rfl
  have next : m'.next = Function.update (llInitElement x m).next x (some z) := by rw [stores]
  have prev : m'.prev =
      Function.update (Function.update (llInitElement x m).prev z (some x)) x none := by
    rw [stores]
  constructor
  · refine fun a => leads_unchanged front (congrFun head list) fun b other => ?_
    rw [next, Function.update_of_ne other, llInitElement_next_of_ne other]
  · refine fun a => leads_linked (.inl (congrFun tail list)) (.inl ?_) fun b other => ?_
    · rw [prev, Function.update_self]
    · rw [prev, Function.update_of_ne other]
      by_cases first : b = z
      · rw [first, Function.update_self]
        exact .inr rfl
      · rw [Function.update_of_ne first, llInitElement_prev_of_ne other]
        exact .inl rfl

/-- The walks stay among the elements that were added. -/
structure Known (list : H) (m : Memory H E) (s : List E) : Prop where
  forward : ∀ a, Forward list m a → a ∈ s
  backward : ∀ a, Backward list m a → a ∈ s

/-- One of the walks does not come to some element that was added. -/
def Lost (list : H) (m : Memory H E) (s : List E) : Prop :=
  ∃ a ∈ s, ¬ (Forward list m a ∧ Backward list m a)

/-- **What the walks come to behind a call**: the new element at most, besides what they came to
before; and one of them not to the new element, if the call does not know of the header. -/
theorem MixedOp.step_reaches {fuel : Nat} (known : Known list m s) {op : MixedOp E}
    (fresh : op.element ∉ s) (ran : op.step fuel list m = .ok m') :
    (∀ a, Forward list m' a → a = op.element ∨ Forward list m a) ∧
      (∀ a, Backward list m' a → a = op.element ∨ Backward list m a) ∧
      (¬ op.Headed → ¬ (Forward list m' op.element ∧ Backward list m' op.element)) := by
  have front : ¬ Forward list m op.element := fun there => fresh (known.forward _ there)
  have back : ¬ Backward list m op.element := fun there => fresh (known.backward _ there)
  cases op with
  | add x =>
    obtain rfl := Except.ok.inj ran
    exact ⟨(llistAdd_reaches back).1, (llistAdd_reaches back).2, fun blind => (blind trivial).elim⟩
  | addToStart x =>
    obtain rfl := Except.ok.inj ran
    exact ⟨(llistAddToStart_reaches front).1, (llistAddToStart_reaches front).2,
      fun blind => (blind trivial).elim⟩
  | addAtEnd x =>
    rw [step, onFirst] at ran
    split at ran
    · cases ran
    · obtain ⟨forward, backward⟩ := lleAddAtEnd_reaches back ran
      exact ⟨forward, fun a there => .inr (backward a there), fun _ both =>
        back (backward _ both.2)⟩
  | addAtStart x =>
    rw [step, onFirst] at ran
    split at ran
    · cases ran
    · obtain ⟨forward, backward⟩ := lleAddAtStart_reaches front ran
      exact ⟨fun a there => .inr (forward a there), backward, fun _ both =>
        front (forward _ both.1)⟩

/-- The walks stay among the elements that were added, whatever is called. -/
theorem step_known {fuel : Nat} {op : MixedOp E} (known : Known list m s) (admitted : op.Admits s)
    (ran : op.step fuel list m = .ok m') : Known list m' (op.sequence s) := by
  obtain ⟨forward, backward, _⟩ := MixedOp.step_reaches known admitted.fresh ran
  constructor
  · exact fun a there => op.mem_sequence.mpr ((forward a there).imp_right (known.forward a))
  · exact fun a there => op.mem_sequence.mpr ((backward a there).imp_right (known.backward a))

/-- **What is lost stays lost.** -/
theorem step_lost {fuel : Nat} {op : MixedOp E} (known : Known list m s) (lost : Lost list m s)
    (admitted : op.Admits s) (ran : op.step fuel list m = .ok m') :
    Lost list m' (op.sequence s) := by
  obtain ⟨forward, backward, _⟩ := MixedOp.step_reaches known admitted.fresh ran
  obtain ⟨a, added, missed⟩ := lost
  have other : a ≠ op.element := fun same => admitted.fresh (same ▸ added)
  refine ⟨a, op.mem_sequence.mpr (.inr added), fun both => missed ?_⟩
  exact ⟨(forward a both.1).resolve_left other, (backward a both.2).resolve_left other⟩

/-- A call that does not know of the header loses its element. -/
theorem step_loses {fuel : Nat} {op : MixedOp E} (known : Known list m s) (blind : ¬ op.Headed)
    (admitted : op.Admits s) (ran : op.step fuel list m = .ok m') :
    Lost list m' (op.sequence s) := by
  obtain ⟨_, _, missed⟩ := MixedOp.step_reaches known admitted.fresh ran
  exact ⟨op.element, op.mem_sequence.mpr (.inl rfl), missed blind⟩

/-- The walks over a list that is as it should be lose nothing. -/
theorem not_lost (forward : Follows (llNext m) (llFirst list m) s)
    (backward : Follows (llPrev m) (llLast list m) s.reverse) : ¬ Lost list m s := by
  rintro ⟨a, added, missed⟩
  refine missed ⟨forward.leads_iff.mpr added, ?_⟩
  have there : Leads (llPrev m) a (llLast list m) :=
    backward.leads_iff.mpr (List.mem_reverse.mpr added)
  refine there.mono fun b c link => ?_
  unfold llPrev at link
  split at link
  · cases link
  · rename_i p stored
    split_ifs at link
    rw [stored, link]

end Walks

/-! ### Sequences of calls -/

section Runs

variable {list : H} {m : Memory H E} {ops : List (MixedOp E)}

/-- Fresh from `LL_Init`, there is nothing to walk over. -/
theorem Fresh.known (fresh : Fresh list m) : Known list m ([] : List E) := by
  refine ⟨fun a there => ?_, fun a there => ?_⟩
  · unfold Forward at there
    rw [fresh.head] at there
    exact (not_leads_null there).elim
  · unfold Backward at there
    rw [fresh.tail] at there
    exact (not_leads_null there).elim

/-- A run keeps the walks among the elements that were added, whatever is called. -/
theorem run_known {fuel : Nat} {m' : Memory H E} {s : List E} (known : Known list m s)
    (run : Admitted MixedOp.Admits MixedOp.sequence s ops)
    (ran : ops.foldlM (MixedOp.step fuel list) m = .ok m') :
    Known list m' (ops.foldl MixedOp.sequence s) := by
  refine foldlM_tracks (R := Known list) ?_ ops known run ran
  intro m s op m' known admitted (called : op.step fuel list m = .ok m')
  exact step_known known admitted called

/-- A run loses for good what is lost. -/
theorem run_lost {fuel : Nat} {m' : Memory H E} {s : List E} (known : Known list m s)
    (lost : Lost list m s) (run : Admitted MixedOp.Admits MixedOp.sequence s ops)
    (ran : ops.foldlM (MixedOp.step fuel list) m = .ok m') :
    Lost list m' (ops.foldl MixedOp.sequence s) := by
  refine (foldlM_tracks (R := fun m s => Known list m s ∧ Lost list m s) ?_ ops ⟨known, lost⟩ run
    ran).2
  intro m s op m' holds admitted (called : op.step fuel list m = .ok m')
  exact ⟨step_known holds.1 admitted called, step_lost holds.1 holds.2 admitted called⟩

/-- A list that is as it should be has seen no other calls than those that know of the header. -/
theorem MixedSound.headed (run : Admitted MixedOp.Admits MixedOp.sequence [] ops)
    (sound : MixedSound list m ops) : ∀ op ∈ ops, op.Headed := by
  obtain ⟨fuel, m', ran, forward, backward⟩ := sound
  intro op member
  by_contra blind
  obtain ⟨before, after, rfl⟩ := List.append_of_mem member
  rw [List.foldlM_append] at ran
  obtain ⟨m₁, ran₁, ran⟩ := bind_eq_ok.mp ran
  rw [List.foldlM_cons] at ran
  obtain ⟨m₂, called, ran⟩ := bind_eq_ok.mp ran
  obtain ⟨run₁, admitted, run⟩ := admitted_append.mp run
  have known := run_known (llInit_fresh list m).known run₁ ran₁
  have lost := run_lost (step_known known admitted called)
    (step_loses known blind admitted called) run ran
  rw [List.foldl_append, List.foldl_cons] at forward backward
  exact not_lost forward backward lost

/-- **A list with a header is what the calls should make of it exactly when** all of them know of
the header: the element of any other call is lost, and nothing brings it back. -/
theorem mixedSound_iff (list : H) (m : Memory H E) (ops : List (MixedOp E))
    (run : Admitted MixedOp.Admits MixedOp.sequence [] ops) :
    MixedSound list m ops ↔ ∀ op ∈ ops, op.Headed := by
  refine ⟨MixedSound.headed run, fun headed => ?_⟩
  obtain ⟨m', ran, rep⟩ := foldlM_simulates (headed_represents 0) ops (llInit_fresh list m).rep
    (run.and headed)
  exact ⟨0, m', ran, rep.follows_next, rep.follows_prev⟩

/-- Two elements, one at each end. -/
theorem mixedSound_two :
    MixedSound () (⟨fun _ => none, fun _ => none, fun _ => none, fun _ => none, fun _ => 0⟩ :
      Memory Unit Nat) [.add 1, .addToStart 2] :=
  (mixedSound_iff () _ _ (by decide)).mpr (by decide)

/-- One element behind another one, which is the last one of the list. -/
theorem mixedSound_fails_end :
    ¬ MixedSound () (⟨fun _ => none, fun _ => none, fun _ => none, fun _ => none, fun _ => 0⟩ :
      Memory Unit Nat) [.add 1, .addAtEnd 2] := by
  intro sound
  exact sound.headed (by decide) (.addAtEnd 2) (by decide)

end Runs

end CyberPlatform.LList
