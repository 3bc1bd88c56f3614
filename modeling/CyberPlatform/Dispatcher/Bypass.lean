/-
**The bypass interfaces of the dispatcher.**

`_assign_bypass_interfaces` looks up the bypass name of each rx interface among the tx interfaces.
Both tables are built before from the used entries of the configuration.

* `getInterfaceByName_cases` — a name is found at its first index.
* `assignBypassInterfaces_cases` — the stage resolves every bypass name and changes nothing else, or
  stops at a name that no tx interface has, or compares a null name.
* `bypass_resolution` — the stage behind `_init_app_ctx`, for every configuration.
-/

import CyberPlatform.Dispatcher.Allocator

namespace CyberPlatform.Dispatcher

open Foundation LList

/-! ### Looking up a name -/

section Names

variable {tx : List IfT}

/-- The first index of a name. -/
def findInterface (tx : List IfT) (name : String) : Option Nat :=
  tx.findIdx? fun y => y.name = some name

/-- The interfaces have names, up to the first one with the name that is looked for. -/
def NamesSafe (tx : List IfT) (name : String) : Prop :=
  Guarded (fun _ y => y.name ≠ some name) (fun _ y => y.name ≠ none) [] tx

/-- The bypass names can be looked up, up to the first one that is not found. -/
def BypassSafe (rx tx : List IfT) : Prop :=
  Guarded (fun _ x => ∀ name, x.bypassName = some name → ∃ y ∈ tx, y.name = some name)
    (fun _ x => ∀ name, x.bypassName = some name → NamesSafe tx name) [] rx

theorem findInterface_eq_none_iff {name : String} :
    findInterface tx name = none ↔ ∀ y ∈ tx, y.name ≠ some name := by
  simp [findInterface]

/-- An interface behind others that do not have the name. -/
theorem findInterface_split {front back : List IfT} {y : IfT} {name : String}
    (others : ∀ z ∈ front, z.name ≠ some name) (here : y.name = some name) :
    findInterface (front ++ y :: back) name = some front.length := by
  have front_none : front.findIdx? (fun z => z.name = some name) = none := by
    simpa using others
  rw [findInterface, List.findIdx?_append, front_none, List.findIdx?_cons]
  simp [here]

/-- **What is found is the first one.** -/
theorem findInterface_first {name : String} {k : Nat} (found : findInterface tx name = some k) :
    ∃ y, tx[k]? = some y ∧ y.name = some name ∧
      ∀ j < k, ∀ z, tx[j]? = some z → z.name ≠ some name := by
  obtain ⟨inside, here, before⟩ := List.findIdx?_eq_some_iff_getElem.mp found
  refine ⟨tx[k], List.getElem?_eq_getElem inside, of_decide_eq_true here, ?_⟩
  intro j less z entry
  obtain ⟨_, rfl⟩ := List.getElem?_eq_some_iff.mp entry
  exact fun same => before j less (decide_eq_true same)

/-- An entry with its index, among the others. -/
theorem zipIdx_split {entries : List IfT} {done rest : List (IfT × Nat)} {x : IfT} {i : Nat}
    (split : entries.zipIdx = done ++ (x, i) :: rest) :
    i = (done.map Prod.fst).length ∧ entries = done.map Prod.fst ++ x :: rest.map Prod.fst := by
  have first := congrArg (List.map Prod.fst) split
  rw [List.zipIdx_map_fst, List.map_append, List.map_cons] at first
  refine ⟨?_, first⟩
  have entry : entries.zipIdx[done.length]? = some (x, i) := by
    rw [split, List.getElem?_append_right le_rfl, Nat.sub_self]
    rfl
  rw [List.getElem?_zipIdx, Option.map_eq_some_iff] at entry
  obtain ⟨_, _, same⟩ := entry
  rw [List.length_map]
  simpa using (congrArg Prod.snd same).symm

theorem guarded_zipIdx {g s : IfT → Prop} (entries : List IfT) :
    Guarded (fun _ (p : IfT × Nat) => g p.1) (fun _ p => s p.1) [] entries.zipIdx ↔
      Guarded (fun _ => g) (fun _ => s) [] entries := by
  have mapped := guarded_map (f := Prod.fst) (g := g) (s := s) entries.zipIdx [] []
  rw [List.zipIdx_map_fst] at mapped
  exact mapped.symm

theorem forall_zipIdx {g : IfT → Prop} (entries : List IfT) :
    (∀ p ∈ entries.zipIdx, g p.1) ↔ ∀ x ∈ entries, g x := by
  have mapped := List.forall_mem_map (f := Prod.fst) (l := entries.zipIdx) (P := g)
  rw [List.zipIdx_map_fst] at mapped
  exact mapped.symm

/-- A load of an entry. -/
theorem fetch_ofList {front back : List IfT} {y : IfT}
    (room : (front ++ y :: back).length ≤ maxInterfaces) :
    fetch (InterfaceT.ofList (front ++ y :: back)).ifs front.length = .ok y := by
  have inside : front.length < (front ++ y :: back).length := by simp
  unfold InterfaceT.ofList
  rw [fetch_writeFront _ _ inside room]
  simp

/-- **Looking up a name**: its first index is found, or the lookup goes wrong at an interface
without a name before it. -/
theorem getInterfaceByName_cases (room : tx.length ≤ maxInterfaces) (name : String) :
    (NamesSafe tx name ∧
      getInterfaceByName (.ofList tx) (some name) = .ok (findInterface tx name)) ∨
    ¬ NamesSafe tx name ∧ getInterfaceByName (.ofList tx) (some name) = .error .nullPointer := by
  have one : ∀ done (p : IfT × Nat) rest (st : Option Nat), tx.zipIdx = done ++ p :: rest →
      (st = none ∧ ∀ q ∈ done, q.1.name ≠ some name) →
      (p.1.name ≠ none ∧ p.1.name ≠ some name ∧
        ∃ st', compareName (.ofList tx) (some name) p.2 st = .ok (0, st') ∧
          st' = none ∧ ∀ q ∈ done ++ [p], q.1.name ≠ some name) ∨
      (p.1.name ≠ none ∧ ¬ p.1.name ≠ some name ∧
        ∃ ret st', compareName (.ofList tx) (some name) p.2 st = .ok (ret, st') ∧ ret ≠ 0 ∧
          st' = findInterface tx name) ∨
      ¬ p.1.name ≠ none ∧
        ∃ trap, compareName (.ofList tx) (some name) p.2 st = .error trap ∧
          trap = .nullPointer := by
    rintro done ⟨y, i⟩ rest _ split ⟨rfl, others⟩
    obtain ⟨rfl, whole⟩ := zipIdx_split split
    have loaded : fetch (InterfaceT.ofList tx).ifs (done.map Prod.fst).length = .ok y := by
      rw [whole] at room ⊢
      exact fetch_ofList room
    unfold compareName
    rw [loaded, ok_bind]
    cases named : y.name with
    | none => exact .inr (.inr ⟨not_not.mpr rfl, .nullPointer, rfl, rfl⟩)
    | some other =>
      obtain ⟨order, compared, zero⟩ := Json.strcmp_eq_zero other name
      rw [compared, ok_bind]
      by_cases same : other = name
      · rw [if_pos (zero.mpr same)]
        refine .inr (.inl ⟨Option.some_ne_none _, not_not.mpr (congrArg some same), 1, _, rfl,
          by decide, ?_⟩)
        rw [whole]
        exact (findInterface_split (List.forall_mem_map.mpr others) (same ▸ named)).symm
      · rw [if_neg fun equal => same (zero.mp equal)]
        have differ : some other ≠ some name := fun equal => same (Option.some.inj equal)
        refine .inl ⟨Option.some_ne_none _, differ, _, rfl, rfl, ?_⟩
        rw [List.forall_mem_append, List.forall_mem_singleton]
        exact ⟨others, named ▸ differ⟩
  have ways := loop_guarded (fun _ (p : IfT × Nat) => p.1.name ≠ some name)
    (fun _ p => p.1.name ≠ none) _ one tx.zipIdx [] rfl
    ⟨rfl, fun _ none => absurd none List.not_mem_nil⟩
  rw [guarded_zipIdx (g := fun y => y.name ≠ some name) (s := fun y => y.name ≠ none),
    passes_iff, forall_zipIdx (g := fun y => y.name ≠ some name), ← loop_map,
    ← range_eq_zipIdx] at ways
  unfold getInterfaceByName
  rw [InterfaceT.ofList_count_toNat]
  rcases ways with ⟨fine, none, found, ran, rfl, _⟩ | ⟨fine, _, ret, found, ran, _, rfl⟩ |
    ⟨danger, trap, ran, rfl⟩
  · rw [ran, findInterface_eq_none_iff.mpr none]
    exact .inl ⟨fine, rfl⟩
  · rw [ran]
    exact .inl ⟨fine, rfl⟩
  · rw [ran]
    exact .inr ⟨danger, rfl⟩

end Names

/-! ### The stage -/

section Stage

variable {rx tx : List IfT}

/-- **An rx interface with its bypass**: the first tx interface with the bypass name. -/
def resolveBypass (tx : List IfT) (x : IfT) : IfT :=
  { x with bypassIf := x.bypassName.bind (findInterface tx) }

/-- The context with other rx interfaces. -/
def DispatcherCtx.withRx (ctx : DispatcherCtx) (rx : List IfT) : DispatcherCtx :=
  { ctx with rxInterfaces := .ofList rx }

/-- A store of a bypass pointer. -/
theorem withRx_assign {front back : List IfT} {x : IfT} (ctx : DispatcherCtx)
    (room : (front ++ x :: back).length ≤ maxInterfaces) (found : Option Nat) :
    ∃ ifs, modify (ctx.withRx (front ++ x :: back)).rxInterfaces.ifs front.length
        (fun x => { x with bypassIf := found }) = .ok ifs ∧
      { ctx.withRx (front ++ x :: back) with
        rxInterfaces := { (ctx.withRx (front ++ x :: back)).rxInterfaces with ifs := ifs } } =
        ctx.withRx (front ++ { x with bypassIf := found } :: back) := by
  let f : IfT → IfT := fun x => { x with bypassIf := found }
  have changed : (front ++ x :: back).modify front.length f = front ++ f x :: back := by
    rw [List.modify_eq_take_drop, List.take_left, List.drop_left]
    rfl
  refine ⟨(InterfaceT.ofList (front ++ f x :: back)).ifs, ?_, ?_⟩
  · rw [← changed]
    exact modify_front _ _ (by simp) room _
  · unfold DispatcherCtx.withRx InterfaceT.ofList
    rw [List.length_append, List.length_append]
    rfl

/-- Every bypass name is the name of a tx interface. -/
def BypassFound (tx : List IfT) (x : IfT) : Prop :=
  ∀ name, x.bypassName = some name → ∃ y ∈ tx, y.name = some name

/-- **One rx interface**, behind those in `front`. -/
theorem assignBypass_cases {front back : List IfT} {x : IfT} (ctx : DispatcherCtx)
    (room : (front ++ x :: back).length ≤ maxInterfaces) (roomTx : tx.length ≤ maxInterfaces)
    (clear : x.bypassIf = none) (heldTx : ctx.txInterfaces = .ofList tx) :
    let safe := ∀ name, x.bypassName = some name → NamesSafe tx name
    let out := assignBypass front.length (ctx.withRx (front ++ x :: back))
    (safe ∧ BypassFound tx x ∧
      out = .ok (0, ctx.withRx (front ++ resolveBypass tx x :: back))) ∨
    (safe ∧ ¬ BypassFound tx x ∧
      ∃ rx', out = .ok (-1, ctx.withRx rx') ∧ rx'.length = (front ++ x :: back).length) ∨
    ¬ safe ∧ out = .error .nullPointer := by
  intro safe out
  have loaded : fetch (ctx.withRx (front ++ x :: back)).rxInterfaces.ifs front.length = .ok x :=
    fetch_ofList room
  have tables : (ctx.withRx (front ++ x :: back)).txInterfaces = .ofList tx := heldTx
  obtain bypass | ⟨name, bypass⟩ := Option.eq_none_or_eq_some x.bypassName
  · have same : resolveBypass tx x = x := by
      rw [resolveBypass, bypass, Option.bind_none, ← bypass, ← clear]
    unfold out safe BypassFound assignBypass
    rw [loaded, ok_bind, same, bypass]
    exact .inl ⟨fun _ some => (by cases some), fun _ some => (by cases some), rfl⟩
  have resolved : resolveBypass tx x = { x with bypassIf := findInterface tx name } := by
    unfold resolveBypass
    rw [bypass, Option.bind_some]
  have only : ∀ {P : String → Prop}, (∀ n, some name = some n → P n) ↔ P name :=
    ⟨fun all => all name rfl, fun one n same => Option.some.inj same ▸ one⟩
  unfold safe BypassFound
  rw [bypass, only, only, resolved]
  rcases getInterfaceByName_cases roomTx name with ⟨fine, ran⟩ | ⟨danger, ran⟩
  · obtain ⟨ifs, stores, assigned⟩ := withRx_assign ctx room (findInterface tx name)
    have stage : out =
        if findInterface tx name = none then
          .ok (-1, ctx.withRx (front ++ { x with bypassIf := findInterface tx name } :: back))
        else
          .ok (0, ctx.withRx (front ++ { x with bypassIf := findInterface tx name } :: back)) := by
      rw [← assigned]
      unfold out assignBypass
      simp only [loaded, ok_bind, bypass, tables, ran, stores]
      rfl
    by_cases missing : findInterface tx name = none
    · rw [if_pos missing] at stage
      have absent := findInterface_eq_none_iff.mp missing
      refine .inr (.inl ⟨fine, fun ⟨y, member, same⟩ => absent y member same, _, stage, ?_⟩)
      rw [List.length_append, List.length_append]
      rfl
    · rw [if_neg missing] at stage
      have there : ∃ y ∈ tx, y.name = some name := by
        by_contra absent
        exact missing (findInterface_eq_none_iff.mpr fun y member same =>
          absent ⟨y, member, same⟩)
      exact .inl ⟨fine, there, stage⟩
  · have stage : out = .error .nullPointer := by
      unfold out assignBypass
      simp only [loaded, ok_bind, bypass, tables, ran, error_bind]
    exact .inr (.inr ⟨danger, stage⟩)

/-- The rx interfaces when the first `k` of them have their bypass. -/
def resolvedUpTo (tx rx : List IfT) (k : Nat) : List IfT :=
  (rx.take k).map (resolveBypass tx) ++ rx.drop k

theorem resolvedUpTo_front (tx front rest : List IfT) :
    resolvedUpTo tx (front ++ rest) front.length = front.map (resolveBypass tx) ++ rest := by
  rw [resolvedUpTo, List.take_left, List.drop_left]

/-- One more of them. -/
theorem resolvedUpTo_succ (tx front back : List IfT) (x : IfT) :
    resolvedUpTo tx (front ++ x :: back) (front.length + 1) =
      front.map (resolveBypass tx) ++ resolveBypass tx x :: back := by
  have longer := resolvedUpTo_front tx (front ++ [x]) back
  rwa [List.append_assoc, List.length_append, List.map_append, List.append_assoc] at longer

/-- **The bypass interfaces**: all of them are resolved, and nothing else changes; or some bypass
name is no name of a tx interface; or a null name is compared. -/
theorem assignBypassInterfaces_cases (roomRx : rx.length ≤ maxInterfaces)
    (roomTx : tx.length ≤ maxInterfaces) (clear : ∀ x ∈ rx, x.bypassIf = none)
    (ctx : DispatcherCtx) (heldRx : ctx.rxInterfaces = .ofList rx)
    (heldTx : ctx.txInterfaces = .ofList tx) :
    (BypassSafe rx tx ∧ (∀ x ∈ rx, BypassFound tx x) ∧
      assignBypassInterfaces ctx = .ok (0, ctx.withRx (rx.map (resolveBypass tx)))) ∨
    (BypassSafe rx tx ∧ ¬ (∀ x ∈ rx, BypassFound tx x) ∧
      ∃ rx', assignBypassInterfaces ctx = .ok (-1, ctx.withRx rx') ∧ rx'.length = rx.length) ∨
    ¬ BypassSafe rx tx ∧ assignBypassInterfaces ctx = .error .nullPointer := by
  let safe (x : IfT) : Prop := ∀ name, x.bypassName = some name → NamesSafe tx name
  have one : ∀ done (p : IfT × Nat) rest st, rx.zipIdx = done ++ p :: rest →
      st = ctx.withRx (resolvedUpTo tx rx done.length) →
      (safe p.1 ∧ BypassFound tx p.1 ∧ ∃ st', assignBypass p.2 st = .ok (0, st') ∧
        st' = ctx.withRx (resolvedUpTo tx rx (done ++ [p]).length)) ∨
      (safe p.1 ∧ ¬ BypassFound tx p.1 ∧
        ∃ ret st', assignBypass p.2 st = .ok (ret, st') ∧ ret ≠ 0 ∧
          ret = -1 ∧ ∃ rx', st' = ctx.withRx rx' ∧ rx'.length = rx.length) ∨
      ¬ safe p.1 ∧ ∃ trap, assignBypass p.2 st = .error trap ∧ trap = .nullPointer := by
    rintro done ⟨x, i⟩ rest _ split rfl
    obtain ⟨index, whole⟩ := zipIdx_split split
    have count : done.length = (done.map Prod.fst).length := (List.length_map _).symm
    rw [List.length_append, List.length_singleton, count, index, whole,
      resolvedUpTo_front, resolvedUpTo_succ]
    generalize done.map Prod.fst = front at whole
    generalize rest.map Prod.fst = back at whole
    subst whole
    have mapped : (front.map (resolveBypass tx)).length = front.length := List.length_map _
    have length : (front.map (resolveBypass tx) ++ x :: back).length =
        (front ++ x :: back).length := by
      rw [List.length_append, List.length_append, mapped]
    rw [← mapped]
    rcases assignBypass_cases ctx (length.trans_le roomRx) roomTx
      (clear x (List.mem_append_right _ List.mem_cons_self)) heldTx with
      ⟨fine, found, ran⟩ | ⟨fine, missing, rx', ran, same⟩ | ⟨danger, ran⟩
    · exact .inl ⟨fine, found, _, ran, rfl⟩
    · exact .inr (.inl ⟨fine, missing, -1, _, ran, by decide, rfl, rx', rfl, same.trans length⟩)
    · exact .inr (.inr ⟨danger, _, ran, rfl⟩)
  have start : ctx = ctx.withRx (resolvedUpTo tx rx 0) := by
    show ctx = { ctx with rxInterfaces := .ofList rx }
    rw [← heldRx]
  have ways := loop_guarded (fun _ (p : IfT × Nat) => BypassFound tx p.1) (fun _ p => safe p.1) _
    one rx.zipIdx [] rfl start
  rw [guarded_zipIdx (g := BypassFound tx) (s := safe), passes_iff,
    forall_zipIdx (g := BypassFound tx), ← loop_map, ← range_eq_zipIdx] at ways
  have whole : resolvedUpTo tx rx rx.length = rx.map (resolveBypass tx) := by
    rw [resolvedUpTo, List.take_length, List.drop_length, List.append_nil]
  unfold assignBypassInterfaces
  rw [heldRx, InterfaceT.ofList_count_toNat]
  rcases ways with ⟨fine, all, ctx', ran, rfl⟩ | ⟨fine, missing, ret, ctx', ran, _, rfl, rx', rfl,
    length⟩ | ⟨danger, trap, ran, rfl⟩
  · rw [List.length_zipIdx, whole] at ran
    exact .inl ⟨fine, all, ran⟩
  · exact .inr (.inl ⟨fine, missing, rx', ran, length⟩)
  · exact .inr (.inr ⟨danger, ran⟩)

end Stage

/-! ### The stage behind `_init_app_ctx` -/

/-- **What the stage promises when it succeeds.** -/
structure BypassResolved (ctx ctx' : DispatcherCtx) : Prop where
  others : ctx' =
    { ctx with rxInterfaces := { ctx.rxInterfaces with ifs := ctx'.rxInterfaces.ifs } }
  fields : ∀ i (inside : i < maxInterfaces), ctx'.rxInterfaces.ifs[i] =
    { ctx.rxInterfaces.ifs[i] with bypassIf := ctx'.rxInterfaces.ifs[i].bypassIf }
  behind : ∀ i (inside : i < maxInterfaces), ctx.rxInterfaces.count ≤ i →
    ctx'.rxInterfaces.ifs[i] = ctx.rxInterfaces.ifs[i]
  named : ∀ x ∈ ctx'.rxInterfaces.entries, ∀ name, x.bypassName = some name →
    ∃ k y, x.bypassIf = some k ∧ ctx.txInterfaces.entries[k]? = some y ∧ y.name = some name ∧
      ∀ j < k, ∀ z, ctx.txInterfaces.entries[j]? = some z → z.name ≠ some name
  unnamed : ∀ x ∈ ctx'.rxInterfaces.entries, x.bypassName = none → x.bypassIf = none

/-- An interface without a bypass name stays as it is, in particular a cell that is zero. -/
theorem resolveBypass_blank (tx : List IfT) : resolveBypass tx {} = {} := rfl

/-- The cells of a table whose interfaces all have their bypass. -/
theorem cell_resolved (rx tx : List IfT) {i : Nat} (inside : i < maxInterfaces) :
    (InterfaceT.ofList (rx.map (resolveBypass tx))).ifs[i] =
      resolveBypass tx (InterfaceT.ofList rx).ifs[i] := by
  unfold InterfaceT.ofList
  rw [writeFront_getElem, writeFront_getElem, Vector.getElem_replicate,
    ← resolveBypass_blank tx, List.getD_map, resolveBypass_blank]

theorem bypassResolved_of_found {rx tx : List IfT} {ctx : DispatcherCtx}
    (roomRx : rx.length ≤ maxInterfaces) (roomTx : tx.length ≤ maxInterfaces)
    (heldRx : ctx.rxInterfaces = .ofList rx) (heldTx : ctx.txInterfaces = .ofList tx)
    (found : ∀ x ∈ rx, BypassFound tx x) :
    BypassResolved ctx (ctx.withRx (rx.map (resolveBypass tx))) := by
  have roomRx' : (rx.map (resolveBypass tx)).length ≤ maxInterfaces := by
    rwa [List.length_map]
  refine ⟨?_, fun i inside => ?_, fun i inside high => ?_, ?_, ?_⟩
  · rw [heldRx]
    unfold DispatcherCtx.withRx InterfaceT.ofList
    rw [List.length_map]
  · rw [heldRx, DispatcherCtx.withRx, cell_resolved rx tx inside]
    rfl
  · rw [heldRx] at high ⊢
    have blank : (InterfaceT.ofList rx).ifs[i] = {} := by
      unfold InterfaceT.ofList
      rw [writeFront_getElem, List.getD_eq_default _ _ (Int.ofNat_le.mp high),
        Vector.getElem_replicate]
    rw [DispatcherCtx.withRx, cell_resolved rx tx inside, blank]
    rfl
  · rw [DispatcherCtx.withRx, heldTx, InterfaceT.entries_ofList roomRx',
      InterfaceT.entries_ofList roomTx, List.forall_mem_map]
    intro x member name bypass
    obtain ⟨y, present, same⟩ := found x member name bypass
    cases search : findInterface tx name with
    | none => exact absurd same (findInterface_eq_none_iff.mp search y present)
    | some k =>
      obtain ⟨y', entry, same', first⟩ := findInterface_first search
      refine ⟨k, y', ?_, entry, same', first⟩
      have bypass' : x.bypassName = some name := bypass
      rw [resolveBypass, bypass', Option.bind_some, search]
  · rw [DispatcherCtx.withRx, InterfaceT.entries_ofList roomRx', List.forall_mem_map]
    intro x _ none
    have none' : x.bypassName = Option.none := none
    rw [resolveBypass, none', Option.bind_none]

/-- No entry has a bypass before the stage. -/
theorem stored_clear (rings : Rings) {confs : List IfConf} :
    ∀ x ∈ stored rings confs, x.bypassIf = none := by
  intro x member
  obtain ⟨_, _, _, rfl⟩ := (mem_stored rings).mp member
  rfl

/-- An allocator that succeeds has gone through all its stages. -/
theorem allocatorCreateRessources_succeeds {rings : Rings}
    {ealInit : List (Option String) → Int} {conf : AppConf} {ctx₀ ctx' : DispatcherCtx}
    (returned : allocatorCreateRessources rings ealInit conf ctx₀ = .ok (0, ctx')) :
    ∃ ctx, initAppCtx rings conf ctx₀ = .ok (0, ctx) ∧
      assignBypassInterfaces ctx = .ok (0, ctx') := by
  unfold allocatorCreateRessources at returned
  obtain ⟨err, _, returned⟩ := bind_eq_ok.mp returned
  rcases check_eq_ok returned with failed | ⟨_, returned⟩
  · exact absurd failed (by decide)
  rcases call_eq_ok returned (fun _ => rfl) with failed | ⟨ctx, initialized, returned⟩
  · exact absurd failed (by decide)
  rcases call_eq_ok returned (fun _ => rfl) with failed | ⟨ctx'', assigned, returned⟩
  · exact absurd failed (by decide)
  · cases returned
    exact ⟨ctx, initialized, assigned⟩

section Configuration

variable {conf : AppConf} {contents : ConfList → List IfConf}

/-- **The bypass interfaces of a configuration.** Behind `_init_app_ctx` the stage resolves every
bypass name to the first tx interface with that name, or refuses since some bypass name is no name
of a tx interface; and the allocator succeeds only if every bypass name of a used rx interface is
the name of a used tx interface. -/
theorem bypass_resolution (lists : Lists confLists conf.store contents)
    (few : ∀ list, usedCount (contents list) ≤ maxInterfaces) (rings : Rings)
    (ealInit : List (Option String) → Int) (ctx₀ : DispatcherCtx) :
    (∀ ctx, initAppCtx rings conf ctx₀ = .ok (0, ctx) →
      ∀ ret ctx', assignBypassInterfaces ctx = .ok (ret, ctx') →
        (ret = 0 ∧ BypassResolved ctx ctx') ∨
        (ret = -1 ∧ ∃ x ∈ ctx.rxInterfaces.entries, ∃ name, x.bypassName = some name ∧
          ∀ y ∈ ctx.txInterfaces.entries, y.name ≠ some name)) ∧
    ∀ ctx', allocatorCreateRessources rings ealInit conf ctx₀ = .ok (0, ctx') →
      ∀ pIfConf ∈ contents .rx, pIfConf.used ≠ 0 →
        ∀ name, pIfConf.bypassIfName = some name →
          ∃ other ∈ contents .tx, other.used ≠ 0 ∧ other.name = some name := by
  have room : ∀ list, (stored rings (contents list)).length ≤ maxInterfaces := fun list =>
    (stored_length rings _).trans_le (few list)
  have ways := assignBypassInterfaces_cases (room .rx) (room .tx) (stored_clear rings)
    (ctxOf rings conf contents confLists) rfl rfl
  refine ⟨fun ctx initialized ret ctx' returned => ?_, fun ctx' returned => ?_⟩
  · obtain ⟨_, _, rfl⟩ := initAppCtx_succeeds rings lists initialized
    rcases ways with ⟨_, found, ran⟩ | ⟨_, missing, _, ran, _⟩ | ⟨_, ran⟩
    · cases ran.symm.trans returned
      exact .inl ⟨rfl, bypassResolved_of_found (room .rx) (room .tx) rfl rfl found⟩
    · cases ran.symm.trans returned
      refine .inr ⟨rfl, ?_⟩
      have heldRx : (ctxOf rings conf contents confLists).rxInterfaces =
          .ofList (stored rings (contents .rx)) := rfl
      have heldTx : (ctxOf rings conf contents confLists).txInterfaces =
          .ofList (stored rings (contents .tx)) := rfl
      rw [heldRx, heldTx, InterfaceT.entries_ofList (room .rx),
        InterfaceT.entries_ofList (room .tx)]
      unfold BypassFound at missing
      push Not at missing
      exact missing
    · cases ran.symm.trans returned
  · obtain ⟨ctx, initialized, assigned⟩ := allocatorCreateRessources_succeeds returned
    obtain ⟨_, _, rfl⟩ := initAppCtx_succeeds rings lists initialized
    rcases ways with ⟨_, found, _⟩ | ⟨_, _, _, ran, _⟩ | ⟨_, ran⟩
    · intro pIfConf member used name bypass
      have entry := (mem_stored rings).mpr ⟨pIfConf, member, used, rfl⟩
      obtain ⟨y, present, same⟩ := found (entryOf rings pIfConf) entry name bypass
      obtain ⟨other, member', used', rfl⟩ := (mem_stored rings).mp present
      exact ⟨other, member', used', same⟩
    · cases ran.symm.trans assigned
    · cases ran.symm.trans assigned

theorem bypass_resolution_small :
    let rings : Rings := .strict fun name => if name = "ring_1" then some 7 else none
    ∃ conf ctx ctx', appConfParseFile Json.namesC smallDocument zeroConf = .ok (0, conf) ∧
      initAppCtx rings conf zeroCtx = .ok (0, ctx) ∧
      assignBypassInterfaces ctx = .ok (0, ctx') ∧ BypassResolved ctx ctx' := by
  intro rings
  obtain ⟨conf, parsed⟩ := smallDocument_parses
  obtain ⟨_, decoded⟩ := parsed_decoded Json.namesC parsed
  have few : ∀ list, usedCount (entries Json.namesC smallDocument.root list) ≤ maxInterfaces := by
    intro list
    cases list <;> decide
  have found : ∀ list, ListFound rings (entries Json.namesC smallDocument.root list) := by
    intro list
    cases list <;> decide
  have initialized := initAppCtx_of_found rings decoded.lists few found zeroCtx
  obtain ⟨ctx', assigned⟩ : ∃ ctx', assignBypassInterfaces (ctxOf rings conf
      (entries Json.namesC smallDocument.root) confLists) = .ok (0, ctx') := ⟨_, rfl⟩
  rcases (bypass_resolution decoded.lists few rings (fun _ => 0) zeroCtx).1 _ initialized 0 ctx'
    assigned with ⟨_, resolved⟩ | ⟨failed, _⟩
  · exact ⟨conf, _, ctx', parsed, initialized, assigned, resolved⟩
  · exact absurd failed (by decide)

end Configuration

end CyberPlatform.Dispatcher
