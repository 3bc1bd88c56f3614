/-
**`dispatcher/allocator.c`: from the three lists to the three tables.**

What lies outside of the dispatcher are the rings of the process, which `rte_ring_lookup` finds by
their names, and `ealInit`, the value of `rte_eal_init` for its arguments.

* `storeIfInCtx_cases` — what one entry does to a table that holds the entries before it.
* `fillTable_cases` — what a whole list does.
* `initAppCtx_cases` — what the three lists do.
-/

import CyberPlatform.Common.Eal
import CyberPlatform.Dispatcher.AppConf
import CyberPlatform.Dispatcher.Context

namespace CyberPlatform.Dispatcher

open Foundation Json LList

/-! ### The rings -/

/-- **The rings of a process**: which one a name finds, and whether there is a ring at all. -/
structure Rings where
  lookup : String → Option Ring
  any : Bool
  found : ∀ name, (lookup name).isSome → any = true

/-- A process that has rings, so that no name is looked up unread. -/
def Rings.strict (lookup : String → Option Ring) : Rings := ⟨lookup, true, fun _ _ => rfl⟩

/-- A process without rings. -/
def Rings.empty : Rings := ⟨fun _ => none, false, fun _ found => absurd found Bool.false_ne_true⟩

/-! ### The code -/

section Code

variable (rings : Rings) (ealInit : List (Option String) → Int)

/-- `rte_ring_lookup`, which compares the name with that of each ring. -/
def rteRingLookup : Option String → Except Trap (Option Ring)
  | none => if rings.any then .error .nullPointer else .ok none
  | some name => .ok (rings.lookup name)

/-- The end of `_store_if_in_ctx`: the bypass name and the count. -/
def storeBypass (pIfConf : IfConf) (pInterface : InterfaceT) (count : Nat) :
    Except Trap (Int × InterfaceT) := do
  let ifs ← match pIfConf.bypassIfName with
    | none => pure pInterface.ifs
    | some name => do
      let copy ← strdup (some name)
      modify pInterface.ifs count fun x => { x with bypassName := copy }
  return (0, { ifs := ifs, count := pInterface.count + 1 })

/-- `_store_if_in_ctx` -/
def storeIfInCtx (pIfConf : IfConf) (pInterface : InterfaceT) :
    Except Trap (Int × InterfaceT) := do
  if pIfConf.used = 0 then return (0, pInterface)
  let count := pInterface.count.toNat
  let ifs ← modify pInterface.ifs count fun x => { x with name := pIfConf.name }
  let ifs ← modify ifs count fun x => { x with isEth := pIfConf.isEth }
  if pIfConf.isEth ≠ 0 then
    -- Store eth
    let ifs ← modify ifs count fun x => { x with portId := pIfConf.portId }
    let ifs ← modify ifs count fun x => { x with qId := pIfConf.qId }
    storeBypass pIfConf { pInterface with ifs := ifs } count
  else
    -- Lookup ring
    let ring ← rteRingLookup rings pIfConf.ringName
    let ifs ← modify ifs count fun x => { x with pRing := ring }
    if ring = none then return (-1, { pInterface with ifs := ifs })
    storeBypass pIfConf { pInterface with ifs := ifs } count

/-- `memset` of the whole context. -/
def zeroCtx : DispatcherCtx where
  appName := none
  coreId := 0
  rxInterfaces := .ofList []
  txInterfaces := .ofList []
  appInterfaces := .ofList []

/-- The table of a list. -/
def DispatcherCtx.table (ctx : DispatcherCtx) : ConfList → InterfaceT
  | .rx => ctx.rxInterfaces
  | .tx => ctx.txInterfaces
  | .app => ctx.appInterfaces

def DispatcherCtx.setTable (ctx : DispatcherCtx) (list : ConfList) (table : InterfaceT) :
    DispatcherCtx :=
  match list with
  | .rx => { ctx with rxInterfaces := table }
  | .tx => { ctx with txInterfaces := table }
  | .app => { ctx with appInterfaces := table }

/-- One of the three blocks of `_init_app_ctx` that fill a table. -/
def initTable (pConf : AppConf) (list : ConfList) (ctx : DispatcherCtx) :
    Except Trap (Int × DispatcherCtx) := do
  let (pElem, table) ← visit pConf.store list (storeIfInCtx rings) (ctx.table list)
  let ctx := ctx.setTable list table
  if pElem ≠ none then return (-1, ctx)
  return (0, ctx)

/-- `_init_app_ctx`, of the global context. -/
def initAppCtx (pConf : AppConf) (_pDispatcherCtx : DispatcherCtx) :
    Except Trap (Int × DispatcherCtx) :=
  let ctx := { zeroCtx with appName := pConf.appName, coreId := pConf.coreId }
  -- the three blocks one after the other, each with a `return -1`
  loop (initTable rings pConf) confLists ctx

/-- The body of the loop of `_get_interface_by_name`, which is left with the index that is found. -/
def compareName (interfaces : InterfaceT) (name : Option String) (i : Nat) (found : Option Nat) :
    Except Trap (Int × Option Nat) := do
  let pIf ← fetch interfaces.ifs i
  if (← strcmp pIf.name name) = 0 then return (1, some i)
  return (0, found)

/-- `_get_interface_by_name` -/
def getInterfaceByName (interfaces : InterfaceT) (name : Option String) :
    Except Trap (Option Nat) := do
  let (_, found) ← loop (compareName interfaces name) (List.range interfaces.count.toNat) none
  return found

/-- The body of the loop of `_assign_bypass_interfaces`. -/
def assignBypass (i : Nat) (ctx : DispatcherCtx) : Except Trap (Int × DispatcherCtx) := do
  let pIf ← fetch ctx.rxInterfaces.ifs i
  match pIf.bypassName with
  | none => return (0, ctx)
  | some name =>
    let found ← getInterfaceByName ctx.txInterfaces (some name)
    let ifs ← modify ctx.rxInterfaces.ifs i fun x => { x with bypassIf := found }
    let ctx := { ctx with rxInterfaces := { ctx.rxInterfaces with ifs := ifs } }
    if found = none then return (-1, ctx)
    return (0, ctx)

/-- `_assign_bypass_interfaces` -/
def assignBypassInterfaces (ctx : DispatcherCtx) : Except Trap (Int × DispatcherCtx) :=
  loop assignBypass (List.range ctx.rxInterfaces.count.toNat) ctx

/-- The arguments that `_init_dpdk` puts together. -/
def dpdkArgv (name : Option String) (coreMask : UInt64) : List (Option String) :=
  [name, some "-c", some (hexText coreMask.toNat), some "-n", some "1",
    some "--proc-type=secondary"]

/-- `_init_dpdk` -/
def initDpdk (pConf : AppConf) : Except Trap Int := do
  let coreMask ← shiftLeft 1 pConf.coreId
  let name ← strdup pConf.appName
  if ealInit (dpdkArgv name coreMask) < 0 then return -1
  return 0

/-- `ALLOCATOR_create_ressources` of a configuration that is not null. -/
def allocatorCreateRessources (pConf : AppConf) (ctx : DispatcherCtx) :
    Except Trap (Int × DispatcherCtx) := do
  let err ← initDpdk ealInit pConf
  if err ≠ 0 then return (-1, ctx)
  let (err, ctx) ← initAppCtx rings pConf ctx
  if err ≠ 0 then return (-1, ctx)
  let (err, ctx) ← assignBypassInterfaces ctx
  if err ≠ 0 then return (-1, ctx)
  return (0, ctx)

end Code

/-! ### One entry -/

section Entry

variable (rings : Rings)

/-- **What a used entry becomes** in its table. -/
def entryOf (pIfConf : IfConf) : IfT where
  name := pIfConf.name
  bypassName := pIfConf.bypassIfName
  isEth := pIfConf.isEth
  pRing := if pIfConf.isEth ≠ 0 then none else pIfConf.ringName.bind rings.lookup
  portId := if pIfConf.isEth ≠ 0 then pIfConf.portId else 0
  qId := if pIfConf.isEth ≠ 0 then pIfConf.qId else 0

/-- **What a list becomes**: its used entries, in their order. -/
def stored (confs : List IfConf) : List IfT := (confs.filter (·.used ≠ 0)).map (entryOf rings)

/-- How many entries are used. -/
def usedCount (confs : List IfConf) : Nat := confs.countP (·.used ≠ 0)

/-- An entry is on a NIC, or its ring is found. -/
def Resolved (pIfConf : IfConf) : Prop :=
  pIfConf.isEth ≠ 0 ∨ ∃ name r, pIfConf.ringName = some name ∧ rings.lookup name = some r

theorem resolved_iff (pIfConf : IfConf) :
    Resolved rings pIfConf ↔ pIfConf.isEth ≠ 0 ∨ (pIfConf.ringName.bind rings.lookup).isSome := by
  unfold Resolved
  refine or_congr_right ?_
  cases pIfConf.ringName with
  | none => simp
  | some name => simp [Option.isSome_iff_exists]

instance (pIfConf : IfConf) : Decidable (Resolved rings pIfConf) :=
  decidable_of_iff _ (resolved_iff rings pIfConf).symm

theorem stored_length (confs : List IfConf) : (stored rings confs).length = usedCount confs := by
  rw [stored, List.length_map, usedCount, List.countP_eq_length_filter]

theorem stored_append (front back : List IfConf) :
    stored rings (front ++ back) = stored rings front ++ stored rings back := by
  unfold stored
  rw [List.filter_append, List.map_append]

theorem stored_used {pIfConf : IfConf} (used : pIfConf.used ≠ 0) :
    stored rings [pIfConf] = [entryOf rings pIfConf] := by
  simp [stored, used]

theorem stored_unused {pIfConf : IfConf} (unused : pIfConf.used = 0) :
    stored rings [pIfConf] = [] := by
  simp [stored, unused]

/-- An entry of a table is a used one of the configuration. -/
theorem mem_stored {confs : List IfConf} {x : IfT} :
    x ∈ stored rings confs ↔ ∃ conf ∈ confs, conf.used ≠ 0 ∧ entryOf rings conf = x := by
  simp [stored, and_assoc]

section Table

variable {rings} {t : List IfT}

/-- The table that holds `t` and, in the cell behind, the beginning of another entry. -/
def started (t : List IfT) (x : IfT) : InterfaceT :=
  { InterfaceT.ofList (t ++ [x]) with count := t.length }

theorem started_count (t : List IfT) (x : IfT) : (started t x).count = t.length := rfl

/-- A store to the cell behind the entries starts another one. -/
theorem modify_ofList (room : t.length < maxInterfaces) (f : IfT → IfT) :
    modify (InterfaceT.ofList t).ifs t.length f = .ok (started t (f {})).ifs := by
  have blank : (Vector.replicate maxInterfaces ({} : IfT))[t.length] = {} :=
    Vector.getElem_replicate _
  unfold InterfaceT.ofList
  rw [modify_behind _ _ room, blank]
  rfl

/-- Another store to that cell. -/
theorem modify_started (room : t.length < maxInterfaces) (x : IfT) (f : IfT → IfT) :
    modify (started t x).ifs t.length f = .ok (started t (f x)).ifs :=
  modify_last _ t room x f

/-- With the count, the entry belongs to the table. -/
theorem started_counted (t : List IfT) (x y : IfT) :
    ({ ifs := (started t x).ifs, count := (started t y).count + 1 } : InterfaceT) =
      InterfaceT.ofList (t ++ [x]) := by
  unfold started InterfaceT.ofList
  rw [List.length_append]
  rfl

/-- The end of an entry. -/
theorem storeBypass_eq (room : t.length < maxInterfaces) (pIfConf : IfConf) {x : IfT}
    (clear : x.bypassName = none) :
    storeBypass pIfConf (started t x) t.length =
      .ok (0, InterfaceT.ofList (t ++ [{ x with bypassName := pIfConf.bypassIfName }])) := by
  unfold storeBypass
  cases bypass : pIfConf.bypassIfName with
  | none =>
    have same : { x with bypassName := none } = x := by rw [← clear]
    rw [← started_counted t _ x, same]
    rfl
  | some name =>
    rw [← started_counted t _ x]
    simp only [strdup, ok_bind, modify_started room]
    rfl

/-- An entry that is not used is passed over. -/
theorem storeIfInCtx_unused {pIfConf : IfConf} (unused : pIfConf.used = 0) (table : InterfaceT) :
    storeIfInCtx rings pIfConf table = .ok (0, table) := by
  unfold storeIfInCtx
  rw [if_pos unused]
  rfl

section Used

variable {pIfConf : IfConf} (used : pIfConf.used ≠ 0)
include used

/-- A used entry has no cell in a table that is full. -/
theorem storeIfInCtx_full (full : maxInterfaces ≤ t.length) :
    storeIfInCtx rings pIfConf (.ofList t) = .error .outOfBounds := by
  unfold storeIfInCtx
  simp only [if_neg used, InterfaceT.ofList_count_toNat, modify_outside _ full, error_bind]

variable (room : t.length < maxInterfaces)
include room

/-- A used entry on a NIC, with a free cell. -/
theorem storeIfInCtx_eth (eth : pIfConf.isEth ≠ 0) :
    storeIfInCtx rings pIfConf (.ofList t) = .ok (0, .ofList (t ++ [entryOf rings pIfConf])) := by
  let x : IfT := { name := pIfConf.name, isEth := pIfConf.isEth, portId := pIfConf.portId,
                   qId := pIfConf.qId }
  have whole := storeBypass_eq room pIfConf (show x.bypassName = none from rfl)
  unfold storeIfInCtx entryOf
  simp only [if_neg used, if_pos eth, InterfaceT.ofList_count_toNat, modify_ofList room,
    modify_started room, ok_bind]
  exact whole

/-- A used entry on a ring, with a free cell. -/
theorem storeIfInCtx_ring (ring : ¬ pIfConf.isEth ≠ 0) :
    storeIfInCtx rings pIfConf (.ofList t) =
      rteRingLookup rings pIfConf.ringName >>= fun r =>
        let x : IfT := { name := pIfConf.name, isEth := pIfConf.isEth, pRing := r }
        if r = none then .ok (-1, started t x)
        else .ok (0, .ofList (t ++ [{ x with bypassName := pIfConf.bypassIfName }])) := by
  unfold storeIfInCtx
  simp only [if_neg used, if_neg ring, InterfaceT.ofList_count_toNat, modify_ofList room,
    modify_started room, ok_bind]
  cases rteRingLookup rings pIfConf.ringName with
  | error trap => rfl
  | ok r =>
    let x : IfT := { name := pIfConf.name, isEth := pIfConf.isEth, pRing := r }
    have whole := storeBypass_eq room pIfConf (show x.bypassName = none from rfl)
    rw [ok_bind, ok_bind]
    by_cases missing : r = none
    · rw [if_pos missing, if_pos missing]
      rfl
    · rw [if_neg missing, if_neg missing]
      exact whole

end Used

end Table

/-- The name of a ring can be looked up: it is no null pointer, or no ring is there to compare. -/
def NameSafe (ringName : Option String) : Prop := ringName ≠ none ∨ rings.any = false

instance (ringName : Option String) : Decidable (NameSafe rings ringName) :=
  inferInstanceAs (Decidable (_ ∨ _))

/-- **The lookup of a ring** returns exactly when its name can be looked up. -/
theorem rteRingLookup_cases (ringName : Option String) :
    (NameSafe rings ringName ∧
      rteRingLookup rings ringName = .ok (ringName.bind rings.lookup)) ∨
    ¬ NameSafe rings ringName ∧ rteRingLookup rings ringName = .error .nullPointer := by
  cases ringName with
  | some name => exact .inl ⟨.inl (Option.some_ne_none name), rfl⟩
  | none =>
    unfold NameSafe rteRingLookup
    cases rings.any with
    | true => exact .inr ⟨fun safe => safe.elim (absurd rfl) fun same => (by cases same), rfl⟩
    | false => exact .inl ⟨.inr rfl, rfl⟩

/-- A used entry gets a free cell, and is on a NIC, or the name of its ring can be looked up. -/
def EntrySafe (done : List IfConf) (pIfConf : IfConf) : Prop :=
  pIfConf.used ≠ 0 →
    usedCount done < maxInterfaces ∧ (pIfConf.isEth ≠ 0 ∨ NameSafe rings pIfConf.ringName)

/-- **One entry.** It is added, or its ring is not found, or there is no cell or no name for it. -/
theorem storeIfInCtx_cases {done : List IfConf} (short : usedCount done ≤ maxInterfaces)
    (pIfConf : IfConf) :
    (EntrySafe rings done pIfConf ∧ (pIfConf.used ≠ 0 → Resolved rings pIfConf) ∧
      usedCount (done ++ [pIfConf]) ≤ maxInterfaces ∧
      storeIfInCtx rings pIfConf (.ofList (stored rings done)) =
        .ok (0, .ofList (stored rings (done ++ [pIfConf])))) ∨
    (EntrySafe rings done pIfConf ∧ ¬ (pIfConf.used ≠ 0 → Resolved rings pIfConf) ∧
      usedCount done < maxInterfaces ∧
      storeIfInCtx rings pIfConf (.ofList (stored rings done)) =
        .ok (-1, started (stored rings done) { name := pIfConf.name, isEth := pIfConf.isEth })) ∨
    ¬ EntrySafe rings done pIfConf ∧
      ∃ trap, storeIfInCtx rings pIfConf (.ofList (stored rings done)) = .error trap ∧
        (trap = .outOfBounds → pIfConf.used ≠ 0 ∧ maxInterfaces ≤ usedCount done) := by
  unfold EntrySafe
  rw [← stored_length rings] at short
  simp only [← stored_length rings]
  by_cases unused : pIfConf.used = 0
  · refine .inl ⟨fun used => absurd unused used, fun used => absurd unused used, ?_, ?_⟩
    · rwa [stored_append, stored_unused rings unused, List.append_nil]
    · rw [stored_append, stored_unused rings unused, List.append_nil]
      exact storeIfInCtx_unused unused _
  rw [stored_append, stored_used rings unused]
  by_cases room : (stored rings done).length < maxInterfaces
  · have longer : (stored rings done ++ [entryOf rings pIfConf]).length ≤ maxInterfaces := by
      rw [List.length_append]
      exact room
    by_cases eth : pIfConf.isEth ≠ 0
    · exact .inl ⟨fun _ => ⟨room, .inl eth⟩, fun _ => .inl eth, longer,
        storeIfInCtx_eth unused room eth⟩
    · rw [storeIfInCtx_ring unused room eth, resolved_iff]
      rcases rteRingLookup_cases rings pIfConf.ringName with ⟨named, ran⟩ | ⟨unnamed, ran⟩
      · have safe : pIfConf.used ≠ 0 → (stored rings done).length < maxInterfaces ∧
            (pIfConf.isEth ≠ 0 ∨ NameSafe rings pIfConf.ringName) := fun _ => ⟨room, .inr named⟩
        rw [ran, ok_bind]
        cases found : pIfConf.ringName.bind rings.lookup with
        | none =>
          refine .inr (.inl ⟨safe, fun resolved => ?_, room, if_pos rfl⟩)
          exact (resolved unused).elim eth fun some => (by cases some)
        | some r =>
          refine .inl ⟨safe, fun _ => .inr rfl, longer, ?_⟩
          rw [if_neg (Option.some_ne_none r)]
          simp [entryOf, found, not_not.mp eth]
      · refine .inr (.inr ⟨fun safe => (safe unused).2.elim eth unnamed, .nullPointer, ?_,
          fun same => by cases same⟩)
        rw [ran]
        rfl
  · refine .inr (.inr ⟨fun safe => room (safe unused).1, .outOfBounds, ?_, fun _ =>
      ⟨unused, by omega⟩⟩)
    exact storeIfInCtx_full unused (by omega)

end Entry

/-! ### A whole list -/

section Fill

variable (rings : Rings)

/-- The entries of a list are safe, up to the first one whose ring is not found. -/
def ListSafe (confs : List IfConf) : Prop :=
  Guarded (fun _ pIfConf => pIfConf.used ≠ 0 → Resolved rings pIfConf) (EntrySafe rings) [] confs

/-- Every used entry of a list is on a NIC, or its ring is found. -/
def ListFound (confs : List IfConf) : Prop :=
  ∀ pIfConf ∈ confs, pIfConf.used ≠ 0 → Resolved rings pIfConf

instance (confs : List IfConf) : Decidable (ListFound rings confs) :=
  inferInstanceAs (Decidable (∀ pIfConf ∈ confs, pIfConf.used ≠ 0 → Resolved rings pIfConf))

/-- A list whose rings are all found, with a cell for every used entry, is safe. -/
theorem listSafe_of_found {confs : List IfConf} (few : usedCount confs ≤ maxInterfaces)
    (found : ListFound rings confs) : ListSafe rings confs := by
  refine guarded_of_forall
    (fun done pIfConf rest (split : confs = done ++ pIfConf :: rest) used => ⟨?_, ?_⟩) confs [] rfl
  · rw [split, usedCount, List.countP_append, List.countP_cons_of_pos (by simpa using used)] at few
    unfold usedCount
    omega
  · have member : pIfConf ∈ confs := split ▸ List.mem_append_right done List.mem_cons_self
    rcases found pIfConf member used with eth | ⟨name, r, named, _⟩
    · exact .inl eth
    · exact .inr (.inl (named ▸ Option.some_ne_none name))

/-- **A table whose list has stopped** at a used entry, the first one whose ring is not found: the
entries before it are in the table, and its name and type in the cell behind, which is not counted.
-/
def StoppedTable (confs : List IfConf) (table : InterfaceT) : Prop :=
  ∃ front pIfConf back, confs = front ++ pIfConf :: back ∧
    (pIfConf.used ≠ 0 ∧ ¬ Resolved rings pIfConf) ∧ ListFound rings front ∧
    usedCount front < maxInterfaces ∧
    table = started (stored rings front) { name := pIfConf.name, isEth := pIfConf.isEth }

/-- The count of a table is in the range of its cells. -/
def CountInside (table : InterfaceT) : Prop := 0 ≤ table.count ∧ table.count ≤ maxInterfaces

theorem countInside_ofList {confs : List IfConf} (few : usedCount confs ≤ maxInterfaces) :
    CountInside (.ofList (stored rings confs)) := by
  rw [← stored_length rings] at few
  exact ⟨Int.natCast_nonneg _, Int.ofNat_le.mpr few⟩

theorem countInside_empty : CountInside (.ofList []) := 
  ⟨Int.natCast_nonneg _, Int.ofNat_le.mpr (Nat.zero_le _)⟩

theorem StoppedTable.countInside {confs : List IfConf} {table : InterfaceT}
    (stopped : StoppedTable rings confs table) : CountInside table := by
  obtain ⟨front, _, _, _, _, _, room, same⟩ := stopped
  rw [CountInside, same, started_count, stored_length]
  exact ⟨Int.natCast_nonneg _, Int.ofNat_le.mpr (le_of_lt room)⟩

/-- **Filling a table** with a list: all of it, or its beginning up to a ring that is not found, or
there is no cell or no name for an entry. -/
theorem fillTable_cases (confs : List IfConf) :
    (ListSafe rings confs ∧ ListFound rings confs ∧ usedCount confs ≤ maxInterfaces ∧
      loop (storeIfInCtx rings) confs (.ofList []) = .ok (0, .ofList (stored rings confs))) ∨
    (ListSafe rings confs ∧ ¬ ListFound rings confs ∧
      ∃ table, loop (storeIfInCtx rings) confs (.ofList []) = .ok (-1, table) ∧
        StoppedTable rings confs table) ∨
    ¬ ListSafe rings confs ∧
      ∃ trap, loop (storeIfInCtx rings) confs (.ofList []) = .error trap ∧
        (trap = .outOfBounds → maxInterfaces < usedCount confs) := by
  have ways := loop_guarded (fun _ pIfConf => pIfConf.used ≠ 0 → Resolved rings pIfConf)
    (EntrySafe rings) (storeIfInCtx rings)
    (R := fun done table => (usedCount done ≤ maxInterfaces ∧ ListFound rings done) ∧
      table = .ofList (stored rings done))
    (Q := fun ret table => ret = -1 ∧ StoppedTable rings confs table)
    (T := fun trap => trap = .outOfBounds → maxInterfaces < usedCount confs)
    ?_ confs [] rfl ⟨⟨Nat.zero_le _, fun _ none => absurd none List.not_mem_nil⟩, rfl⟩
  · rw [passes_iff] at ways
    rcases ways with ⟨safe, found, table, ran, ⟨few, _⟩, rfl⟩ |
      ⟨safe, missing, ret, table, ran, _, rfl, stopped⟩ | wrong
    · exact .inl ⟨safe, found, few, ran⟩
    · exact .inr (.inl ⟨safe, missing, table, ran, stopped⟩)
    · exact .inr (.inr wrong)
  · rintro done pIfConf rest table split ⟨⟨short, before⟩, rfl⟩
    rw [List.nil_append] at split
    rcases storeIfInCtx_cases rings short pIfConf with ⟨safe, found, short', ran⟩ |
      ⟨safe, missing, room, ran⟩ | ⟨danger, trap, ran, full⟩
    · refine .inl ⟨safe, found, _, ran, ⟨short', ?_⟩, rfl⟩
      exact List.forall_mem_append.mpr ⟨before, List.forall_mem_singleton.mpr found⟩
    · refine .inr (.inl ⟨safe, missing, -1, _, ran, by decide, rfl, ?_⟩)
      exact ⟨done, pIfConf, rest, split, Classical.not_imp.mp missing, before, room, rfl⟩
    · refine .inr (.inr ⟨danger, trap, ran, fun outside => ?_⟩)
      obtain ⟨used, many⟩ := full outside
      rw [split, usedCount, List.countP_append, List.countP_cons_of_pos (by simpa using used)]
      unfold usedCount at many
      omega

/-! ### The three tables -/

section Stages

variable {conf : AppConf} {contents : ConfList → List IfConf}

/-- The table of a list, once the lists in `done` are filled in. -/
def tableOf (contents : ConfList → List IfConf) (done : List ConfList) (list : ConfList) :
    InterfaceT :=
  .ofList (if list ∈ done then stored rings (contents list) else [])

/-- **The context that holds the used entries** of the lists in `done`. -/
def ctxOf (conf : AppConf) (contents : ConfList → List IfConf) (done : List ConfList) :
    DispatcherCtx where
  appName := conf.appName
  coreId := conf.coreId
  rxInterfaces := tableOf rings contents done .rx
  txInterfaces := tableOf rings contents done .tx
  appInterfaces := tableOf rings contents done .app

/-- The entries of the three lists are safe, up to the first one whose ring is not found. -/
def InitSafe (contents : ConfList → List IfConf) : Prop :=
  Guarded (fun _ list => ListFound rings (contents list))
    (fun _ list => ListSafe rings (contents list)) [] confLists

theorem ctxOf_table (conf : AppConf) (contents : ConfList → List IfConf) (done : List ConfList)
    (list : ConfList) : (ctxOf rings conf contents done).table list =
      tableOf rings contents done list := by
  cases list <;> rfl

theorem setTable_table (ctx : DispatcherCtx) (list k : ConfList) (table : InterfaceT) :
    (ctx.setTable list table).table k = if k = list then table else ctx.table k := by
  cases list <;> cases k <;> rfl

/-- The next list is filled in. -/
theorem ctxOf_setTable (conf : AppConf) (contents : ConfList → List IfConf) (done : List ConfList)
    (list : ConfList) :
    (ctxOf rings conf contents done).setTable list (.ofList (stored rings (contents list))) =
      ctxOf rings conf contents (done ++ [list]) := by
  cases list <;> simp [ctxOf, DispatcherCtx.setTable, tableOf]

/-- One `LL_ForEach` of `_init_app_ctx`, for a list that represents its contents. -/
theorem visitTable_cases (lists : Lists confLists conf.store contents) (list : ConfList) :
    (ListSafe rings (contents list) ∧ ListFound rings (contents list) ∧
      usedCount (contents list) ≤ maxInterfaces ∧
      visit conf.store list (storeIfInCtx rings) (.ofList []) =
        .ok (none, .ofList (stored rings (contents list)))) ∨
    (ListSafe rings (contents list) ∧ ¬ ListFound rings (contents list) ∧
      ∃ e table, visit conf.store list (storeIfInCtx rings) (.ofList []) = .ok (some e, table) ∧
        StoppedTable rings (contents list) table) ∨
    ¬ ListSafe rings (contents list) ∧
      ∃ trap, visit conf.store list (storeIfInCtx rings) (.ofList []) = .error trap ∧
        (trap = .outOfBounds → maxInterfaces < usedCount (contents list)) := by
  have visits := lists.visit_loop (mem_confLists list) (storeIfInCtx rings) (.ofList [])
  rcases fillTable_cases rings (contents list) with ⟨safe, found, few, ran⟩ |
    ⟨safe, missing, table, ran, stopped⟩ | ⟨danger, trap, ran, full⟩
  · rw [ran] at visits
    rcases visits with ⟨_, same, _⟩ | ⟨table, same, visited⟩ | ⟨ret, _, _, same, leaves, _⟩
    · cases same
    · cases same
      exact .inl ⟨safe, found, few, visited⟩
    · cases same
      exact absurd rfl leaves
  · rw [ran] at visits
    rcases visits with ⟨_, same, _⟩ | ⟨_, same, _⟩ | ⟨ret, table', e, same, _, visited⟩
    · cases same
    · cases same
    · cases same
      exact .inr (.inl ⟨safe, missing, e, _, visited, stopped⟩)
  · rw [ran] at visits
    rcases visits with ⟨trap', same, visited⟩ | ⟨_, same, _⟩ | ⟨_, _, _, same, _⟩
    · cases same
      exact .inr (.inr ⟨danger, trap, visited, full⟩)
    · cases same
    · cases same

/-- **A context whose filling has stopped** in one of the lists: the tables of the lists before hold
these lists, its own table what came before the stop, and the tables behind are zero. -/
def StoppedCtx (contents : ConfList → List IfConf) (ctx : DispatcherCtx) : Prop :=
  ∃ front list back, confLists = front ++ list :: back ∧
    (∀ k ∈ front, ListFound rings (contents k) ∧ usedCount (contents k) ≤ maxInterfaces ∧
      ctx.table k = .ofList (stored rings (contents k))) ∧
    StoppedTable rings (contents list) (ctx.table list) ∧
    ∀ k ∈ back, ctx.table k = .ofList []

theorem StoppedCtx.countInside {ctx : DispatcherCtx} (stopped : StoppedCtx rings contents ctx)
    (k : ConfList) : CountInside (ctx.table k) := by
  obtain ⟨front, list, back, split, before, here, behind⟩ := stopped
  have member := mem_confLists k
  rw [split, List.mem_append, List.mem_cons] at member
  rcases member with earlier | rfl | later
  · obtain ⟨_, few, filled⟩ := before k earlier
    exact filled ▸ countInside_ofList rings few
  · exact here.countInside
  · exact behind k later ▸ countInside_empty

/-- **What `_init_app_ctx` does**: it fills the three tables, or stops at a ring that is not found,
or goes wrong at an entry without a cell or a name. -/
theorem initAppCtx_cases (lists : Lists confLists conf.store contents) (ctx : DispatcherCtx) :
    (InitSafe rings contents ∧ (∀ list, ListFound rings (contents list)) ∧
      (∀ list, usedCount (contents list) ≤ maxInterfaces) ∧
      initAppCtx rings conf ctx = .ok (0, ctxOf rings conf contents confLists)) ∨
    (InitSafe rings contents ∧ ¬ (∀ list, ListFound rings (contents list)) ∧
      ∃ ctx', initAppCtx rings conf ctx = .ok (-1, ctx') ∧
        StoppedCtx rings contents ctx') ∨
    ¬ InitSafe rings contents ∧
      ∃ trap, initAppCtx rings conf ctx = .error trap ∧
        (trap = .outOfBounds → ∃ list, maxInterfaces < usedCount (contents list)) := by
  have ways := loop_guarded (fun _ list => ListFound rings (contents list))
    (fun _ list => ListSafe rings (contents list)) (initTable rings conf)
    (R := fun done ctx => (∀ list ∈ done, ListFound rings (contents list) ∧
      usedCount (contents list) ≤ maxInterfaces) ∧ ctx = ctxOf rings conf contents done)
    (Q := fun ret ctx => ret = -1 ∧ StoppedCtx rings contents ctx)
    (T := fun trap => trap = .outOfBounds → ∃ list, maxInterfaces < usedCount (contents list))
    ?_ confLists [] rfl ⟨fun _ none => absurd none List.not_mem_nil, rfl⟩
  · rw [passes_iff] at ways
    simp only [mem_confLists, true_imp_iff] at ways
    rcases ways with ⟨safe, found, table, ran, few, rfl⟩ |
      ⟨safe, missing, ret, table, ran, _, rfl, stopped⟩ | wrong
    · exact .inl ⟨safe, found, fun list => (few list (mem_confLists list)).2, ran⟩
    · exact .inr (.inl ⟨safe, missing, table, ran, stopped⟩)
    · exact .inr (.inr wrong)
  · rintro done list rest _ split ⟨few, rfl⟩
    rw [List.nil_append] at split
    have distinct : (done ++ list :: rest).Nodup := split ▸ (by decide)
    obtain ⟨_, ones, apart⟩ := List.nodup_append.mp distinct
    have new : list ∉ done := fun twice => apart list twice list List.mem_cons_self rfl
    have empty : (ctxOf rings conf contents done).table list = .ofList [] := by
      rw [ctxOf_table, tableOf, if_neg new]
    unfold initTable
    rw [empty]
    rcases visitTable_cases rings lists list with ⟨safe, found, few', ran⟩ |
      ⟨safe, missing, e, table, ran, stopped⟩ | ⟨danger, trap, ran, full⟩
    · refine .inl ⟨safe, found, _, by rw [ran]; rfl, fun k known => ?_, ?_⟩
      · rcases List.mem_append.mp known with old | last
        · exact few k old
        · exact List.mem_singleton.mp last ▸ ⟨found, few'⟩
      · exact ctxOf_setTable rings conf contents done list
    · refine .inr (.inl ⟨safe, missing, -1, _, by rw [ran]; rfl, by decide, rfl, done, list, rest,
        split, fun k known => ?_, ?_, fun k later => ?_⟩)
      · have other : k ≠ list := fun same => new (same ▸ known)
        rw [setTable_table, if_neg other, ctxOf_table, tableOf, if_pos known]
        exact ⟨(few k known).1, (few k known).2, rfl⟩
      · rwa [setTable_table, if_pos rfl]
      · have other : k ≠ list := fun same => (List.nodup_cons.mp ones).1 (same ▸ later)
        have behind : k ∉ done := fun known =>
          apart k known k (List.mem_cons_of_mem list later) rfl
        rw [setTable_table, if_neg other, ctxOf_table, tableOf, if_neg behind]
    · exact .inr (.inr ⟨danger, trap, by rw [ran]; rfl, fun outside => ⟨list, full outside⟩⟩)

/-- What `_init_app_ctx` leaves behind when it succeeds. -/
theorem initAppCtx_succeeds (lists : Lists confLists conf.store contents) {ctx ctx' : DispatcherCtx}
    (returned : initAppCtx rings conf ctx = .ok (0, ctx')) :
    (∀ list, ListFound rings (contents list)) ∧
      (∀ list, usedCount (contents list) ≤ maxInterfaces) ∧
      ctx' = ctxOf rings conf contents confLists := by
  rcases initAppCtx_cases rings lists ctx with ⟨_, found, few, ran⟩ | ⟨_, _, _, ran, _⟩ |
    ⟨_, _, ran, _⟩
  · cases ran.symm.trans returned
    exact ⟨found, few, rfl⟩
  · cases ran.symm.trans returned
  · cases ran.symm.trans returned

/-- `_init_app_ctx` succeeds when all rings are found. -/
theorem initAppCtx_of_found (lists : Lists confLists conf.store contents)
    (few : ∀ list, usedCount (contents list) ≤ maxInterfaces)
    (found : ∀ list, ListFound rings (contents list)) (ctx : DispatcherCtx) :
    initAppCtx rings conf ctx = .ok (0, ctxOf rings conf contents confLists) := by
  rcases initAppCtx_cases rings lists ctx with ⟨_, _, _, ran⟩ | ⟨_, missing, _⟩ | ⟨danger, _⟩
  · exact ran
  · exact absurd found missing
  · refine absurd ?_ danger
    exact guarded_of_forall
      (fun _ list _ _ => listSafe_of_found rings (few list) (found list)) _ [] rfl

end Stages

end Fill

end CyberPlatform.Dispatcher
