/-
**`_init_interfaces` while other processes use the rings.**

`Dispatcher.initInterfaces` flushes the rings as if nobody else were there. Here the same code is a
program over the atomic operations that it calls, and between two of them the other processes put
entries on the rings and take entries off them, as many as they like (`Others`). The state keeps the
history of the rings: who put, counted, took or freed what, and in which order.

* `run_initInterfaces` — with nobody else there, the program is `Dispatcher.initInterfaces`.
* `initInterfaces_eq` — for a context that the allocator has built (`usable_of_created`), it flushes
  the rings of the interfaces one after the other.
* `wp_flushRings` — what a flush leaves behind, in any interleaving: `Flushed`.
* `wp_flushRings_exact` — what it takes when nobody else does: `Exact`.
* `initInterfaces_interleaved` — both, and that it returns.
-/

import CyberPlatform.Dispatcher.Bypass
import CyberPlatform.Dispatcher.PktRouter
import CyberPlatform.Foundation.Interleave

namespace CyberPlatform.Dispatcher.Flush

open Foundation Program

/-! ### The code -/

/-- The operations of `_init_if` on what it shares with other processes. -/
inductive Op where
  /-- `rte_ring_count` -/
  | count (r : Ring)
  /-- `rte_ring_dequeue` -/
  | dequeue (r : Ring)
  /-- `rte_pktmbuf_free` -/
  | free (m : MbufPtr)

/-- What an operation returns. A ring has room for fewer than `RTE_RING_SZ_MASK` entries, so its
count is one of an `int`. -/
abbrev Reply : Op → Type
  | .count _ => Nat
  | .dequeue _ => Option (Option MbufPtr)
  | .free _ => Unit

/-- `rte_ring_count` -/
def rteRingCount : Option Ring → Program Op Reply Nat
  | none => .fail .nullPointer
  | some r => .perform (Op.count r)

/-- `rte_ring_dequeue`: the object, or none when the ring is empty (`-ENOENT`). -/
def rteRingDequeue : Option Ring → Program Op Reply (Option (Option MbufPtr))
  | none => .fail .nullPointer
  | some r => .perform (Op.dequeue r)

/-- `rte_pktmbuf_free` -/
def rtePktmbufFree (m : MbufPtr) : Program Op Reply Unit := .perform (Op.free m)

/-- The body of the loop of `_init_if` that flushes a ring. -/
def flushStep (pRing : Option Ring) (_i : Nat) : Program Op Reply Unit := do
  match ← rteRingDequeue pRing with
  | some (some m) => rtePktmbufFree m
  | _ => return ()

/-- The body of the loop of `_init_if`. -/
def initIfStep (pInterface : InterfaceT) (_tx : Int) (i : Nat) : Program Op Reply Unit := do
  let pIf ← ofExcept (fetch pInterface.ifs i)
  if pIf.isEth ≠ 0 then return ()
  else
    let count ← rteRingCount pIf.pRing
    forM (List.range count) (flushStep pIf.pRing)

/-- `_init_if` -/
def initIf (pInterface : InterfaceT) (tx : Int) : Program Op Reply Int := do
  forM (List.range pInterface.count.toNat) (initIfStep pInterface tx)
  return 0

/-- `_init_interfaces` -/
def initInterfaces (pDispatcherCtx : DispatcherCtx) : Program Op Reply Int := do
  let err ← initIf pDispatcherCtx.rxInterfaces 0
  if err ≠ 0 then return -1
  let err ← initIf pDispatcherCtx.txInterfaces 1
  if err ≠ 0 then return -1
  let err ← initIf pDispatcherCtx.appInterfaces 0
  if err ≠ 0 then return -1
  return 0

/-! ### With nobody else there -/

/-- **What an operation does**: a ring is a FIFO queue. -/
def atomically : (op : Op) → World → Reply op × World
  | .count r, w => ((w.rings r).length, w)
  | .dequeue r, w => ((w.rings r).head?, w.takeRing r 1)
  | .free m, w => ((), Dispatcher.rtePktmbufFree m w)

theorem run_flushStep (pRing : Option Ring) (i : Nat) (w : World) :
    (flushStep pRing i).run atomically w =
      (Dispatcher.flushStep pRing w i).map fun w' => ((), w') := by
  cases pRing with
  | none => rfl
  | some r =>
    unfold flushStep Dispatcher.flushStep
    cases entries : w.rings r with
    | nil =>
      have same : atomically (.dequeue r) w = (none, w) := by
        show ((w.rings r).head?, w.takeRing r 1) = (none, w)
        rw [World.takeRing_nil entries, entries]
        rfl
      rw [rteRingDequeue_nil entries, run_bind]
      show ((.ok (atomically (.dequeue r) w) : Except Trap _) >>= _) = _
      rw [same]
      rfl
    | cons obj rest =>
      have first : atomically (.dequeue r) w = (some obj, w.takeRing r 1) := by
        show ((w.rings r).head?, w.takeRing r 1) = (some obj, w.takeRing r 1)
        rw [entries]
        rfl
      rw [rteRingDequeue_cons entries, run_bind]
      show ((.ok (atomically (.dequeue r) w) : Except Trap _) >>= _) = _
      rw [first]
      cases obj with
      | none => rfl
      | some m => rfl

theorem run_initIfStep (pInterface : InterfaceT) (tx : Int) (i : Nat) (w : World) :
    (initIfStep pInterface tx i).run atomically w =
      (Dispatcher.initIfStep pInterface tx w i).map fun w' => ((), w') := by
  unfold initIfStep Dispatcher.initIfStep
  rw [run_bind, run_ofExcept]
  cases fetch pInterface.ifs i with
  | error trap => rfl
  | ok pIf =>
    show (ite _ _ _ : Program Op Reply Unit).run atomically w = (ite _ _ _ : Except Trap _).map _
    by_cases eth : pIf.isEth ≠ 0
    · rw [if_pos eth, if_pos eth]
      rfl
    · rw [if_neg eth, if_neg eth]
      cases pIf.pRing with
      | none => rfl
      | some r => exact run_forM atomically (run_flushStep (some r)) _ w

theorem run_initIf (pInterface : InterfaceT) (tx : Int) (w : World) :
    (initIf pInterface tx).run atomically w = Dispatcher.initIf pInterface tx w := by
  unfold initIf Dispatcher.initIf
  rw [run_bind, run_forM atomically (run_initIfStep pInterface tx)]
  cases List.foldlM (Dispatcher.initIfStep pInterface tx) w (List.range pInterface.count.toNat) with
  | error trap => rfl
  | ok w' => rfl

/-- One of the three stages of `_init_interfaces`. -/
theorem run_stage {p onwards : Program Op Reply Int}
    {stage onwards' : World → Except Trap (Int × World)}
    (first : ∀ w, p.run atomically w = stage w)
    (rest : ∀ w, onwards.run atomically w = onwards' w) (w : World) :
    (p >>= fun err => if err ≠ 0 then return -1 else onwards).run atomically w =
      stage w >>= fun out => if out.1 ≠ 0 then return (-1, out.2) else onwards' out.2 := by
  rw [run_bind, first]
  congr 1
  funext out
  by_cases fails : out.1 ≠ 0
  · rw [if_pos fails, if_pos fails]
    rfl
  · rw [if_neg fails, if_neg fails, rest]

/-- **With nobody else there**, the program is the sequential `_init_interfaces`. -/
theorem run_initInterfaces (ctx : DispatcherCtx) (w : World) :
    (initInterfaces ctx).run atomically w = Dispatcher.initInterfaces ctx w := by
  have last : ∀ w, (pure 0 : Program Op Reply Int).run atomically w = .ok (0, w) := fun _ => rfl
  have app := run_stage (run_initIf ctx.appInterfaces 0) last
  have tx := run_stage (run_initIf ctx.txInterfaces 1) app
  exact run_stage (run_initIf ctx.rxInterfaces 0) tx w

/-! ### The rings of a context -/

/-- The ring that an interface stands for. -/
def ringOf (x : IfT) : Option Ring := if x.isEth ≠ 0 then none else x.pRing

/-- The rings of a table, in the order of its entries; a ring may be there more than once. -/
def ringsOf (table : InterfaceT) : List Ring := table.entries.filterMap ringOf

/-- **The rings of a context**, in the order in which they are flushed. -/
def contextRings (ctx : DispatcherCtx) : List Ring :=
  ringsOf ctx.rxInterfaces ++ ringsOf ctx.txInterfaces ++ ringsOf ctx.appInterfaces

/-- **A table to flush**: its entries are in its cells, and each of them is on a NIC or has a
ring. -/
structure UsableTable (table : InterfaceT) : Prop where
  fits : table.count ≤ maxInterfaces
  attached : ∀ x ∈ table.entries, ¬ x.isEth ≠ 0 → x.pRing ≠ none

/-- **A context to flush.** -/
def Usable (ctx : DispatcherCtx) : Prop := ∀ list, UsableTable (ctx.table list)

/-- A ring is flushed: as many attempts as it has entries. -/
def flushRing (r : Ring) : Program Op Reply Unit := do
  let count ← rteRingCount (some r)
  forM (List.range count) (flushStep (some r))

/-- One ring after the other. -/
def flushRings (rs : List Ring) : Program Op Reply Unit := forM rs flushRing

/-- `_init_if` flushes the rings of its table. -/
theorem initIf_eq {table : InterfaceT} (usable : UsableTable table) (tx : Int) :
    initIf table tx = do flushRings (ringsOf table); return 0 := by
  have cells : forM (List.range table.count.toNat) (initIfStep table tx) =
      forM table.entries fun x => (ringOf x).elim (return ()) flushRing := by
    rw [← InterfaceT.entries_length usable.fits]
    apply forM_range
    intro i x entry
    unfold initIfStep ringOf
    rw [InterfaceT.fetch_entries entry]
    show (ite _ _ _ : Program Op Reply Unit) = _
    by_cases eth : x.isEth ≠ 0
    · rw [if_pos eth, if_pos eth]
      rfl
    · obtain ⟨r, ring⟩ :=
        Option.ne_none_iff_exists'.mp (usable.attached x (List.mem_of_getElem? entry) eth)
      rw [if_neg eth, if_neg eth, ring]
      rfl
  have rings : ∀ xs : List IfT, (forM xs fun x => (ringOf x).elim (return ()) flushRing) =
      flushRings (xs.filterMap ringOf) := by
    intro xs
    induction xs with
    | nil => rfl
    | cons x xs ih =>
      rw [List.forM_cons, ih, List.filterMap_cons]
      cases ringOf x with
      | none => rfl
      | some r => rfl
  unfold initIf
  rw [cells, rings]
  rfl

/-- **`_init_interfaces` flushes the rings of the context.** -/
theorem initInterfaces_eq {ctx : DispatcherCtx} (usable : Usable ctx) :
    initInterfaces ctx = do flushRings (contextRings ctx); return 0 := by
  have rx := initIf_eq (usable .rx) 0
  have tx := initIf_eq (usable .tx) 1
  have app := initIf_eq (usable .app) 0
  unfold DispatcherCtx.table at rx tx app
  unfold initInterfaces contextRings
  rw [rx, tx, app]
  unfold flushRings
  simp

theorem usable_ofList {xs : List IfT} (room : xs.length ≤ maxInterfaces)
    (attached : ∀ x ∈ xs, ¬ x.isEth ≠ 0 → x.pRing ≠ none) : UsableTable (.ofList xs) where
  fits := Int.ofNat_le.mpr room
  attached := by
    rw [InterfaceT.entries_ofList room]
    exact attached

/-- An entry is stored when it is on a NIC, or its ring is found. -/
theorem stored_attached {rings : Rings} {confs : List IfConf}
    (found : ListFound rings confs) :
    ∀ x ∈ stored rings confs, ¬ x.isEth ≠ 0 → x.pRing ≠ none := by
  intro x member ring
  obtain ⟨pIfConf, entry, used, rfl⟩ := (mem_stored rings).mp member
  change ¬ pIfConf.isEth ≠ 0 at ring
  rcases found pIfConf entry used with eth | ⟨name, r, named, known⟩
  · exact absurd eth ring
  · have here : (entryOf rings pIfConf).pRing = some r := by
      show (if pIfConf.isEth ≠ 0 then none else pIfConf.ringName.bind rings.lookup) = some r
      rw [if_neg ring, named, Option.bind_some, known]
    rw [here]
    exact Option.some_ne_none r

/-- **What the allocator builds can be flushed.** -/
theorem usable_of_created {rings : Rings} {ealInit : List (Option String) → Int}
    {conf : AppConf} {contents : ConfList → List IfConf} {ctx₀ ctx : DispatcherCtx}
    (lists : LList.Lists confLists conf.store contents)
    (returned : allocatorCreateRessources rings ealInit conf ctx₀ = .ok (0, ctx)) :
    Usable ctx := by
  obtain ⟨ready, initialized, assigned⟩ := allocatorCreateRessources_succeeds returned
  obtain ⟨found, few, rfl⟩ := initAppCtx_succeeds rings lists initialized
  have room : ∀ list, (stored rings (contents list)).length ≤ maxInterfaces := fun list =>
    (stored_length rings _).trans_le (few list)
  have attached := fun list => stored_attached (found list)
  rcases assignBypassInterfaces_cases (room .rx) (room .tx) (stored_clear rings)
    (ctxOf rings conf contents confLists) rfl rfl with ⟨_, _, ran⟩ | ⟨_, _, _, ran, _⟩ | ⟨_, ran⟩
  · cases ran.symm.trans assigned
    intro list
    cases list with
    | rx =>
      refine usable_ofList ((List.length_map _).trans_le (room .rx)) fun x member => ?_
      obtain ⟨y, entry, rfl⟩ := List.mem_map.mp member
      exact attached .rx y entry
    | tx => exact usable_ofList (room .tx) (attached .tx)
    | app => exact usable_ofList (room .app) (attached .app)
  · cases ran.symm.trans assigned
  · cases ran.symm.trans assigned

/-! ### The rings and their history -/

/-- What happens to the rings and to the mbufs that are taken off them. -/
inductive Happening where
  /-- `_init_if` counts the entries of a ring -/
  | counted (r : Ring) (entries : List (Option MbufPtr))
  /-- `_init_if` takes an entry -/
  | taken (r : Ring) (obj : Option MbufPtr)
  /-- `_init_if` frees an mbuf -/
  | freed (m : MbufPtr)
  /-- another process puts an entry on a ring -/
  | putByOther (r : Ring) (obj : Option MbufPtr)
  /-- another process takes an entry -/
  | takenByOther (r : Ring) (obj : Option MbufPtr)
  deriving DecidableEq, Repr

/-- What `_init_if` does itself. -/
def Happening.own : Happening → Bool
  | counted _ _ | taken _ _ | freed _ => true
  | putByOther _ _ | takenByOther _ _ => false

/-- The entries that are put on a ring. -/
def put (r : Ring) (history : List Happening) : List (Option MbufPtr) :=
  history.filterMap fun
    | .putByOther r' obj => if r' = r then some obj else none
    | _ => none

/-- The entries that are taken off a ring, by whomever. -/
def gone (r : Ring) (history : List Happening) : List (Option MbufPtr) :=
  history.filterMap fun
    | .taken r' obj | .takenByOther r' obj => if r' = r then some obj else none
    | _ => none

/-- The mbufs that `_init_if` takes: null entries are none. -/
def takenMbufs (history : List Happening) : List MbufPtr :=
  history.filterMap fun
    | .taken _ obj => obj
    | _ => none

/-- The mbufs that `_init_if` frees. -/
def freedMbufs (history : List Happening) : List MbufPtr :=
  history.filterMap fun
    | .freed m => some m
    | _ => none

/-- What the processes share, with its history. -/
structure Shared where
  world : World
  history : List Happening

/-- What happens in an operation. -/
def happens : Op → World → List Happening
  | .count r, w => [.counted r (w.rings r)]
  | .dequeue r, w => (w.rings r).head?.toList.map (.taken r)
  | .free m, _ => [.freed m]

/-- An operation, and its place in the history. -/
def exec (op : Op) (s : Shared) : Reply op × Shared :=
  ((atomically op s.world).1, ⟨(atomically op s.world).2, s.history ++ happens op s.world⟩)

/-- A ring gets another content. -/
def setRing (w : World) (r : Ring) (entries : List (Option MbufPtr)) : World :=
  { w with rings := Function.update w.rings r entries }

/-- **Another process puts an entry on a ring.** -/
inductive Enqueue : Shared → Shared → Prop where
  | put (s : Shared) (r : Ring) (obj : Option MbufPtr) :
      Enqueue s ⟨setRing s.world r (s.world.rings r ++ [obj]),
        s.history ++ [.putByOther r obj]⟩

/-- **Another process takes an entry off a ring.** -/
inductive Dequeue : Shared → Shared → Prop where
  | take {s : Shared} {r : Ring} {obj : Option MbufPtr} {rest : List (Option MbufPtr)}
      (entries : s.world.rings r = obj :: rest) :
      Dequeue s ⟨setRing s.world r rest, s.history ++ [.takenByOther r obj]⟩

/-- **A step of the others.** -/
def Others (s s' : Shared) : Prop := Enqueue s s' ∨ Dequeue s s'

/-! ### What every step keeps -/

/-- **Nothing is lost on a ring**: what was on it and what is put on it is what is taken off it and
what is still on it, in this order. -/
def Balanced (w : World) (s : Shared) : Prop :=
  ∀ r, w.rings r ++ put r s.history = gone r s.history ++ s.world.rings r

/-- **The progress of a flush**: nothing is lost, what `_init_if` has taken it has freed, up to what
it still holds, and the rings in `emptied` have lost all that was on them. -/
structure Flushing (w : World) (emptied : List Ring) (held : List MbufPtr) (s : Shared) :
    Prop where
  balanced : Balanced w s
  freed : freedMbufs s.history ++ held = takenMbufs s.history
  emptied : ∀ r ∈ emptied, (w.rings r).length ≤ (gone r s.history).length

theorem put_append (r : Ring) (h h' : List Happening) : put r (h ++ h') = put r h ++ put r h' :=
  List.filterMap_append

theorem gone_append (r : Ring) (h h' : List Happening) :
    gone r (h ++ h') = gone r h ++ gone r h' :=
  List.filterMap_append

theorem takenMbufs_append (h h' : List Happening) :
    takenMbufs (h ++ h') = takenMbufs h ++ takenMbufs h' :=
  List.filterMap_append

theorem freedMbufs_append (h h' : List Happening) :
    freedMbufs (h ++ h') = freedMbufs h ++ freedMbufs h' :=
  List.filterMap_append

/-- What one more happening adds, to the balance and to what is held. -/
theorem Flushing.step {w w' : World} {s : Shared} {emptied : List Ring} {held held' : List MbufPtr}
    {happening : Happening} (flushing : Flushing w emptied held s)
    (moved : ∀ r, s.world.rings r ++ put r [happening] = gone r [happening] ++ w'.rings r)
    (hands : freedMbufs [happening] ++ held' = held ++ takenMbufs [happening]) :
    Flushing w emptied held' ⟨w', s.history ++ [happening]⟩ where
  balanced r := by
    show w.rings r ++ put r (s.history ++ [happening]) =
      gone r (s.history ++ [happening]) ++ w'.rings r
    rw [put_append, gone_append, ← List.append_assoc, flushing.balanced r, List.append_assoc,
      moved r, List.append_assoc]
  freed := by
    show freedMbufs (s.history ++ [happening]) ++ held' = takenMbufs (s.history ++ [happening])
    rw [freedMbufs_append, takenMbufs_append, List.append_assoc, hands, ← List.append_assoc,
      flushing.freed]
  emptied r member := by
    show _ ≤ (gone r (s.history ++ [happening])).length
    rw [gone_append, List.length_append]
    exact (flushing.emptied r member).trans (Nat.le_add_right _ _)

/-- An entry is put on a ring. -/
theorem put_moves (w : World) (r : Ring) (obj : Option MbufPtr) (r' : Ring) :
    w.rings r' ++ put r' [.putByOther r obj] =
      gone r' [.putByOther r obj] ++ (setRing w r (w.rings r ++ [obj])).rings r' := by
  by_cases here : r' = r
  · subst here
    simp [put, gone, setRing]
  · simp [put, gone, setRing, here, Ne.symm here]

/-- The first entry of a ring is taken, by whomever. -/
theorem take_moves {w : World} {r : Ring} {obj : Option MbufPtr} {rest : List (Option MbufPtr)}
    (entries : w.rings r = obj :: rest) {happening : Happening}
    (take : happening = .taken r obj ∨ happening = .takenByOther r obj) (r' : Ring) :
    w.rings r' ++ put r' [happening] =
      gone r' [happening] ++ Function.update w.rings r rest r' := by
  by_cases here : r' = r
  · subst here
    rcases take with rfl | rfl <;> simp [put, gone, entries]
  · rcases take with rfl | rfl <;> simp [put, gone, here, Ne.symm here]

/-- **The others keep it.** -/
theorem kept_flushing (w : World) (emptied : List Ring) (held : List MbufPtr) :
    Kept Others (Flushing w emptied held) := by
  rintro s s' (step | step) flushing
  · obtain ⟨r, obj⟩ := step
    exact flushing.step (put_moves s.world r obj) (List.append_nil held).symm
  · obtain ⟨entries⟩ := step
    exact flushing.step (take_moves entries (.inr rfl)) (List.append_nil held).symm

/-- The others only take more off a ring. -/
theorem kept_gone (r : Ring) (n k : Nat) :
    Kept Others fun s => n ≤ (gone r s.history).length + k := by
  have more : ∀ (h h' : List Happening), (gone r h).length ≤ (gone r (h ++ h')).length := by
    intro h h'
    rw [gone_append, List.length_append]
    exact Nat.le_add_right _ _
  rintro s s' (step | step) bound
  · cases step
    exact bound.trans (Nat.add_le_add_right (more _ _) k)
  · cases step
    exact bound.trans (Nat.add_le_add_right (more _ _) k)

/-! ### The operations of a flush -/

theorem exec_count (r : Ring) (s : Shared) :
    exec (.count r) s =
      ((s.world.rings r).length, ⟨s.world, s.history ++ [.counted r (s.world.rings r)]⟩) := rfl

/-- A dequeue of an empty ring fails. -/
theorem exec_dequeue_nil {r : Ring} {s : Shared} (drained : s.world.rings r = []) :
    exec (.dequeue r) s = (none, s) := by
  unfold exec atomically happens
  simp only [drained, World.takeRing_nil drained]
  exact congrArg (Prod.mk none) (by cases s; simp)

/-- A dequeue takes the first entry. -/
theorem exec_dequeue_cons {r : Ring} {s : Shared} {obj : Option MbufPtr}
    {rest : List (Option MbufPtr)} (entries : s.world.rings r = obj :: rest) :
    exec (.dequeue r) s =
      (some obj, ⟨s.world.takeRing r 1, s.history ++ [.taken r obj]⟩) := by
  unfold exec atomically happens
  simp only [entries]
  rfl

theorem exec_free (m : MbufPtr) (s : Shared) :
    exec (.free m) s = ((), ⟨Dispatcher.rtePktmbufFree m s.world, s.history ++ [.freed m]⟩) := rfl

theorem takeRing_rings {w : World} {r : Ring} {obj : Option MbufPtr} {rest : List (Option MbufPtr)}
    (entries : w.rings r = obj :: rest) :
    (w.takeRing r 1).rings = Function.update w.rings r rest := by
  show Function.update w.rings r ((w.rings r).drop 1) = _
  rw [entries, List.drop_one, List.tail_cons]

/-- **One attempt** at a ring, in any interleaving: what has to go before the ring is emptied is one
entry less, since an attempt fails only when the ring is empty. -/
theorem wp_flushStep {w : World} {emptied : List Ring} {s : Shared} {r : Ring} {k i : Nat}
    (flushing : Flushing w emptied [] s)
    (left : (w.rings r).length ≤ (gone r s.history).length + (k + 1)) :
    (flushStep (some r) i).wp exec Others
      (fun _ s => Flushing w emptied [] s ∧ (w.rings r).length ≤ (gone r s.history).length + k)
      s := by
  have kept := fun held k =>
    (kept_flushing w emptied held).and (kept_gone r (w.rings r).length k)
  refine wp_call (kept [] (k + 1)) ⟨flushing, left⟩ ?_
  rintro s ⟨flushing, left⟩
  cases entries : s.world.rings r with
  | nil =>
    rw [exec_dequeue_nil entries]
    refine wp_done (kept [] k) ⟨flushing, ?_⟩ fun _ holds => holds
    have balanced := congrArg List.length (flushing.balanced r)
    rw [entries, List.append_nil, List.length_append] at balanced
    show (w.rings r).length ≤ (gone r s.history).length + k
    omega
  | cons obj rest =>
    rw [exec_dequeue_cons entries]
    have moved := fun r' => (take_moves entries (.inl rfl) r').trans
      (by rw [← takeRing_rings entries])
    have one : (gone r (s.history ++ [.taken r obj])).length = (gone r s.history).length + 1 := by
      rw [gone_append, List.length_append]
      simp [gone]
    cases obj with
    | none =>
      refine wp_done (kept [] k) ⟨flushing.step moved rfl, ?_⟩ fun _ holds => holds
      rw [one]
      omega
    | some m =>
      refine wp_call (kept [m] k) ⟨flushing.step moved rfl, ?_⟩ ?_
      · rw [one]
        omega
      · rintro s ⟨flushing, left⟩
        rw [exec_free]
        refine wp_done (kept [] k) ⟨flushing.step (fun _ => List.append_nil _) rfl, ?_⟩
          fun _ holds => holds
        rw [gone_append, List.length_append]
        simpa [gone] using left

/-- **One ring**, in any interleaving: it is emptied of what was on it. -/
theorem wp_flushRing {w : World} {emptied : List Ring} {s : Shared} (r : Ring)
    (flushing : Flushing w emptied [] s) :
    (flushRing r).wp exec Others (fun _ s => Flushing w (r :: emptied) [] s) s := by
  refine wp_call (kept_flushing w emptied []) flushing ?_
  intro s flushing
  rw [exec_count]
  have counted : Flushing w emptied [] ⟨s.world, s.history ++ [.counted r (s.world.rings r)]⟩ :=
    flushing.step (fun _ => List.append_nil _) rfl
  have snapshot : (w.rings r).length ≤
      (gone r (s.history ++ [.counted r (s.world.rings r)])).length + (s.world.rings r).length := by
    have balanced := congrArg List.length (counted.balanced r)
    rw [List.length_append, List.length_append] at balanced
    exact (Nat.le_add_right _ _).trans balanced.le
  let I (attempts : List Nat) (s : Shared) : Prop := Flushing w emptied [] s ∧
    (w.rings r).length ≤ (gone r s.history).length + attempts.length
  have kept : Kept Others (I []) := (kept_flushing w emptied []).and (kept_gone r _ _)
  refine wp_mono ?_ (wp_forM (I := I) kept ?_ (List.range (s.world.rings r).length) ⟨counted, ?_⟩)
  · rintro _ s ⟨flushing, empty⟩
    exact ⟨flushing.balanced, flushing.freed, List.forall_mem_cons.mpr ⟨empty, flushing.emptied⟩⟩
  · rintro i attempts s ⟨flushing, left⟩
    exact wp_flushStep flushing left
  · rw [List.length_range]
    exact snapshot

/-- **All rings**, in any interleaving. -/
theorem wp_flushRings {w : World} {s : Shared} (flushing : Flushing w [] [] s) (rs : List Ring) :
    (flushRings rs).wp exec Others (fun _ s => Flushing w rs [] s) s := by
  let I (rest : List Ring) (s : Shared) : Prop :=
    ∃ emptied, Flushing w emptied [] s ∧ ∀ r ∈ rs, r ∈ emptied ∨ r ∈ rest
  have kept : Kept Others (I []) :=
    Kept.exists fun emptied => (kept_flushing w emptied []).and (Kept.const _)
  refine wp_mono ?_ (wp_forM (I := I) kept ?_ rs ⟨[], flushing, fun r member => .inr member⟩)
  · rintro _ s ⟨emptied, flushing, all⟩
    refine ⟨flushing.balanced, flushing.freed, fun r member => flushing.emptied r ?_⟩
    exact (all r member).resolve_right List.not_mem_nil
  · rintro r rest s ⟨emptied, flushing, all⟩
    refine wp_mono ?_ (wp_flushRing r flushing)
    intro _ s flushing
    refine ⟨r :: emptied, flushing, fun r' member => ?_⟩
    rcases all r' member with before | now
    · exact .inl (List.mem_cons_of_mem _ before)
    · rcases List.mem_cons.mp now with rfl | later
      · exact .inl List.mem_cons_self
      · exact .inr later

/-! ### What a flush leaves behind -/

/-- **A flush that has returned**: it has freed the mbufs that it has taken, each once and no
others; and of each ring of the context all that was on it when the flush began is gone, each entry
once, and what is on it now was put on it later, and is there in the order in which it was put. -/
structure Flushed (rs : List Ring) (w : World) (s : Shared) : Prop where
  freed : freedMbufs s.history = takenMbufs s.history
  rings : ∀ r ∈ rs, ∃ later, gone r s.history = w.rings r ++ later ∧
    put r s.history = later ++ s.world.rings r

theorem Flushing.flushed {rs : List Ring} {w : World} {s : Shared}
    (flushing : Flushing w rs [] s) : Flushed rs w s where
  freed := (List.append_nil _).symm.trans flushing.freed
  rings r member := by
    have balanced := flushing.balanced r
    obtain ⟨later, split⟩ : w.rings r <+: gone r s.history :=
      List.prefix_of_prefix_length_le ⟨_, balanced⟩ ⟨_, rfl⟩ (flushing.emptied r member)
    refine ⟨later, split.symm, ?_⟩
    rw [← split, List.append_assoc] at balanced
    exact List.append_cancel_left balanced

/-! ### When nobody else takes -/

/-- What `_init_if` does with an entry that it takes. -/
def drain (r : Ring) (obj : Option MbufPtr) : List Happening :=
  .taken r obj :: obj.toList.map .freed

/-- What `_init_if` does with a ring on which it counts `entries`: it takes these and no others. -/
def block (snapshot : Ring × List (Option MbufPtr)) : List Happening :=
  .counted snapshot.1 snapshot.2 :: snapshot.2.flatMap (drain snapshot.1)

/-- **An exact flush**: for each interface with a ring, one after the other, `_init_if` takes the
entries that are on the ring when it counts them, and no others. -/
def Exact (rs : List Ring) (s : Shared) : Prop :=
  ∃ snapshots : List (Ring × List (Option MbufPtr)), snapshots.map Prod.fst = rs ∧
    s.history.filter Happening.own = snapshots.flatMap block

/-- **In the middle of a ring**: what `_init_if` has done so far, and the entries it has still to
take, which are the first ones of the ring. -/
def Draining (r : Ring) (own : List Happening) (back : List (Option MbufPtr)) (s : Shared) : Prop :=
  s.history.filter Happening.own = own ∧ back <+: s.world.rings r

/-- Others who only put entries on rings keep what is in front. -/
theorem kept_draining (r : Ring) (own : List Happening) (back : List (Option MbufPtr)) :
    Kept Enqueue (Draining r own back) := by
  rintro s s' ⟨r', obj⟩ ⟨done, front⟩
  refine ⟨?_, front.trans ?_⟩
  · rw [List.filter_append, done]
    exact List.append_nil own
  · show s.world.rings r <+: Function.update s.world.rings r' _ r
    by_cases here : r = r'
    · subst here
      rw [Function.update_self]
      exact List.prefix_append _ _
    · have same : Function.update s.world.rings r' (s.world.rings r' ++ [obj]) r =
          s.world.rings r := Function.update_of_ne here _ _
      exact same ▸ List.prefix_refl _

/-- Others who only put entries on rings do nothing that `_init_if` does. -/
theorem kept_own (own : List Happening) :
    Kept Enqueue fun s => s.history.filter Happening.own = own :=
  fun s s' step done => (kept_draining 0 own [] s s' step ⟨done, List.nil_prefix⟩).1

theorem kept_exact (rs : List Ring) : Kept Enqueue (Exact rs) :=
  Kept.exists fun _ => (Kept.const _).and (kept_own _)

/-- **One attempt**, when nobody else takes: it takes the next entry. -/
theorem wp_flushStep_exact {s : Shared} {r : Ring} {own : List Happening} {obj : Option MbufPtr}
    {back : List (Option MbufPtr)} (i : Nat) (draining : Draining r own (obj :: back) s) :
    (flushStep (some r) i).wp exec Enqueue (fun _ => Draining r (own ++ drain r obj) back) s := by
  refine wp_call (kept_draining r own (obj :: back)) draining ?_
  rintro s ⟨done, behind, whole⟩
  have entries : s.world.rings r = obj :: (back ++ behind) := whole.symm
  rw [exec_dequeue_cons entries]
  have moved : (s.world.takeRing r 1).rings r = back ++ behind := by
    rw [takeRing_rings entries, Function.update_self]
  have front : back <+: (s.world.takeRing r 1).rings r := ⟨behind, moved.symm⟩
  have took : (s.history ++ [Happening.taken r obj]).filter Happening.own =
      own ++ [.taken r obj] := by
    rw [List.filter_append, done]
    rfl
  cases obj with
  | none => exact wp_done (kept_draining r _ back) ⟨took, front⟩ fun _ holds => holds
  | some m =>
    refine wp_call (kept_draining r _ back) ⟨took, front⟩ ?_
    rintro s ⟨done, front⟩
    rw [exec_free]
    refine wp_done (kept_draining r _ back) ⟨?_, front⟩ fun _ holds => holds
    rw [List.filter_append, done, List.append_assoc]
    rfl

/-- **One ring**, when nobody else takes: it takes what it has counted. -/
theorem wp_flushRing_exact {s : Shared} {own : List Happening} (r : Ring)
    (done : s.history.filter Happening.own = own) :
    (flushRing r).wp exec Enqueue
      (fun _ s => ∃ entries, s.history.filter Happening.own = own ++ block (r, entries)) s := by
  refine wp_call (kept_own own) done ?_
  intro s done
  rw [exec_count]
  -- the entries that are counted: those in `front` are taken, those in `back` are to come
  let entries := s.world.rings r
  let I (attempts : List Nat) (s : Shared) : Prop := ∃ front back, front ++ back = entries ∧
    back.length = attempts.length ∧
    Draining r (own ++ .counted r entries :: front.flatMap (drain r)) back s
  have kept : Kept Enqueue (I []) := Kept.exists fun front => Kept.exists fun back =>
    (Kept.const _).and ((Kept.const _).and (kept_draining r _ back))
  refine wp_mono ?_ (wp_forM (I := I) kept ?_ (List.range entries.length)
    ⟨[], entries, rfl, List.length_range.symm, ?_, List.prefix_refl _⟩)
  · rintro _ s ⟨front, back, whole, none, draining⟩
    obtain rfl := List.length_eq_zero_iff.mp none
    rw [List.append_nil] at whole
    exact ⟨entries, whole ▸ draining.1⟩
  · rintro i attempts s ⟨front, back, whole, left, draining⟩
    obtain ⟨obj, back, rfl⟩ := List.exists_cons_of_length_eq_add_one left
    refine wp_mono ?_ (wp_flushStep_exact i draining)
    intro _ s draining
    refine ⟨front ++ [obj], back, ?_, Nat.succ.inj left, ?_⟩
    · rw [List.append_assoc]
      exact whole
    · rw [List.flatMap_append, List.flatMap_singleton]
      rwa [List.append_assoc] at draining
  · rw [List.filter_append, done]
    rfl

/-- **All rings**, when nobody else takes. -/
theorem wp_flushRings_exact (w : World) (rs : List Ring) :
    (flushRings rs).wp exec Enqueue (fun _ s => Exact rs s) ⟨w, []⟩ := by
  let I (rest : List Ring) (s : Shared) : Prop :=
    ∃ snapshots : List (Ring × List (Option MbufPtr)), snapshots.map Prod.fst ++ rest = rs ∧
      s.history.filter Happening.own = snapshots.flatMap block
  have kept : Kept Enqueue (I []) := Kept.exists fun _ => (Kept.const _).and (kept_own _)
  refine wp_mono ?_ (wp_forM (I := I) kept ?_ rs ⟨[], rfl, rfl⟩)
  · rintro _ s ⟨snapshots, all, done⟩
    exact ⟨snapshots, (List.append_nil _).symm.trans all, done⟩
  · rintro r rest s ⟨snapshots, split, done⟩
    refine wp_mono ?_ (wp_flushRing_exact r done)
    rintro _ s ⟨entries, done⟩
    refine ⟨snapshots ++ [(r, entries)], ?_, ?_⟩
    · rw [List.map_append, List.append_assoc]
      exact split
    · rw [List.flatMap_append, List.flatMap_singleton]
      exact done

/-! ### `_init_interfaces` -/

/-- **`_init_interfaces` among other processes.** In whatever order the steps of the others come in
between its own, it returns 0; when it has returned, the rings of the context are flushed, in
whatever order the steps came; and they are flushed exactly when nobody else takes. -/
theorem initInterfaces_interleaved {ctx : DispatcherCtx} (usable : Usable ctx) (w : World) :
    (∀ run : Run exec Others (initInterfaces ctx) ⟨w, []⟩, ∃ n s, run.config n = (.done 0, s)) ∧
    (∀ c, Program.Reaches exec Others (initInterfaces ctx, ⟨w, []⟩) c → ∀ trap, c.1 ≠ .fail trap) ∧
    (∀ err s, Program.Reaches exec Others (initInterfaces ctx, ⟨w, []⟩) (.done err, s) →
      err = 0 ∧ Flushed (contextRings ctx) w s) ∧
    (∀ err s, Program.Reaches exec Enqueue (initInterfaces ctx, ⟨w, []⟩) (.done err, s) →
      err = 0 ∧ Exact (contextRings ctx) s) := by
  have start : Flushing w [] [] ⟨w, []⟩ :=
    ⟨fun r => List.append_nil _, rfl, fun _ none => absurd none List.not_mem_nil⟩
  have flushed : (initInterfaces ctx).wp exec Others
      (fun err s => err = 0 ∧ Flushed (contextRings ctx) w s) ⟨w, []⟩ := by
    rw [initInterfaces_eq usable]
    exact wp_bind (wp_mono (fun _ _ flushing => wp_done (kept_flushing _ _ _) flushing
      fun _ flushing => ⟨rfl, flushing.flushed⟩) (wp_flushRings start _))
  have drained : (initInterfaces ctx).wp exec Enqueue
      (fun err s => err = 0 ∧ Exact (contextRings ctx) s) ⟨w, []⟩ := by
    rw [initInterfaces_eq usable]
    exact wp_bind (wp_mono (fun _ _ done => wp_done (kept_exact _) done fun _ done => ⟨rfl, done⟩)
      (wp_flushRings_exact w _))
  refine ⟨fun run => ?_, ?_, fun err s reach => ?_, fun err s reach => ?_⟩
  · obtain ⟨n, err, s, returned, rfl, _⟩ := run.returns flushed
    exact ⟨n, s, returned⟩
  · rintro ⟨p, s⟩ reach trap rfl
    exact wp_not_fail flushed reach
  · have holds := wp_returned reach flushed
    exact holds
  · have holds := wp_returned reach drained
    exact holds

/-- A context whose two interfaces share a ring. -/
def sharedRing : DispatcherCtx where
  appName := none
  coreId := 0
  rxInterfaces := .ofList [{ name := some "in", pRing := some 7 }]
  txInterfaces := .ofList [{ name := some "nic", isEth := 1 }]
  appInterfaces := .ofList [{ name := some "app", pRing := some 7 }]

/-- A ring with two mbufs and a null entry. -/
def threeEntries : World where
  mbufs _ := {}
  rings := Function.update (fun _ => []) 7 [some 1, none, some 2]
  bursts _ _ := []
  log := []

theorem sharedRing_usable : Usable sharedRing := by
  intro list
  cases list with
  | rx => exact usable_ofList (by decide) (by decide)
  | tx => exact usable_ofList (by decide) (by decide)
  | app => exact usable_ofList (by decide) (by decide)

/-- A run of it returns; and on its own it takes the three entries, and frees the two mbufs. -/
theorem initInterfaces_interleaved_shared :
    (∃ run : Run exec Others (initInterfaces sharedRing) ⟨threeEntries, []⟩,
      ∃ n s, run.config n = (.done 0, s)) ∧
    ∃ s, Program.Reaches exec Enqueue (initInterfaces sharedRing, ⟨threeEntries, []⟩) (.done 0, s) ∧
      Flushed [7, 7] threeEntries s ∧ Exact [7, 7] s ∧ freedMbufs s.history = [1, 2] := by
  obtain ⟨returns, _, flushed, drained⟩ :=
    initInterfaces_interleaved sharedRing_usable threeEntries
  obtain ⟨run⟩ : Nonempty (Run exec Others (initInterfaces sharedRing) ⟨threeEntries, []⟩) :=
    Run.exists (fun s => .inl (.put s 7 none)) _ _
  have alone : ∃ s, (initInterfaces sharedRing).run exec ⟨threeEntries, []⟩ = .ok (0, s) ∧
      freedMbufs s.history = [1, 2] := ⟨_, rfl, rfl⟩
  obtain ⟨s, ran, freed⟩ := alone
  exact ⟨⟨run, returns run⟩, s, reaches_of_run ran, (flushed 0 s (reaches_of_run ran)).2,
    (drained 0 s (reaches_of_run ran)).2, freed⟩

end CyberPlatform.Dispatcher.Flush
