/-
**The contexts of the transport.**

All processes share one table of clients: a record that has a socket is a context, and belongs to
the process that has started it. A server claims an owner, by which the others find its context.
The table has a lock, under which it is changed; `IPC_stop` and `IPC_cleanup_proc` look at it before
they take the lock, so that other processes may come in between (`Op.clear`).

* `step_refines`, `run_refines` — the table is a partial map of contexts, that a function changes as
  its name says, unless an index lies before the table or the lock has been destroyed.
* `run_replied` — **an answer goes to the process that has asked** as long as its context is neither
  stopped nor cleaned up.
* `run_discovery` — **the daemon is found by its clients** as long as nobody stops its context or
  claims its owner for another one.
* `cleanupProc_clears` — a clean-up removes the first context of a process, so it leaves none
  exactly if there has been at most one.
-/

import CyberPlatform.Foundation.Trap
import CyberPlatform.Pcd.Condchk
import Mathlib.Logic.Function.Basic

namespace CyberPlatform.Pcd.Ipc

open Foundation

/-! ### The table -/

/-- `IPC_MAX_LIST_SIZE` -/
def maxListSize : Nat := 32

/-- `IPC_NO_OWNER` -/
def noOwner : Nat := 2 ^ 32 - 1

/-- `IPC_UNIX_PATH_MAX` -/
def unixPathMax : Nat := 108

/-- `MSG_DONTWAIT` -/
def msgDontwait : Nat := 0x40

/-- `IPC_client_t` -/
structure Client where
  fd : Nat
  path : Text
  flags : Nat
  owner : Nat
  pid : Int

/-- The records of `IPC_list_t`, of which there are `maxListSize` -/
abbrev Clients := Nat → Client

/-- `IPC_list_t`, with a lock that is there until somebody destroys it -/
structure Table where
  lock : Bool
  list : Clients

/-- Records of zeros -/
def cleared : Clients := fun _ => ⟨0, [], 0, 0, 0⟩

/-- The table that `IPC_init` makes -/
def Table.new : Table := ⟨true, cleared⟩

/-- The index `(int32_t)myContext` of an `IPC_context_t` -/
def indexOf (myContext : UInt32) : Int :=
  if myContext.toNat < 2 ^ 31 then myContext.toNat else myContext.toNat - 2 ^ 32

/-- The record at an index -/
def record (table : Table) (i : Int) : Except Trap Client :=
  if 0 ≤ i ∧ i < maxListSize then .ok (table.list i.toNat) else .error .outOfBounds

/-- A store to the record at an index -/
def store (table : Table) (i : Int) (client : Client) : Except Trap Table :=
  if 0 ≤ i ∧ i < maxListSize then
    .ok { table with list := Function.update table.list i.toNat client }
  else .error .outOfBounds

/-- `pthread_mutex_lock`, of the lock of the table -/
def pthreadMutexLock (table : Table) : Except Trap Unit :=
  if table.lock then .ok () else .error .destroyedLock

/-- What the operating system answers to `IPC_start` -/
structure World where
  socket : Option Nat
  bind : Bool
  connect : Bool
  unlink : Bool
  rebind : Bool

/-- Whether the socket of `IPC_start` gets its path: an old one is removed if nobody listens to it.
-/
def World.binds (world : World) : Bool :=
  world.bind || !world.connect && world.unlink && world.rebind

def socketPath (myName : Text) : Text :=
  ("/var/tmp/".toList ++ myName ++ ".ctl".toList).take (unixPathMax - 1)

/-- An empty spot of the table -/
def emptySpot (list : Clients) : Option Nat :=
  (List.range maxListSize).find? fun i => (list i).fd = 0

/-! ### The functions -/

/-- `IPC_deinit` -/
def deinit (table : Table) : Except Trap Table := do
  pthreadMutexLock table
  return { lock := false, list := cleared }

/-- `IPC_start`, with the context that it gives -/
def start (myName : Text) (flags : Nat) (pid : Int) (world : World) (table : Table) :
    Except Trap (Option UInt32 × Table) := do
  pthreadMutexLock table
  match emptySpot table.list, world.socket with
  | some i, some fd =>
    if world.binds then
      let table ← store table i ⟨fd, socketPath myName, flags ||| msgDontwait, noOwner, pid⟩
      return (some (.ofNat i), table)
    else return (none, table)
  | _, _ => return (none, table)

/-- The part of `IPC_stop` that is locked, for the index of a record -/
def clear (i : Nat) (table : Table) : Except Trap Table := do
  pthreadMutexLock table
  let client := { table.list i with path := [], fd := 0, owner := noOwner, pid := 0 }
  return { table with list := Function.update table.list i client }

/-- `IPC_stop`, in one piece -/
def stop (myContext : UInt32) (table : Table) : Except Trap (Bool × Table) := do
  let i := indexOf myContext
  if maxListSize ≤ i then return (false, table)
  -- the record is read without the lock
  let client ← record table i
  if client.fd = 0 then return (false, table)
  let table ← clear i.toNat table
  return (true, table)

/-- The first context of a process -/
def contextOf (pid : Int) (list : Clients) : Option Nat :=
  (List.range maxListSize).find? fun i => (list i).fd ≠ 0 ∧ (list i).pid = pid

/-- `IPC_cleanup_proc`, in one piece: it stops the first context of a process -/
def cleanupProc (pid : Int) (table : Table) : Except Trap (Bool × Table) :=
  match contextOf pid table.list with
  | some i => stop (.ofNat i) table
  | none => .ok (true, table)

/-- `IPC_set_owner` -/
def setOwner (myContext : UInt32) (owner : Nat) (table : Table) : Except Trap (Bool × Table) := do
  let i := indexOf myContext
  if maxListSize ≤ i then return (false, table)
  pthreadMutexLock table
  let client ← record table i
  let table ← store table i { client with owner }
  return (true, table)

/-- `IPC_get_context_by_owner` -/
def getContextByOwner (owner : Nat) (table : Table) : Except Trap (Option Nat) := do
  pthreadMutexLock table
  return (List.range maxListSize).find? fun i =>
    (table.list i).fd ≠ 0 ∧ (table.list i).owner = owner

/-- The path that `IPC_reply_msg` sends an answer to, for the context of the message -/
def replyPath (context : UInt32) (table : Table) : Except Trap Text := do
  let client ← record table (indexOf context)
  return client.path

/-- What the processes do to the table, that have the library initialized. -/
inductive Op where
  | start (myName : Text) (flags : Nat) (pid : Int) (world : World)
  | stop (myContext : UInt32)
  /-- the locked part of an `IPC_stop` that has made its checks before other processes came in -/
  | clear (i : Fin maxListSize)
  | cleanupProc (pid : Int)
  | setOwner (myContext : UInt32) (owner : Nat)
  | deinit

def step (table : Table) : Op → Except Trap Table
  | .start myName flags pid world => Prod.snd <$> start myName flags pid world table
  | .stop myContext => Prod.snd <$> stop myContext table
  | .clear i => clear i table
  | .cleanupProc pid => Prod.snd <$> cleanupProc pid table
  | .setOwner myContext owner => Prod.snd <$> setOwner myContext owner table
  | .deinit => deinit table

/-- A run of the table -/
def run (table : Table) : List Op → Except Trap Table
  | [] => .ok table
  | op :: ops => step table op >>= fun table => run table ops

/-- `CONFIG_PCD_SERVER_NAME` -/
def serverName : Text := "pcd-server".toList

/-- `CONFIG_PCD_OWNER_ID` -/
def pcdOwner : Nat := 3085

/-- `PCD_api_init`, with the context of the daemon; `others` is what happens between its two calls.
-/
def apiInit (pid : Int) (world : World) (others : List Op) (table : Table) :
    Except Trap (Option UInt32 × Table) := do
  match ← start serverName 0 pid world table with
  | (some pcdContext, table) =>
    let table ← run table others
    let (owned, table) ← setOwner pcdContext pcdOwner table
    if owned then return (some pcdContext, table)
    let (_, table) ← stop pcdContext table
    return (none, table)
  | (none, table) => return (none, table)

/-! ### Contexts -/

/-- The contexts, with what is known of them -/
abbrev Contexts := Nat → Option Client

/-- A record with a socket is a context. -/
def contexts (list : Clients) : Contexts := fun i =>
  if i < maxListSize ∧ (list i).fd ≠ 0 then some (list i) else none

/-- **What a function does to the contexts.** A context is opened unless the table is full, or the
operating system refuses its socket; a socket that is `0` leaves an empty spot. -/
inductive Changes (c : Contexts) : Op → Contexts → Prop
  | opened {myName flags pid world i fd} : c i = none → i < maxListSize →
      world.socket = some fd → fd ≠ 0 → world.binds = true →
      Changes c (.start myName flags pid world) (Function.update c i
        (some ⟨fd, socketPath myName, flags ||| msgDontwait, noOwner, pid⟩))
  | refused {myName flags pid world} : (∀ i < maxListSize, c i ≠ none) ∨ world.socket = none ∨
      world.socket = some 0 ∨ world.binds = false → Changes c (.start myName flags pid world) c
  | stopped {myContext} : Changes c (.stop myContext) (Function.update c myContext.toNat none)
  | cleared {i} : Changes c (.clear i) (Function.update c i none)
  | cleaned {pid i client} : c i = some client → client.pid = pid →
      (∀ j < i, ∀ other, c j = some other → other.pid ≠ pid) →
      Changes c (.cleanupProc pid) (Function.update c i none)
  | clean {pid} : (∀ i client, c i = some client → client.pid ≠ pid) →
      Changes c (.cleanupProc pid) c
  | owned {myContext owner} : Changes c (.setOwner myContext owner) (Function.update c
      myContext.toNat ((c myContext.toNat).map fun client => { client with owner }))
  | closed : Changes c .deinit fun _ => none

/-- A context that a function is given is no negative index. -/
def Op.Indexed : Op → Prop
  | .stop myContext => myContext.toNat < 2 ^ 31
  | .setOwner myContext _ => myContext.toNat < 2 ^ 31
  | _ => True

section Contexts

variable {list : Clients} {i : Nat} {client : Client}

theorem contexts_eq_some :
    contexts list i = some client ↔ i < maxListSize ∧ client.fd ≠ 0 ∧ list i = client := by
  unfold contexts
  split_ifs with live
  · constructor
    · intro same
      obtain rfl := Option.some.inj same
      exact ⟨live.1, live.2, rfl⟩
    · rintro ⟨_, _, rfl⟩
      rfl
  · constructor
    · intro absent
      cases absent
    · rintro ⟨inside, up, rfl⟩
      exact absurd ⟨inside, up⟩ live

theorem contexts_eq_none : contexts list i = none ↔ i < maxListSize → (list i).fd = 0 := by
  unfold contexts
  split_ifs with live
  · exact ⟨False.elim, fun down => absurd (down live.1) live.2⟩
  · exact ⟨fun _ inside => by_contra fun up => live ⟨inside, up⟩, fun _ => rfl⟩

/-- The contexts behind a store. -/
theorem contexts_update (inside : i < maxListSize) : contexts (Function.update list i client) =
    Function.update (contexts list) i (if client.fd = 0 then none else some client) := by
  funext j
  by_cases here : j = i
  · subst here
    by_cases down : client.fd = 0
    · simp [contexts, down]
    · simp [contexts, inside, down]
  · simp [contexts, here]

theorem emptySpot_free (found : emptySpot list = some i) :
    i < maxListSize ∧ contexts list i = none := by
  obtain ⟨free, inside, _⟩ := List.find?_range_eq_some.mp found
  exact ⟨List.mem_range.mp inside, contexts_eq_none.mpr fun _ => of_decide_eq_true free⟩

theorem emptySpot_full (full : emptySpot list = none) :
    ∀ i < maxListSize, contexts list i ≠ none := fun i inside free =>
  List.find?_eq_none.mp full i (List.mem_range.mpr inside)
    (decide_eq_true (contexts_eq_none.mp free inside))

/-- A search for a context by what is known of it gives the first one. -/
theorem find_context (list : Clients) (P : Client → Prop) [DecidablePred P] :
    (∃ i client, ((List.range maxListSize).find? fun i => (list i).fd ≠ 0 ∧ P (list i)) = some i ∧
      contexts list i = some client ∧ P client ∧
      ∀ j < i, ∀ other, contexts list j = some other → ¬ P other) ∨
    ((List.range maxListSize).find? fun i => (list i).fd ≠ 0 ∧ P (list i)) = none ∧
      ∀ i client, contexts list i = some client → ¬ P client := by
  cases found : (List.range maxListSize).find? fun i => (list i).fd ≠ 0 ∧ P (list i) with
  | some i =>
    obtain ⟨holds, inside, before⟩ := List.find?_range_eq_some.mp found
    obtain ⟨up, holds⟩ := of_decide_eq_true holds
    refine .inl ⟨i, list i, rfl, contexts_eq_some.mpr ⟨List.mem_range.mp inside, up, rfl⟩, holds,
      fun j less other there its => ?_⟩
    obtain ⟨_, up', rfl⟩ := contexts_eq_some.mp there
    have missed := before j less
    rw [Bool.not_eq_true', decide_eq_false_iff_not] at missed
    exact missed ⟨up', its⟩
  | none =>
    refine .inr ⟨rfl, fun i client there holds => ?_⟩
    obtain ⟨inside, up, rfl⟩ := contexts_eq_some.mp there
    exact List.find?_eq_none.mp found i (List.mem_range.mpr inside) (decide_eq_true ⟨up, holds⟩)

end Contexts

/-! ### What a function does -/

section Functions

variable {table : Table} {i : Nat} {myContext : UInt32}

theorem indexOf_nonneg (small : myContext.toNat < 2 ^ 31) : indexOf myContext = myContext.toNat :=
  if_pos small

/-- A context from `2 ^ 31` on lies before the table. -/
theorem indexOf_negative (large : ¬ myContext.toNat < 2 ^ 31) : indexOf myContext < 0 := by
  have value : myContext.toNat < 2 ^ 32 := myContext.toNat_lt
  rw [indexOf, if_neg large]
  omega

theorem toNat_ofNat_inside (inside : i < maxListSize) : (UInt32.ofNat i).toNat = i :=
  UInt32.toNat_ofNat_of_lt' (inside.trans (by decide))

theorem record_inside (inside : i < maxListSize) : record table i = .ok (table.list i) :=
  if_pos ⟨Int.natCast_nonneg i, Int.ofNat_lt.mpr inside⟩

theorem record_negative {k : Int} (negative : k < 0) : record table k = .error .outOfBounds :=
  if_neg fun inside => absurd inside.1 (Int.not_le.mpr negative)

theorem store_inside (inside : i < maxListSize) (client : Client) :
    store table i client = .ok { table with list := Function.update table.list i client } :=
  if_pos ⟨Int.natCast_nonneg i, Int.ofNat_lt.mpr inside⟩

theorem pthreadMutexLock_cases (table : Table) :
    (table.lock = true ∧ pthreadMutexLock table = .ok ()) ∨
    (table.lock = false ∧ pthreadMutexLock table = .error .destroyedLock) := by
  unfold pthreadMutexLock
  cases table.lock with
  | true => exact .inl ⟨rfl, rfl⟩
  | false => exact .inr ⟨rfl, rfl⟩

/-- **A start** gives an empty spot, or leaves the table as it is. -/
theorem start_cases (myName : Text) (flags : Nat) (pid : Int) (world : World) (table : Table) :
    (table.lock = true ∧ ∃ i fd, i < maxListSize ∧ contexts table.list i = none ∧
      world.socket = some fd ∧ world.binds = true ∧
      start myName flags pid world table = .ok (some (.ofNat i), { table with
        list := Function.update table.list i
          ⟨fd, socketPath myName, flags ||| msgDontwait, noOwner, pid⟩ })) ∨
    (table.lock = true ∧ start myName flags pid world table = .ok (none, table) ∧
      ((∀ i < maxListSize, contexts table.list i ≠ none) ∨ world.socket = none ∨
        world.binds = false)) ∨
    (table.lock = false ∧ start myName flags pid world table = .error .destroyedLock) := by
  unfold start
  rcases pthreadMutexLock_cases table with ⟨held, ran⟩ | ⟨gone, ran⟩
  case inr =>
    rw [ran]
    exact .inr (.inr ⟨gone, rfl⟩)
  rw [ran, ok_bind]
  cases spot : emptySpot table.list with
  | none => exact .inr (.inl ⟨held, rfl, .inl (emptySpot_full spot)⟩)
  | some i =>
    obtain ⟨inside, free⟩ := emptySpot_free spot
    cases answer : world.socket with
    | none => exact .inr (.inl ⟨held, rfl, .inr (.inl rfl)⟩)
    | some fd =>
      dsimp only
      split_ifs with binds
      · rw [store_inside inside]
        exact .inl ⟨held, i, fd, inside, free, rfl, binds, rfl⟩
      · exact .inr (.inl ⟨held, rfl, .inr (.inr (Bool.eq_false_iff.mpr binds))⟩)

/-- The locked part of a stop removes a context. -/
theorem clear_cases (table : Table) (inside : i < maxListSize) :
    (∃ table', clear i table = .ok table' ∧ table'.lock = table.lock ∧
      contexts table'.list = Function.update (contexts table.list) i none) ∨
    (clear i table = .error .destroyedLock ∧ table.lock = false) := by
  unfold clear
  rcases pthreadMutexLock_cases table with ⟨held, ran⟩ | ⟨gone, ran⟩
  · rw [ran, ok_bind]
    refine .inl ⟨_, rfl, rfl, ?_⟩
    rw [contexts_update inside, if_pos rfl]
  · rw [ran]
    exact .inr ⟨rfl, gone⟩

/-- **A stop** removes its context, if it is one. -/
theorem stop_cases (myContext : UInt32) (table : Table) :
    (∃ ret table', stop myContext table = .ok (ret, table') ∧ table'.lock = table.lock ∧
      contexts table'.list = Function.update (contexts table.list) myContext.toNat none) ∨
    (stop myContext table = .error .outOfBounds ∧ ¬ myContext.toNat < 2 ^ 31) ∨
    (stop myContext table = .error .destroyedLock ∧ table.lock = false) := by
  unfold stop
  dsimp only
  by_cases small : myContext.toNat < 2 ^ 31
  case neg =>
    have negative := indexOf_negative small
    have below : ¬ (maxListSize : Int) ≤ indexOf myContext := by
      have size : (0 : Int) ≤ maxListSize := Int.natCast_nonneg _
      omega
    rw [if_neg below, record_negative negative]
    exact .inr (.inl ⟨rfl, small⟩)
  rw [indexOf_nonneg small]
  have absent : contexts table.list myContext.toNat = none →
      contexts table.list = Function.update (contexts table.list) myContext.toNat none :=
    fun none => (Function.update_eq_self_iff.mpr none.symm).symm
  by_cases inside : myContext.toNat < maxListSize
  case neg =>
    rw [if_pos (Int.ofNat_le.mpr (Nat.le_of_not_lt inside))]
    exact .inl ⟨false, table, rfl, rfl, absent (contexts_eq_none.mpr fun here =>
      absurd here inside)⟩
  rw [if_neg (Int.not_le.mpr (Int.ofNat_lt.mpr inside)), record_inside inside, ok_bind]
  by_cases down : (table.list myContext.toNat).fd = 0
  · rw [if_pos down]
    exact .inl ⟨false, table, rfl, rfl, absent (contexts_eq_none.mpr fun _ => down)⟩
  · rw [if_neg down, Int.toNat_natCast]
    rcases clear_cases table inside with ⟨table', ran, same, gone⟩ | ⟨ran, destroyed⟩
    · rw [ran]
      exact .inl ⟨true, table', rfl, same, gone⟩
    · rw [ran]
      exact .inr (.inr ⟨rfl, destroyed⟩)

/-- **A claim** changes the owner of its context, if it is one. -/
theorem setOwner_cases (myContext : UInt32) (owner : Nat) (table : Table) :
    (∃ ret table', setOwner myContext owner table = .ok (ret, table') ∧ table'.lock = table.lock ∧
      contexts table'.list = Function.update (contexts table.list) myContext.toNat
        ((contexts table.list myContext.toNat).map fun client => { client with owner })) ∨
    (setOwner myContext owner table = .error .outOfBounds ∧ ¬ myContext.toNat < 2 ^ 31) ∨
    (setOwner myContext owner table = .error .destroyedLock ∧ table.lock = false) := by
  unfold setOwner
  dsimp only
  by_cases beyond : (maxListSize : Int) ≤ indexOf myContext
  · have small : myContext.toNat < 2 ^ 31 := by
      by_contra large
      have negative := indexOf_negative large
      have size : (0 : Int) ≤ maxListSize := Int.natCast_nonneg _
      omega
    rw [indexOf_nonneg small] at beyond
    have absent : contexts table.list myContext.toNat = none := contexts_eq_none.mpr fun inside =>
      absurd (Int.ofNat_le.mp beyond) (Nat.not_le.mpr inside)
    rw [indexOf_nonneg small, if_pos beyond, absent]
    exact .inl ⟨false, table, rfl, rfl, (Function.update_eq_self_iff.mpr absent.symm).symm⟩
  rw [if_neg beyond]
  rcases pthreadMutexLock_cases table with ⟨held, ran⟩ | ⟨gone, ran⟩
  case inr =>
    rw [ran]
    exact .inr (.inr ⟨rfl, gone⟩)
  rw [ran, ok_bind]
  by_cases small : myContext.toNat < 2 ^ 31
  case neg =>
    rw [record_negative (indexOf_negative small)]
    exact .inr (.inl ⟨rfl, small⟩)
  rw [indexOf_nonneg small] at beyond ⊢
  have inside : myContext.toNat < maxListSize := Int.ofNat_lt.mp (Int.not_le.mp beyond)
  rw [record_inside inside, ok_bind, store_inside inside]
  refine .inl ⟨true, _, rfl, rfl, ?_⟩
  rw [contexts_update inside]
  by_cases down : (table.list myContext.toNat).fd = 0
  · rw [if_pos down, contexts_eq_none.mpr fun _ => down]
    rfl
  · rw [if_neg down, contexts_eq_some.mpr ⟨inside, down, rfl⟩]
    rfl

/-- **A clean-up** removes the first context of a process, if it has one. -/
theorem cleanupProc_cases (pid : Int) (table : Table) :
    (∃ ret table', cleanupProc pid table = .ok (ret, table') ∧ table'.lock = table.lock ∧
      ((∀ i client, contexts table.list i = some client → client.pid ≠ pid) ∧
          contexts table'.list = contexts table.list ∨
        ∃ i client, contexts table.list i = some client ∧ client.pid = pid ∧
          (∀ j < i, ∀ other, contexts table.list j = some other → other.pid ≠ pid) ∧
          contexts table'.list = Function.update (contexts table.list) i none)) ∨
    (cleanupProc pid table = .error .destroyedLock ∧ table.lock = false) := by
  unfold cleanupProc contextOf
  obtain ⟨i, client, found, there, same, first⟩ | ⟨found, others⟩ :=
    find_context table.list fun client => client.pid = pid
  · have inside := (contexts_eq_some.mp there).1
    have index := toNat_ofNat_inside inside
    rw [found]
    dsimp only
    rcases stop_cases (.ofNat i) table with
      ⟨ret, table', ran, held, gone⟩ | ⟨_, large⟩ | ⟨ran, lost⟩
    · rw [index] at gone
      exact .inl ⟨ret, table', ran, held, .inr ⟨i, client, there, same, first, gone⟩⟩
    · rw [index] at large
      exact absurd (inside.trans (by decide)) large
    · exact .inr ⟨ran, lost⟩
  · rw [found]
    exact .inl ⟨true, table, rfl, rfl, .inl ⟨others, rfl⟩⟩

/-- **A function changes the contexts as its name says**, or goes wrong at an index before the
table, or at a lock that has been destroyed. -/
theorem step_refines (table : Table) (op : Op) :
    (∃ table', step table op = .ok table' ∧ (op ≠ .deinit → table'.lock = table.lock) ∧
      Changes (contexts table.list) op (contexts table'.list)) ∨
    (step table op = .error .outOfBounds ∧ ¬ op.Indexed) ∨
    (step table op = .error .destroyedLock ∧ table.lock = false) := by
  cases op with
  | start myName flags pid world =>
    simp only [step]
    rcases start_cases myName flags pid world table with
      ⟨_, i, fd, inside, free, answer, binds, ran⟩ | ⟨_, ran, why⟩ | ⟨gone, ran⟩
    · rw [ran]
      refine .inl ⟨_, rfl, fun _ => rfl, ?_⟩
      rw [contexts_update inside]
      split_ifs with zero
      · rw [← free, Function.update_eq_self]
        exact .refused (.inr (.inr (.inl (answer.trans (congrArg some zero)))))
      · exact .opened free inside answer zero binds
    · rw [ran]
      refine .inl ⟨_, rfl, fun _ => rfl, .refused ?_⟩
      exact why.imp_right (.imp_right .inr)
    · rw [ran]
      exact .inr (.inr ⟨rfl, gone⟩)
  | stop myContext =>
    simp only [step]
    rcases stop_cases myContext table with ⟨_, _, ran, same, gone⟩ | ⟨ran, large⟩ | ⟨ran, lost⟩
    · rw [ran]
      exact .inl ⟨_, rfl, fun _ => same, gone ▸ .stopped⟩
    · rw [ran]
      exact .inr (.inl ⟨rfl, large⟩)
    · rw [ran]
      exact .inr (.inr ⟨rfl, lost⟩)
  | clear i =>
    simp only [step]
    rcases clear_cases table i.isLt with ⟨_, ran, same, gone⟩ | ⟨ran, lost⟩
    · exact .inl ⟨_, ran, fun _ => same, gone ▸ .cleared⟩
    · exact .inr (.inr ⟨ran, lost⟩)
  | cleanupProc pid =>
    simp only [step]
    rcases cleanupProc_cases pid table with
      ⟨_, _, ran, held, ⟨others, same⟩ | ⟨i, client, there, its, first, gone⟩⟩ | ⟨ran, lost⟩
    · rw [ran]
      refine .inl ⟨_, rfl, fun _ => held, ?_⟩
      rw [same]
      exact .clean others
    · rw [ran]
      exact .inl ⟨_, rfl, fun _ => held, gone ▸ .cleaned there its first⟩
    · rw [ran]
      exact .inr (.inr ⟨rfl, lost⟩)
  | setOwner myContext owner =>
    simp only [step]
    rcases setOwner_cases myContext owner table with
      ⟨_, _, ran, same, gone⟩ | ⟨ran, large⟩ | ⟨ran, lost⟩
    · rw [ran]
      exact .inl ⟨_, rfl, fun _ => same, gone ▸ .owned⟩
    · rw [ran]
      exact .inr (.inl ⟨rfl, large⟩)
    · rw [ran]
      exact .inr (.inr ⟨rfl, lost⟩)
  | deinit =>
    simp only [step, deinit]
    rcases pthreadMutexLock_cases table with ⟨held, ran⟩ | ⟨gone, ran⟩
    · rw [ran]
      refine .inl ⟨_, rfl, fun other => absurd rfl other, ?_⟩
      have empty : contexts cleared = fun _ => none := by
        funext i
        exact contexts_eq_none.mpr fun _ => rfl
      exact empty ▸ .closed
    · rw [ran]
      exact .inr (.inr ⟨rfl, gone⟩)

/-- A step that returns has changed the contexts. -/
theorem step_changes {table' : Table} {op : Op} (ran : step table op = .ok table') :
    (op ≠ .deinit → table'.lock = table.lock) ∧
      Changes (contexts table.list) op (contexts table'.list) := by
  rcases step_refines table op with ⟨_, ran', changed⟩ | ⟨wrong, _⟩ | ⟨wrong, _⟩
  · cases ran.symm.trans ran'
    exact changed
  · cases ran.symm.trans wrong
  · cases ran.symm.trans wrong

end Functions

/-! ### Runs -/

/-- A run of the contexts -/
inductive ChangesAll : Contexts → List Op → Contexts → Prop
  | nil {c} : ChangesAll c [] c
  | cons {c c' c'' op ops} : Changes c op c' → ChangesAll c' ops c'' → ChangesAll c (op :: ops) c''

/-- A run that returns has changed the contexts, and its lock is there unless somebody has
destroyed it. -/
theorem run_changes {ops : List Op} : ∀ {table table' : Table}, run table ops = .ok table' →
    ((∀ op ∈ ops, op ≠ .deinit) → table'.lock = table.lock) ∧
      ChangesAll (contexts table.list) ops (contexts table'.list) := by
  induction ops with
  | nil =>
    intro table table' ran
    cases ran
    exact ⟨fun _ => rfl, .nil⟩
  | cons op ops ih =>
    intro table table' ran
    obtain ⟨table₁, first, rest⟩ := bind_eq_ok.mp ran
    obtain ⟨held, changes⟩ := step_changes first
    obtain ⟨held', changes'⟩ := ih rest
    refine ⟨fun stays => ?_, .cons changes changes'⟩
    obtain ⟨here, later⟩ := List.forall_mem_cons.mp stays
    exact (held' later).trans (held here)

/-- **The table is a partial map of contexts** in every run. A run goes wrong only where a stop or a
claim is given a context from `2 ^ 31` on, or where the lock is taken after a deinit. -/
theorem run_refines (ops : List Op) : ∀ table : Table,
    (∃ table', run table ops = .ok table' ∧
      ChangesAll (contexts table.list) ops (contexts table'.list)) ∨
    (run table ops = .error .outOfBounds ∧ ∃ op ∈ ops, ¬ op.Indexed) ∨
    (run table ops = .error .destroyedLock ∧ (table.lock = false ∨ .deinit ∈ ops)) := by
  induction ops with
  | nil => exact fun table => .inl ⟨table, rfl, .nil⟩
  | cons op ops ih =>
    intro table
    simp only [run]
    rcases step_refines table op with ⟨table', ran, held, changes⟩ | ⟨ran, large⟩ | ⟨ran, gone⟩
    · rw [ran, ok_bind]
      rcases ih table' with ⟨table'', ran', changes'⟩ | ⟨ran', op', later, large⟩ | ⟨ran', gone⟩
      · exact .inl ⟨table'', ran', .cons changes changes'⟩
      · exact .inr (.inl ⟨ran', op', List.mem_cons_of_mem op later, large⟩)
      · refine .inr (.inr ⟨ran', ?_⟩)
        by_cases destroys : op = .deinit
        · exact .inr (destroys ▸ List.mem_cons_self)
        · exact gone.imp (held destroys).symm.trans (List.mem_cons_of_mem op)
    · rw [ran]
      exact .inr (.inl ⟨rfl, op, List.mem_cons_self, large⟩)
    · rw [ran]
      exact .inr (.inr ⟨rfl, .inl gone⟩)

/-! ### Clients -/

/-- An operating system that grants a socket -/
def granted (fd : Nat) : World := ⟨some fd, true, false, false, false⟩

/-- A function that leaves a context to its process: it neither stops it, nor cleans up the process,
nor takes the table away. -/
def Op.Spares (i : Nat) (pid : Int) : Op → Prop
  | .stop myContext => myContext.toNat ≠ i
  | .clear j => j ≠ i
  | .cleanupProc other => other ≠ pid
  | .deinit => False
  | _ => True

theorem Op.Spares.stays {i : Nat} {pid : Int} {op : Op} (spares : op.Spares i pid) :
    op ≠ .deinit := by
  rintro rfl
  exact spares

section Clients

variable {c c' : Contexts} {i : Nat} {client : Client} {op : Op} {table table' : Table}

/-- **A context that is spared stays**, apart from its owner. -/
theorem Changes.keeps (changes : Changes c op c') (here : c i = some client)
    (spares : op.Spares i client.pid) : ∃ owner, c' i = some { client with owner } := by
  cases changes with
  | @opened _ _ _ _ j _ free =>
    have other : i ≠ j := by
      rintro rfl
      rw [here] at free
      exact absurd free (Option.some_ne_none _)
    exact ⟨client.owner, (Function.update_of_ne other ..).trans here⟩
  | refused _ => exact ⟨client.owner, here⟩
  | stopped =>
    have other : _ ≠ i := spares
    exact ⟨client.owner, (Function.update_of_ne (Ne.symm other) ..).trans here⟩
  | cleared =>
    have other : _ ≠ i := spares
    exact ⟨client.owner, (Function.update_of_ne (Ne.symm other) ..).trans here⟩
  | @cleaned pid j client' there same =>
    have other : i ≠ j := by
      rintro rfl
      obtain rfl := Option.some.inj (there.symm.trans here)
      exact spares same.symm
    exact ⟨client.owner, (Function.update_of_ne other ..).trans here⟩
  | clean others => exact ⟨client.owner, here⟩
  | @owned myContext owner =>
    by_cases same : i = myContext.toNat
    · subst same
      rw [Function.update_self, here]
      exact ⟨owner, rfl⟩
    · exact ⟨client.owner, (Function.update_of_ne same ..).trans here⟩
  | closed => exact absurd spares id

theorem ChangesAll.keeps {ops : List Op} (changes : ChangesAll c ops c') :
    ∀ {client : Client}, c i = some client → (∀ op ∈ ops, op.Spares i client.pid) →
      ∃ owner, c' i = some { client with owner } := by
  induction changes with
  | nil => exact fun {client} here _ => ⟨client.owner, here⟩
  | cons first rest ih =>
    intro client here spares
    obtain ⟨now, later⟩ := List.forall_mem_cons.mp spares
    obtain ⟨owner, here'⟩ := first.keeps here now
    obtain ⟨owner', here''⟩ := ih here' later
    exact ⟨owner', here''⟩

/-- The path of a context -/
theorem replyPath_context {context : UInt32}
    (here : contexts table.list context.toNat = some client) :
    replyPath context table = .ok client.path := by
  obtain ⟨inside, _, same⟩ := contexts_eq_some.mp here
  rw [replyPath, indexOf_nonneg (inside.trans (by decide)), record_inside inside, same]
  rfl

/-- **An answer goes to the process that has asked**, as long as its context is spared: no process
is given that context in between. -/
theorem run_replied {context : UInt32} {ops : List Op}
    (here : contexts table.list context.toNat = some client) (ran : run table ops = .ok table')
    (spares : ∀ op ∈ ops, op.Spares context.toNat client.pid) :
    replyPath context table' = .ok client.path ∧
      (table'.list context.toNat).pid = client.pid ∧
      ∀ myName flags pid world given table'',
        start myName flags pid world table' = .ok (some given, table'') → given ≠ context := by
  obtain ⟨owner, kept⟩ := (run_changes ran).2.keeps here spares
  have path := replyPath_context kept
  refine ⟨path, by rw [(contexts_eq_some.mp kept).2.2], ?_⟩
  intro myName flags pid world given table'' started same
  rcases start_cases myName flags pid world table' with
    ⟨_, i, _, inside, free, _, _, ran'⟩ | ⟨_, ran', _⟩ | ⟨_, ran'⟩
  · cases started.symm.trans ran'
    have index := toNat_ofNat_inside inside
    rw [same] at index
    rw [index, free] at kept
    cases kept
  · cases started.symm.trans ran'
  · cases started.symm.trans ran'

/-- A client waits for its answer, while another one comes and goes. -/
theorem run_replied_client : ∃ table table' given, apiInit 10 (granted 3) [] .new = .ok given ∧
    start ['a'] 0 42 (granted 3) given.2 = .ok (some 1, table) ∧
    run table [.start ['b'] 0 43 (granted 3), .stop 2] = .ok table' ∧
    replyPath 1 table' = .ok "/var/tmp/a.ctl".toList := by
  obtain ⟨given, init⟩ : ∃ given, apiInit 10 (granted 3) [] .new = .ok given := ⟨_, rfl⟩
  obtain ⟨table, started, here⟩ : ∃ table, start ['a'] 0 42 (granted 3) given.2 =
      .ok (some 1, table) ∧ contexts table.list (1 : UInt32).toNat =
        some ⟨3, "/var/tmp/a.ctl".toList, 0x40, noOwner, 42⟩ := by
    cases init
    exact ⟨_, rfl, contexts_eq_some.mpr ⟨by decide, by decide, rfl⟩⟩
  have spares : ∀ op ∈ [Op.start ['b'] 0 43 (granted 3), .stop 2],
      op.Spares (1 : UInt32).toNat 42 := by
    intro op member
    simp only [List.mem_cons, List.not_mem_nil, or_false] at member
    obtain rfl | rfl := member
    · trivial
    · exact (by decide : (2 : UInt32).toNat ≠ (1 : UInt32).toNat)
  obtain ⟨table', ran⟩ : ∃ table', run table [.start ['b'] 0 43 (granted 3), .stop 2] =
      .ok table' := by
    cases init
    cases started
    exact ⟨_, rfl⟩
  exact ⟨table, table', given, init, started, ran, (run_replied here ran spares).1⟩

end Clients

/-! ### Servers -/

/-- **A server has a context**: it has claimed an owner, and no other context has. -/
structure Serves (c : Contexts) (i owner : Nat) (client : Client) : Prop where
  here : c i = some client
  claims : client.owner = owner
  alone : ∀ j other, c j = some other → other.owner = owner → j = i

/-- A function that leaves a server alone: it neither stops its context, nor takes its owner from
it, nor claims that owner for another one. -/
def Op.Leaves (i owner : Nat) (pid : Int) : Op → Prop
  | .start .. => True
  | .stop myContext => myContext.toNat ≠ i
  | .clear j => j ≠ i
  | .cleanupProc other => other ≠ pid
  | .setOwner myContext other => myContext.toNat ≠ i ∧ other ≠ owner
  | .deinit => False

theorem Op.Leaves.stays {i owner : Nat} {pid : Int} {op : Op} (leaves : op.Leaves i owner pid) :
    op ≠ .deinit := by
  rintro rfl
  exact leaves

section Servers

variable {c c' : Contexts} {i owner : Nat} {client : Client} {op : Op} {table table' : Table}

/-- Another context is changed, which does not claim the owner of the server. -/
theorem Serves.update (serves : Serves c i owner client) {j : Nat} (other : j ≠ i)
    {entry : Option Client} (free : ∀ client', entry = some client' → client'.owner ≠ owner) :
    Serves (Function.update c j entry) i owner client where
  here := (Function.update_of_ne (Ne.symm other) ..).trans serves.here
  claims := serves.claims
  alone k client' there claims := by
    by_cases same : k = j
    · subst same
      rw [Function.update_self] at there
      exact absurd claims (free client' there)
    · rw [Function.update_of_ne same] at there
      exact serves.alone k client' there claims

/-- **A server that is left alone keeps its context.** -/
theorem Changes.serves (changes : Changes c op c') (serves : Serves c i owner client)
    (claimed : owner ≠ noOwner) (leaves : op.Leaves i owner client.pid) :
    Serves c' i owner client := by
  cases changes with
  | opened free inside answer up binds =>
    refine serves.update (fun same => ?_) fun client' started => ?_
    · rw [same, serves.here] at free
      exact absurd free (Option.some_ne_none _)
    · obtain rfl := Option.some.inj started
      exact Ne.symm claimed
  | refused _ => exact serves
  | stopped => exact serves.update leaves fun client' absent => by cases absent
  | cleared => exact serves.update leaves fun client' absent => by cases absent
  | @cleaned pid j client' there same =>
    refine serves.update (fun here => ?_) fun client' absent => by cases absent
    subst here
    obtain rfl := Option.some.inj (there.symm.trans serves.here)
    exact leaves same.symm
  | clean others => exact serves
  | @owned myContext other =>
    refine serves.update leaves.1 fun client' claims => ?_
    obtain ⟨before, _, rfl⟩ := Option.map_eq_some_iff.mp claims
    exact leaves.2
  | closed => exact absurd leaves id

theorem ChangesAll.serves {ops : List Op} (changes : ChangesAll c ops c')
    (claimed : owner ≠ noOwner) (serves : Serves c i owner client)
    (leaves : ∀ op ∈ ops, op.Leaves i owner client.pid) : Serves c' i owner client := by
  induction changes with
  | nil => exact serves
  | cons first rest ih =>
    obtain ⟨here, others⟩ := List.forall_mem_cons.mp leaves
    exact ih (first.serves serves claimed here) others

/-- The search for an owner finds the server that has claimed it. -/
theorem Serves.found (serves : Serves (contexts table.list) i owner client)
    (held : table.lock = true) : getContextByOwner owner table = .ok (some i) := by
  unfold getContextByOwner pthreadMutexLock
  rw [if_pos held, ok_bind]
  obtain ⟨j, other, found, there, claims, _⟩ | ⟨_, absent⟩ :=
    find_context table.list fun client => client.owner = owner
  · rw [found]
    exact congrArg (Except.ok ∘ some) (serves.alone j other there claims)
  · exact absurd serves.claims (absent i client serves.here)

/-- **A server that is left alone is found where it has been**, in every run. -/
theorem run_serves {ops : List Op} (claimed : owner ≠ noOwner) (held : table.lock = true)
    (serves : Serves (contexts table.list) i owner client) (ran : run table ops = .ok table')
    (leaves : ∀ op ∈ ops, op.Leaves i owner client.pid) :
    table'.list i = client ∧ getContextByOwner owner table' = .ok (some i) := by
  obtain ⟨same, changes⟩ := run_changes ran
  have kept := changes.serves claimed serves leaves
  exact ⟨(contexts_eq_some.mp kept.here).2.2,
    kept.found ((same fun op member => (leaves op member).stays).trans held)⟩

/-- The record of the daemon -/
def daemonClient (fd : Nat) (pid : Int) : Client :=
  ⟨fd, socketPath serverName, 0 ||| msgDontwait, pcdOwner, pid⟩

/-- **The daemon becomes a server**, if the others leave its context to it until it claims its
owner, and no other context claims that owner then. -/
theorem serves_apiInit {pid : Int} {world : World} {fd : Nat} {others : List Op}
    {pcdContext : UInt32} (init : apiInit pid world others table = .ok (some pcdContext, table'))
    (answer : world.socket = some fd) (up : fd ≠ 0)
    (spares : ∀ op ∈ others, op.Spares pcdContext.toNat pid)
    (unclaimed : ∀ j other, contexts table'.list j = some other → other.owner = pcdOwner →
      j = pcdContext.toNat) :
    table'.lock = true ∧
      Serves (contexts table'.list) pcdContext.toNat pcdOwner (daemonClient fd pid) := by
  unfold apiInit at init
  rcases start_cases serverName 0 pid world table with
    ⟨held, i, fd', inside, free, answer', binds, started⟩ | ⟨_, started, _⟩ | ⟨_, started⟩
  case inr.inl =>
    rw [started] at init
    cases init
  case inr.inr =>
    rw [started] at init
    cases init
  obtain rfl := Option.some.inj (answer.symm.trans answer')
  rw [started, ok_bind] at init
  obtain ⟨table₂, between, init⟩ := bind_eq_ok.mp init
  obtain ⟨⟨owned, table₃⟩, claims, init⟩ := bind_eq_ok.mp init
  cases owned with
  | false =>
    obtain ⟨_, _, refused⟩ := bind_eq_ok.mp init
    cases refused
  | true =>
    cases init
    -- the context of the daemon is still there when it claims its owner
    let fresh : Client := ⟨fd, socketPath serverName, 0 ||| msgDontwait, noOwner, pid⟩
    have opened : contexts (Function.update table.list i fresh) i = some fresh := by
      rw [contexts_update inside, if_neg up, Function.update_self]
    obtain ⟨same, changes⟩ := run_changes between
    have index := toNat_ofNat_inside inside
    rw [index] at spares unclaimed ⊢
    obtain ⟨owner, kept⟩ := changes.keeps opened spares
    rcases setOwner_cases (.ofNat i) pcdOwner table₂ with
      ⟨ret, table₄, ran, held', sets⟩ | ⟨ran, _⟩ | ⟨ran, _⟩
    case inr.inl => cases claims.symm.trans ran
    case inr.inr => cases claims.symm.trans ran
    cases claims.symm.trans ran
    have standing := same fun op member => (spares op member).stays
    rw [index, kept] at sets
    refine ⟨held'.trans (standing.trans held), ?_, rfl, unclaimed⟩
    rw [sets, Function.update_self]
    rfl

/-- **The daemon is found by its clients**: as long as its context is left alone, whatever other
processes do, the search for its owner gives the context that it has got at its start, and a rule
that waits for this owner may start. -/
theorem run_discovery {pid : Int} {world : World} {fd : Nat} {others ops : List Op}
    {pcdContext : UInt32} {table'' : Table}
    (init : apiInit pid world others table = .ok (some pcdContext, table'))
    (answer : world.socket = some fd) (up : fd ≠ 0)
    (spares : ∀ op ∈ others, op.Spares pcdContext.toNat pid)
    (unclaimed : ∀ j other, contexts table'.list j = some other → other.owner = pcdOwner →
      j = pcdContext.toNat)
    (ran : run table' ops = .ok table'')
    (leaves : ∀ op ∈ ops, op.Leaves pcdContext.toNat pcdOwner pid) :
    table''.list pcdContext.toNat = daemonClient fd pid ∧
      getContextByOwner pcdOwner table'' = .ok (some pcdContext.toNat) ∧
      ∀ (env : Env) (s : State) (r : RuleRef), (s.rule r).startCondition = .ipcOwner pcdOwner →
        (∀ owner found, getContextByOwner owner table'' = .ok found →
          env.ipcOwner owner = found.isSome) →
        startCondCheck env r s = (.ok, s) := by
  obtain ⟨held, serves⟩ := serves_apiInit init answer up spares unclaimed
  obtain ⟨kept, found⟩ := run_serves (by decide) held serves ran leaves
  refine ⟨kept, found, fun env s r waits answers => ?_⟩
  unfold startCondCheck
  rw [waits]
  show (Status.ofBool (env.ipcOwner pcdOwner), s) = _
  rw [answers pcdOwner _ found]
  rfl

/-- The daemon starts, a client between its two calls, and this one goes while another one comes. -/
theorem run_discovery_client : ∃ table table',
    apiInit 10 (granted 3) [.start ['a'] 0 42 (granted 3)] .new = .ok (some 0, table) ∧
    run table [.stop 1, .start ['b'] 0 43 (granted 3), .cleanupProc 43] = .ok table' ∧
    table'.list 0 = daemonClient 3 10 ∧ getContextByOwner pcdOwner table' = .ok (some 0) := by
  obtain ⟨table, init, unclaimed⟩ : ∃ table,
      apiInit 10 (granted 3) [.start ['a'] 0 42 (granted 3)] .new = .ok (some 0, table) ∧
      ∀ j other, contexts table.list j = some other → other.owner = pcdOwner →
        j = (0 : UInt32).toNat := by
    refine ⟨_, rfl, fun j other there claims => ?_⟩
    obtain ⟨inside, _, rfl⟩ := contexts_eq_some.mp there
    clear there
    revert j
    decide
  have before : ∀ op ∈ [Op.start ['a'] 0 42 (granted 3)], op.Spares (0 : UInt32).toNat 10 := by
    intro op member
    obtain rfl := List.mem_singleton.mp member
    trivial
  have alone : ∀ op ∈ [Op.stop 1, .start ['b'] 0 43 (granted 3), .cleanupProc 43],
      op.Leaves (0 : UInt32).toNat pcdOwner 10 := by
    intro op member
    simp only [List.mem_cons, List.not_mem_nil, or_false] at member
    obtain rfl | rfl | rfl := member
    · exact (by decide : (1 : UInt32).toNat ≠ (0 : UInt32).toNat)
    · trivial
    · exact (by decide : (43 : Int) ≠ 10)
  obtain ⟨table', ran⟩ : ∃ table',
      run table [.stop 1, .start ['b'] 0 43 (granted 3), .cleanupProc 43] = .ok table' := by
    cases init
    exact ⟨_, rfl⟩
  have discovered := run_discovery init rfl (by decide) before unclaimed ran alone
  exact ⟨table, table', init, ran, discovered.1, discovered.2.1⟩

end Servers

/-! ### Cleaning up -/

/-- **A clean-up leaves a process no context exactly if it has had at most one**: it removes the
first one, and no other context changes. -/
theorem cleanupProc_clears (pid : Int) (list : Clients) :
    ∃ ret table', cleanupProc pid ⟨true, list⟩ = .ok (ret, table') ∧
      ((∀ i client, contexts list i = some client → client.pid ≠ pid) ∧
          contexts table'.list = contexts list ∨
        ∃ k client, contexts list k = some client ∧ client.pid = pid ∧
          (∀ j < k, ∀ other, contexts list j = some other → other.pid ≠ pid) ∧
          contexts table'.list = Function.update (contexts list) k none) ∧
      ((∀ i client, contexts table'.list i = some client → client.pid ≠ pid) ↔
        ∀ i j client other, contexts list i = some client → contexts list j = some other →
          client.pid = pid → other.pid = pid → i = j) := by
  rcases cleanupProc_cases pid ⟨true, list⟩ with ⟨ret, table', ran, _, removed⟩ | ⟨_, gone⟩
  case inr => cases gone
  refine ⟨ret, table', ran, removed, ?_⟩
  rcases removed with ⟨others, same⟩ | ⟨k, client₀, there, its₀, _, gone⟩
  · rw [same]
    exact ⟨fun _ i _ client _ here _ its _ => absurd its (others i client here), fun _ => others⟩
  rw [gone]
  constructor
  · intro none
    have only : ∀ i client, contexts list i = some client → client.pid = pid → i = k := by
      intro i client here its
      by_contra apart
      exact none i client ((Function.update_of_ne apart ..).trans here) its
    intro i j client other here here' its its'
    exact (only i client here its).trans (only j other here' its').symm
  · intro single i client left its
    by_cases here : i = k
    · rw [here, Function.update_self] at left
      cases left
    · rw [Function.update_of_ne here] at left
      exact here (single i k client client₀ left there its its₀)

end CyberPlatform.Pcd.Ipc
