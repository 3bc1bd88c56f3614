/-
**`pkt_router.c`: the main loop of the dispatcher.**

The world is what the dispatcher shares with the NICs and the other cores: the mbufs, the rings
(FIFO queues of pointers) and, for every port and queue, the bursts that the NIC delivers one after
the other. The log records which mbufs the dispatcher takes and which it gives away, and what
`_process_incoming_packets` hands to `_process_packets`. What the others do between two rounds of
the main loop is an arbitrary change of the world.

* `receive_eq` — the packets of one interface are received as they should be: the first
  `min 16 available`, in FIFO order.
* `everyRound_iff` — but no round gets there: a round begins with a `memset` through the first
  pointer of the array of packets, which is null.
* `initInterfaces_outstanding` — flushing the rings gives away what it takes.
* `conserved_iff` — `_process_packets` gives away nothing, so only an empty batch is conserved.
-/

import CyberPlatform.Dispatcher.Context
import CyberPlatform.Dispatcher.Frame
import CyberPlatform.Foundation.Run
import Mathlib.Algebra.Ring.Int.Defs
import Mathlib.Algebra.Ring.Nat
import Mathlib.Data.List.Nodup
import Mathlib.Logic.Function.Basic

namespace CyberPlatform.Dispatcher

open Foundation

/-! ### Packets, rings and NICs -/

/-- `MAX_PACKETS_BURST` -/
def maxPacketsBurst : Nat := 16

/-- The address of a `struct rte_mbuf`. -/
abbrev MbufPtr := Nat

/-- What the dispatcher reads of a `struct rte_mbuf`; the buffer is the bytes readable from
`buf_addr` on. The defaults are what `memset` leaves. -/
structure Mbuf where
  bufAddr : Option (List UInt8) := none
  dataOff : UInt16 := 0
  deriving DecidableEq, Repr

/-- `rte_eth_rx_burst` returns no more packets than it is asked for. -/
structure Burst where
  packets : List MbufPtr
  bounded : packets.length ≤ maxPacketsBurst

/-- What happens to mbufs. -/
inductive Event where
  /-- the dispatcher takes an mbuf from a ring or a NIC -/
  | received (pkt : MbufPtr)
  /-- `_process_incoming_packets` hands pointers to `_process_packets` -/
  | handed (pkts : List (Option MbufPtr))
  /-- `rte_pktmbuf_free` -/
  | freed (pkt : MbufPtr)
  /-- the mbuf is put on a ring -/
  | enqueued (ring : Ring) (pkt : MbufPtr)
  /-- the mbuf is given to a tx burst -/
  | transmitted (portId : UInt8) (queueId : UInt16) (pkt : MbufPtr)
  deriving DecidableEq, Repr

/-- What the dispatcher shares with the NICs and the other cores. -/
@[ext]
structure World where
  mbufs : MbufPtr → Mbuf
  rings : Ring → List (Option MbufPtr)
  bursts : UInt8 → UInt16 → List Burst
  log : List Event

/-- More events. -/
def World.record (w : World) (events : List Event) : World := { w with log := w.log ++ events }

/-- The events of taking pointers, of which some may be null. -/
def receivedAll (pkts : List (Option MbufPtr)) : List Event := (pkts.filterMap id).map .received

/-- `rte_ring_count` -/
def rteRingCount (r : Option Ring) (w : World) : Except Trap Nat :=
  match r with
  | none => .error .nullPointer
  | some r => .ok (w.rings r).length

/-- `rte_ring_dequeue`: the object, or none when the ring is empty (`-ENOENT`). -/
def rteRingDequeue (r : Option Ring) (w : World) :
    Except Trap (Option (Option MbufPtr) × World) :=
  match r with
  | none => .error .nullPointer
  | some r =>
    match w.rings r with
    | [] => .ok (none, w)
    | obj :: rest =>
      .ok (some obj,
        ({ w with rings := Function.update w.rings r rest }).record (receivedAll [obj]))

/-- `rte_pktmbuf_free` -/
def rtePktmbufFree (m : MbufPtr) (w : World) : World := w.record [.freed m]

/-- `rte_eth_rx_burst` with `nb_pkts = MAX_PACKETS_BURST`: the next burst of the queue. -/
def rteEthRxBurst (portId : UInt8) (queueId : UInt16) (w : World) : List MbufPtr × World :=
  match w.bursts portId queueId with
  | [] => ([], w)
  | burst :: rest =>
    let bursts := Function.update w.bursts portId (Function.update (w.bursts portId) queueId rest)
    (burst.packets, ({ w with bursts := bursts }).record (burst.packets.map .received))

/-- `rte_pktmbuf_mtod`: where the data of a packet starts. -/
def rtePktmbufMtod (m : Option MbufPtr) (w : World) : Except Trap (Option (List UInt8)) :=
  match m with
  | none => .error .nullPointer
  | some m => .ok ((w.mbufs m).bufAddr.map (·.drop (w.mbufs m).dataOff.toNat))

/-- `memset(m, 0, MAX_PACKETS_BURST*sizeof(struct rte_mbuf *))`: 128 bytes, which is the size of a
`struct rte_mbuf`. -/
def memsetMbuf (m : Option MbufPtr) (w : World) : Except Trap World :=
  match m with
  | none => .error .nullPointer
  | some m => .ok { w with mbufs := Function.update w.mbufs m {} }

/-! ### The code -/

/-- The body of the loop of `_init_if` that flushes a ring. -/
def flushStep (pRing : Option Ring) (w : World) (_i : Nat) : Except Trap World := do
  match ← rteRingDequeue pRing w with
  | (some (some m), w) => return rtePktmbufFree m w
  | (_, w) => return w

/-- The body of the loop of `_init_if`. The calls that start the queues of an eth interface, the
only use of `tx`, are comments. -/
def initIfStep (pInterface : InterfaceT) (_tx : Int) (w : World) (i : Nat) : Except Trap World := do
  let pIf ← fetch pInterface.ifs i
  if pIf.isEth ≠ 0 then return w
  else
    let count ← rteRingCount pIf.pRing w
    (List.range count).foldlM (flushStep pIf.pRing) w

/-- `_init_if` -/
def initIf (pInterface : InterfaceT) (tx : Int) (w : World) : Except Trap (Int × World) := do
  let w ← (List.range pInterface.count.toNat).foldlM (initIfStep pInterface tx) w
  return (0, w)

/-- `_init_interfaces` -/
def initInterfaces (pDispatcherCtx : DispatcherCtx) (w : World) : Except Trap (Int × World) := do
  let (err, w) ← initIf pDispatcherCtx.rxInterfaces 0 w
  if err ≠ 0 then return (-1, w)
  let (err, w) ← initIf pDispatcherCtx.txInterfaces 1 w
  if err ≠ 0 then return (-1, w)
  let (err, w) ← initIf pDispatcherCtx.appInterfaces 0 w
  if err ≠ 0 then return (-1, w)
  return (0, w)

/-- The array of the packets of a burst. -/
abbrev RxPkts := Vector (Option MbufPtr) maxPacketsBurst

/-- The body of the loop of `_process_packets`. -/
def processPacket (rxPkts : RxPkts) (w : World) (i : Nat) : Except Trap World := do
  let pkt ← fetch rxPkts i
  match ← rtePktmbufMtod pkt w with
  | none => .error .nullPointer
  | some pData =>
    if (← isIpFrame pData) ≠ 0 then
      -- "send it to upper level": the branch holds this comment only
      return w
    else
      -- "send it out": the same
      return w

/-- `_process_packets` -/
def processPackets (_pDispatcherCtx : DispatcherCtx) (rxPkts : RxPkts) (nbPackets : Nat)
    (w : World) : Except Trap World :=
  (List.range nbPackets).foldlM (processPacket rxPkts) w

/-- The loop of `_process_incoming_packets` that receives from a ring; the first argument is the
number of rounds it has left. -/
def ringLoop (pRing : Option Ring) : Nat → Nat → RxPkts → World → Except Trap (Nat × RxPkts × World)
  | 0, received, rxPkts, w => .ok (received, rxPkts, w)
  | left + 1, received, rxPkts, w => do
    match ← rteRingDequeue pRing w with
    | (none, w) => return (received, rxPkts, w)
    | (some ringPkt, w) => ringLoop pRing left (received + 1) (← store rxPkts received ringPkt) w

/-- The packets of one interface: how many, and the array they are put in. -/
def receive (pIf : IfT) (rxPkts : RxPkts) (w : World) : Except Trap (Nat × RxPkts × World) :=
  if pIf.isEth ≠ 0 then
    let (packets, w) := rteEthRxBurst (.ofInt pIf.portId) (.ofInt pIf.qId) w
    .ok (packets.length, writeFront rxPkts (packets.map some), w)
  else ringLoop pIf.pRing maxPacketsBurst 0 rxPkts w

/-- The body of the loop of `_process_incoming_packets`. -/
def processInterface (pDispatcherCtx : DispatcherCtx) (st : RxPkts × World) (i : Nat) :
    Except Trap (RxPkts × World) := do
  let (rxPkts, w) := st
  let w ← memsetMbuf (← fetch rxPkts 0) w
  let pIf ← fetch pDispatcherCtx.rxInterfaces.ifs i
  let (received, rxPkts, w) ← receive pIf rxPkts w
  let w := w.record [.handed (rxPkts.toList.take received)]
  let w ← processPackets pDispatcherCtx rxPkts received w
  return (rxPkts, w)

/-- `_process_incoming_packets` -/
def processIncomingPackets (pDispatcherCtx : DispatcherCtx) (w : World) :
    Except Trap (Int × World) := do
  let (_, w) ← (List.range pDispatcherCtx.rxInterfaces.count.toNat).foldlM
    (processInterface pDispatcherCtx) (Vector.replicate maxPacketsBurst none, w)
  return (0, w)

/-- One round of the `while(1)`, behind what the others did to the world. -/
def mainLoopRound (pDispatcherCtx : DispatcherCtx) (w : World) (others : World → World) :
    Except Trap World := do
  let (_err, w) ← processIncomingPackets pDispatcherCtx (others w)
  return w

/-- `PKT_ROUTER_main_loop` for as many rounds as are given. A return value means that it has ended,
and it ends before the first round only. -/
def pktRouterMainLoop (pDispatcherCtx : DispatcherCtx) (rounds : List (World → World)) (w : World) :
    Except Trap (Option Int × World) := do
  let (err, w) ← initInterfaces pDispatcherCtx w
  if err ≠ 0 then return (some (-1), w)
  let w ← rounds.foldlM (mainLoopRound pDispatcherCtx) w
  return (none, w)

/-! ### Receiving -/

/-- The world once the first `k` entries of a ring are taken. -/
def World.takeRing (w : World) (r : Ring) (k : Nat) : World :=
  ({ w with rings := Function.update w.rings r ((w.rings r).drop k) }).record
    (receivedAll ((w.rings r).take k))

theorem receivedAll_append (front back : List (Option MbufPtr)) :
    receivedAll (front ++ back) = receivedAll front ++ receivedAll back := by
  rw [receivedAll, List.filterMap_append, List.map_append]
  rfl

theorem World.record_nil (w : World) : w.record [] = w := by
  rw [record, List.append_nil]

theorem World.takeRing_zero (w : World) (r : Ring) : w.takeRing r 0 = w := by
  unfold takeRing
  rw [List.drop_zero, Function.update_eq_self]
  exact w.record_nil

theorem World.takeRing_nil {w : World} {r : Ring} (drained : w.rings r = []) (k : Nat) :
    w.takeRing r k = w := by
  have same : Function.update w.rings r [] = w.rings := by
    rw [← drained, Function.update_eq_self]
  unfold takeRing
  rw [drained, List.drop_nil, List.take_nil, same]
  exact w.record_nil

theorem World.takeRing_succ {w : World} {r : Ring} {obj : Option MbufPtr}
    {rest : List (Option MbufPtr)} (entries : w.rings r = obj :: rest) (k : Nat) :
    (w.takeRing r 1).takeRing r k = w.takeRing r (k + 1) := by
  have left : (w.takeRing r 1).rings r = rest := by
    show Function.update w.rings r ((w.rings r).drop 1) r = rest
    rw [Function.update_self, entries, List.drop_one, List.tail_cons]
  have whole : receivedAll ([obj] ++ rest.take k) =
      receivedAll [obj] ++ receivedAll (rest.take k) := receivedAll_append _ _
  rw [takeRing, left]
  unfold takeRing record
  rw [entries, List.take_succ_cons, List.drop_succ_cons, List.take_succ_cons, List.take_zero]
  ext1
  · rfl
  · exact Function.update_idem _ _ _
  · rfl
  · show w.log ++ receivedAll [obj] ++ receivedAll (rest.take k) = _
    rw [List.append_assoc, ← whole]
    rfl

/-- The oldest entry of a ring is taken. -/
theorem rteRingDequeue_cons {w : World} {r : Ring} {obj : Option MbufPtr}
    {rest : List (Option MbufPtr)} (entries : w.rings r = obj :: rest) :
    rteRingDequeue (some r) w = .ok (some obj, w.takeRing r 1) := by
  unfold rteRingDequeue World.takeRing
  simp only [entries]
  rfl

theorem rteRingDequeue_nil {w : World} {r : Ring} (drained : w.rings r = []) :
    rteRingDequeue (some r) w = .ok (none, w) := by
  unfold rteRingDequeue
  simp only [drained]

/-- **The ring loop** extends the packets it has by the first entries of the ring, as many as it has
rounds, or all. -/
theorem ringLoop_eq (rxPkts : RxPkts) (r : Ring) : ∀ (left : Nat) (pkts : List (Option MbufPtr))
    (w : World), pkts.length + left ≤ maxPacketsBurst →
    ringLoop (some r) left pkts.length (writeFront rxPkts pkts) w =
      .ok ((pkts ++ (w.rings r).take left).length,
        writeFront rxPkts (pkts ++ (w.rings r).take left), w.takeRing r left) := by
  intro left
  induction left with
  | zero =>
    intro pkts w _
    rw [ringLoop, List.take_zero, List.append_nil, World.takeRing_zero]
  | succ left ih =>
    intro pkts w room
    rw [ringLoop]
    cases entries : w.rings r with
    | nil =>
      rw [rteRingDequeue_nil entries, ok_bind, List.take_nil, List.append_nil,
        World.takeRing_nil entries]
      rfl
    | cons obj rest =>
      have behind : (w.takeRing r 1).rings r = rest := by
        show Function.update w.rings r ((w.rings r).drop 1) r = rest
        rw [Function.update_self, entries, List.drop_one, List.tail_cons]
      have longer : (pkts ++ [obj]).length = pkts.length + 1 := List.length_append
      have onwards := ih (pkts ++ [obj]) (w.takeRing r 1) (by rw [longer]; omega)
      rw [World.takeRing_succ entries, behind, longer, List.append_assoc, List.singleton_append]
        at onwards
      rw [rteRingDequeue_cons entries, ok_bind]
      show (store (writeFront rxPkts pkts) pkts.length obj >>= fun rxPkts =>
        ringLoop (some r) left (pkts.length + 1) rxPkts (w.takeRing r 1)) = _
      rw [store_writeFront rxPkts pkts (by omega), ok_bind]
      exact onwards

/-- The packets that wait at an interface: the next burst of its queue, or the content of its
ring. -/
def available (pIf : IfT) (w : World) : List (Option MbufPtr) :=
  if pIf.isEth ≠ 0 then (rteEthRxBurst (.ofInt pIf.portId) (.ofInt pIf.qId) w).1.map some
  else pIf.pRing.elim [] w.rings

/-- The world once the first packets that wait at an interface, a burst at most, are taken. -/
def World.serve (w : World) (pIf : IfT) : World :=
  if pIf.isEth ≠ 0 then (rteEthRxBurst (.ofInt pIf.portId) (.ofInt pIf.qId) w).2
  else pIf.pRing.elim w (w.takeRing · maxPacketsBurst)

theorem rteEthRxBurst_length (portId : UInt8) (queueId : UInt16) (w : World) :
    (rteEthRxBurst portId queueId w).1.length ≤ maxPacketsBurst := by
  unfold rteEthRxBurst
  cases w.bursts portId queueId with
  | nil => exact Nat.zero_le _
  | cons burst rest => exact burst.bounded

/-- **Receiving from one interface** puts the first `min 16 available` packets, in their order, at
the front of the array. -/
theorem receive_eq (pIf : IfT) (rxPkts : RxPkts) (w : World)
    (attached : pIf.isEth ≠ 0 ∨ pIf.pRing ≠ none) :
    receive pIf rxPkts w = .ok (((available pIf w).take maxPacketsBurst).length,
      writeFront rxPkts ((available pIf w).take maxPacketsBurst), w.serve pIf) := by
  unfold receive available World.serve
  by_cases eth : pIf.isEth ≠ 0
  · have bounded := rteEthRxBurst_length (.ofInt pIf.portId) (.ofInt pIf.qId) w
    rw [if_pos eth, if_pos eth, if_pos eth,
      List.take_of_length_le (by rw [List.length_map]; exact bounded), List.length_map]
  · obtain ⟨r, ring⟩ := Option.ne_none_iff_exists'.mp (attached.resolve_left eth)
    rw [if_neg eth, if_neg eth, if_neg eth, ring]
    have whole := ringLoop_eq rxPkts r maxPacketsBurst [] w le_rfl
    rw [writeFront_nil] at whole
    exact whole

/-! ### The rounds of the main loop -/

/-- What `_process_packets` is to be handed, interface after interface. -/
def deliveries : List IfT → World → List (List (Option MbufPtr))
  | [], _ => []
  | pIf :: rest, w => (available pIf w).take maxPacketsBurst :: deliveries rest (w.serve pIf)

/-- What `_process_packets` has been handed. -/
def handed (log : List Event) : List (List (Option MbufPtr)) :=
  log.filterMap fun
    | .handed pkts => some pkts
    | _ => none

/-- **Every round of the main loop does its work**: the call returns, without a write through a null
pointer and with every mbuf as it was, and each rx interface in table order has handed over the
first `min 16 available` of its packets. -/
def EveryRound (ctx : DispatcherCtx) : List (World → World) → World → Prop
  | [], _ => True
  | others :: rounds, w =>
    ∃ err w', processIncomingPackets ctx (others w) = .ok (err, w') ∧
      w'.mbufs = (others w).mbufs ∧
      handed w'.log =
        handed (others w).log ++ deliveries ctx.rxInterfaces.entries (others w) ∧
      EveryRound ctx rounds w'

/-- The first interface of a round finds the array of packets still null, and clears through it. -/
theorem processInterface_null (ctx : DispatcherCtx) (w : World) (i : Nat) :
    processInterface ctx (Vector.replicate maxPacketsBurst none, w) i = .error .nullPointer := rfl

/-- A round with an rx interface ends in a write through the null pointer. -/
theorem processIncomingPackets_null {ctx : DispatcherCtx} (some : 0 < ctx.rxInterfaces.count)
    (w : World) : processIncomingPackets ctx w = .error .nullPointer := by
  obtain ⟨rest, length⟩ : ∃ rest, ctx.rxInterfaces.count.toNat = rest + 1 :=
    ⟨ctx.rxInterfaces.count.toNat - 1, by omega⟩
  unfold processIncomingPackets
  rw [length, List.range_succ_eq_map, List.foldlM_cons, processInterface_null]
  rfl

/-- A round without an rx interface changes nothing. -/
theorem processIncomingPackets_empty {ctx : DispatcherCtx} (empty : ctx.rxInterfaces.count ≤ 0)
    (w : World) : processIncomingPackets ctx w = .ok (0, w) := by
  unfold processIncomingPackets
  rw [Int.toNat_of_nonpos empty]
  rfl

/-- Without an rx interface every round does its work, which is none. -/
theorem everyRound_of_empty {ctx : DispatcherCtx} (empty : ctx.rxInterfaces.count ≤ 0) :
    ∀ (rounds : List (World → World)) (w : World), EveryRound ctx rounds w := by
  intro rounds
  induction rounds with
  | nil => exact fun _ => trivial
  | cons others rounds ih =>
    intro w
    refine ⟨0, others w, processIncomingPackets_empty empty _, rfl, ?_, ih _⟩
    rw [InterfaceT.entries_of_empty empty]
    exact (List.append_nil _).symm

/-- **When the rounds do their work**: when there is no round, or no rx interface to receive
from. -/
theorem everyRound_iff (ctx : DispatcherCtx) (rounds : List (World → World)) (w : World) :
    EveryRound ctx rounds w ↔ rounds = [] ∨ ctx.rxInterfaces.count ≤ 0 := by
  by_cases empty : ctx.rxInterfaces.count ≤ 0
  · exact ⟨fun _ => .inr empty, fun _ => everyRound_of_empty empty rounds w⟩
  · cases rounds with
    | nil => exact ⟨fun _ => .inl rfl, fun _ => trivial⟩
    | cons others rounds =>
      refine ⟨fun ⟨_, _, ran, _⟩ => ?_, fun cases => ?_⟩
      · rw [processIncomingPackets_null (by omega)] at ran
        cases ran
      · rcases cases with none | empty'
        · cases none
        · exact absurd empty' empty

/-- One eth interface, and a first round. -/
theorem everyRound_fails_eth :
    let ctx : DispatcherCtx :=
      { appName := none, coreId := 0, rxInterfaces := .ofList [{ isEth := 1 }],
        txInterfaces := .ofList [], appInterfaces := .ofList [] }
    ¬ EveryRound ctx [id] (.mk (fun _ => {}) (fun _ => []) (fun _ _ => []) []) := by
  rintro ctx ⟨_, _, ran, _⟩
  rw [processIncomingPackets_null (by decide)] at ran
  cases ran

/-! ### Who owns the packets -/

/-- Whether an event gives an mbuf away. -/
def Event.releases (pkt : MbufPtr) : Event → Bool
  | .freed p => p = pkt
  | .enqueued _ p => p = pkt
  | .transmitted _ _ p => p = pkt
  | _ => false

/-- How often an mbuf has been given away. -/
def releases (pkt : MbufPtr) (log : List Event) : Nat := log.countP (Event.releases pkt)

/-- What an event adds to the number of mbufs that the dispatcher owns. -/
def Event.owned : Event → Int
  | .received _ => 1
  | .handed _ => 0
  | .freed _ => -1
  | .enqueued _ _ => -1
  | .transmitted _ _ _ => -1

/-- The number of mbufs taken by the dispatcher and not given away. -/
def outstanding (log : List Event) : Int := (log.map Event.owned).sum

@[simp] theorem outstanding_record (w : World) (events : List Event) :
    outstanding (w.record events).log = outstanding w.log + outstanding events := by
  unfold outstanding World.record
  rw [List.map_append, List.sum_append]

/-- Flushing a ring gives away each mbuf that it takes. -/
theorem flushStep_outstanding {pRing : Option Ring} {w w' : World} {i : Nat}
    (ran : flushStep pRing w i = .ok w') : outstanding w'.log = outstanding w.log := by
  cases pRing with
  | none => cases ran
  | some r =>
    unfold flushStep at ran
    cases entries : w.rings r with
    | nil =>
      rw [rteRingDequeue_nil entries] at ran
      obtain rfl := Except.ok.inj ran
      rfl
    | cons obj rest =>
      have one : outstanding (w.takeRing r 1).log =
          outstanding w.log + outstanding (receivedAll [obj]) := by
        rw [World.takeRing, outstanding_record, entries]
        rfl
      rw [rteRingDequeue_cons entries] at ran
      cases obj with
      | none =>
        obtain rfl := Except.ok.inj ran
        rw [one]
        exact Int.add_zero _
      | some pkt =>
        obtain rfl := Except.ok.inj ran
        rw [rtePktmbufFree, outstanding_record, one]
        show outstanding w.log + 1 + -1 = outstanding w.log
        omega

theorem initIf_outstanding {table : InterfaceT} {tx err : Int} {w w' : World}
    (ran : initIf table tx w = .ok (err, w')) : outstanding w'.log = outstanding w.log := by
  obtain ⟨last, loop, done⟩ := bind_eq_ok.mp ran
  cases done
  refine foldlM_keeps (P := fun v => outstanding v.log = outstanding w.log) ?_ _ loop rfl
  intro v i v' step same
  obtain ⟨pIf, _, body⟩ := bind_eq_ok.mp step
  by_cases eth : pIf.isEth ≠ 0
  · rw [if_pos eth] at body
    obtain rfl := Except.ok.inj body
    exact same
  · rw [if_neg eth] at body
    obtain ⟨count, _, flush⟩ := bind_eq_ok.mp body
    exact foldlM_keeps (P := fun v => outstanding v.log = outstanding w.log)
      (fun _ _ _ step same => (flushStep_outstanding step).trans same) _ flush same

/-- `_init_if` has no way to fail, so `_init_interfaces` does its three tables. -/
theorem initInterfaces_cases {ctx : DispatcherCtx} {err : Int} {w w' : World}
    (ran : initInterfaces ctx w = .ok (err, w')) :
    ∃ rx tx, initIf ctx.rxInterfaces 0 w = .ok (0, rx) ∧
      initIf ctx.txInterfaces 1 rx = .ok (0, tx) ∧ initIf ctx.appInterfaces 0 tx = .ok (0, w') ∧
      err = 0 := by
  have returns : ∀ {table tx v r}, initIf table tx v = .ok r → r.1 = 0 := by
    intro table tx v r done
    obtain ⟨_, _, last⟩ := bind_eq_ok.mp done
    rw [← Except.ok.inj last]
  obtain ⟨⟨errRx, rx⟩, first, ran⟩ := bind_eq_ok.mp ran
  obtain rfl : errRx = 0 := returns first
  obtain ⟨⟨errTx, tx⟩, second, ran⟩ := bind_eq_ok.mp ran
  obtain rfl : errTx = 0 := returns second
  obtain ⟨⟨errApp, app⟩, third, ran⟩ := bind_eq_ok.mp ran
  obtain rfl : errApp = 0 := returns third
  cases ran
  exact ⟨rx, tx, first, second, third, rfl⟩

/-- **Getting ready owns nothing**: what `_init_interfaces` takes off the rings it gives away. -/
theorem initInterfaces_outstanding {ctx : DispatcherCtx} {err : Int} {w w' : World}
    (ran : initInterfaces ctx w = .ok (err, w')) : outstanding w'.log = outstanding w.log := by
  obtain ⟨rx, tx, first, second, third, -⟩ := initInterfaces_cases ran
  rw [initIf_outstanding third, initIf_outstanding second, initIf_outstanding first]

/-- **`_process_packets` only looks**: whichever branch a packet takes, the world is as before. -/
theorem processPackets_world {ctx : DispatcherCtx} {rxPkts : RxPkts} {nbPackets : Nat}
    {w w' : World} (ran : processPackets ctx rxPkts nbPackets w = .ok w') : w' = w := by
  refine foldlM_keeps (P := (· = w)) ?_ _ ran rfl
  rintro v i v' step rfl
  obtain ⟨pkt, _, body⟩ := bind_eq_ok.mp step
  obtain ⟨pData, _, body⟩ := bind_eq_ok.mp body
  cases pData with
  | none => cases body
  | some frame =>
    obtain ⟨verdict, _, last⟩ := bind_eq_ok.mp body
    rw [ite_self] at last
    exact (Except.ok.inj last).symm

/-- A batch of distinct mbufs, of a burst at most. -/
structure Batch where
  packets : List MbufPtr
  distinct : packets.Nodup
  bounded : packets.length ≤ maxPacketsBurst

/-- The array that holds a batch. -/
def Batch.rxPkts (batch : Batch) : RxPkts :=
  writeFront (Vector.replicate maxPacketsBurst none) (batch.packets.map some)

/-- A batch is taken and handed to `_process_packets`. -/
def takeBatch (ctx : DispatcherCtx) (w : World) (batch : Batch) : Except Trap World :=
  processPackets ctx batch.rxPkts batch.packets.length (w.record (batch.packets.map .received))

/-- **Packets are conserved**: after each batch, each mbuf of it has been given away once more, and
no mbuf is outstanding. -/
def Conserved (ctx : DispatcherCtx) : List Batch → World → Prop
  | [], _ => True
  | batch :: batches, w =>
    ∃ w', takeBatch ctx w batch = .ok w' ∧
      (∀ pkt ∈ batch.packets, releases pkt w'.log = releases pkt w.log + 1) ∧
      outstanding w'.log = 0 ∧ Conserved ctx batches w'

theorem outstanding_received (pkts : List MbufPtr) :
    outstanding (pkts.map .received) = pkts.length := by
  induction pkts with
  | nil => rfl
  | cons pkt pkts ih =>
    show 1 + outstanding (pkts.map .received) = _
    rw [ih, List.length_cons]
    omega

theorem takeBatch_eq {ctx : DispatcherCtx} {w w' : World} {batch : Batch}
    (ran : takeBatch ctx w batch = .ok w') : w' = w.record (batch.packets.map .received) :=
  processPackets_world ran

theorem takeBatch_releases {ctx : DispatcherCtx} {w w' : World} {batch : Batch}
    (ran : takeBatch ctx w batch = .ok w') (pkt : MbufPtr) :
    releases pkt w'.log = releases pkt w.log := by
  have looks : (batch.packets.map Event.received).countP (Event.releases pkt) = 0 := by
    rw [List.countP_map, List.countP_eq_zero]
    exact fun _ _ => Bool.false_ne_true
  rw [takeBatch_eq ran]
  unfold releases World.record
  rw [List.countP_append, looks, Nat.add_zero]

/-- An empty batch is processed. -/
theorem takeBatch_empty (ctx : DispatcherCtx) (w : World) {batch : Batch}
    (empty : batch.packets = []) :
    takeBatch ctx w batch = .ok (w.record (batch.packets.map .received)) := by
  unfold takeBatch
  rw [empty]
  rfl

/-- **When packets are conserved** over a sequence of batches: when there is no packet in them. -/
theorem conserved_iff (ctx : DispatcherCtx) (batches : List Batch) (w : World)
    (clean : outstanding w.log = 0) :
    Conserved ctx batches w ↔ ∀ batch ∈ batches, batch.packets = [] := by
  induction batches generalizing w with
  | nil => exact ⟨fun _ _ member => absurd member List.not_mem_nil, fun _ => trivial⟩
  | cons batch batches ih =>
    have owned : outstanding (w.record (batch.packets.map .received)).log =
        batch.packets.length := by
      rw [outstanding_record, outstanding_received, clean, Int.zero_add]
    rw [List.forall_mem_cons]
    constructor
    · rintro ⟨w', ran, _, balanced, later⟩
      have taken := owned
      rw [← takeBatch_eq ran, balanced] at taken
      exact ⟨List.length_eq_zero_iff.mp (by omega), (ih w' balanced).mp later⟩
    · rintro ⟨empty, later⟩
      rw [empty] at owned
      refine ⟨_, takeBatch_empty ctx w empty, fun pkt member => ?_, ?_, (ih _ ?_).mpr later⟩
      · rw [empty] at member
        cases member
      · rw [empty]
        exact owned
      · rw [empty]
        exact owned

/-- The world of one mbuf, with an untagged IPv4 frame, and nothing else. -/
def oneIpPacket : World where
  mbufs _ := { bufAddr := some (List.replicate 12 0 ++ [0x08, 0x00]) }
  rings _ := []
  bursts _ _ := []
  log := []

/-- A context without interfaces. -/
def noInterfaces : DispatcherCtx where
  appName := none
  coreId := 0
  rxInterfaces := .ofList []
  txInterfaces := .ofList []
  appInterfaces := .ofList []

/-- An empty batch, and one of one packet. -/
theorem conserved_one :
    Conserved noInterfaces [⟨[], by decide, by decide⟩, ⟨[7], by decide, by decide⟩] oneIpPacket ↔
      ∀ batch ∈ [(⟨[], by decide, by decide⟩ : Batch), ⟨[7], by decide, by decide⟩],
        batch.packets = [] :=
  conserved_iff noInterfaces _ oneIpPacket rfl

/-- The mbuf of an IPv4 frame is processed, and never given away. -/
theorem conserved_fails_ip :
    takeBatch noInterfaces oneIpPacket ⟨[7], by decide, by decide⟩ =
        .ok (oneIpPacket.record [.received 7]) ∧
      ¬ Conserved noInterfaces [⟨[7], by decide, by decide⟩] oneIpPacket := by
  refine ⟨rfl, ?_⟩
  rintro ⟨w', ran, released, _⟩
  have once := released 7 (List.mem_singleton.mpr rfl)
  rw [takeBatch_releases ran] at once
  omega

end CyberPlatform.Dispatcher
