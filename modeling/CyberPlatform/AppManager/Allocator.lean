/-
**`app_manager/allocator.c`: from the three lists to the calls of dpdk.**

The program is seen through the calls it makes: a `Run` holds the trace of them, each with its
reply. What dpdk replies is a `Dpdk`: a number of ports, and for every call a reply that may depend
on all calls before. `rte_mempool_lookup` alone is not left open: it walks over the pools that were
created, whose list is empty when a primary process starts.
-/

import CyberPlatform.AppManager.AppConf
import CyberPlatform.Common.Eal
import Mathlib.Logic.Function.Basic

namespace CyberPlatform.AppManager

open Foundation Json LList

/-! ### The calls of dpdk -/

/-- The address of a `struct rte_mempool` or of a `struct rte_ring`. -/
abbrev Object := Nat

/-- A call of dpdk, with the values that reach its parameters. -/
inductive Call where
  | ealInit (argv : List (Option String))
  | pktmbufPoolCreate (name : Option String) (n cacheSize : UInt32)
      (privSize dataRoomSize : UInt16) (socketId : Int)
  | ringCreate (name : Option String) (count : UInt32) (socketId : Int) (flags : UInt32)
  | devCount
  | devConfigure (portId : UInt8) (nbRxQ nbTxQ : UInt16)
  | promiscuousEnable (portId : UInt8)
  | promiscuousDisable (portId : UInt8)
  | mempoolLookup (name : Option String)
  | rxQueueSetup (portId : UInt8) (rxQueueId nbRxDesc : UInt16) (socketId : UInt32) (mp : Object)
  | txQueueSetup (portId : UInt8) (txQueueId nbTxDesc : UInt16) (socketId : UInt32)
  | devStart (portId : UInt8)
  deriving DecidableEq, Repr

inductive Reply where
  | nothing
  | object (address : Option Object)
  | code (ret : Int)
  deriving DecidableEq, Repr

structure Event where
  call : Call
  reply : Reply
  deriving DecidableEq, Repr

/-- **What dpdk replies.** -/
structure Dpdk where
  nbPorts : UInt8
  created : List Event → Call → Option Object
  returned : List Event → Call → Int

/-- `pkt_pools_t` and `rings_t`: the slots that are allocated, and how many of them are in use. -/
structure Table where
  slots : Nat
  tab : Vector (Option Object) slots
  count : Nat

inductive Kind where
  | pktPools | rings
  deriving DecidableEq, Repr

/-- The calls so far, and the global tables. -/
structure Run where
  trace : List Event
  tables : Kind → Table

/-- The process before its first call. -/
def Run.start : Run := ⟨[], fun _ => ⟨0, .replicate 0 none, 0⟩⟩

def Run.log (run : Run) (call : Call) (reply : Reply) : Run :=
  { run with trace := run.trace ++ [⟨call, reply⟩] }

def Run.setTable (run : Run) (kind : Kind) (table : Table) : Run :=
  { run with tables := Function.update run.tables kind table }

@[simp] theorem Run.setTable_tables (run : Run) (kind : Kind) (table : Table) :
    (run.setTable kind table).tables kind = table := Function.update_self kind _ _

/-- The other table is left alone. -/
theorem Run.setTable_others (run : Run) {kind other : Kind} (table : Table)
    (different : other ≠ kind) : (run.setTable kind table).tables other = run.tables other :=
  Function.update_of_ne different _ _

/-- `RTE_MEMPOOL_NAMESIZE` -/
def mempoolNamesize : Nat := 26

/-- The pools that an event adds to the list of pools. -/
def Event.mempool : Event → Option (String × Object)
  | ⟨.pktmbufPoolCreate (some name) _ _ _ _ _, .object (some mp)⟩ => some (name, mp)
  | _ => none

/-- The loop of `rte_mempool_lookup` over the list of pools. -/
def findMempool (name : Option String) : List (String × Object) → Except Trap (Option Object)
  | [] => .ok none
  | (mpName, mp) :: rest => do
    if (← strncmp name (some mpName) mempoolNamesize) = 0 then return some mp
    findMempool name rest

/-- `rte_mempool_lookup` -/
def mempoolLookup (name : Option String) (run : Run) : Except Trap (Option Object × Run) := do
  let mp ← findMempool name (run.trace.filterMap Event.mempool)
  return (mp, run.log (.mempoolLookup name) (.object mp))

section Code

variable (dpdk : Dpdk)

/-- A call that returns a code. -/
def invoke (call : Call) (run : Run) : Int × Run :=
  let ret := dpdk.returned run.trace call
  (ret, run.log call (.code ret))

/-- `rte_eth_dev_count` -/
def devCount (run : Run) : Int × Run :=
  let nbPorts : Int := dpdk.nbPorts.toNat
  (nbPorts, run.log .devCount (.code nbPorts))

/-! ### The code -/

/-- The arguments that `_init_dpdk` puts together. -/
def dpdkArgv (name : Option String) (conf : AppConf) : List (Option String) :=
  [name, some "-c", some (hexText conf.coreMask.toNat), some "-n",
    some (toString conf.memorySocket ++ " "), some "--proc-type=primary"]

/-- `_init_dpdk` -/
def initDpdk (conf : AppConf) (run : Run) : Except Trap (Int × Run) := do
  let name ← strdup conf.appName
  let (ret, run) := invoke dpdk (.ealInit (dpdkArgv name conf)) run
  if ret < 0 then return (-1, run)
  return (0, run)

/-- What `_alloc_pkt_pool` and `_alloc_ring` share: an object is created into the next slot. -/
def allocObject (kind : Kind) (call : Call) (run : Run) : Except Trap (Int × Run) := do
  let table := run.tables kind
  let tab ← store table.tab table.count none
  let object := dpdk.created run.trace call
  let run := run.log call (.object object)
  let tab ← store tab table.count object
  if object = none then return (-1, run.setTable kind { table with tab := tab })
  return (0, run.setTable kind { table with tab := tab, count := table.count + 1 })

/-- The call of `_alloc_pkt_pool`. -/
def pktPoolCall (pktPoolConf : PktPoolConf) : Call :=
  .pktmbufPoolCreate pktPoolConf.name (.ofInt pktPoolConf.size) (.ofInt pktPoolConf.cacheSize)
    (.ofInt pktPoolConf.privSize) (.ofInt pktPoolConf.dataRoomSize) pktPoolConf.socketId

/-- `_alloc_pkt_pool` -/
def allocPktPool (pktPoolConf : PktPoolConf) : Run → Except Trap (Int × Run) :=
  allocObject dpdk .pktPools (pktPoolCall pktPoolConf)

/-- `RING_F_SP_ENQ` -/
def ringFSpEnq : UInt32 := 1

/-- `RING_F_SC_DEQ` -/
def ringFScDeq : UInt32 := 2

/-- The call of `_alloc_ring`. -/
def ringCall (ringConf : RingConf) : Call :=
  let flags : UInt32 := 0
  let flags := if ringConf.singleProducer ≠ 0 then flags ||| ringFSpEnq else flags
  let flags := if ringConf.singleConsumer ≠ 0 then flags ||| ringFScDeq else flags
  .ringCreate ringConf.name (.ofInt ringConf.size) ringConf.socketId flags

/-- `_alloc_ring` -/
def allocRing (ringConf : RingConf) : Run → Except Trap (Int × Run) :=
  allocObject dpdk .rings (ringCall ringConf)

/-- What `_alloc_pkt_pools` and `_alloc_rings` share. -/
def allocObjects (kind : Kind) (list : ConfList) (func : Conf list → Run → Except Trap (Int × Run))
    (conf : AppConf) (run : Run) : Except Trap (Int × Run) := do
  let size := (llCount list conf.store.links).toNat
  -- what `malloc` returns is not cleared, and no slot is read before it is set
  let run := run.setTable kind ⟨size, .replicate size none, 0⟩
  let (ptrElem, run) ← visit conf.store list func run
  if ptrElem ≠ none then return (-1, run)
  return (0, run)

/-- `_alloc_pkt_pools` -/
def allocPktPools : AppConf → Run → Except Trap (Int × Run) :=
  allocObjects .pktPools .pktPoolList (allocPktPool dpdk)

/-- `_alloc_rings` -/
def allocRings : AppConf → Run → Except Trap (Int × Run) :=
  allocObjects .rings .ringList (allocRing dpdk)

/-- `queues[i]` -/
def queueAt (queues : List EthQ) (i : Nat) : Except Trap EthQ :=
  match queues[i]? with
  | some q => .ok q
  | none => .error .outOfBounds

/-- The call of `_init_eth_port` that configures the device: the numbers of queues are cast to
`uint8_t` before they reach parameters of type `uint16_t`. -/
def configureCall (ethConf : EthConf) : Call :=
  .devConfigure (.ofInt ethConf.portId) (UInt8.ofInt ethConf.nbRxQ).toUInt16
    (UInt8.ofInt ethConf.nbTxQ).toUInt16

/-- The call of `_init_eth_port` for the promiscuous mode. -/
def promiscuousCall (ethConf : EthConf) : Call :=
  if ethConf.promisc ≠ 0 then .promiscuousEnable (.ofInt ethConf.portId)
  else .promiscuousDisable (.ofInt ethConf.portId)

/-- The call of `_init_eth_port` for an rx queue. -/
def rxQueueCall (ethConf : EthConf) (q : EthQ) (pool : Object) : Call :=
  .rxQueueSetup (.ofInt ethConf.portId) (.ofInt q.qId) (.ofInt q.nbDesc) (.ofInt q.socketId) pool

/-- The call of `_init_eth_port` for a tx queue. -/
def txQueueCall (ethConf : EthConf) (q : EthQ) : Call :=
  .txQueueSetup (.ofInt ethConf.portId) (.ofInt q.qId) (.ofInt q.nbDesc) (.ofInt q.socketId)

/-- The body of the loop of `_init_eth_port` over the rx queues. -/
def initRxQueue (ethConf : EthConf) (i : Nat) (run : Run) : Except Trap (Int × Run) := do
  let q ← queueAt ethConf.rxQueues i
  let (pool, run) ← mempoolLookup q.pktPoolName run
  match pool with
  | none => return (-1, run)
  | some pool =>
    let (ret, run) := invoke dpdk (rxQueueCall ethConf q pool) run
    if ret < 0 then return (-1, run)
    return (0, run)

/-- The body of the loop of `_init_eth_port` over the tx queues. -/
def initTxQueue (ethConf : EthConf) (i : Nat) (run : Run) : Except Trap (Int × Run) := do
  let q ← queueAt ethConf.txQueues i
  let (ret, run) := invoke dpdk (txQueueCall ethConf q) run
  if ret < 0 then return (-1, run)
  return (0, run)

/-- `_init_eth_port` -/
def initEthPort (ethConf : EthConf) (run : Run) : Except Trap (Int × Run) := do
  -- configure eth. device
  let (ret, run) := invoke dpdk (configureCall ethConf) run
  if ret < 0 then return (-1, run)
  let run := run.log (promiscuousCall ethConf) .nothing
  -- Init RX queues
  let (ret, run) ← loop (initRxQueue dpdk ethConf) (List.range ethConf.nbRxQ.toNat) run
  if ret ≠ 0 then return (-1, run)
  -- Init TX queues
  let (ret, run) ← loop (initTxQueue dpdk ethConf) (List.range ethConf.nbTxQ.toNat) run
  if ret ≠ 0 then return (-1, run)
  return (0, run)

/-- `_alloc_eth_ports` -/
def allocEthPorts (conf : AppConf) (run : Run) : Except Trap (Int × Run) := do
  let size := llCount .ethPortList conf.store.links
  if size = 0 then return (0, run)
  let (nbPorts, run) := devCount dpdk run
  if nbPorts < size then return (-1, run)
  let (ptrElem, run) ← visit conf.store .ethPortList (initEthPort dpdk) run
  if ptrElem ≠ none then return (-1, run)
  return (0, run)

/-- The body of the loop of `_start_eth_ports`. -/
def startEthPort (i : Nat) (run : Run) : Except Trap (Int × Run) := do
  let (err, run) := invoke dpdk (.devStart (.ofInt i)) run
  if err < 0 then return (-1, run)
  return (0, run)

/-- `_start_eth_ports` -/
def startEthPorts (run : Run) : Except Trap (Int × Run) := do
  let (nbPorts, run) := devCount dpdk run
  if nbPorts ≤ 0 then return (0, run)
  loop (startEthPort dpdk) (List.range nbPorts.toNat) run

/-- `ALLOCATOR_create_ressources` of a configuration that is not null. -/
def allocatorCreateRessources (conf : AppConf) (run : Run) : Except Trap (Int × Run) := do
  -- init dpdk
  let (err, run) ← initDpdk dpdk conf run
  if err ≠ 0 then return (-1, run)
  -- allocate pkt mbuf
  let (err, run) ← allocPktPools dpdk conf run
  if err ≠ 0 then return (-1, run)
  -- allocate rings
  let (err, run) ← allocRings dpdk conf run
  if err ≠ 0 then return (-1, run)
  -- allocate eth ports
  let (err, run) ← allocEthPorts dpdk conf run
  if err ≠ 0 then return (-1, run)
  return (0, run)

/-- `ALLOCATOR_start_ressources` -/
def allocatorStartRessources (_conf : AppConf) (run : Run) : Except Trap (Int × Run) := do
  let (ret, run) ← startEthPorts dpdk run
  if ret ≠ 0 then return (-1, run)
  return (0, run)

/-- `main`, behind `APP_CONF_parse_file` and up to its endless loop. -/
def startup (conf : AppConf) (run : Run) : Except Trap (Int × Run) := do
  let (err, run) ← allocatorCreateRessources dpdk conf run
  if err ≠ 0 then return (-1, run)
  let (err, run) ← allocatorStartRessources dpdk conf run
  if err ≠ 0 then return (-1, run)
  return (0, run)

end Code

end CyberPlatform.AppManager
