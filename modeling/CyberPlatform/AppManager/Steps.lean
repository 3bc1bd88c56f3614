/-
**The start-up of `app_manager` as one loop over a list of steps.**

The functions of the allocator walk over the lists and the queues of a configuration, and each of
them is left at the first call that fails. Put behind each other they are one loop.

* `initEthPort_eq`, `allocObjects_eq` — a port, and the objects of a table, as steps.
* `allocatorCreateRessources_eq`, `startup_eq` — the whole start-up.
-/

import CyberPlatform.AppManager.Allocator
import CyberPlatform.AppManager.Decoding

namespace CyberPlatform.AppManager

open Foundation Json LList

/-! ### The steps -/

/-- A step of the start-up. -/
inductive Step where
  | init (argv : List (Option String))
  | table (kind : Kind) (size : Nat)
  | pool (pktPoolConf : PktPoolConf)
  | ring (ringConf : RingConf)
  | count (size : Int)
  | port (ethConf : EthConf)
  | rxQueue (ethConf : EthConf) (q : EthQ)
  | txQueue (ethConf : EthConf) (q : EthQ)
  | start (i : Nat)

section Steps

variable (dpdk : Dpdk)

/-- A call that fails with a negative code. -/
def checked (call : Call) (run : Run) : Except Trap (Int × Run) :=
  if dpdk.returned run.trace call < 0 then .ok (-1, (invoke dpdk call run).2)
  else .ok (0, (invoke dpdk call run).2)

/-- What a step does. -/
def doStep : Step → Run → Except Trap (Int × Run)
  | .init argv, run => checked dpdk (.ealInit argv) run
  | .table kind size, run => .ok (0, run.setTable kind ⟨size, .replicate size none, 0⟩)
  | .pool pktPoolConf, run => allocPktPool dpdk pktPoolConf run
  | .ring ringConf, run => allocRing dpdk ringConf run
  | .count size, run =>
    if (devCount dpdk run).1 < size then .ok (-1, (devCount dpdk run).2)
    else .ok (0, (devCount dpdk run).2)
  | .port ethConf, run =>
    checked dpdk (configureCall ethConf) run >>= fun out =>
      if out.1 ≠ 0 then .ok out else .ok (0, out.2.log (promiscuousCall ethConf) .nothing)
  | .rxQueue ethConf q, run =>
    mempoolLookup q.pktPoolName run >>= fun out =>
      match out.1 with
      | none => .ok (-1, out.2)
      | some pool => checked dpdk (rxQueueCall ethConf q pool) out.2
  | .txQueue ethConf q, run => checked dpdk (txQueueCall ethConf q) run
  | .start i, run => checked dpdk (.devStart (.ofInt i)) run

/-- The steps of a port. -/
def portSteps (ethConf : EthConf) : List Step :=
  .port ethConf :: (ethConf.rxQueues.map (.rxQueue ethConf) ++
    ethConf.txQueues.map (.txQueue ethConf))

/-- The steps of the ports. Without ports, they are not counted. -/
def portsSteps (ports : List EthConf) : List Step :=
  if ports = [] then [] else .count ports.length :: ports.flatMap portSteps

/-- **The steps of `ALLOCATOR_create_ressources`.** -/
def createSteps (argv : List (Option String)) (pools : List PktPoolConf) (rings : List RingConf)
    (ports : List EthConf) : List Step :=
  [.init argv] ++ ((.table .pktPools pools.length :: pools.map .pool) ++
    ((.table .rings rings.length :: rings.map .ring) ++ portsSteps ports))

/-- **The steps of `ALLOCATOR_start_ressources`.** -/
def startSteps (nbPorts : Nat) : List Step := .count 0 :: (List.range nbPorts).map .start

/-! ### The functions of the allocator -/

theorem checked_codes (call : Call) {run run' : Run} {ret : Int}
    (ran : checked dpdk call run = .ok (ret, run')) : ret = 0 ∨ ret = -1 := by
  unfold checked at ran
  split_ifs at ran <;> cases ran
  · exact .inr rfl
  · exact .inl rfl

theorem allocObject_codes (kind : Kind) (call : Call) {run run' : Run} {ret : Int}
    (ran : allocObject dpdk kind call run = .ok (ret, run')) : ret = 0 ∨ ret = -1 := by
  unfold allocObject at ran
  obtain ⟨_, _, ran⟩ := bind_eq_ok.mp ran
  obtain ⟨_, _, ran⟩ := bind_eq_ok.mp ran
  split_ifs at ran <;> cases ran
  · exact .inr rfl
  · exact .inl rfl

/-- Every step returns 0 or -1. -/
theorem doStep_codes : Codes (doStep dpdk) := by
  intro step run ret run' ran
  cases step with
  | init argv => exact checked_codes dpdk _ ran
  | table kind size =>
    cases ran
    exact .inl rfl
  | pool pktPoolConf => exact allocObject_codes dpdk _ _ ran
  | ring ringConf => exact allocObject_codes dpdk _ _ ran
  | count size =>
    rw [doStep] at ran
    split_ifs at ran <;> cases ran
    · exact .inr rfl
    · exact .inl rfl
  | port ethConf =>
    obtain ⟨⟨code, middle⟩, first, ran⟩ := bind_eq_ok.mp ran
    split_ifs at ran
    · cases ran
      exact checked_codes dpdk _ first
    · cases ran
      exact .inl rfl
  | rxQueue ethConf q =>
    obtain ⟨⟨pool, middle⟩, _, ran⟩ := bind_eq_ok.mp ran
    cases pool with
    | none =>
      cases ran
      exact .inr rfl
    | some pool => exact checked_codes dpdk _ ran
  | txQueue ethConf q => exact checked_codes dpdk _ ran
  | start i => exact checked_codes dpdk _ ran

/-- One step alone. -/
theorem loop_doStep_single (step : Step) (run : Run) :
    loop (doStep dpdk) [step] run = doStep dpdk step run := by
  rw [loop_cons]
  cases ran : doStep dpdk step run with
  | error trap => rfl
  | ok out =>
    rw [ok_bind]
    by_cases zero : out.1 = 0
    · rw [if_neg (not_not.mpr zero), loop, ← zero]
    · rw [if_pos zero]

/-- `_init_dpdk` is one step. -/
theorem initDpdk_eq {conf : AppConf} {name : String} (named : conf.appName = some name)
    (run : Run) :
    initDpdk dpdk conf run = loop (doStep dpdk) [.init (dpdkArgv (some name) conf)] run := by
  rw [loop_doStep_single]
  unfold initDpdk
  rw [named]
  rfl

theorem queueAt_eq {queues : List EthQ} {i : Nat} {q : EthQ} (found : queues[i]? = some q) :
    queueAt queues i = .ok q := by
  rw [queueAt, found]

/-- The rx queues of a port. -/
theorem initRxQueues_eq (ethConf : EthConf) (run : Run) :
    loop (initRxQueue dpdk ethConf) (List.range ethConf.rxQueues.length) run =
      loop (doStep dpdk) (ethConf.rxQueues.map (.rxQueue ethConf)) run := by
  rw [loop_map]
  apply loop_range
  intro i q found run
  unfold initRxQueue
  rw [queueAt_eq found]
  rfl

/-- The tx queues of a port. -/
theorem initTxQueues_eq (ethConf : EthConf) (run : Run) :
    loop (initTxQueue dpdk ethConf) (List.range ethConf.txQueues.length) run =
      loop (doStep dpdk) (ethConf.txQueues.map (.txQueue ethConf)) run := by
  rw [loop_map]
  apply loop_range
  intro i q found run
  unfold initTxQueue
  rw [queueAt_eq found]
  rfl

/-- The arrays of a port hold the queues that it counts. -/
structure Counted (ethConf : EthConf) : Prop where
  rx : ethConf.nbRxQ = ethConf.rxQueues.length
  tx : ethConf.nbTxQ = ethConf.txQueues.length

/-- The parts of `_init_eth_port`. -/
theorem initEthPort_parts (ethConf : EthConf) (run : Run) :
    initEthPort dpdk ethConf run =
      if dpdk.returned run.trace (configureCall ethConf) < 0 then
        .ok (-1, (invoke dpdk (configureCall ethConf) run).2)
      else
        loop (initRxQueue dpdk ethConf) (List.range ethConf.nbRxQ.toNat)
            ((invoke dpdk (configureCall ethConf) run).2.log (promiscuousCall ethConf) .nothing) >>=
          fun out => if out.1 ≠ 0 then .ok (-1, out.2) else
            loop (initTxQueue dpdk ethConf) (List.range ethConf.nbTxQ.toNat) out.2 >>=
              fun out => if out.1 ≠ 0 then .ok (-1, out.2) else .ok (0, out.2) := rfl

/-- **A port** is the step that configures it, and then its queues. -/
theorem initEthPort_eq {ethConf : EthConf} (counted : Counted ethConf) (run : Run) :
    initEthPort dpdk ethConf run = loop (doStep dpdk) (portSteps ethConf) run := by
  have whole : portSteps ethConf = [.port ethConf] ++ (ethConf.rxQueues.map (.rxQueue ethConf) ++
    (ethConf.txQueues.map (.txQueue ethConf) ++ [])) := by
    rw [List.append_nil]
    rfl
  rw [whole, ← loop_then (doStep_codes dpdk), loop_doStep_single, initEthPort_parts, counted.rx,
    counted.tx, Int.toNat_natCast, Int.toNat_natCast, doStep, checked]
  simp only [← loop_then (doStep_codes dpdk), ← initRxQueues_eq, ← initTxQueues_eq]
  by_cases fails : dpdk.returned run.trace (configureCall ethConf) < 0
  · rw [if_pos fails, if_pos fails]
    rfl
  · rw [if_neg fails, if_neg fails]
    rfl

/-- What a port reads of its arrays are the queues that it counts. -/
theorem initEthPort_read (ethConf : EthConf) (run : Run) :
    initEthPort dpdk ethConf run = initEthPort dpdk ethConf.read run := by
  have rx : loop (initRxQueue dpdk ethConf) (List.range ethConf.nbRxQ.toNat) =
      loop (initRxQueue dpdk ethConf.read) (List.range ethConf.nbRxQ.toNat) := by
    funext run
    apply loop_congr
    intro i member run
    have inside := List.getElem?_take_of_lt (l := ethConf.rxQueues) (List.mem_range.mp member)
    unfold initRxQueue queueAt EthConf.read
    rw [inside]
    rfl
  have tx : loop (initTxQueue dpdk ethConf) (List.range ethConf.nbTxQ.toNat) =
      loop (initTxQueue dpdk ethConf.read) (List.range ethConf.nbTxQ.toNat) := by
    funext run
    apply loop_congr
    intro i member run
    have inside := List.getElem?_take_of_lt (l := ethConf.txQueues) (List.mem_range.mp member)
    unfold initTxQueue queueAt EthConf.read
    rw [inside]
    rfl
  rw [initEthPort_parts, rx, tx]
  rfl

section Objects

variable {conf : AppConf} {contents : ∀ l, List (Conf l)}

/-- **The objects of a table** are the step that allocates it, and then one step for each. -/
theorem allocObjects_eq (lists : Lists confLists conf.store contents) {kind : Kind}
    {list : ConfList} {step : Conf list → Step} {func : Conf list → Run → Except Trap (Int × Run)}
    (same : ∀ p run, func p run = doStep dpdk (step p) run)
    (size : (llCount list conf.store.links).toNat = (contents list).length) (run : Run) :
    allocObjects kind list func conf run =
      loop (doStep dpdk) (.table kind (contents list).length :: (contents list).map step) run := by
  have flat : loop func (contents list) = loop (doStep dpdk) ((contents list).map step) := by
    funext run
    rw [loop_map]
    exact loop_congr (fun p _ run => same p run) run
  unfold allocObjects
  rw [size]
  refine (lists.visit_then (mem_confLists list) func (fun run => .ok (0, run)) _).trans ?_
  rw [flat]
  refine (loop_then (doStep_codes dpdk) _ [] _).trans ?_
  rw [List.append_nil]
  rfl

/-- **The ports** are counted, and come one after the other. -/
theorem allocEthPorts_eq (lists : Lists confLists conf.store contents) {ports : List EthConf}
    (viewed : (contents .ethPortList).map EthConf.read = ports)
    (counted : ∀ ethConf ∈ ports, Counted ethConf)
    (size : llCount .ethPortList conf.store.links = ports.length) (run : Run) :
    allocEthPorts dpdk conf run = loop (doStep dpdk) (portsSteps ports) run := by
  have flat : loop (initEthPort dpdk) (contents .ethPortList) =
      loop (doStep dpdk) (ports.flatMap portSteps) := by
    funext run
    have read : loop (initEthPort dpdk) (contents .ethPortList) run =
        loop (initEthPort dpdk) ports run := by
      rw [← viewed, loop_map]
      exact loop_congr (fun ethConf _ run => initEthPort_read dpdk ethConf run) run
    rw [read, loop_flatMap]
    apply loop_congr
    intro ethConf member run
    exact initEthPort_eq dpdk (counted ethConf member) run
  unfold allocEthPorts portsSteps
  rw [size]
  by_cases none : ports = []
  · rw [if_pos none, none]
    rfl
  · have some : ¬ (ports.length : Int) = 0 := by
      rw [Int.natCast_eq_zero, List.length_eq_zero_iff]
      exact none
    rw [if_neg none, if_neg some, loop_cons, doStep]
    by_cases few : (devCount dpdk run).1 < ports.length
    · rw [if_pos few]
      exact if_pos few
    · rw [if_neg few]
      refine (if_neg few).trans ?_
      refine (lists.visit_then (mem_confLists .ethPortList) (initEthPort dpdk)
        (fun run => .ok (0, run)) _).trans ?_
      rw [flat]
      refine (loop_then (doStep_codes dpdk) _ [] _).trans ?_
      rw [List.append_nil]
      rfl

end Objects

/-- **The ports are started**, all that the machine has. -/
theorem startEthPorts_eq (run : Run) :
    startEthPorts dpdk run = loop (doStep dpdk) (startSteps dpdk.nbPorts.toNat) run := by
  have several : ¬ (devCount dpdk run).1 < 0 := Int.not_lt.mpr (Int.natCast_nonneg _)
  rw [startSteps, loop_cons, doStep, if_neg several, ok_bind, if_neg (not_not.mpr rfl), loop_map]
  by_cases none : (devCount dpdk run).1 ≤ 0
  · have zero : dpdk.nbPorts.toNat = 0 := Nat.le_zero.mp (Int.ofNat_le.mp none)
    rw [zero]
    exact if_pos none
  · exact if_neg none

/-! ### The whole start-up -/

/-- **What a configuration holds**, as the allocator reads it. -/
structure Holds (conf : AppConf) (pools : List PktPoolConf) (rings : List RingConf)
    (ports : List EthConf) : Prop where
  named : conf.appName ≠ none
  lists : ∃ contents : ∀ l, List (Conf l), Lists confLists conf.store contents ∧
    contents .pktPoolList = pools ∧ contents .ringList = rings ∧
    (contents .ethPortList).map EthConf.read = ports
  poolCount : llCount .pktPoolList conf.store.links = pools.length
  ringCount : llCount .ringList conf.store.links = rings.length
  portCount : llCount .ethPortList conf.store.links = ports.length
  counted : ∀ ethConf ∈ ports, Counted ethConf

section Whole

variable {conf : AppConf} {pools : List PktPoolConf} {rings : List RingConf} {ports : List EthConf}
  (holds : Holds conf pools rings ports)
include holds

/-- **`ALLOCATOR_create_ressources`** takes its steps. -/
theorem allocatorCreateRessources_eq (run : Run) :
    allocatorCreateRessources dpdk conf run =
      loop (doStep dpdk) (createSteps (dpdkArgv conf.appName conf) pools rings ports) run := by
  obtain ⟨contents, lists, rfl, rfl, viewed⟩ := holds.lists
  obtain ⟨name, named⟩ := Option.ne_none_iff_exists'.mp holds.named
  have initEq : initDpdk dpdk conf = loop (doStep dpdk) [.init (dpdkArgv conf.appName conf)] := by
    funext run
    rw [named]
    exact initDpdk_eq dpdk named run
  have poolsEq : allocPktPools dpdk conf = loop (doStep dpdk)
      (.table .pktPools (contents .pktPoolList).length :: (contents .pktPoolList).map .pool) :=
    funext (allocObjects_eq dpdk lists (fun _ _ => rfl) (by rw [holds.poolCount]; rfl))
  have ringsEq : allocRings dpdk conf = loop (doStep dpdk)
      (.table .rings (contents .ringList).length :: (contents .ringList).map .ring) :=
    funext (allocObjects_eq dpdk lists (fun _ _ => rfl) (by rw [holds.ringCount]; rfl))
  have portsEq : allocEthPorts dpdk conf = loop (doStep dpdk) (portsSteps ports) :=
    funext (allocEthPorts_eq dpdk lists viewed holds.counted holds.portCount)
  have last := List.append_nil (portsSteps ports)
  unfold createSteps
  rw [← last]
  simp only [← loop_then (doStep_codes dpdk)]
  unfold allocatorCreateRessources
  rw [initEq, poolsEq, ringsEq, portsEq]
  rfl

/-- **The whole start-up** takes its steps: once all is created, every port of the machine is
started. -/
theorem startup_eq (run : Run) :
    startup dpdk conf run = loop (doStep dpdk)
      (createSteps (dpdkArgv conf.appName conf) pools rings ports ++
        startSteps dpdk.nbPorts.toNat) run := by
  have startEq : allocatorStartRessources dpdk conf =
      loop (doStep dpdk) (startSteps dpdk.nbPorts.toNat) := by
    funext run
    have last := List.append_nil (startSteps dpdk.nbPorts.toNat)
    rw [← last, ← loop_then (doStep_codes dpdk), ← startEthPorts_eq]
    rfl
  have createEq : allocatorCreateRessources dpdk conf = _ :=
    funext (allocatorCreateRessources_eq dpdk holds)
  have last := List.append_nil (startSteps dpdk.nbPorts.toNat)
  rw [← last]
  simp only [← loop_then (doStep_codes dpdk)]
  unfold startup
  rw [createEq, startEq]
  rfl

end Whole

end Steps

end CyberPlatform.AppManager
