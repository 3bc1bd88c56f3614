/-
**The order of the calls: which ports are started, and from which pools they are fed.**

* `PortState` — what the calls make of a port: `rte_eth_dev_configure` sets the numbers of its
  queues, and the queues are set up one by one.
* `portAfter_steps` — behind the steps of a configuration, a port has what its last entry says.
* `inOrder_iff` — when only ports that are ready are started.
-/

import CyberPlatform.AppManager.Outcomes
import CyberPlatform.AppManager.Startup

namespace CyberPlatform.AppManager

open Foundation Json LList

/-! ### The state of a port -/

/-- What the calls have made of a port: the numbers of queues that it was last configured for, and
the queues that have been set up since. -/
structure PortState where
  nbRxQ : UInt16
  nbTxQ : UInt16
  rxQueues : List UInt16
  txQueues : List UInt16
  deriving DecidableEq, Repr

/-- What a call that succeeds makes of a port. -/
def PortState.next (p : UInt8) (state : Option PortState) : Event → Option PortState
  | ⟨.devConfigure portId nbRxQ nbTxQ, .code ret⟩ =>
    if portId = p ∧ 0 ≤ ret then some ⟨nbRxQ, nbTxQ, [], []⟩ else state
  | ⟨.rxQueueSetup portId i _ _ _, .code ret⟩ =>
    if portId = p ∧ 0 ≤ ret then
      state.map fun s => { s with rxQueues := s.rxQueues ++ [i] }
    else state
  | ⟨.txQueueSetup portId i _ _, .code ret⟩ =>
    if portId = p ∧ 0 ≤ ret then
      state.map fun s => { s with txQueues := s.txQueues ++ [i] }
    else state
  | _ => state

/-- The state of a port behind some calls. -/
def portAfter (trace : List Event) (p : UInt8) : Option PortState :=
  trace.foldl (PortState.next p) none

/-- Every queue that the port is configured for has been set up. -/
structure PortState.Complete (s : PortState) : Prop where
  rx : ∀ i < s.nbRxQ, i ∈ s.rxQueues
  tx : ∀ i < s.nbTxQ, i ∈ s.txQueues

/-- A port that may be started. -/
def Ready (before : List Event) (p : UInt8) : Prop :=
  ∃ s, portAfter before p = some s ∧ s.Complete

/-- **The start-up protocol**: only ports that are ready are started, and the pools of the rx queues
have been created before. -/
structure InOrder (trace : List Event) : Prop where
  started : ∀ before p reply after, trace = before ++ ⟨.devStart p, reply⟩ :: after →
    Ready before p
  pools : ∀ before p i desc socket mp reply after,
    trace = before ++ ⟨.rxQueueSetup p i desc socket mp, reply⟩ :: after → Created before mp

/-! ### The state of a port behind some steps -/

section Steps

variable (p : UInt8)

/-- What a step that succeeds makes of a port. -/
def Step.next (state : Option PortState) : Step → Option PortState
  | .port ethConf =>
    if .ofInt ethConf.portId = p then
      some ⟨(UInt8.ofInt ethConf.nbRxQ).toUInt16, (UInt8.ofInt ethConf.nbTxQ).toUInt16, [], []⟩
    else state
  | .rxQueue ethConf q =>
    if .ofInt ethConf.portId = p then
      state.map fun s => { s with rxQueues := s.rxQueues ++ [.ofInt q.qId] }
    else state
  | .txQueue ethConf q =>
    if .ofInt ethConf.portId = p then
      state.map fun s => { s with txQueues := s.txQueues ++ [.ofInt q.qId] }
    else state
  | _ => state

/-- **A step does what its calls do.** -/
theorem writes_next {dpdk : Dpdk} (step : Step) (seg : List Event) (wrote : Writes dpdk step seg)
    (state : Option PortState) : seg.foldl (PortState.next p) state = step.next p state := by
  cases step with
  | init argv =>
    obtain ⟨ret, _, rfl⟩ := wrote
    rfl
  | table kind size =>
    cases wrote
    rfl
  | pool pktPoolConf =>
    obtain ⟨mp, rfl⟩ := wrote
    rfl
  | ring ringConf =>
    obtain ⟨r, rfl⟩ := wrote
    rfl
  | count size =>
    obtain ⟨_, rfl⟩ := wrote
    rfl
  | port ethConf =>
    obtain ⟨ret, fine, rfl⟩ := wrote
    have quiet : ∀ state, PortState.next p state ⟨promiscuousCall ethConf, .nothing⟩ = state := by
      intro state
      unfold promiscuousCall
      split_ifs
      · rfl
      · rfl
    rw [List.foldl_cons, List.foldl_cons, List.foldl_nil, quiet]
    simp only [PortState.next, configureCall, Step.next, fine, and_true]
  | rxQueue ethConf q =>
    obtain ⟨mp, ret, fine, rfl⟩ := wrote
    rw [List.foldl_cons, List.foldl_cons, List.foldl_nil]
    simp only [PortState.next, rxQueueCall, Step.next, fine, and_true]
  | txQueue ethConf q =>
    obtain ⟨ret, fine, rfl⟩ := wrote
    rw [List.foldl_cons, List.foldl_nil]
    simp only [PortState.next, txQueueCall, Step.next, fine, and_true]
  | start i =>
    obtain ⟨ret, _, rfl⟩ := wrote
    rfl

/-- Steps that leave a port as it is. -/
theorem foldl_next_same {steps : List Step} {state : Option PortState}
    (same : ∀ step ∈ steps, step.next p state = state) :
    steps.foldl (Step.next p) state = state := by
  induction steps with
  | nil => rfl
  | cons step steps ih =>
    obtain ⟨first, rest⟩ := List.forall_mem_cons.mp same
    rw [List.foldl_cons, first, ih rest]

/-- A step that no port is part of. -/
def Step.Idle : Step → Prop
  | .port _ | .rxQueue _ _ | .txQueue _ _ => False
  | _ => True

/-- Such a step leaves every port as it is. -/
theorem idle_next {step : Step} (idle : step.Idle) (state : Option PortState) :
    step.next p state = state := by
  cases step with
  | port ethConf => exact idle.elim
  | rxQueue ethConf q => exact idle.elim
  | txQueue ethConf q => exact idle.elim
  | _ => rfl

/-- The rx queues of the port. -/
theorem rxQueues_next {ethConf : EthConf} (same : .ofInt ethConf.portId = p) (queues : List EthQ)
    (s : PortState) :
    (queues.map (.rxQueue ethConf)).foldl (Step.next p) (some s) =
      some { s with rxQueues := s.rxQueues ++ queues.map fun q => .ofInt q.qId } := by
  induction queues generalizing s with
  | nil => simp
  | cons q queues ih => simp [Step.next, same, ih]

/-- The tx queues of the port. -/
theorem txQueues_next {ethConf : EthConf} (same : .ofInt ethConf.portId = p) (queues : List EthQ)
    (s : PortState) :
    (queues.map (.txQueue ethConf)).foldl (Step.next p) (some s) =
      some { s with txQueues := s.txQueues ++ queues.map fun q => .ofInt q.qId } := by
  induction queues generalizing s with
  | nil => simp
  | cons q queues ih => simp [Step.next, same, ih]

/-- The state that the entry of a port leaves behind. -/
def EthConf.portState (ethConf : EthConf) : PortState where
  nbRxQ := (UInt8.ofInt ethConf.nbRxQ).toUInt16
  nbTxQ := (UInt8.ofInt ethConf.nbTxQ).toUInt16
  rxQueues := ethConf.rxQueues.map fun q => .ofInt q.qId
  txQueues := ethConf.txQueues.map fun q => .ofInt q.qId

/-- **The steps of an entry.** -/
theorem portSteps_next (ethConf : EthConf) (state : Option PortState) :
    (portSteps ethConf).foldl (Step.next p) state =
      if .ofInt ethConf.portId = p then some ethConf.portState else state := by
  by_cases same : .ofInt ethConf.portId = p
  · rw [if_pos same, portSteps, List.foldl_cons, List.foldl_append, Step.next, if_pos same,
      rxQueues_next p same, txQueues_next p same]
    rfl
  · rw [if_neg same]
    apply foldl_next_same
    intro step member
    rcases mem_portSteps member with rfl | ⟨q, _, rfl⟩ | ⟨q, _, rfl⟩
    · exact if_neg same
    · exact if_neg same
    · exact if_neg same

/-- The last entry of a port. -/
def lastEntry (ports : List EthConf) (p : UInt8) : Option EthConf :=
  (ports.filter fun ethConf => .ofInt ethConf.portId = p).getLast?

/-- **The steps of all entries**: the last one of the port counts. -/
theorem ports_next (ports : List EthConf) :
    (ports.flatMap portSteps).foldl (Step.next p) none =
      (lastEntry ports p).map EthConf.portState := by
  induction ports using List.reverseRecOn with
  | nil => rfl
  | append_singleton ports ethConf ih =>
    rw [List.flatMap_append, List.foldl_append, ih, List.flatMap_singleton, portSteps_next,
      lastEntry, lastEntry, List.filter_append]
    by_cases same : .ofInt ethConf.portId = p
    · rw [if_pos same, List.filter_cons_of_pos (by simpa using same), List.filter_nil,
        List.getLast?_concat]
      rfl
    · rw [if_neg same, List.filter_cons_of_neg (by simpa using same), List.filter_nil,
        List.append_nil]

variable {dpdk : Dpdk} {argv : List (Option String)} {pools : List PktPoolConf}
  {rings : List RingConf} {ports : List EthConf} {rest : List Step} {es : List Event}

/-- The steps before the ports. -/
theorem objectSteps_idle : ∀ step ∈ objectSteps argv pools rings, step.Idle := by
  intro step member
  simp only [objectSteps, List.mem_cons, List.mem_append, List.mem_map] at member
  rcases member with rfl | rfl | ⟨c, _, rfl⟩ | rfl | ⟨r, _, rfl⟩ <;> trivial

/-- **A port behind the steps of a configuration.** -/
theorem portAfter_steps (idle : ∀ step ∈ rest, step.Idle)
    (made : Made (Writes dpdk) (createSteps argv pools rings ports ++ rest) es) :
    portAfter es p = (lastEntry ports p).map EthConf.portState := by
  have front : (objectSteps argv pools rings).foldl (Step.next p) none = none :=
    foldl_next_same p fun step member => idle_next p (objectSteps_idle step member) _
  have middle : (portsSteps ports).foldl (Step.next p) none =
      (ports.flatMap portSteps).foldl (Step.next p) none := by
    unfold portsSteps
    split_ifs with empty
    · rw [empty]
      rfl
    · rfl
  unfold portAfter
  rw [made.foldl (writes_next p), createSteps_eq, List.foldl_append, List.foldl_append, front,
    middle, ports_next]
  exact foldl_next_same p fun step member => idle_next p (idle step member) _

/-! ### The steps that are gone through -/

/-- All that the machine has to bring along for a configuration to be set up. -/
structure Startable (nbPorts : UInt8) (pools : List PktPoolConf) (ports : List EthConf) : Prop where
  enough : ports.length ≤ nbPorts.toNat
  found : ∀ ethConf ∈ ports, ∀ q ∈ ethConf.rxQueues, PoolFound pools q.pktPoolName

/-- **What has been gone through could be set up.** -/
theorem startable_of_made (none : ∀ step ∈ rest, ¬ step.Creates)
    (made : Made (Writes dpdk) (createSteps argv pools rings ports ++ rest) es)
    (sound : Sound es) : Startable dpdk.nbPorts pools ports := by
  have goes := goes_of_made (fun _ => pool_mem_createSteps argv pools rings ports none) made sound
  refine ⟨?_, fun ethConf port q queue => ?_⟩
  · by_cases empty : ports = []
    · rw [empty]
      exact Nat.zero_le _
    · have counted : .count ports.length ∈ createSteps argv pools rings ports ++ rest := by
        simp [createSteps, portsSteps, empty]
      exact Int.ofNat_le.mp (goes _ counted)
  · have several : ports ≠ [] := List.ne_nil_of_mem port
    have step : .rxQueue ethConf q ∈ createSteps argv pools rings ports ++ rest := by
      simp only [createSteps, portsSteps, if_neg several, List.mem_append, List.mem_cons,
        List.mem_flatMap]
      refine .inl (.inr (.inr (.inr (.inr ⟨ethConf, port, ?_⟩))))
      simp [portSteps, queue]
    exact goes _ step

/-- What can be set up lets every step go on. -/
theorem goes_of_startable {nbPorts : UInt8} (startable : Startable nbPorts pools ports)
    (further : ∀ step ∈ rest, step.Goes nbPorts pools) :
    ∀ step ∈ createSteps argv pools rings ports ++ rest, step.Goes nbPorts pools := by
  rw [createSteps_eq, List.append_assoc, List.forall_mem_append, List.forall_mem_append]
  refine ⟨fun step member => ?_, fun step member => ?_, further⟩
  · simp only [objectSteps, List.mem_cons, List.mem_append, List.mem_map] at member
    rcases member with rfl | rfl | ⟨c, _, rfl⟩ | rfl | ⟨r, _, rfl⟩ <;> trivial
  · rcases mem_portsSteps ports member with rfl | ⟨ethConf, port, inside⟩
    · exact Int.ofNat_le.mpr startable.enough
    · rcases mem_portSteps inside with rfl | ⟨q, queue, rfl⟩ | ⟨q, _, rfl⟩
      · trivial
      · exact startable.found ethConf port q queue
      · trivial

/-! ### The starts -/

/-- A port that is started. -/
theorem mem_startSteps {n : Nat} {step : Step} (member : step ∈ startSteps n) :
    step = .count 0 ∨ ∃ i < n, step = .start i := by
  rcases List.mem_cons.mp member with same | inside
  · exact .inl same
  · obtain ⟨i, range, rfl⟩ := List.mem_map.mp inside
    exact .inr ⟨i, List.mem_range.mp range, rfl⟩

theorem startSteps_idle {n : Nat} : ∀ step ∈ startSteps n, step.Idle := by
  intro step member
  rcases mem_startSteps member with rfl | ⟨i, _, rfl⟩
  · trivial
  · trivial

/-- The configuration of a port, that makes it ready. -/
def Configured (ports : List EthConf) (p : UInt8) : Prop :=
  ∃ ethConf, lastEntry ports p = some ethConf ∧ ethConf.portState.Complete

/-- **Behind the steps of a configuration, a port is ready if it is configured.** -/
theorem ready_iff (idle : ∀ step ∈ rest, step.Idle)
    (made : Made (Writes dpdk) (createSteps argv pools rings ports ++ rest) es) :
    Ready es p ↔ Configured ports p := by
  unfold Ready Configured
  rw [portAfter_steps p idle made]
  constructor
  · rintro ⟨s, found, complete⟩
    obtain ⟨ethConf, last, rfl⟩ := Option.map_eq_some_iff.mp found
    exact ⟨ethConf, last, complete⟩
  · rintro ⟨ethConf, last, complete⟩
    exact ⟨_, Option.map_eq_some_iff.mpr ⟨ethConf, last, rfl⟩, complete⟩

/-- The steps in front of a start. -/
theorem before_start {n i : Nat} {front behind : List Step}
    (split : createSteps argv pools rings ports ++ startSteps n = front ++ .start i :: behind) :
    i < n ∧ ∃ tail, front = createSteps argv pools rings ports ++ tail ∧
      ∀ step ∈ tail, step ∈ startSteps n := by
  have notIn : .start i ∉ createSteps argv pools rings ports := by
    rw [createSteps_eq, List.mem_append]
    rintro (object | port)
    · simp [objectSteps] at object
    · rcases mem_portsSteps ports port with same | ⟨ethConf, _, inside⟩
      · cases same
      · rcases mem_portSteps inside with same | ⟨q, _, same⟩ | ⟨q, _, same⟩ <;> cases same
  obtain ⟨tail, rfl, inside⟩ := front_of_not_mem notIn split
  have member : .start i ∈ startSteps n := by
    rw [inside]
    exact List.mem_append_right _ List.mem_cons_self
  refine ⟨?_, tail, rfl, fun step here => inside ▸ List.mem_append_left _ here⟩
  rcases mem_startSteps member with same | ⟨j, below, same⟩
  · cases same
  · cases same
    exact below

end Steps

/-! ### The start-up -/

section Startup

variable {conf : AppConf} {pools : List PktPoolConf} {rings : List RingConf} {ports : List EthConf}
  {dpdk : Dpdk}

/-- **The pools of the rx queues have been created**, in every run. -/
theorem startup_sound (holds : Holds conf pools rings ports) {ret : Int} {run : Run}
    (ran : startup dpdk conf .start = .ok (ret, run)) : Sound run.trace := by
  rw [startup_eq dpdk holds] at ran
  exact doSteps_sound dpdk ran

/-- The byte of a port. -/
theorem ofInt_lt {n : UInt8} {i : Nat} (below : i < n.toNat) : UInt8.ofInt i < n := by
  have small := n.toNat_lt
  have value := toNat_ofInt8 i
  rw [UInt8.lt_iff_toNat_lt]
  omega

/-- **A port that is started** has been gone through, like all that comes before. -/
theorem startup_started (holds : Holds conf pools rings ports) {ret : Int} {run : Run}
    (ran : startup dpdk conf .start = .ok (ret, run)) {before after : List Event} {p : UInt8}
    {reply : Reply} (split : run.trace = before ++ ⟨.devStart p, reply⟩ :: after) :
    p < dpdk.nbPorts ∧ Startable dpdk.nbPorts pools ports ∧
      (Ready before p ↔ Configured ports p) := by
  have sound := startup_sound holds ran
  rw [startup_eq dpdk holds] at ran
  obtain ⟨front, step, behind, es, seg, seg', same, made, wrote, rfl⟩ :=
    loop_entry (doStep_writes dpdk) ran rfl split
  obtain ⟨i, rfl, port⟩ := madeBy_of_mayCall
    (mayCall_of_mem dpdk wrote (List.mem_append_right _ List.mem_cons_self))
  obtain ⟨below, tail, rfl, starts⟩ := before_start same
  have single : seg = [] := by
    rcases wrote with ⟨code, _, one⟩ | ⟨code, _, one⟩
    · exact (List.append_eq_singleton_iff.mp one).elim And.left fun both => by cases both.2
    · exact (List.append_eq_singleton_iff.mp one).elim And.left fun both => by cases both.2
  rw [single, List.append_nil] at split
  rw [single, List.append_nil]
  refine ⟨port ▸ ofInt_lt below, ?_, ?_⟩
  · rw [split] at sound
    have none := fun step here => startSteps_create_none _ step (starts step here)
    exact startable_of_made none made sound.front
  · exact ready_iff p (fun step here => startSteps_idle step (starts step here)) made

/-- **A start-up that dpdk never stops** starts all the ports. -/
theorem startup_all (holds : Holds conf pools rings ports) {nbPorts : UInt8}
    (startable : Startable nbPorts pools ports) :
    ∃ dpdk : Dpdk, dpdk.nbPorts = nbPorts ∧ ∃ run, startup dpdk conf .start = .ok (0, run) ∧
      ∀ p < nbPorts, ∃ before reply after, run.trace = before ++ ⟨.devStart p, reply⟩ :: after := by
  have noStart : ∀ step ∈ startSteps nbPorts.toNat, step.Goes nbPorts pools := by
    intro step member
    rcases mem_startSteps member with rfl | ⟨i, _, rfl⟩
    · exact Int.natCast_nonneg _
    · trivial
  obtain ⟨through, _⟩ := doSteps_reach nbPorts (fun _ _ => True)
    (createSteps_room (dpdkArgv conf.appName conf) pools rings ports
      (startSteps_create_none nbPorts.toNat) Run.start.free)
    (createSteps_ordered _ pools rings ports _)
  obtain ⟨run, ran⟩ := through (guarded_of_forall (fun _ _ _ _ _ _ _ => trivial) _ [] rfl)
    (goes_of_startable startable noStart)
  refine ⟨.strict nbPorts fun _ _ => True, rfl, run, ?_, fun p below => ?_⟩
  · rw [startup_eq _ holds]
    exact ran
  · have step : .start p.toNat ∈ createSteps (dpdkArgv conf.appName conf) pools rings ports ++
        startSteps nbPorts.toNat := by
      refine List.mem_append_right _ (List.mem_cons_of_mem _ (List.mem_map.mpr ⟨p.toNat, ?_, rfl⟩))
      exact List.mem_range.mpr (UInt8.lt_iff_toNat_lt.mp below)
    rcases loop_writes (doStep_writes _) _ ran with ⟨_, es, made, wrote⟩ | ⟨leaves, _⟩
    · obtain ⟨_, ⟨code, _, rfl⟩, inside⟩ := made.covers step
      obtain ⟨before, after, split⟩ := List.append_of_mem (inside (List.mem_singleton_self _))
      refine ⟨before, .code code, after, ?_⟩
      have same : UInt8.ofInt p.toNat = p := by
        apply UInt8.toNat_inj.mp
        have value := toNat_ofInt8 p.toNat
        have small := p.toNat_lt
        omega
      rw [wrote, split, same]
      rfl
    · exact absurd rfl leaves

variable (c : JsonC)

/-- **Only ports that are ready are started exactly when**, if the configuration can be set up at
all, it makes every port of the machine ready. -/
theorem inOrder_iff {document : Document} {conf₀ conf : AppConf}
    (parsed : appConfParseFile c document conf₀ = .ok (0, conf)) (nbPorts : UInt8) :
    ∃ jsonApp jsonRessources, document.root.getEx "app" = some jsonApp ∧
      jsonApp.getEx "ressources" = some jsonRessources ∧
      let pools := (entriesAt jsonRessources "pktpools").map (decodePktpool c)
      let ports := (entriesAt jsonRessources "ethports").map (decodeEthport c)
      ((∀ dpdk : Dpdk, dpdk.nbPorts = nbPorts → ∀ ret run,
          startup dpdk conf .start = .ok (ret, run) → InOrder run.trace) ↔
        (Startable nbPorts pools ports → ∀ p < nbPorts, Configured ports p)) := by
  obtain ⟨jsonApp, jsonRessources, app, _, found, _, loaded⟩ := parsed_loads c parsed
  have holds := loaded.holds
  refine ⟨jsonApp, jsonRessources, app, found, fun inOrder startable p below => ?_,
    fun configured dpdk same ret run ran => ⟨?_, ?_⟩⟩
  · obtain ⟨dpdk, same, run, ran, starts⟩ := startup_all holds startable
    obtain ⟨before, reply, after, split⟩ := starts p below
    obtain ⟨_, _, ready⟩ := startup_started holds ran split
    exact ready.mp ((inOrder dpdk same 0 run ran).started before p reply after split)
  · intro before p reply after split
    obtain ⟨below, startable, ready⟩ := startup_started holds ran split
    rw [same] at below startable
    exact ready.mpr (configured startable p below)
  · intro before p i desc socket mp reply after split
    exact startup_sound holds ran before _ after split

theorem inOrder_one :
    ∃ conf jsonApp jsonRessources, appConfParseFile namesC onePort usedConf = .ok (0, conf) ∧
      onePort.root.getEx "app" = some jsonApp ∧ jsonApp.getEx "ressources" = some jsonRessources ∧
      let pools := (entriesAt jsonRessources "pktpools").map (decodePktpool namesC)
      let ports := (entriesAt jsonRessources "ethports").map (decodeEthport namesC)
      ((∀ dpdk : Dpdk, dpdk.nbPorts = 4 → ∀ ret run,
          startup dpdk conf .start = .ok (ret, run) → InOrder run.trace) ↔
        (Startable 4 pools ports → ∀ p < 4, Configured ports p)) := by
  obtain ⟨conf, parsed⟩ := onePort_parses
  obtain ⟨jsonApp, jsonRessources, app, found, same⟩ := inOrder_iff namesC parsed 4
  exact ⟨conf, jsonApp, jsonRessources, parsed, app, found, same⟩

/-- A configuration without ports, like `config/ressources_no_eth.json`. -/
def noPorts : Document where
  root := .object [("app", .object [("name", .string "app_manager"), ("core-mask", .int 7),
    ("memory-socket", .int 1), ("ressources", .object [
      ("pktpools", .array [.object [("name", .string "mbufpool_port0"), ("private_size", .int 0),
        ("data_room_size", .int 2048), ("cache_size", .int 0), ("socket_id", .int 0),
        ("size", .int 8191)]])])])]
  fits := by simp

/-- On a machine with one port, that port is started, and has never been configured. -/
theorem inOrder_fails_unconfigured :
    ∃ conf dpdk run, appConfParseFile namesC noPorts usedConf = .ok (0, conf) ∧
      startup dpdk conf .start = .ok (0, run) ∧ ¬ InOrder run.trace := by
  let dpdk : Dpdk := ⟨1, fun _ _ => some 0, fun _ _ => 0⟩
  refine ⟨_, dpdk, _, rfl, rfl, fun inOrder => ?_⟩
  -- behind `rte_eal_init`, the pool and the count of the ports
  obtain ⟨s, configured, _⟩ := inOrder.started [_, _, _] 0 (.code 0) [] rfl
  cases configured

end Startup

end CyberPlatform.AppManager
