/-
**The numbers of a document, on their way to dpdk.**

* `Source` — an item of the document whose numbers reach one call.
* `exact_iff` — a call has the numbers of its source exactly when these fit into its parameters.
* `documentSteps_sources` — the steps that make such calls are those of the sources, in their order.
* `numbersFaithful_iff` — when all calls have the numbers of their sources.
-/

import CyberPlatform.AppManager.Protocol

namespace CyberPlatform.AppManager

open Foundation Json LList

/-! ### One number -/

section Values

variable (item : Json) (key : String)

/-- The integer under a key, if there is one, is the value. -/
def Written (x : Int) : Prop := ∀ i, item.getEx key = some (.int i) → x = i

/-- The integer under a key, if there is one, is in a range. -/
def Within (low high : Int) : Prop := ∀ i, item.getEx key = some (.int i) → low ≤ i ∧ i ≤ high

/-- The array under a key, if there is one, has the length. -/
def HasLength (n : Nat) : Prop := ∀ items, item.getEx key = some (.array items) → n = items.length

/-- The array under a key, if there is one, is no longer. -/
def NoLonger (n : Nat) : Prop := ∀ items, item.getEx key = some (.array items) → items.length ≤ n

variable (c : JsonC)

/-- An integer is what it is, as far as the parameter holds the `int` it has become. -/
theorem written_iff {x low high : Int}
    (value : ∀ i, intAt c item key = saturate i → (x = i ↔ low ≤ i ∧ i ≤ high)) :
    Written item key x ↔ Within item key low high := by
  apply forall_congr'
  intro i
  apply imp_congr_right
  intro found
  exact value i (by rw [intAt, found]; rfl)

theorem written_int :
    Written item key (intAt c item key) ↔ Within item key (-2 ^ 31) (2 ^ 31 - 1) := by
  apply written_iff item key c
  intro i same
  rw [same, saturate]
  omega

theorem written_uint32 :
    Written item key (UInt32.ofInt (intAt c item key)).toNat ↔ Within item key 0 (2 ^ 31 - 1) := by
  apply written_iff item key c
  intro i same
  rw [toNat_ofInt32, same, saturate]
  omega

theorem written_uint16 :
    Written item key (UInt16.ofInt (intAt c item key)).toNat ↔ Within item key 0 (2 ^ 16 - 1) := by
  apply written_iff item key c
  intro i same
  rw [toNat_ofInt16, same, saturate]
  omega

theorem written_uint8 :
    Written item key (UInt8.ofInt (intAt c item key)).toNat ↔ Within item key 0 (2 ^ 8 - 1) := by
  apply written_iff item key c
  intro i same
  rw [toNat_ofInt8, same, saturate]
  omega

/-- The number of queues that is configured. -/
theorem hasLength_uint8 :
    HasLength item key (UInt8.ofInt (queuesAt c item key).length).toUInt16.toNat ↔
      NoLonger item key 255 := by
  apply forall_congr'
  intro items
  apply imp_congr_right
  intro found
  have value := toNat_ofInt8 (queuesAt c item key).length
  rw [queuesAt_eq c found, List.length_map] at value ⊢
  rw [UInt8.toNat_toUInt16]
  omega

end Values

/-! ### One call -/

/-- **An item of the document** whose numbers reach one call. -/
inductive Source where
  | pool (jsonPktpool : Json)
  | ring (jsonRing : Json)
  | port (jsonEthport : Json)
  | rxQueue (jsonEthport jsonQObj : Json)
  | txQueue (jsonEthport jsonQObj : Json)

/-- **A call has exactly the numbers that are written** in its source. -/
def Source.Exact : Source → Call → Prop
  | .pool item, .pktmbufPoolCreate _ n cacheSize privSize dataRoomSize socketId =>
    Written item "size" n.toNat ∧ Written item "cache_size" cacheSize.toNat ∧
      Written item "private_size" privSize.toNat ∧
      Written item "data_room_size" dataRoomSize.toNat ∧ Written item "socket_id" socketId
  | .ring item, .ringCreate _ count socketId _ =>
    Written item "size" count.toNat ∧ Written item "socket_id" socketId
  | .port item, .devConfigure portId nbRxQ nbTxQ =>
    Written item "port-id" portId.toNat ∧ HasLength item "rx-queues" nbRxQ.toNat ∧
      HasLength item "tx-queues" nbTxQ.toNat
  | .rxQueue item q, .rxQueueSetup portId rxQueueId nbRxDesc socketId _ =>
    Written item "port-id" portId.toNat ∧ Written q "q-id" rxQueueId.toNat ∧
      Written q "nb-desc" nbRxDesc.toNat ∧ Written q "socket-id" socketId.toNat
  | .txQueue item q, .txQueueSetup portId txQueueId nbTxDesc socketId =>
    Written item "port-id" portId.toNat ∧ Written q "q-id" txQueueId.toNat ∧
      Written q "nb-desc" nbTxDesc.toNat ∧ Written q "socket-id" socketId.toNat
  | _, _ => False

/-- The numbers of a queue are in the ranges of the parameters that they reach. -/
def QueueInRange (item q : Json) : Prop :=
  Within item "port-id" 0 (2 ^ 8 - 1) ∧ Within q "q-id" 0 (2 ^ 16 - 1) ∧
    Within q "nb-desc" 0 (2 ^ 16 - 1) ∧ Within q "socket-id" 0 (2 ^ 31 - 1)

/-- **The numbers of a source** are in the ranges of the parameters that they reach. -/
def Source.InRange : Source → Prop
  | .pool item => Within item "size" 0 (2 ^ 31 - 1) ∧ Within item "cache_size" 0 (2 ^ 31 - 1) ∧
      Within item "private_size" 0 (2 ^ 16 - 1) ∧ Within item "data_room_size" 0 (2 ^ 16 - 1) ∧
      Within item "socket_id" (-2 ^ 31) (2 ^ 31 - 1)
  | .ring item => Within item "size" 0 (2 ^ 31 - 1) ∧
      Within item "socket_id" (-2 ^ 31) (2 ^ 31 - 1)
  | .port item => Within item "port-id" 0 (2 ^ 8 - 1) ∧ NoLonger item "rx-queues" 255 ∧
      NoLonger item "tx-queues" 255
  | .rxQueue item q => QueueInRange item q
  | .txQueue item q => QueueInRange item q

/-- A call of a step that takes numbers. -/
def Step.Takes : Step → Call → Prop
  | .pool pktPoolConf, call => call = pktPoolCall pktPoolConf
  | .ring ringConf, call => call = ringCall ringConf
  | .port ethConf, call => call = configureCall ethConf
  | .rxQueue ethConf q, call => ∃ mp, call = rxQueueCall ethConf q mp
  | .txQueue ethConf q, call => call = txQueueCall ethConf q
  | _, _ => False

section Calls

variable (c : JsonC)

/-- The step of a source. -/
def Source.step : Source → Step
  | .pool item => .pool (decodePktpool c item)
  | .ring item => .ring (decodeRing c item)
  | .port item => .port (decodeEthport c item)
  | .rxQueue item q => .rxQueue (decodeEthport c item) (decodeQueue c q)
  | .txQueue item q => .txQueue (decodeEthport c item) (decodeQueue c q)

/-- **A call has the numbers of its source exactly when** they fit. -/
theorem exact_iff {source : Source} {call : Call} (takes : (source.step c).Takes call) :
    source.Exact call ↔ source.InRange := by
  cases source with
  | pool item =>
    cases takes
    exact and_congr (written_uint32 item _ c) (and_congr (written_uint32 item _ c)
      (and_congr (written_uint16 item _ c) (and_congr (written_uint16 item _ c)
        (written_int item _ c))))
  | ring item =>
    cases takes
    exact and_congr (written_uint32 item _ c) (written_int item _ c)
  | port item =>
    cases takes
    exact and_congr (written_uint8 item _ c) (and_congr (hasLength_uint8 item _ c)
      (hasLength_uint8 item _ c))
  | rxQueue item q =>
    obtain ⟨mp, rfl⟩ := takes
    exact and_congr (written_uint8 item _ c) (and_congr (written_uint16 q _ c)
      (and_congr (written_uint16 q _ c) (written_uint32 q _ c)))
  | txQueue item q =>
    cases takes
    exact and_congr (written_uint8 item _ c) (and_congr (written_uint16 q _ c)
      (and_congr (written_uint16 q _ c) (written_uint32 q _ c)))

/-! ### All calls -/

/-- The sources of a port. -/
def portSources (item : Json) : List Source :=
  .port item :: (((item.arrayAt "rx-queues").getD []).map (.rxQueue item) ++
    ((item.arrayAt "tx-queues").getD []).map (.txQueue item))

/-- **The sources of a document**, in the order of their calls. -/
def sources (jsonRessources : Json) : List Source :=
  (entriesAt jsonRessources "pktpools").map .pool ++
    ((entriesAt jsonRessources "rings").map .ring ++
      (entriesAt jsonRessources "ethports").flatMap portSources)

/-- The steps that a document comes to. -/
def documentSteps (argv : List (Option String)) (jsonRessources : Json) : List Step :=
  createSteps argv ((entriesAt jsonRessources "pktpools").map (decodePktpool c))
    ((entriesAt jsonRessources "rings").map (decodeRing c))
    ((entriesAt jsonRessources "ethports").map (decodeEthport c))

/-- A step that makes a call that takes numbers. -/
def Step.numbered (step : Step) : Bool := step.call.isSome

/-- The steps of a port are those of its sources. -/
theorem portSteps_sources (item : Json) :
    portSteps (decodeEthport c item) = (portSources item).map (Source.step c) := by
  unfold portSteps portSources
  rw [List.map_cons, List.map_append, List.map_map, List.map_map]
  show _ :: ((queuesAt c item "rx-queues").map _ ++ (queuesAt c item "tx-queues").map _) = _
  rw [queuesAt, queuesAt, List.map_map, List.map_map]
  rfl

/-- **The steps that take numbers** are those of the sources. -/
theorem documentSteps_sources (argv : List (Option String)) (jsonRessources : Json) :
    (documentSteps c argv jsonRessources).filter Step.numbered =
      (sources jsonRessources).map (Source.step c) := by
  have pools : ∀ pools : List PktPoolConf, (pools.map Step.pool).filter Step.numbered =
      pools.map .pool := by
    intro pools
    exact List.filter_eq_self.mpr (List.forall_mem_map.mpr fun _ _ => rfl)
  have rings : ∀ rings : List RingConf, (rings.map Step.ring).filter Step.numbered =
      rings.map .ring := by
    intro rings
    exact List.filter_eq_self.mpr (List.forall_mem_map.mpr fun _ _ => rfl)
  have ports : ∀ ports : List EthConf, (portsSteps ports).filter Step.numbered =
      ports.flatMap portSteps := by
    intro ports
    have all : (ports.flatMap portSteps).filter Step.numbered = ports.flatMap portSteps := by
      refine List.filter_eq_self.mpr fun step member => ?_
      obtain ⟨ethConf, _, inside⟩ := List.mem_flatMap.mp member
      rcases mem_portSteps inside with rfl | ⟨q, _, rfl⟩ | ⟨q, _, rfl⟩
      · rfl
      · rfl
      · rfl
    unfold portsSteps
    split_ifs with empty
    · rw [empty]
      rfl
    · exact (List.filter_cons_of_neg Bool.false_ne_true).trans all
  have flat : ((entriesAt jsonRessources "ethports").map (decodeEthport c)).flatMap portSteps =
      ((entriesAt jsonRessources "ethports").flatMap portSources).map (Source.step c) := by
    rw [List.flatMap_map, List.map_flatMap]
    exact congrArg (List.flatMap · _) (funext (portSteps_sources c))
  have parts : ∀ pools rings ports, (createSteps argv pools rings ports).filter Step.numbered =
      (pools.map Step.pool).filter Step.numbered ++ ((rings.map Step.ring).filter Step.numbered ++
        (portsSteps ports).filter Step.numbered) := by
    intro pools rings ports
    unfold createSteps
    simp only [List.filter_append]
    rfl
  rw [documentSteps, parts, pools, rings, ports, flat, sources, List.map_append, List.map_append,
    List.map_map, List.map_map, List.map_map, List.map_map]
  rfl

variable {dpdk : Dpdk}

/-- **The calls of a step that goes through.** -/
theorem writes_takes {step : Step} {seg : List Event} (wrote : Writes dpdk step seg) :
    List.Forall₂ Step.Takes ([step].filter Step.numbered) (numberedCalls seg) := by
  cases step with
  | init argv =>
    obtain ⟨ret, _, rfl⟩ := wrote
    exact .nil
  | table kind size =>
    cases wrote
    exact .nil
  | pool pktPoolConf =>
    obtain ⟨mp, rfl⟩ := wrote
    exact .cons rfl .nil
  | ring ringConf =>
    obtain ⟨r, rfl⟩ := wrote
    exact .cons rfl .nil
  | count size =>
    obtain ⟨_, rfl⟩ := wrote
    exact .nil
  | port ethConf =>
    obtain ⟨ret, _, rfl⟩ := wrote
    have quiet := (promiscuous_quiet ethConf .nothing).1
    have calls : numberedCalls [⟨configureCall ethConf, .code ret⟩,
        ⟨promiscuousCall ethConf, .nothing⟩] = [configureCall ethConf] :=
      congrArg (configureCall ethConf :: ·) (List.filter_cons_of_neg (by simp [quiet]))
    rw [calls]
    exact .cons rfl .nil
  | rxQueue ethConf q =>
    obtain ⟨mp, ret, _, rfl⟩ := wrote
    exact .cons ⟨mp, rfl⟩ .nil
  | txQueue ethConf q =>
    obtain ⟨ret, _, rfl⟩ := wrote
    exact .cons rfl .nil
  | start i =>
    obtain ⟨ret, _, rfl⟩ := wrote
    exact .nil

/-- The calls of a step that fails: none, or the one that takes numbers. -/
theorem stops_takes {step : Step} {seg : List Event} (stopped : Stops dpdk step seg) :
    numberedCalls seg = [] ∨ ∃ call, numberedCalls seg = [call] ∧ step.numbered = true ∧
      step.Takes call ∧ ∀ ethConf q, step = .rxQueue ethConf q →
        ∃ mp, ⟨.mempoolLookup q.pktPoolName, .object (some mp)⟩ ∈ seg := by
  cases step with
  | init argv =>
    obtain ⟨ret, _, rfl⟩ := stopped
    exact .inl rfl
  | table kind size => exact stopped.elim
  | pool pktPoolConf =>
    cases stopped
    exact .inr ⟨_, rfl, rfl, rfl, fun _ _ => Step.noConfusion⟩
  | ring ringConf =>
    cases stopped
    exact .inr ⟨_, rfl, rfl, rfl, fun _ _ => Step.noConfusion⟩
  | count size =>
    obtain ⟨_, rfl⟩ := stopped
    exact .inl rfl
  | port ethConf =>
    obtain ⟨ret, _, rfl⟩ := stopped
    exact .inr ⟨_, rfl, rfl, rfl, fun _ _ => Step.noConfusion⟩
  | rxQueue ethConf q =>
    rcases stopped with rfl | ⟨mp, ret, _, rfl⟩
    · exact .inl rfl
    · refine .inr ⟨_, rfl, rfl, ⟨mp, rfl⟩, fun ethConf' q' same => ?_⟩
      cases same
      exact ⟨mp, List.mem_cons_self⟩
  | txQueue ethConf q =>
    obtain ⟨ret, _, rfl⟩ := stopped
    exact .inr ⟨_, rfl, rfl, rfl, fun _ _ => Step.noConfusion⟩
  | start i =>
    obtain ⟨ret, _, rfl⟩ := stopped
    exact .inl rfl

/-- **The calls of the steps that go through.** -/
theorem made_takes {steps : List Step} {es : List Event} (made : Made (Writes dpdk) steps es) :
    List.Forall₂ Step.Takes (steps.filter Step.numbered) (numberedCalls es) := by
  induction made with
  | nil => exact .nil
  | cons wrote _ ih =>
    rw [numberedCalls_append, ← List.singleton_append, List.filter_append]
    exact List.rel_append (writes_takes wrote) ih

/-! ### What is reached -/

section Reached

variable (jsonRessources : Json)

/-- What a source asks for beyond the replies of dpdk, which counts no more than 255 ports. -/
def Source.Goes : Source → Prop
  | .pool _ | .ring _ => True
  | .port _ | .txQueue _ _ => (entriesAt jsonRessources "ethports").length ≤ 255
  | .rxQueue _ q => (entriesAt jsonRessources "ethports").length ≤ 255 ∧
      PoolFound ((entriesAt jsonRessources "pktpools").map (decodePktpool c))
        (stringAt c q "pktpool-name")

/-- **A source that is reached**: nothing before it stops the start-up for good. -/
def Reached (source : Source) : Prop :=
  ∃ front back, sources jsonRessources = front ++ source :: back ∧
    (∀ s ∈ front, s.Goes c jsonRessources) ∧ source.Goes c jsonRessources

end Reached

end Calls

/-! ### The place of a step -/

section Place

variable {argv : List (Option String)} {pools : List PktPoolConf} {rings : List RingConf}
  {ports : List EthConf} {front behind : List Step}

/-- The ports have been counted before the steps of a port. -/
theorem count_before {step : Step} (busy : ¬ step.Idle)
    (split : createSteps argv pools rings ports = front ++ step :: behind) :
    .count ports.length ∈ front := by
  have noObject : step ∉ objectSteps argv pools rings := fun object =>
    busy (objectSteps_idle step object)
  rw [createSteps_eq] at split
  obtain ⟨tail, rfl, port⟩ := front_of_not_mem noObject split
  apply List.mem_append_right
  unfold portsSteps at port
  split_ifs at port
  · simp at port
  · cases tail with
    | nil =>
      obtain ⟨rfl, _⟩ := List.cons.inj port
      exact absurd trivial busy
    | cons first tail =>
      obtain ⟨rfl, _⟩ := List.cons.inj port
      exact List.mem_cons_self

/-- The ports are counted behind all objects. -/
theorem objects_before_count {size : Int}
    (split : createSteps argv pools rings ports = front ++ .count size :: behind) :
    size = ports.length ∧ ∀ step ∈ behind, ¬ step.Creates := by
  have noObject : .count size ∉ objectSteps argv pools rings := by simp [objectSteps]
  rw [createSteps_eq] at split
  obtain ⟨tail, rfl, port⟩ := front_of_not_mem noObject split
  refine ⟨?_, fun step member => portsSteps_create_none ports ?_⟩
  · have member : .count size ∈ portsSteps ports := by
      rw [port]
      exact List.mem_append_right _ List.mem_cons_self
    rcases mem_portsSteps ports member with same | ⟨ethConf, _, inside⟩
    · cases same
      rfl
    · rcases mem_portSteps inside with same | ⟨q, _, same⟩ | ⟨q, _, same⟩ <;> cases same
  · rw [port]
    exact List.mem_append_right _ (List.mem_cons_of_mem _ member)

end Place

/-! ### The numbers of a run -/

/-- **The numbers of a run are those of its document**: the calls are those of the first sources,
and nothing is left out unless the start-up fails. -/
def Faithful (sources : List Source) (ret : Int) (run : Run) : Prop :=
  ∃ used unused, sources = used ++ unused ∧
    List.Forall₂ Source.Exact used (numberedCalls run.trace) ∧ (unused = [] ∨ ret = -1)

section Faithful

variable (c : JsonC) {jsonRessources : Json}

/-- The step of a source makes a call that takes numbers. -/
theorem source_call (source : Source) :
    ∃ call, (source.step c).call = some call ∧ (source.step c).Takes call := by
  cases source with
  | pool item => exact ⟨_, rfl, rfl⟩
  | ring item => exact ⟨_, rfl, rfl⟩
  | port item => exact ⟨_, rfl, rfl⟩
  | rxQueue item q => exact ⟨_, rfl, 0, rfl⟩
  | txQueue item q => exact ⟨_, rfl, rfl⟩

/-- The calls have the numbers of their sources, if these fit. -/
theorem forall₂_exact {used : List Source} {calls : List Call}
    (takes : List.Forall₂ (fun source call => (source.step c).Takes call) used calls)
    (inRange : ∀ source ∈ used, source.InRange) : List.Forall₂ Source.Exact used calls := by
  induction takes with
  | nil => exact .nil
  | cons first _ ih =>
    rw [List.forall_mem_cons] at inRange
    exact .cons ((exact_iff c first).mpr inRange.1) (ih inRange.2)

/-- What goes on from the first source is reached. -/
theorem reached_of_goes {used unused : List Source}
    (split : sources jsonRessources = used ++ unused)
    (goes : ∀ source ∈ used, source.Goes c jsonRessources) :
    ∀ source ∈ used, Reached c jsonRessources source := by
  intro source member
  obtain ⟨front, back, rfl⟩ := List.append_of_mem member
  rw [List.forall_mem_append, List.forall_mem_cons] at goes
  refine ⟨front, back ++ unused, ?_, goes.1, goes.2.1⟩
  rw [split, List.append_assoc]
  rfl

variable {argv : List (Option String)} {front behind : List Step} {source : Source}

/-- A source goes on where its step does, behind the steps before it. -/
theorem goes_of_step {nbPorts : UInt8}
    (split : documentSteps c argv jsonRessources = front ++ source.step c :: behind)
    (before : ∀ step ∈ front,
      step.Goes nbPorts ((entriesAt jsonRessources "pktpools").map (decodePktpool c)))
    (here : (source.step c).Goes nbPorts
      ((entriesAt jsonRessources "pktpools").map (decodePktpool c))) :
    source.Goes c jsonRessources := by
  have enough : ¬ (source.step c).Idle → (entriesAt jsonRessources "ethports").length ≤ 255 := by
    intro busy
    have counted := before _ (count_before busy split)
    have small := nbPorts.toNat_lt
    rw [Step.Goes, List.length_map] at counted
    omega
  cases source with
  | pool item => trivial
  | ring item => trivial
  | port item => exact enough id
  | rxQueue item q => exact ⟨enough id, here⟩
  | txQueue item q => exact enough id

/-- The steps before a source go on, if the sources do. -/
theorem step_goes {used : List Source}
    (split : documentSteps c argv jsonRessources = front ++ source.step c :: behind)
    (same : front.filter Step.numbered = used.map (Source.step c))
    (before : ∀ s ∈ used, s.Goes c jsonRessources) (here : source.Goes c jsonRessources) :
    ∀ step ∈ front,
      step.Goes 255 ((entriesAt jsonRessources "pktpools").map (decodePktpool c)) := by
  intro step member
  cases step with
  | count size =>
    obtain ⟨first, last, rfl⟩ := List.append_of_mem member
    rw [List.append_assoc] at split
    obtain ⟨rfl, later⟩ := objects_before_count split
    have port : ¬ (source.step c).Creates :=
      later _ (List.mem_append_right _ List.mem_cons_self)
    have enough : (entriesAt jsonRessources "ethports").length ≤ 255 := by
      cases source with
      | pool item => exact absurd trivial port
      | ring item => exact absurd trivial port
      | port item => exact here
      | rxQueue item q => exact here.1
      | txQueue item q => exact here
    rw [Step.Goes, List.length_map]
    exact Int.ofNat_le.mpr enough
  | rxQueue ethConf q =>
    have kept : .rxQueue ethConf q ∈ front.filter Step.numbered :=
      List.mem_filter.mpr ⟨member, rfl⟩
    rw [same] at kept
    obtain ⟨s, inside, stepped⟩ := List.mem_map.mp kept
    cases s with
    | rxQueue item jsonQObj =>
      cases stepped
      exact (before _ inside).2
    | _ => cases stepped
  | _ => trivial

/-- The pools of a document are the ones it creates. -/
theorem pool_mem_documentSteps {pktPoolConf : PktPoolConf}
    (member : .pool pktPoolConf ∈ documentSteps c argv jsonRessources) :
    pktPoolConf ∈ (entriesAt jsonRessources "pktpools").map (decodePktpool c) := by
  rw [← List.append_nil (documentSteps c argv jsonRessources)] at member
  exact pool_mem_createSteps _ _ _ _ (fun _ none => absurd none List.not_mem_nil) member

/-- There is a slot for every object of a document. -/
theorem documentSteps_room (argv : List (Option String)) (jsonRessources : Json)
    (free : Kind → Nat) : Room free (documentSteps c argv jsonRessources) := by
  rw [← List.append_nil (documentSteps c argv jsonRessources)]
  exact createSteps_room _ _ _ _ (fun _ none => absurd none List.not_mem_nil) free

variable {dpdk : Dpdk} {used : List Source} {es : List Event}

/-- **The sources whose steps have gone through.** -/
theorem used_of_made (split : documentSteps c argv jsonRessources = front ++ behind)
    (same : front.filter Step.numbered = used.map (Source.step c))
    (made : Made (Writes dpdk) front es) (sound : Sound es) :
    (∀ s ∈ used, s.Goes c jsonRessources) ∧
      List.Forall₂ (fun s call => (s.step c).Takes call) used (numberedCalls es) := by
  have goes := goes_of_made (fun _ member => pool_mem_documentSteps c
    (split ▸ List.mem_append_left behind member)) made sound
  constructor
  · intro s member
    have kept : s.step c ∈ front.filter Step.numbered := same ▸ List.mem_map_of_mem member
    obtain ⟨first, last, rfl⟩ := List.append_of_mem (List.mem_of_mem_filter kept)
    rw [List.append_assoc] at split
    rw [List.forall_mem_append, List.forall_mem_cons] at goes
    exact goes_of_step c split goes.1 goes.2.1
  · have takes := made_takes made
    rwa [same, List.forall₂_map_left_iff] at takes

/-- A source whose step has made its call goes on, even if dpdk has refused the call. -/
theorem goes_of_stopped {seg : List Event}
    (split : documentSteps c argv jsonRessources = front ++ source.step c :: behind)
    (made : Made (Writes dpdk) front es) (stopped : Stops dpdk (source.step c) seg)
    (looked : ∀ ethConf q, source.step c = .rxQueue ethConf q →
      ∃ mp, ⟨.mempoolLookup q.pktPoolName, .object (some mp)⟩ ∈ seg)
    (sound : Sound (es ++ seg)) : source.Goes c jsonRessources := by
  have known : ∀ pktPoolConf, .pool pktPoolConf ∈ front →
      pktPoolConf ∈ (entriesAt jsonRessources "pktpools").map (decodePktpool c) := by
    intro pktPoolConf member
    exact pool_mem_documentSteps c (split ▸ List.mem_append_left _ member)
  have before := goes_of_made known made sound.front
  refine goes_of_step c split before ?_
  cases source with
  | rxQueue item q =>
    -- the pool has been found, so it has been created before
    obtain ⟨mp, found⟩ := looked _ _ rfl
    refine poolFound_of_lookup ?_ sound (List.mem_append_right es found)
    refine List.forall_mem_append.mpr ⟨listed_of_made known made, ?_⟩
    exact listed_of_writes (fun _ => Step.noConfusion) (.inr stopped)
  | _ => trivial

/-- The calls of a run that returns 0. -/
theorem exact_of_made (inRange : ∀ source, Reached c jsonRessources source → source.InRange)
    (made : Made (Writes dpdk) (documentSteps c argv jsonRessources) es) (sound : Sound es) :
    List.Forall₂ Source.Exact (sources jsonRessources) (numberedCalls es) := by
  have whole := (List.append_nil (documentSteps c argv jsonRessources)).symm
  obtain ⟨goes, takes⟩ :=
    used_of_made c whole (documentSteps_sources c argv jsonRessources) made sound
  have reached := reached_of_goes c (List.append_nil _).symm goes
  exact forall₂_exact c takes fun s member => inRange s (reached s member)

/-- The calls of a run that fails at a step. -/
theorem exact_of_stopped (inRange : ∀ source, Reached c jsonRessources source → source.InRange)
    {step : Step} {seg : List Event}
    (split : documentSteps c argv jsonRessources = front ++ step :: behind)
    (made : Made (Writes dpdk) front es) (stopped : Stops dpdk step seg)
    (sound : Sound (es ++ seg)) : ∃ used unused, sources jsonRessources = used ++ unused ∧
      List.Forall₂ Source.Exact used (numberedCalls (es ++ seg)) := by
  have all := documentSteps_sources c argv jsonRessources
  rw [split, List.filter_append] at all
  obtain ⟨used, unused, sourced, same, later⟩ := List.map_eq_append_iff.mp all.symm
  obtain ⟨goes, takes⟩ := used_of_made c split same.symm made sound.front
  rcases stops_takes stopped with none | ⟨call, one, numbered, last, looked⟩
  · have reached := reached_of_goes c sourced goes
    refine ⟨used, unused, sourced, ?_⟩
    rw [numberedCalls_append, none, List.append_nil]
    exact forall₂_exact c takes fun s member => inRange s (reached s member)
  · -- the step that fails has made its call
    rw [List.filter_cons_of_pos numbered] at later
    obtain ⟨source, others, rfl, rfl, _⟩ := List.map_eq_cons_iff.mp later
    have here := goes_of_stopped c split made stopped looked sound
    rw [List.append_cons] at sourced
    have reached := reached_of_goes c sourced
      (List.forall_mem_append.mpr ⟨goes, List.forall_mem_singleton.mpr here⟩)
    refine ⟨used ++ [source], others, sourced, ?_⟩
    rw [numberedCalls_append, one]
    exact forall₂_exact c (List.rel_append takes (.cons last .nil)) fun s member =>
      inRange s (reached s member)

/-- **Numbers that fit are faithful**, in every run. -/
theorem faithful_of_inRange {ret : Int} {run : Run}
    (inRange : ∀ source, Reached c jsonRessources source → source.InRange)
    (ran : loop (doStep dpdk) (documentSteps c argv jsonRessources) .start = .ok (ret, run)) :
    Faithful (sources jsonRessources) ret run := by
  have sound := doSteps_sound dpdk ran
  rcases loop_writes (doStep_writes dpdk) _ ran with ⟨_, es, made, wrote⟩ |
    ⟨leaves, done, step, rest, es, seg, split, made, stopped, wrote⟩
  · have wrote : run.trace = es := wrote
    rw [wrote] at sound
    refine ⟨sources jsonRessources, [], (List.append_nil _).symm, ?_, .inl rfl⟩
    rw [wrote]
    exact exact_of_made c inRange made sound
  · have wrote : run.trace = es ++ seg := wrote
    have failed : ret = -1 :=
      (loop_codes (doStep_codes dpdk) _ _ ret run ran).resolve_left leaves
    rw [wrote] at sound
    obtain ⟨used, unused, sourced, exactly⟩ := exact_of_stopped c inRange split made stopped sound
    rw [← wrote] at exactly
    exact ⟨used, unused, sourced, exactly, .inr failed⟩

/-- The last call of a faithful run has the numbers of the source at its place. -/
theorem Faithful.last {all : List Source} {ret : Int} {run : Run} (faithful : Faithful all ret run)
    {calls : List Call} {call : Call} (made : numberedCalls run.trace = calls ++ [call])
    {s : Source} (found : all[calls.length]? = some s) : s.Exact call := by
  obtain ⟨used, unused, rfl, exactly, _⟩ := faithful
  rw [made] at exactly
  obtain ⟨lengths, each⟩ := List.forall₂_iff_get.mp exactly
  have inside : calls.length < (calls ++ [call]).length := by simp
  have early : calls.length < used.length := lengths ▸ inside
  have here := each calls.length early inside
  have last : (calls ++ [call]).get ⟨calls.length, inside⟩ = call := by simp
  rw [List.getElem?_append_left early, List.getElem?_eq_getElem early] at found
  rw [last] at here
  exact Option.some.inj found ▸ here

/-- **Numbers that do not fit are not faithful**, in some run. -/
theorem inRange_of_faithful (argv : List (Option String))
    (faithful : ∀ dpdk ret run, loop (doStep dpdk) (documentSteps c argv jsonRessources) .start =
      .ok (ret, run) → Faithful (sources jsonRessources) ret run)
    (reached : Reached c jsonRessources source) : source.InRange := by
  classical
  obtain ⟨front, back, sourced, goes, here⟩ := reached
  have all := documentSteps_sources c argv jsonRessources
  -- the steps before the source
  rw [sourced, List.map_append, List.map_cons] at all
  obtain ⟨first, later, split, same, rest⟩ := List.filter_eq_append_iff.mp all
  obtain ⟨between, behind, rfl, quiet, _, _⟩ := List.filter_eq_cons_iff.mp rest
  rw [← List.append_assoc] at split
  have same : (first ++ between).filter Step.numbered = front.map (Source.step c) := by
    rw [List.filter_append, same, List.filter_eq_nil_iff.mpr quiet, List.append_nil]
  obtain ⟨call, called, takes⟩ := source_call c source
  rw [← exact_iff c takes]
  -- a dpdk that refuses the first call that is not exact
  let good : Nat → Call → Prop := fun k call => ∀ s, (sources jsonRessources)[k]? = some s →
    s.Exact call
  let pools := (entriesAt jsonRessources "pktpools").map (decodePktpool c)
  have whole := List.append_nil (documentSteps c argv jsonRessources)
  have ordered : Ordered pools (documentSteps c argv jsonRessources) :=
    whole ▸ createSteps_ordered argv _ _ _ []
  obtain ⟨_, off⟩ := doSteps_reach 255 good (documentSteps_room c argv jsonRessources _) ordered
  by_cases guarded : Guarded (fun _ => Step.Goes 255 pools) (StepGood 255 good pools) []
      (documentSteps c argv jsonRessources)
  · have steps := step_goes c split same goes here
    have fine := (guarded_iff _ []).mp guarded _ _ behind split steps
    have on : (source.step c).Goes 255 pools := by
      cases source with
      | rxQueue item q => exact here.2
      | _ => trivial
    have place : ((first ++ between).filterMap Step.call).length = front.length := by
      rw [List.length_filterMap_eq_countP, List.countP_eq_length_filter]
      exact (congrArg List.length same).trans (List.length_map _)
    have exactly := fine on call called source
    rw [List.nil_append, place, sourced] at exactly
    exact exactly (by simp)
  · obtain ⟨ret, run, ran, _, done, step, _, call, _, _, _, bad, calls⟩ := off guarded
    exact absurd (fun s found => (faithful _ ret run ran).last calls found) bad

/-- **`app_manager` uses the numbers of its document exactly when** those that it comes to are in
the ranges of the parameters that they reach. -/
theorem numbersFaithful_iff {document : Document} {conf₀ conf : AppConf}
    (parsed : appConfParseFile c document conf₀ = .ok (0, conf)) :
    ∃ jsonApp jsonRessources, document.root.getEx "app" = some jsonApp ∧
      jsonApp.getEx "ressources" = some jsonRessources ∧
      ((∀ dpdk ret run, allocatorCreateRessources dpdk conf .start = .ok (ret, run) →
          Faithful (sources jsonRessources) ret run) ↔
        ∀ source, Reached c jsonRessources source → source.InRange) := by
  obtain ⟨jsonApp, jsonRessources, app, _, found, _, loaded⟩ := parsed_loads c parsed
  have steps : ∀ dpdk, allocatorCreateRessources dpdk conf .start =
      loop (doStep dpdk) (documentSteps c (dpdkArgv conf.appName conf) jsonRessources) .start :=
    fun dpdk => allocatorCreateRessources_eq dpdk loaded.holds .start
  refine ⟨jsonApp, jsonRessources, app, found, fun faithful source reached => ?_,
    fun inRange dpdk ret run ran => ?_⟩
  · refine inRange_of_faithful c (dpdkArgv conf.appName conf) (fun dpdk ret run ran => ?_) reached
    exact faithful dpdk ret run ((steps dpdk).trans ran)
  · rw [steps] at ran
    exact faithful_of_inRange c inRange ran

theorem numbersFaithful_one :
    ∃ conf jsonApp jsonRessources, appConfParseFile namesC onePort usedConf = .ok (0, conf) ∧
      onePort.root.getEx "app" = some jsonApp ∧ jsonApp.getEx "ressources" = some jsonRessources ∧
      ((∀ dpdk ret run, allocatorCreateRessources dpdk conf .start = .ok (ret, run) →
          Faithful (sources jsonRessources) ret run) ↔
        ∀ source, Reached namesC jsonRessources source → source.InRange) := by
  obtain ⟨conf, parsed⟩ := onePort_parses
  obtain ⟨jsonApp, jsonRessources, app, found, same⟩ := numbersFaithful_iff namesC parsed
  exact ⟨conf, jsonApp, jsonRessources, parsed, app, found, same⟩

/-- A port whose id is one more than its parameter can hold. -/
def portBeyond : Document where
  root := .object [("app", .object [("name", .string "app_manager"), ("core-mask", .int 7),
    ("memory-socket", .int 1), ("ressources", .object [
      ("ethports", .array [.object [("port-id", .int 256), ("promisc", .boolean true),
        ("rx-queues", .array []), ("tx-queues", .array [])]])])])]
  fits := by simp

/-- The port 0 is configured instead. -/
theorem numbersFaithful_fails_beyond :
    ∃ conf jsonApp jsonRessources dpdk run,
      appConfParseFile namesC portBeyond usedConf = .ok (0, conf) ∧
      portBeyond.root.getEx "app" = some jsonApp ∧
      jsonApp.getEx "ressources" = some jsonRessources ∧
      allocatorCreateRessources dpdk conf .start = .ok (0, run) ∧
      ¬ Faithful (sources jsonRessources) 0 run := by
  let dpdk : Dpdk := ⟨1, fun _ _ => some 0, fun _ _ => 0⟩
  refine ⟨_, _, _, dpdk, _, rfl, rfl, rfl, rfl, ?_⟩
  rintro ⟨used, unused, whole, exactly, rfl | failed⟩
  · rw [List.append_nil] at whole
    rw [← whole] at exactly
    obtain ⟨port, _⟩ : Source.Exact (.port _) (.devConfigure 0 0 0) := by
      cases exactly with
      | cons first _ => exact first
    exact absurd (port 256 rfl) (by decide)
  · exact absurd failed (by decide)

end Faithful

end CyberPlatform.AppManager
