/-
**What `app_manager`'s configuration parser makes of a document.**

* `newEthQueues_decodes` — a queue array, of which no key is required.
* `pktpool_decodes`, `ethport_decodes`, `ring_decodes` — one entry, whatever `malloc` returned for
  it.
* `parseTable_decodes` — a section, from what its keys make of one entry.
* `jsonParse_decodes` — the document.
-/

import CyberPlatform.AppManager.AppConf

namespace CyberPlatform.AppManager

open Foundation Json LList

section Decoding

variable (c : JsonC)

/-! ### Queues -/

/-- **What a queue stands for**: the accessor of each key, 0 or null where the key is missing. -/
def decodeQueue (jsonQObj : Json) : EthQ where
  socketId := intAt c jsonQObj "socket-id"
  qId := intAt c jsonQObj "q-id"
  nbDesc := intAt c jsonQObj "nb-desc"
  pktPoolName := stringAt c jsonQObj "pktpool-name"

/-- What a key sets in a queue. -/
def setQItem (jsonQObj : Json) (item : String) (q : EthQ) : EthQ :=
  (jsonQObj.getEx item).elim q fun jsonQItem =>
    if item = "q-id" then { q with qId := getInt c jsonQItem }
    else if item = "nb-desc" then { q with nbDesc := getInt c jsonQItem }
    else if item = "pktpool-name" then { q with pktPoolName := getString c jsonQItem }
    else if item = "socket-id" then { q with socketId := getInt c jsonQItem }
    else q

/-- The keys set the whole queue, from a cleared one. -/
theorem setQItems_eq (jsonQObj : Json) :
    qItems.foldl (fun q item => setQItem c jsonQObj item q) {} = decodeQueue c jsonQObj := by
  unfold decodeQueue intAt stringAt
  simp only [qItems, List.foldl_cons, List.foldl_nil, setQItem]
  cases jsonQObj.getEx "q-id" <;> cases jsonQObj.getEx "nb-desc" <;>
    cases jsonQObj.getEx "pktpool-name" <;> cases jsonQObj.getEx "socket-id" <;> rfl

section Queues

variable {n : Nat} {a : Vector EthQ n} {front : List EthQ}

/-- One key of the queue behind the front. -/
theorem parseQItem_sets (room : front.length < n) (jsonQObj : Json) (item : String) (q : EthQ)
    {ret : Int} {v : Vector EthQ n}
    (ran : parseQItem c jsonQObj front.length item (writeFront a (front ++ [q])) = .ok (ret, v)) :
    ret = 0 ∧ v = writeFront a (front ++ [setQItem c jsonQObj item q]) ∨ ret = -1 := by
  unfold parseQItem at ran
  unfold setQItem
  cases found : jsonQObj.getEx item with
  | none =>
    rw [found] at ran
    cases ran
    exact .inl ⟨rfl, rfl⟩
  | some jsonQItem =>
    simp only [found, modify_last a front room, ok_bind] at ran
    rw [Option.elim_some]
    by_cases qId : item = "q-id"
    · rw [if_pos qId] at ran ⊢
      exact check_set ran
    rw [if_neg qId] at ran ⊢
    by_cases nbDesc : item = "nb-desc"
    · rw [if_pos nbDesc] at ran ⊢
      exact check_set ran
    rw [if_neg nbDesc] at ran ⊢
    by_cases pktpoolName : item = "pktpool-name"
    · rw [if_pos pktpoolName] at ran ⊢
      rcases check_eq_ok ran with refused | ⟨_, set⟩
      · exact .inr refused
      · obtain ⟨name, copied, set⟩ := bind_eq_ok.mp set
        cases strdup_ok copied
        cases set
        exact .inl ⟨rfl, rfl⟩
    rw [if_neg pktpoolName] at ran ⊢
    by_cases socketId : item = "socket-id"
    · rw [if_pos socketId] at ran ⊢
      exact check_set ran
    rw [if_neg socketId] at ran ⊢
    cases ran
    exact .inl ⟨rfl, rfl⟩

/-- The queue behind the front. -/
theorem parseEthQueue_decodes (jsonQArray : Json) (room : front.length < n)
    (cleared : a[front.length] = {}) {ret : Int} {v : Vector EthQ n}
    (ran : parseEthQueue c jsonQArray front.length (writeFront a front) = .ok (ret, v)) :
    let jsonQObj := jsonQArray.arrayGetIdx front.length
    ret = 0 ∧ jsonQObj.IsObject ∧ v = writeFront a (front ++ [decodeQueue c jsonQObj]) ∨
      ret = -1 := by
  intro jsonQObj
  rcases check_eq_ok ran with refused | ⟨isObject, parsed⟩
  · exact .inr refused
  rw [not_not, getType_eq_object_iff] at isObject
  rw [← writeFront_concat a front room, cleared] at parsed
  rw [← setQItems_eq]
  have step : ∀ done item rest v code v', qItems = done ++ item :: rest →
      v = writeFront a (front ++ [done.foldl (fun q item => setQItem c jsonQObj item q) {}]) →
      parseQItem c jsonQObj front.length item v = .ok (code, v') →
      code = 0 ∧ v' = writeFront a (front ++
        [(done ++ [item]).foldl (fun q item => setQItem c jsonQObj item q) {}]) ∨
      code = -1 := by
    rintro done item _ _ code v' _ rfl one
    rcases parseQItem_sets c room _ item _ one with ⟨rfl, rfl⟩ | refused
    · rw [List.foldl_append]
      exact .inl ⟨rfl, rfl⟩
    · exact .inr refused
  rcases loop_rule step rfl parsed with ⟨zero, all⟩ | refused
  · exact .inl ⟨zero, isObject, all⟩
  · exact .inr refused

/-- The whole array, from a cleared one. -/
theorem parseEthQueues_decodes (jsonQArray : Json) (cleared : ∀ i (inside : i < n), a[i] = {})
    {nbQ : Int} (size : nbQ.toNat = n) {ret : Int} {v : Vector EthQ n}
    (ran : parseEthQueues c jsonQArray a nbQ = .ok (ret, v)) :
    let jsonQObjs := (List.range n).map jsonQArray.arrayGetIdx
    ret = 0 ∧ (∀ q ∈ jsonQObjs, q.IsObject) ∧ v.toList = jsonQObjs.map (decodeQueue c) ∨
      ret = -1 := by
  intro jsonQObjs
  rcases check_eq_ok ran with refused | ⟨_, parsed⟩
  · exact .inr refused
  rw [size] at parsed
  have step : ∀ done i rest v code v', List.range n = done ++ i :: rest →
      ((∀ j ∈ done, (jsonQArray.arrayGetIdx j).IsObject) ∧
        v = writeFront a (done.map fun i => decodeQueue c (jsonQArray.arrayGetIdx i))) →
      parseEthQueue c jsonQArray i v = .ok (code, v') →
      code = 0 ∧ ((∀ j ∈ done ++ [i], (jsonQArray.arrayGetIdx j).IsObject) ∧
        v' = writeFront a ((done ++ [i]).map fun i => decodeQueue c (jsonQArray.arrayGetIdx i))) ∨
      code = -1 := by
    rintro done i rest _ code v' split ⟨before, rfl⟩ one
    obtain ⟨index, inside⟩ := range_split split
    have length : (done.map fun i => decodeQueue c (jsonQArray.arrayGetIdx i)).length = i := by
      rw [List.length_map, index]
    rw [← index] at inside
    rw [← length] at one
    rcases parseEthQueue_decodes c jsonQArray (length ▸ inside) (cleared _ _) one with
      ⟨zero, isObject, stored⟩ | refused
    · rw [length] at isObject stored
      rw [List.forall_mem_append, List.forall_mem_singleton, List.map_append]
      exact .inl ⟨zero, ⟨before, isObject⟩, stored⟩
    · exact .inr refused
  rcases loop_rule step ⟨fun _ none => absurd none List.not_mem_nil, (writeFront_nil a).symm⟩
    parsed with ⟨zero, objects, rfl⟩ | refused
  · refine .inl ⟨zero, List.forall_mem_map.mpr objects, ?_⟩
    rw [writeFront_toList _ _ (by rw [List.length_map, List.length_range]), List.map_map]
    rfl
  · exact .inr refused

end Queues

/-- **A queue array** holds what its queues stand for, in their order. -/
theorem newEthQueues_decodes {items : List Json} (fits : (Json.array items).Fits) {ret : Int}
    {queues : List EthQ}
    (ran : newEthQueues c (array items) (int32 items.length) = .ok (ret, queues)) :
    ret = 0 ∧ (∀ item ∈ items, item.IsObject) ∧ queues = items.map (decodeQueue c) ∨
      ret = -1 := by
  obtain ⟨⟨code, v⟩, parsed, returned⟩ := bind_eq_ok.mp ran
  cases returned
  have decoded := parseEthQueues_decodes c (array items)
    (fun i inside => Vector.getElem_replicate inside) rfl parsed
  have same := arrayItems_eq fits
  rw [arrayItems, arrayLength] at same
  rw [same] at decoded
  exact decoded

/-! ### One entry -/

/-- An entry of a section: an object with the required keys. -/
def EntryOk (items : List String) (jsonEntry : Json) : Prop :=
  jsonEntry.IsObject ∧ ∀ item ∈ items, jsonEntry.getEx item ≠ none

/-- An array all of whose elements are as they should be. -/
def ArrayOf (ok : Json → Prop) (jobj : Json) : Prop :=
  ∃ entries, jobj = array entries ∧ ∀ jsonEntry ∈ entries, ok jsonEntry

/-- The keys of the queues of a port. -/
def queueItems : List String := ["tx-queues", "rx-queues"]

/-- An entry of the ports: its queues are objects, too. -/
def EthportOk (jsonEthport : Json) : Prop :=
  EntryOk ethportItems jsonEthport ∧ ∀ item ∈ queueItems, ∀ jsonQArray,
    jsonEthport.getEx item = some jsonQArray → ArrayOf IsObject jsonQArray

section Entries

variable {l : ConfList} {V : Type} (items : List String)
  (parseItem : String → Json → Conf l → Except Trap (Int × Conf l)) (ok : Json → Prop)
  (view : Conf l → V) (decode : Json → V)

/-- **The keys decode an entry**: whatever the structure held, what is viewed of it afterwards is
what the entry stands for. -/
def Decodes : Prop :=
  ∀ jsonEntry : Json, jsonEntry.Fits → jsonEntry.IsObject → ∀ junk ret p,
    loop (parseKey parseItem jsonEntry) items junk = .ok (ret, p) →
    ret = 0 ∧ ok jsonEntry ∧ view p = decode jsonEntry ∨ ret = -1

variable {items parseItem ok view decode}

/-- Keys that set what is viewed, each on its own, decode an entry. -/
theorem decodes_of_sets (set : Json → String → Conf l → Conf l) (fine : Json → String → Prop)
    (one : ∀ jsonEntry : Json, jsonEntry.Fits → ∀ item jsonVal p ret p',
      jsonEntry.getEx item = some jsonVal → parseItem item jsonVal p = .ok (ret, p') →
      ret = 0 ∧ fine jsonEntry item ∧ p' = set jsonEntry item p ∨ ret = -1)
    (good : ∀ jsonEntry, EntryOk items jsonEntry → (∀ item ∈ items, fine jsonEntry item) →
      ok jsonEntry)
    (whole : ∀ jsonEntry junk, view (items.foldl (fun p item => set jsonEntry item p) junk) =
      decode jsonEntry) :
    Decodes items parseItem ok view decode := by
  intro jsonEntry fits isObject junk ret p ran
  have key : ∀ item p ret p', parseKey parseItem jsonEntry item p = .ok (ret, p') →
      ret = 0 ∧ (jsonEntry.getEx item ≠ none ∧ fine jsonEntry item) ∧
        p' = set jsonEntry item p ∨ ret = -1 := by
    intro item p ret p' parsed
    unfold parseKey at parsed
    cases found : jsonEntry.getEx item with
    | none =>
      rw [found] at parsed
      cases parsed
      exact .inr rfl
    | some jsonVal =>
      rw [found] at parsed
      rcases one jsonEntry fits item jsonVal p ret p' found parsed with
        ⟨zero, here, stored⟩ | refused
      · exact .inl ⟨zero, ⟨Option.some_ne_none _, here⟩, stored⟩
      · exact .inr refused
  rcases loop_sets key ran with ⟨zero, all, rfl⟩ | refused
  · refine .inl ⟨zero, good jsonEntry ⟨isObject, fun item member => (all item member).1⟩
      fun item member => (all item member).2, whole jsonEntry junk⟩
  · exact .inr refused

end Entries

/-! ### Packet pools -/

/-- **What an entry of the pools stands for.** -/
def decodePktpool (jsonPktpool : Json) : PktPoolConf where
  name := stringAt c jsonPktpool "name"
  size := intAt c jsonPktpool "size"
  cacheSize := intAt c jsonPktpool "cache_size"
  privSize := intAt c jsonPktpool "private_size"
  dataRoomSize := intAt c jsonPktpool "data_room_size"
  socketId := intAt c jsonPktpool "socket_id"

/-- What a key sets in a pool. -/
def setPktpoolItem (jsonPktpool : Json) (item : String) (p : PktPoolConf) : PktPoolConf :=
  if item = "name" then { p with name := stringAt c jsonPktpool item }
  else if item = "private_size" then { p with privSize := intAt c jsonPktpool item }
  else if item = "data_room_size" then { p with dataRoomSize := intAt c jsonPktpool item }
  else if item = "cache_size" then { p with cacheSize := intAt c jsonPktpool item }
  else if item = "socket_id" then { p with socketId := intAt c jsonPktpool item }
  else if item = "size" then { p with size := intAt c jsonPktpool item }
  else p

theorem pktpool_decodes :
    Decodes (l := .pktPoolList) pktpoolItems (parsePktpoolItem c) (EntryOk pktpoolItems) id
      (decodePktpool c) := by
  refine decodes_of_sets (setPktpoolItem c) (fun _ _ => True) ?_
    (fun _ entry _ => entry) fun _ _ => rfl
  intro jsonEntry _ item jsonVal p ret p' found ran
  refine .inl ?_
  unfold parsePktpoolItem at ran
  simp only [setPktpoolItem, stringAt, intAt, found, Option.elim_some]
  by_cases name : item = "name"
  · rw [if_pos name] at ran ⊢
    obtain ⟨s, copied, set⟩ := bind_eq_ok.mp ran
    cases strdup_ok copied
    cases set
    exact ⟨rfl, trivial, rfl⟩
  rw [if_neg name] at ran ⊢
  split_ifs at ran ⊢ <;> cases ran <;> exact ⟨rfl, trivial, rfl⟩

/-! ### Rings -/

/-- **What an entry of the rings stands for.** -/
def decodeRing (jsonRing : Json) : RingConf where
  name := stringAt c jsonRing "name"
  size := intAt c jsonRing "size"
  singleProducer := booleanAt jsonRing "single_producer"
  singleConsumer := booleanAt jsonRing "single_consumer"
  socketId := intAt c jsonRing "socket_id"

/-- What a key sets in a ring. -/
def setRingItem (jsonRing : Json) (item : String) (p : RingConf) : RingConf :=
  if item = "name" then { p with name := stringAt c jsonRing item }
  else if item = "size" then { p with size := intAt c jsonRing item }
  else if item = "socket_id" then { p with socketId := intAt c jsonRing item }
  else if item = "single_consumer" then { p with singleConsumer := booleanAt jsonRing item }
  else if item = "single_producer" then { p with singleProducer := booleanAt jsonRing item }
  else p

theorem ring_decodes :
    Decodes (l := .ringList) ringItems (parseRingItem c) (EntryOk ringItems) id (decodeRing c) := by
  refine decodes_of_sets (setRingItem c) (fun _ _ => True) ?_
    (fun _ entry _ => entry) fun _ _ => rfl
  intro jsonEntry _ item jsonVal p ret p' found ran
  refine .inl ?_
  unfold parseRingItem at ran
  simp only [setRingItem, stringAt, intAt, booleanAt, found, Option.elim_some]
  by_cases name : item = "name"
  · rw [if_pos name] at ran ⊢
    obtain ⟨s, copied, set⟩ := bind_eq_ok.mp ran
    cases strdup_ok copied
    cases set
    exact ⟨rfl, trivial, rfl⟩
  rw [if_neg name] at ran ⊢
  split_ifs at ran ⊢ <;> cases ran <;> exact ⟨rfl, trivial, rfl⟩

/-! ### Ports -/

/-- The queues under a key of a port. -/
def queuesAt (jsonEthport : Json) (item : String) : List EthQ :=
  ((jsonEthport.arrayAt item).getD []).map (decodeQueue c)

theorem queuesAt_eq {jsonEthport : Json} {item : String} {items : List Json}
    (found : jsonEthport.getEx item = some (array items)) :
    queuesAt c jsonEthport item = items.map (decodeQueue c) := by
  rw [queuesAt, (arrayAt_eq_some_iff jsonEthport item).mpr found, Option.getD_some]

/-- **What an entry of the ports stands for.** -/
def decodeEthport (jsonEthport : Json) : EthConf where
  portId := intAt c jsonEthport "port-id"
  promisc := booleanAt jsonEthport "promisc"
  nbRxQ := (queuesAt c jsonEthport "rx-queues").length
  nbTxQ := (queuesAt c jsonEthport "tx-queues").length
  txQueues := queuesAt c jsonEthport "tx-queues"
  rxQueues := queuesAt c jsonEthport "rx-queues"

/-- What `_init_eth_port` reads of a port: the queues that are counted. -/
def EthConf.read (ethPort : EthConf) : EthConf :=
  { ethPort with
    txQueues := ethPort.txQueues.take ethPort.nbTxQ.toNat
    rxQueues := ethPort.rxQueues.take ethPort.nbRxQ.toNat }

/-- What a key sets in a port. Without queues, the pointer to them is what it was. -/
def setEthportItem (jsonEthport : Json) (item : String) (p : EthConf) : EthConf :=
  if item = "port-id" then { p with portId := intAt c jsonEthport item }
  else if item = "promisc" then { p with promisc := booleanAt jsonEthport item }
  else if item = "tx-queues" then
    { p with
      nbTxQ := (queuesAt c jsonEthport item).length
      txQueues := if queuesAt c jsonEthport item = [] then p.txQueues
        else queuesAt c jsonEthport item }
  else if item = "rx-queues" then
    { p with
      nbRxQ := (queuesAt c jsonEthport item).length
      rxQueues := if queuesAt c jsonEthport item = [] then p.rxQueues
        else queuesAt c jsonEthport item }
  else p

/-- The keys set all that is read of a port. -/
theorem setEthportItems_read (jsonEthport : Json) (junk : EthConf) :
    EthConf.read (ethportItems.foldl (fun p item => setEthportItem c jsonEthport item p) junk) =
      decodeEthport c jsonEthport := by
  have counted : ∀ old queues : List EthQ,
      (if queues = [] then old else queues).take (queues.length : Int).toNat = queues := by
    intro old queues
    rw [Int.toNat_natCast]
    by_cases empty : queues = []
    · rw [empty]
      rfl
    · rw [if_neg empty, List.take_length]
  let tx := queuesAt c jsonEthport "tx-queues"
  let rx := queuesAt c jsonEthport "rx-queues"
  let read := fun old queues : List EthQ =>
    (if queues = [] then old else queues).take (queues.length : Int).toNat
  show ({ decodeEthport c jsonEthport with
    txQueues := read junk.txQueues tx, rxQueues := read junk.rxQueues rx } : EthConf) = _
  simp only [read, counted]
  rfl

/-- **The queues under a key of a port**: they are counted, and stored if there are any. -/
theorem queues_set {items : List Json} (fits : (Json.array items).Fits) {nbQ : Int}
    (count : int32 (array items).arrayLength = nbQ) (keep : Int → EthConf)
    (fill : Int → List EthQ → EthConf) {ret : Int} {st : EthConf}
    (ran : (if nbQ = 0 then .ok (0, keep nbQ)
      else newEthQueues c (array items) nbQ >>= fun out =>
        if out.1 ≠ 0 then .ok (-1, fill nbQ out.2) else .ok (0, fill nbQ out.2)) = .ok (ret, st)) :
    let queues := items.map (decodeQueue c)
    ret = 0 ∧ (∀ q ∈ items, q.IsObject) ∧
      st = (if queues = [] then keep queues.length else fill queues.length queues) ∨ ret = -1 := by
  intro queues
  have short := (fits_array.mp fits).1
  have length : nbQ = queues.length := by
    rw [← count, arrayLength, int32_of_range (by omega) (by omega), List.length_map]
  have empty : queues = [] ↔ nbQ = 0 := by
    rw [length, Int.natCast_eq_zero, List.length_eq_zero_iff]
  by_cases zero : nbQ = 0
  · rw [if_pos zero, length] at ran
    cases ran
    rw [if_pos (empty.mpr zero)]
    have none : items = [] := List.map_eq_nil_iff.mp (empty.mpr zero)
    exact .inl ⟨rfl, fun q member => absurd (none ▸ member) List.not_mem_nil, rfl⟩
  · rw [if_neg zero] at ran
    rw [if_neg (empty.not.mpr zero)]
    rcases call_eq_ok ran (fun _ => rfl) with refused | ⟨stored, parsed, set⟩
    · exact .inr refused
    · rw [← count] at parsed
      rcases newEthQueues_decodes c fits parsed with ⟨_, objects, rfl⟩ | refused
      · cases set
        exact .inl ⟨rfl, objects, congrArg (fill · queues) length⟩
      · exact absurd refused (by decide)

theorem parseEthportItem_sets {jsonEthport : Json} (fits : jsonEthport.Fits) {item : String}
    {jsonVal : Json} {p p' : EthConf} {ret : Int} (found : jsonEthport.getEx item = some jsonVal)
    (ran : parseEthportItem c item jsonVal p = .ok (ret, p')) :
    ret = 0 ∧ (item ∈ queueItems → ArrayOf IsObject jsonVal) ∧
      p' = setEthportItem c jsonEthport item p ∨ ret = -1 := by
  unfold parseEthportItem at ran
  unfold setEthportItem
  by_cases portId : item = "port-id"
  · rw [if_pos portId] at ran ⊢
    rcases check_set ran with ⟨zero, rfl⟩ | refused
    · refine .inl ⟨zero, fun queues => absurd (portId ▸ queues) (by decide), ?_⟩
      rw [intAt, found, Option.elim_some]
    · exact .inr refused
  rw [if_neg portId] at ran ⊢
  by_cases promisc : item = "promisc"
  · rw [if_pos promisc] at ran ⊢
    rcases check_set ran with ⟨zero, rfl⟩ | refused
    · refine .inl ⟨zero, fun queues => absurd (promisc ▸ queues) (by decide), ?_⟩
      rw [booleanAt, found, Option.elim_some]
    · exact .inr refused
  rw [if_neg promisc] at ran ⊢
  by_cases txQueues : item = "tx-queues"
  · rw [if_pos txQueues] at ran ⊢
    rcases check_eq_ok ran with refused | ⟨isArray, set⟩
    · exact .inr refused
    · obtain ⟨items, rfl⟩ := getType_eq_array_iff.mp (not_not.mp isArray)
      generalize count : int32 (array items).arrayLength = nbTxQ at set
      rcases queues_set c (fits.getEx found) count (fun n => { p with nbTxQ := n })
        (fun n queues => { p with nbTxQ := n, txQueues := queues }) set with
        ⟨zero, objects, rfl⟩ | refused
      · refine .inl ⟨zero, fun _ => ⟨items, rfl, objects⟩, ?_⟩
        rw [queuesAt_eq c found]
        split_ifs <;> rfl
      · exact .inr refused
  rw [if_neg txQueues] at ran ⊢
  by_cases rxQueues : item = "rx-queues"
  · rw [if_pos rxQueues] at ran ⊢
    rcases check_eq_ok ran with refused | ⟨isArray, set⟩
    · exact .inr refused
    · obtain ⟨items, rfl⟩ := getType_eq_array_iff.mp (not_not.mp isArray)
      generalize count : int32 (array items).arrayLength = nbRxQ at set
      rcases queues_set c (fits.getEx found) count (fun n => { p with nbRxQ := n })
        (fun n queues => { p with nbRxQ := n, rxQueues := queues }) set with
        ⟨zero, objects, rfl⟩ | refused
      · refine .inl ⟨zero, fun _ => ⟨items, rfl, objects⟩, ?_⟩
        rw [queuesAt_eq c found]
        split_ifs <;> rfl
      · exact .inr refused
  rw [if_neg rxQueues] at ran ⊢
  cases ran
  refine .inl ⟨rfl, fun queues => ?_, rfl⟩
  rcases List.mem_pair.mp queues with tx | rx
  · exact absurd tx txQueues
  · exact absurd rx rxQueues

theorem ethport_decodes :
    Decodes (l := .ethPortList) ethportItems (parseEthportItem c) EthportOk EthConf.read
      (decodeEthport c) := by
  refine decodes_of_sets (setEthportItem c) (fun jsonEthport item => item ∈ queueItems →
    ∀ jsonQArray, jsonEthport.getEx item = some jsonQArray → ArrayOf IsObject jsonQArray)
    ?_ (fun _ entry queues => ⟨entry, ?_⟩) (setEthportItems_read c)
  · intro jsonEntry fits item jsonVal p ret p' found ran
    rcases parseEthportItem_sets c fits found ran with ⟨zero, queues, set⟩ | refused
    · refine .inl ⟨zero, fun member jsonQArray found' => ?_, set⟩
      cases found.symm.trans found'
      exact queues member
    · exact .inr refused
  · intro item member
    exact queues item (by revert item; decide) member

/-! ### A section -/

/-- New structures at the end of a list. -/
def AppConf.pushAll (conf : AppConf) (l : ConfList) (ps : List (Conf l)) : AppConf :=
  { conf with store := ps.foldl (fun st p => st.push l p) conf.store }

/-- The entries of a section, none if it is missing. -/
def entriesAt (jsonRessources : Json) (ressource : String) : List Json :=
  (jsonRessources.arrayAt ressource).getD []

section Sections

variable {l : ConfList} {V : Type} {items : List String}
  {parseItem : String → Json → Conf l → Except Trap (Int × Conf l)} {ok : Json → Prop}
  {view : Conf l → V} {decode : Json → V} (decodes : Decodes items parseItem ok view decode)
include decodes

/-- One entry is added to its list. -/
theorem parseEntry_pushes {jsonEntry : Json} (fits : jsonEntry.Fits) {conf conf' : AppConf}
    {ret : Int} (ran : parseEntry items parseItem jsonEntry conf = .ok (ret, conf')) :
    ret = 0 ∧ ok jsonEntry ∧
      (∃ p, view p = decode jsonEntry ∧ conf' = conf.pushAll l [p]) ∨ ret = -1 := by
  rcases check_eq_ok ran with refused | ⟨isObject, filled⟩
  · exact .inr refused
  rw [not_not, getType_eq_object_iff] at isObject
  rcases call_eq_ok filled (fun _ => rfl) with refused | ⟨p, parsed, pushed⟩
  · exact .inr refused
  rcases decodes jsonEntry fits isObject _ 0 p parsed with ⟨_, good, viewed⟩ | refused
  · cases pushed
    exact .inl ⟨rfl, good, p, viewed, rfl⟩
  · exact absurd refused (by decide)

/-- **A section** adds what its entries stand for, in their order. -/
theorem parseTable_decodes {jobj : Json} (fits : jobj.Fits) {conf conf' : AppConf} {ret : Int}
    (ran : parseTable items parseItem jobj conf = .ok (ret, conf')) :
    ret = 0 ∧ (∃ entries ps, jobj = array entries ∧ (∀ jsonEntry ∈ entries, ok jsonEntry) ∧
      ps.map view = entries.map decode ∧ conf' = conf.pushAll l ps) ∨ ret = -1 := by
  rcases check_eq_ok ran with refused | ⟨isArray, parsed⟩
  · exact .inr refused
  obtain ⟨entries, rfl⟩ := getType_eq_array_iff.mp (not_not.mp isArray)
  rw [arrayItems_eq fits] at parsed
  have step : ∀ done jsonEntry rest v code v', entries = done ++ jsonEntry :: rest →
      ((∀ e ∈ done, ok e) ∧ ∃ ps, ps.map view = done.map decode ∧ v = conf.pushAll l ps) →
      parseEntry items parseItem jsonEntry v = .ok (code, v') →
      code = 0 ∧ ((∀ e ∈ done ++ [jsonEntry], ok e) ∧
        ∃ ps, ps.map view = (done ++ [jsonEntry]).map decode ∧ v' = conf.pushAll l ps) ∨
      code = -1 := by
    rintro done jsonEntry rest _ code v' split ⟨before, ps, viewed, rfl⟩ one
    have inner := (fits_array.mp fits).2 jsonEntry
      (split ▸ List.mem_append_right done List.mem_cons_self)
    rcases parseEntry_pushes decodes inner one with ⟨zero, good, p, view', rfl⟩ | refused
    · rw [List.forall_mem_append, List.forall_mem_singleton]
      refine .inl ⟨zero, ⟨before, good⟩, ps ++ [p], ?_, ?_⟩
      · rw [List.map_append, List.map_append, viewed, List.map_singleton, List.map_singleton, view']
      · unfold AppConf.pushAll
        rw [List.foldl_append]
    · exact .inr refused
  have start : (∀ e ∈ ([] : List Json), ok e) ∧
      ∃ ps, ps.map view = ([] : List Json).map decode ∧ conf = conf.pushAll l ps :=
    ⟨fun _ none => absurd none List.not_mem_nil, [], rfl, rfl⟩
  rcases loop_rule step start parsed with ⟨zero, good, ps, viewed, rfl⟩ | refused
  · exact .inl ⟨zero, entries, ps, rfl, good, viewed, rfl⟩
  · exact .inr refused

/-- One round of the loop of `_json_parse_ressources`, and what is left to the rounds behind it: a
section that is missing is passed over. -/
theorem section_decodes {jsonRessources : Json} (fits : jsonRessources.Fits) {ressource : String}
    (round : ∀ jsonTab, jsonRessources.getEx ressource = some jsonTab → ∀ conf,
      parseRessource c jsonRessources ressource conf =
        parseTable items parseItem jsonTab conf >>= fun out =>
          if out.1 ≠ 0 then .ok (-1, out.2) else .ok (0, out.2))
    {rest : List String} {conf conf' : AppConf} {ret : Int}
    (ran : loop (parseRessource c jsonRessources) (ressource :: rest) conf = .ok (ret, conf')) :
    ((∀ jsonTab, jsonRessources.getEx ressource = some jsonTab → ArrayOf ok jsonTab) ∧
      ∃ ps, ps.map view = (entriesAt jsonRessources ressource).map decode ∧
        loop (parseRessource c jsonRessources) rest (conf.pushAll l ps) = .ok (ret, conf')) ∨
      ret = -1 := by
  unfold entriesAt arrayAt
  cases found : jsonRessources.getEx ressource with
  | none =>
    have passed : parseRessource c jsonRessources ressource conf = .ok (0, conf) := by
      unfold parseRessource
      rw [found]
      rfl
    rw [loop_cons_zero passed] at ran
    exact .inl ⟨fun _ missing => (by cases missing), [], rfl, ran⟩
  | some jsonTab =>
    rcases loop_cons_ok ran with ⟨middle, first, ran⟩ | ⟨leaves, first⟩
    · rw [round jsonTab found] at first
      rcases call_eq_ok first (fun _ => rfl) with refused | ⟨_, parsed, same⟩
      · exact absurd refused (by decide)
      cases same
      rcases parseTable_decodes decodes (fits.getEx found) parsed with
        ⟨_, entries, ps, rfl, good, viewed, rfl⟩ | refused
      · refine .inl ⟨fun jsonTab same => ?_, ps, viewed, ran⟩
        cases same
        exact ⟨entries, rfl, good⟩
      · exact absurd refused (by decide)
    · rw [round jsonTab found] at first
      rcases call_eq_ok first (fun _ => rfl) with refused | ⟨_, _, same⟩
      · exact .inr refused
      · cases same
        exact absurd rfl leaves

end Sections

/-! ### The document -/

/-- The sections of a document: where one is there, it is an array of entries. -/
def RessourcesOk (jsonRessources : Json) : Prop :=
  (∀ jsonTab, jsonRessources.getEx "pktpools" = some jsonTab →
    ArrayOf (EntryOk pktpoolItems) jsonTab) ∧
  (∀ jsonTab, jsonRessources.getEx "ethports" = some jsonTab → ArrayOf EthportOk jsonTab) ∧
  ∀ jsonTab, jsonRessources.getEx "rings" = some jsonTab → ArrayOf (EntryOk ringItems) jsonTab

/-- **A document with the required keys**, whose sections are arrays of objects. -/
def WellFormed (document : Json) : Prop :=
  ∃ jsonApp jsonRessources, document.getEx "app" = some jsonApp ∧
    (∀ item ∈ ["name", "core-mask", "memory-socket"], jsonApp.getEx item ≠ none) ∧
    jsonApp.getEx "ressources" = some jsonRessources ∧ RessourcesOk jsonRessources

/-- The application is the app manager, with integers for its mask and its socket. -/
structure Identified (jsonApp : Json) : Prop where
  name : ∃ name, jsonApp.getEx "name" = some (string name) ∧ cstr name = appName
  coreMask : ∃ mask, jsonApp.getEx "core-mask" = some (int mask)
  memorySocket : ∃ socket, jsonApp.getEx "memory-socket" = some (int socket)

/-- **What a document leaves behind**: its three lists, and what is read of them. -/
structure Loaded (jsonApp jsonRessources : Json) (conf : AppConf) : Prop where
  appName : conf.appName = some AppManager.appName
  coreMask : conf.coreMask = .ofInt (intAt c jsonApp "core-mask")
  memorySocket : conf.memorySocket = intAt c jsonApp "memory-socket"
  lists : ∃ contents : ∀ l, List (Conf l), Lists confLists conf.store contents ∧
    contents .pktPoolList = (entriesAt jsonRessources "pktpools").map (decodePktpool c) ∧
    (contents .ethPortList).map EthConf.read =
      (entriesAt jsonRessources "ethports").map (decodeEthport c) ∧
    contents .ringList = (entriesAt jsonRessources "rings").map (decodeRing c)
  counts : llCount .pktPoolList conf.store.links = (entriesAt jsonRessources "pktpools").length ∧
    llCount .ethPortList conf.store.links = (entriesAt jsonRessources "ethports").length ∧
    llCount .ringList conf.store.links = (entriesAt jsonRessources "rings").length

theorem parseJsonApp_reads {jsonApp : Json} {conf conf' : AppConf} {ret : Int}
    (ran : parseJsonApp c jsonApp conf = .ok (ret, conf')) :
    ret = 0 ∧ Identified jsonApp ∧ conf' = { conf with
      appName := some appName
      coreMask := .ofInt (intAt c jsonApp "core-mask")
      memorySocket := intAt c jsonApp "memory-socket" } ∨ ret = -1 := by
  unfold parseJsonApp at ran
  cases named : jsonApp.getEx "name" with
  | none =>
    rw [named] at ran
    cases ran
    exact .inr rfl
  | some jsonAppName =>
    simp only [named] at ran
    rcases check_eq_ok ran with refused | ⟨isString, ran⟩
    · exact .inr refused
    obtain ⟨name, rfl⟩ := getType_eq_string_iff.mp (not_not.mp isString)
    obtain ⟨order, compared, zero⟩ := strcmp_eq_zero appName (cstr name)
    simp only [getString, compared, ok_bind] at ran
    rcases check_eq_ok ran with refused | ⟨same, ran⟩
    · exact .inr refused
    cases mask : jsonApp.getEx "core-mask" with
    | none =>
      simp only [mask] at ran
      cases ran
      exact .inr rfl
    | some jsonCoreMask =>
      simp only [strdup, ok_bind, mask] at ran
      rcases check_eq_ok ran with refused | ⟨isInt, ran⟩
      · exact .inr refused
      obtain ⟨i, rfl⟩ := getType_eq_int_iff.mp (not_not.mp isInt)
      cases socket : jsonApp.getEx "memory-socket" with
      | none =>
        simp only [socket] at ran
        cases ran
        exact .inr rfl
      | some jsonMemorySocket =>
        simp only [socket] at ran
        rcases check_eq_ok ran with refused | ⟨isInt, set⟩
        · exact .inr refused
        obtain ⟨k, rfl⟩ := getType_eq_int_iff.mp (not_not.mp isInt)
        cases set
        refine .inl ⟨rfl, ⟨⟨name, named, ?_⟩, ⟨i, mask⟩, ⟨k, socket⟩⟩, ?_⟩
        · exact (zero.mp (not_not.mp same)).symm
        · rw [intAt, intAt, mask, socket, Option.elim_some, Option.elim_some]

/-- **The three sections.** -/
theorem jsonParseRessources_decodes {jsonRessources : Json} (fits : jsonRessources.Fits)
    {conf conf' : AppConf} {ret : Int}
    (ran : jsonParseRessources c jsonRessources conf = .ok (ret, conf')) :
    ret = 0 ∧ RessourcesOk jsonRessources ∧
      (∃ pools ports rings, pools = (entriesAt jsonRessources "pktpools").map (decodePktpool c) ∧
        ports.map EthConf.read = (entriesAt jsonRessources "ethports").map (decodeEthport c) ∧
        rings = (entriesAt jsonRessources "rings").map (decodeRing c) ∧
        conf' = ((conf.pushAll .pktPoolList pools).pushAll .ethPortList ports).pushAll
          .ringList rings) ∨ ret = -1 := by
  rcases section_decodes c (pktpool_decodes c) fits
    (fun _ found _ => by unfold parseRessource; rw [found]; rfl) ran with
    ⟨pktpools, pools, decodedPools, ran⟩ | refused
  · rcases section_decodes c (ethport_decodes c) fits
      (fun _ found _ => by unfold parseRessource; rw [found]; rfl) ran with
      ⟨ethports, ports, decodedPorts, ran⟩ | refused
    · rcases section_decodes c (ring_decodes c) fits
        (fun _ found _ => by unfold parseRessource; rw [found]; rfl) ran with
        ⟨rings, rings', decodedRings, ran⟩ | refused
      · cases ran
        rw [List.map_id] at decodedPools decodedRings
        exact .inl ⟨rfl, ⟨pktpools, ethports, rings⟩, pools, ports, rings', decodedPools,
          decodedPorts, decodedRings, rfl⟩
      · exact .inr refused
    · exact .inr refused
  · exact .inr refused

/-- The contents of the lists, by list. -/
def contentsOf (pools : List PktPoolConf) (ports : List EthConf) (rings : List RingConf) :
    ∀ l, List (Conf l)
  | .ethPortList => ports
  | .pktPoolList => pools
  | .ringList => rings

/-- **The three sections fill the three lists.** -/
theorem pushAll_lists {conf : AppConf} (empty : Lists confLists conf.store fun _ => [])
    (pools : List PktPoolConf) (ports : List EthConf) (rings : List RingConf) :
    Lists confLists (((conf.pushAll .pktPoolList pools).pushAll .ethPortList ports).pushAll
      .ringList rings).store (contentsOf pools ports rings) := by
  have first := empty.pushAll (mem_confLists .pktPoolList) pools
  have second := first.pushAll (mem_confLists .ethPortList) ports
  have third := second.pushAll (mem_confLists .ringList) rings
  refine Eq.mp (congrArg (Lists confLists _) ?_) third
  funext l
  cases l <;> rfl

/-- A section has no more entries than an `int` can count. -/
theorem entriesAt_short {jsonRessources : Json} (fits : jsonRessources.Fits) (ressource : String) :
    (entriesAt jsonRessources ressource).length < 2 ^ 31 := by
  unfold entriesAt
  cases found : jsonRessources.arrayAt ressource with
  | none => decide
  | some entries => exact (fits_array.mp (fits.arrayAt found)).1

/-- The counts of the lists are the numbers of entries. -/
theorem lists_count {jsonRessources : Json} (fits : jsonRessources.Fits) {conf : AppConf}
    {ports : List EthConf}
    (lists : Lists confLists conf.store (contentsOf
      ((entriesAt jsonRessources "pktpools").map (decodePktpool c)) ports
      ((entriesAt jsonRessources "rings").map (decodeRing c))))
    (decodedPorts : ports.map EthConf.read =
      (entriesAt jsonRessources "ethports").map (decodeEthport c)) :
    llCount .pktPoolList conf.store.links = (entriesAt jsonRessources "pktpools").length ∧
      llCount .ethPortList conf.store.links = (entriesAt jsonRessources "ethports").length ∧
      llCount .ringList conf.store.links = (entriesAt jsonRessources "rings").length := by
  have count : ∀ l ressource,
      (contentsOf ((entriesAt jsonRessources "pktpools").map (decodePktpool c)) ports
        ((entriesAt jsonRessources "rings").map (decodeRing c)) l).length =
          (entriesAt jsonRessources ressource).length →
      llCount l conf.store.links = (entriesAt jsonRessources ressource).length := by
    intro l ressource length
    have short := entriesAt_short fits ressource
    rw [← length] at short ⊢
    exact lists.count (mem_confLists l) short
  refine ⟨count _ _ (List.length_map _), count _ _ ?_, count _ _ (List.length_map _)⟩
  have lengths := congrArg List.length decodedPorts
  rwa [List.length_map, List.length_map] at lengths

theorem Identified.keys {jsonApp : Json} (known : Identified jsonApp) :
    ∀ item ∈ ["name", "core-mask", "memory-socket"], jsonApp.getEx item ≠ none := by
  obtain ⟨name, named, _⟩ := known.name
  obtain ⟨mask, masked⟩ := known.coreMask
  obtain ⟨socket, placed⟩ := known.memorySocket
  simp [named, masked, placed]

/-- A document that is not refused. -/
theorem jsonParse_loads (document : Document) {conf conf' : AppConf} {ret : Int}
    (empty : Lists confLists conf.store fun _ => [])
    (ran : jsonParse c document.root conf = .ok (ret, conf')) :
    ret = 0 ∧ (∃ jsonApp jsonRessources, document.root.getEx "app" = some jsonApp ∧
      Identified jsonApp ∧ jsonApp.getEx "ressources" = some jsonRessources ∧
      RessourcesOk jsonRessources ∧ Loaded c jsonApp jsonRessources conf') ∨ ret = -1 := by
  rcases check_eq_ok ran with refused | ⟨_, ran⟩
  · exact .inr refused
  cases app : document.root.getEx "app" with
  | none =>
    simp only [app] at ran
    cases ran
    exact .inr rfl
  | some jsonApp =>
    simp only [app] at ran
    rcases call_eq_ok ran (fun _ => rfl) with refused | ⟨_, read, ran⟩
    · exact .inr refused
    rcases parseJsonApp_reads c read with ⟨_, known, rfl⟩ | refused
    · cases found : jsonApp.getEx "ressources" with
      | none =>
        simp only [found] at ran
        cases ran
        exact .inr rfl
      | some jsonRessources =>
        simp only [found] at ran
        rcases call_eq_ok ran (fun _ => rfl) with refused | ⟨_, parsed, same⟩
        · exact .inr refused
        cases same
        have fits := (document.fits.getEx app).getEx found
        rcases jsonParseRessources_decodes c fits parsed with
          ⟨_, good, pools, ports, rings, rfl, decodedPorts, rfl, rfl⟩ | refused
        · have lists := pushAll_lists empty ((entriesAt jsonRessources "pktpools").map
            (decodePktpool c)) ports ((entriesAt jsonRessources "rings").map (decodeRing c))
          exact .inl ⟨rfl, jsonApp, jsonRessources, rfl, known, found, good, rfl, rfl, rfl,
            ⟨_, lists, rfl, decodedPorts, rfl⟩, lists_count c fits lists decodedPorts⟩
        · exact absurd refused (by decide)
    · exact absurd refused (by decide)

/-- **A document is decoded**: whenever `_json_parse` returns 0 behind `_init_conf`, the application
is identified and its lists hold what the entries stand for, whatever the memory held; and whenever
it returns on a document that is not well-formed, it returns -1. -/
theorem jsonParse_decodes (document : Document) {conf conf' : AppConf} {ret : Int}
    (ran : jsonParse c document.root (initConf conf) = .ok (ret, conf')) :
    (ret = 0 → ∃ jsonApp jsonRessources, document.root.getEx "app" = some jsonApp ∧
      Identified jsonApp ∧ jsonApp.getEx "ressources" = some jsonRessources ∧
      Loaded c jsonApp jsonRessources conf') ∧
    (¬ WellFormed document.root → ret = -1) := by
  have empty : Lists confLists (initConf conf).store fun _ => [] :=
    Lists.init conf.store confLists
  rcases jsonParse_loads c document empty ran with
    ⟨_, jsonApp, jsonRessources, app, known, found, good, loaded⟩ | rfl
  · refine ⟨fun _ => ⟨jsonApp, jsonRessources, app, known, found, loaded⟩, fun bad => ?_⟩
    exact absurd ⟨jsonApp, jsonRessources, app, known.keys, found, good⟩ bad
  · exact ⟨fun zero => absurd zero (by decide), fun _ => rfl⟩

/-- Two pools, one port with a queue to receive from, and two rings. -/
def onePort : Document where
  root := .object [("app", .object [("name", .string "app_manager"), ("core-mask", .int 7),
    ("memory-socket", .int 1), ("ressources", .object [
      ("pktpools", .array [.object [("name", .string "pool"), ("private_size", .int 64),
        ("data_room_size", .int 2176), ("cache_size", .int 32), ("socket_id", .int 1),
        ("size", .int 8191)], .object [("name", .string "small"), ("private_size", .int 16),
        ("data_room_size", .int 256), ("cache_size", .int 8), ("socket_id", .int 0),
        ("size", .int 511)]]),
      ("ethports", .array [.object [("port-id", .int 3), ("promisc", .boolean true),
        ("rx-queues", .array [.object [("q-id", .int 5), ("pktpool-name", .string "pool")]]),
        ("tx-queues", .array [])]]),
      ("rings", .array [.object [("name", .string "in"), ("size", .int 1024),
        ("single_producer", .boolean true), ("single_consumer", .boolean false),
        ("socket_id", .int 1)], .object [("name", .string "out"), ("size", .int 512),
        ("single_producer", .boolean true), ("single_consumer", .boolean true),
        ("socket_id", .int 0)]])])])]
  fits := by simp

/-- A configuration in memory that holds something everywhere. -/
def usedConf : AppConf where
  appName := some "old"
  coreMask := 1
  memorySocket := 4
  store := ⟨⟨fun _ => some 9, fun _ => some 9, fun _ => some 9, fun _ => some 9, fun _ => 9⟩,
    fun l _ => match l with
      | .ethPortList => ⟨9, 9, 9, 9, [{}], [{}]⟩
      | .pktPoolList => ⟨some "old", 9, 9, 9, 9, 9⟩
      | .ringList => ⟨some "old", 9, 9, 9, 9⟩, 0⟩

theorem jsonParse_decodes_one :
    ∃ conf, jsonParse namesC onePort.root (initConf usedConf) = .ok (0, conf) ∧
      conf.coreMask = 7 ∧ ∃ contents : ∀ l, List (Conf l), Lists confLists conf.store contents ∧
        contents .pktPoolList =
          [⟨some "pool", 8191, 32, 64, 2176, 1⟩, ⟨some "small", 511, 8, 16, 256, 0⟩] ∧
        (contents .ethPortList).map EthConf.read =
          [⟨3, 1, 1, 0, [], [{ qId := 5, pktPoolName := some "pool" }]⟩] ∧
        contents .ringList = [⟨some "in", 1024, 1, 0, 1⟩, ⟨some "out", 512, 1, 1, 0⟩] := by
  obtain ⟨conf, ran⟩ : ∃ conf, jsonParse namesC onePort.root (initConf usedConf) = .ok (0, conf) :=
    ⟨_, rfl⟩
  obtain ⟨jsonApp, jsonRessources, app, _, found, loaded⟩ :=
    (jsonParse_decodes namesC onePort ran).1 rfl
  cases app
  cases found
  obtain ⟨contents, lists, pools, ports, rings⟩ := loaded.lists
  exact ⟨conf, ran, loaded.coreMask, contents, lists, pools, ports, rings⟩

/-- The document can be parsed. -/
theorem onePort_parses :
    ∃ conf, appConfParseFile namesC onePort usedConf = .ok (0, conf) := ⟨_, rfl⟩

end Decoding

end CyberPlatform.AppManager
