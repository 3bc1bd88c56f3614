/-
**`app_manager/app_conf.c`: from a document to the lists of pools, ports and rings.**

The element of a list and the structure it points to are one structure of the list store, and a
queue array is a list of queues. None of the structures is cleared: what `malloc` returns for them
is what the store holds at a fresh address. Only the queue arrays are cleared.

The three section parsers differ in their keys and in what they do with the value of a key:
`parseTable` is what they share. `INFO_LOG` is a `do … while(0)`, so the `continue` that is given to
it for a missing section goes on behind it, with `ret = 0` (`parseRessource`).
-/

import CyberPlatform.Common.Json
import CyberPlatform.Common.LList.Store
import CyberPlatform.Foundation.FixedArray

namespace CyberPlatform.AppManager

open Foundation Json LList

/-! ### The configuration -/

/-- `pkt_pool_conf_t` -/
structure PktPoolConf where
  name : Option String
  size : Int
  cacheSize : Int
  privSize : Int
  dataRoomSize : Int
  socketId : Int
  deriving DecidableEq, Repr

/-- `ring_conf_t` -/
structure RingConf where
  name : Option String
  size : Int
  singleProducer : Int
  singleConsumer : Int
  socketId : Int
  deriving DecidableEq, Repr

/-- `eth_q_t`; the defaults are what `memset` leaves. -/
structure EthQ where
  socketId : Int := 0
  qId : Int := 0
  nbDesc : Int := 0
  pktPoolName : Option String := none
  deriving DecidableEq, Repr

/-- `eth_conf_t` -/
structure EthConf where
  portId : Int
  promisc : Int
  nbRxQ : Int
  nbTxQ : Int
  txQueues : List EthQ
  rxQueues : List EthQ
  deriving DecidableEq, Repr

/-- The list headers of `app_conf_t`. -/
inductive ConfList where
  | ethPortList | pktPoolList | ringList
  deriving DecidableEq, Repr

def confLists : List ConfList := [.ethPortList, .pktPoolList, .ringList]

theorem mem_confLists (list : ConfList) : list ∈ confLists := by cases list <;> decide

/-- The structures of a list. -/
abbrev Conf : ConfList → Type
  | .ethPortList => EthConf
  | .pktPoolList => PktPoolConf
  | .ringList => RingConf

/-- `app_conf_t`, and the memory of its lists. -/
structure AppConf where
  appName : Option String
  coreMask : UInt64
  memorySocket : Int
  store : Store ConfList Conf

/-- `APP_NAME` -/
def appName : String := "app_manager"

/-- `_init_conf` -/
def initConf (pConf : AppConf) : AppConf :=
  let links := llInit .ethPortList pConf.store.links
  let links := llInit .pktPoolList links
  let links := llInit .ringList links
  { pConf with store := { pConf.store with links := links } }

/-! ### A section -/

section Table

variable {l : ConfList} (items : List String)
  (parseItem : String → Json → Conf l → Except Trap (Int × Conf l))

/-- The body of the loop over the keys of an entry: every key is required. -/
def parseKey (jsonEntry : Json) (item : String) (conf : Conf l) : Except Trap (Int × Conf l) :=
  match jsonEntry.getEx item with
  | none => .ok (-1, conf)
  | some jsonVal => parseItem item jsonVal conf

/-- The body of the loop over the entries of a section. -/
def parseEntry (jsonEntry : Json) (conf : AppConf) : Except Trap (Int × AppConf) := do
  if jsonEntry.getType ≠ .object then return (-1, conf)
  let pElem := conf.store.fresh
  let store := conf.store.alloc
  let (ret, p) ← loop (parseKey parseItem jsonEntry) items (store.payload l pElem)
  let store := store.write l pElem p
  if ret ≠ 0 then return (-1, { conf with store := store })
  -- and push the element
  return (0, { conf with store := store.link l pElem })

/-- What the parsers of the three sections share. -/
def parseTable (jobj : Json) (conf : AppConf) : Except Trap (Int × AppConf) :=
  if jobj.getType ≠ .array then .ok (-1, conf)
  else loop (parseEntry items parseItem) jobj.arrayItems conf

end Table

section Parser

variable (c : JsonC)

/-! ### Packet pools -/

def pktpoolItems : List String :=
  ["name", "private_size", "data_room_size", "cache_size", "socket_id", "size"]

/-- What `_parse_pktpools` does with the value of a key. -/
def parsePktpoolItem (item : String) (jsonVal : Json) (pktPool : PktPoolConf) :
    Except Trap (Int × PktPoolConf) := do
  if item = "name" then
    return (0, { pktPool with name := ← strdup (getString c jsonVal) })
  else if item = "private_size" then
    return (0, { pktPool with privSize := getInt c jsonVal })
  else if item = "data_room_size" then
    return (0, { pktPool with dataRoomSize := getInt c jsonVal })
  else if item = "cache_size" then
    return (0, { pktPool with cacheSize := getInt c jsonVal })
  else if item = "socket_id" then
    return (0, { pktPool with socketId := getInt c jsonVal })
  else if item = "size" then
    return (0, { pktPool with size := getInt c jsonVal })
  else return (0, pktPool)

/-- `_parse_pktpools` -/
def parsePktpools (jobj : Json) (conf : AppConf) : Except Trap (Int × AppConf) :=
  parseTable (l := .pktPoolList) pktpoolItems (parsePktpoolItem c) jobj conf

/-! ### Ports -/

def qItems : List String := ["q-id", "nb-desc", "pktpool-name", "socket-id"]

section Queues

variable {n : Nat}

/-- The body of the loop over the keys of a queue: no key is required. -/
def parseQItem (jsonQObj : Json) (i : Nat) (item : String) (pEthQ : Vector EthQ n) :
    Except Trap (Int × Vector EthQ n) :=
  match jsonQObj.getEx item with
  | none => return (0, pEthQ)
  | some jsonQItem => do
    let type := jsonQItem.getType
    if item = "q-id" then
      if type ≠ .int then return (-1, pEthQ)
      return (0, ← modify pEthQ i fun q => { q with qId := getInt c jsonQItem })
    else if item = "nb-desc" then
      if type ≠ .int then return (-1, pEthQ)
      return (0, ← modify pEthQ i fun q => { q with nbDesc := getInt c jsonQItem })
    else if item = "pktpool-name" then
      if type ≠ .string then return (-1, pEthQ)
      let name ← strdup (getString c jsonQItem)
      return (0, ← modify pEthQ i fun q => { q with pktPoolName := name })
    else if item = "socket-id" then
      if type ≠ .int then return (-1, pEthQ)
      return (0, ← modify pEthQ i fun q => { q with socketId := getInt c jsonQItem })
    else return (0, pEthQ)

/-- The body of the loop over the queues. -/
def parseEthQueue (jsonQArray : Json) (i : Nat) (pEthQ : Vector EthQ n) :
    Except Trap (Int × Vector EthQ n) :=
  let jsonQObj := jsonQArray.arrayGetIdx i
  if jsonQObj.getType ≠ .object then .ok (-1, pEthQ)
  else loop (parseQItem c jsonQObj i) qItems pEthQ

/-- `_parse_eth_queues` -/
def parseEthQueues (jsonQArray : Json) (pEthQ : Vector EthQ n) (nbQ : Int) :
    Except Trap (Int × Vector EthQ n) :=
  if jsonQArray.getType ≠ .array then .ok (-1, pEthQ)
  else loop (parseEthQueue c jsonQArray) (List.range nbQ.toNat) pEthQ

end Queues

/-- A queue array that is allocated, cleared and parsed. -/
def newEthQueues (jsonVal : Json) (nbQ : Int) : Except Trap (Int × List EthQ) := do
  let (ret, queues) ← parseEthQueues c jsonVal (Vector.replicate nbQ.toNat {}) nbQ
  return (ret, queues.toList)

def ethportItems : List String := ["promisc", "port-id", "tx-queues", "rx-queues"]

/-- What `_parse_ethports` does with the value of a key. -/
def parseEthportItem (item : String) (jsonVal : Json) (ethPort : EthConf) :
    Except Trap (Int × EthConf) := do
  let type := jsonVal.getType
  if item = "port-id" then
    if type ≠ .int then return (-1, ethPort)
    return (0, { ethPort with portId := getInt c jsonVal })
  else if item = "promisc" then
    if type ≠ .boolean then return (-1, ethPort)
    return (0, { ethPort with promisc := getBoolean jsonVal })
  else if item = "tx-queues" then
    if type ≠ .array then return (-1, ethPort)
    let nbTxQ := int32 jsonVal.arrayLength
    if nbTxQ = 0 then return (0, { ethPort with nbTxQ := nbTxQ })
    let (ret, queues) ← newEthQueues c jsonVal nbTxQ
    let ethPort := { ethPort with nbTxQ := nbTxQ, txQueues := queues }
    if ret ≠ 0 then return (-1, ethPort)
    return (0, ethPort)
  else if item = "rx-queues" then
    if type ≠ .array then return (-1, ethPort)
    let nbRxQ := int32 jsonVal.arrayLength
    if nbRxQ = 0 then return (0, { ethPort with nbRxQ := nbRxQ })
    let (ret, queues) ← newEthQueues c jsonVal nbRxQ
    let ethPort := { ethPort with nbRxQ := nbRxQ, rxQueues := queues }
    if ret ≠ 0 then return (-1, ethPort)
    return (0, ethPort)
  else return (0, ethPort)

/-- `_parse_ethports` -/
def parseEthports (jobj : Json) (conf : AppConf) : Except Trap (Int × AppConf) :=
  parseTable (l := .ethPortList) ethportItems (parseEthportItem c) jobj conf

/-! ### Rings -/

def ringItems : List String := ["socket_id", "single_consumer", "single_producer", "size", "name"]

/-- What `_parse_rings` does with the value of a key. -/
def parseRingItem (item : String) (jsonVal : Json) (ring : RingConf) :
    Except Trap (Int × RingConf) := do
  if item = "name" then
    return (0, { ring with name := ← strdup (getString c jsonVal) })
  else if item = "size" then
    return (0, { ring with size := getInt c jsonVal })
  else if item = "socket_id" then
    return (0, { ring with socketId := getInt c jsonVal })
  else if item = "single_consumer" then
    return (0, { ring with singleConsumer := getBoolean jsonVal })
  else if item = "single_producer" then
    return (0, { ring with singleProducer := getBoolean jsonVal })
  else return (0, ring)

/-- `_parse_rings` -/
def parseRings (jobj : Json) (conf : AppConf) : Except Trap (Int × AppConf) :=
  parseTable (l := .ringList) ringItems (parseRingItem c) jobj conf

/-! ### The document -/

/-- `_parse_json_app` -/
def parseJsonApp (jobj : Json) (conf : AppConf) : Except Trap (Int × AppConf) := do
  match jobj.getEx "name" with
  | none => return (-1, conf)
  | some jsonAppName =>
  if jsonAppName.getType ≠ .string then return (-1, conf)
  if (← strcmp (some appName) (getString c jsonAppName)) ≠ 0 then return (-1, conf)
  let conf := { conf with appName := ← strdup (some appName) }
  match jobj.getEx "core-mask" with
  | none => return (-1, conf)
  | some jsonCoreMask =>
  if jsonCoreMask.getType ≠ .int then return (-1, conf)
  let conf := { conf with coreMask := .ofInt (getInt c jsonCoreMask) }
  match jobj.getEx "memory-socket" with
  | none => return (-1, conf)
  | some jsonMemorySocket =>
  if jsonMemorySocket.getType ≠ .int then return (-1, conf)
  return (0, { conf with memorySocket := getInt c jsonMemorySocket })

def ressources : List String := ["pktpools", "ethports", "rings"]

/-- The body of the loop of `_json_parse_ressources`. -/
def parseRessource (jsonRessources : Json) (ressource : String) (conf : AppConf) :
    Except Trap (Int × AppConf) := do
  let (ret, conf) ← match jsonRessources.getEx ressource with
    -- no parser is called as `ret` is 0
    | none => pure (0, conf)
    | some jsonTab =>
      if ressource = "pktpools" then parsePktpools c jsonTab conf
      else if ressource = "ethports" then parseEthports c jsonTab conf
      else if ressource = "rings" then parseRings c jsonTab conf
      else pure (1, conf)
  if ret ≠ 0 then return (-1, conf)
  return (0, conf)

/-- `_json_parse_ressources` -/
def jsonParseRessources (jsonRessources : Json) (conf : AppConf) : Except Trap (Int × AppConf) :=
  loop (parseRessource c jsonRessources) ressources conf

/-- `_json_parse`, of what `json_tokener_parse` returns for the buffer. -/
def jsonParse (jobj : Json) (conf : AppConf) : Except Trap (Int × AppConf) := do
  if jobj.getType = .null then return (-1, conf)
  match jobj.getEx "app" with
  | none => return (-1, conf)
  | some jsonApp =>
  let (ret, conf) ← parseJsonApp c jsonApp conf
  if ret ≠ 0 then return (-1, conf)
  match jsonApp.getEx "ressources" with
  | none => return (-1, conf)
  | some jsonRessources =>
  let (ret, conf) ← jsonParseRessources c jsonRessources conf
  if ret ≠ 0 then return (-1, conf)
  return (0, conf)

/-- `APP_CONF_parse_file` of a file that can be read, with `_parse_elements`. -/
def appConfParseFile (document : Document) (conf : AppConf) : Except Trap (Int × AppConf) := do
  let conf := initConf conf
  let (err, conf) ← jsonParse c document.root conf
  if err ≠ 0 then return (-1, conf)
  return (0, conf)

end Parser

end CyberPlatform.AppManager
