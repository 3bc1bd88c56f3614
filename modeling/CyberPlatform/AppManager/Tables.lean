/-
**The tables of `app_manager`: how they are filled.**

`_alloc_pkt_pools` and `_alloc_rings` take the size of their table from the count of a list, and
fill it from a callback that is called along the links of the list.

* `attempts calls objects` — the calls up to the first one that fails, if the objects are those of
  the others.
* `loop_fills` — the calls fill a table that has room for them.
* `allocObjects_fills` — a table that is allocated for a list has.
* `tables_filled` — both tables, for every configuration that has been parsed, by the calls that the
  entries of its document ask for (`poolAsked`, `ringAsked`).
-/

import CyberPlatform.AppManager.Startup
import CyberPlatform.AppManager.Trace

namespace CyberPlatform.AppManager

open Foundation Json LList

/-! ### The calls up to the first failure -/

/-- **The calls are made in their order**, as many with success as there are objects; the next one
fails, and is the last one. -/
def attempts : List Call → List Object → List Event
  | [], _ => []
  | call :: _, [] => [⟨call, .object none⟩]
  | call :: calls, address :: objects =>
    ⟨call, .object (some address)⟩ :: attempts calls objects

/-- None of the calls fails exactly when there are as many objects as calls. -/
theorem attempts_succeed {calls : List Call} : ∀ {objects : List Object},
    objects.length ≤ calls.length →
    ((∀ e ∈ attempts calls objects, e.reply ≠ .object none) ↔ objects.length = calls.length) := by
  induction calls with
  | nil =>
    intro objects few
    exact iff_of_true (fun e member => absurd member List.not_mem_nil) (Nat.le_zero.mp few)
  | cons call calls ih =>
    intro objects few
    cases objects with
    | nil =>
      refine iff_of_false (fun succeed => ?_) (fun same => by cases same)
      exact succeed _ (List.mem_singleton_self _) rfl
    | cons address objects =>
      rw [attempts, List.forall_mem_cons, ih (Nat.le_of_succ_le_succ few), List.length_cons,
        List.length_cons, Nat.succ_inj]
      exact and_iff_right_of_imp fun _ same => by cases same

/-- An object is the reply to the call in its place. -/
theorem attempts_at {objects : List Object} : ∀ {calls : List Call} {i : Nat},
    objects.length ≤ calls.length → i < objects.length →
    ∃ call address, calls[i]? = some call ∧ objects[i]? = some address ∧
      (attempts calls objects)[i]? = some ⟨call, .object (some address)⟩ := by
  induction objects with
  | nil => exact fun _ inside => absurd inside (Nat.not_lt_zero _)
  | cons address objects ih =>
    intro calls i few inside
    cases calls with
    | nil => exact absurd few (Nat.not_succ_le_zero _)
    | cons call calls =>
      cases i with
      | zero => exact ⟨call, address, rfl, rfl, rfl⟩
      | succ i => exact ih (Nat.le_of_succ_le_succ few) (Nat.lt_of_succ_lt_succ inside)

section Tables

variable (dpdk : Dpdk)

/-- Some events are calls behind a trace, with the replies of dpdk. -/
def Answered (trace seg : List Event) : Prop :=
  ∀ before e after, seg = before ++ e :: after →
    e.reply = .object (dpdk.created (trace ++ before) e.call)

theorem answered_nil (trace : List Event) : Answered dpdk trace [] := by
  intro before e after split
  exact absurd split.symm (List.append_ne_nil_of_right_ne_nil _ (List.cons_ne_nil _ _))

theorem answered_cons {trace seg : List Event} {e : Event}
    (first : e.reply = .object (dpdk.created trace e.call))
    (rest : Answered dpdk (trace ++ [e]) seg) : Answered dpdk trace (e :: seg) := by
  intro before other after split
  cases before with
  | nil =>
    obtain ⟨rfl, _⟩ := List.cons.inj split
    rw [List.append_nil]
    exact first
  | cons e' before =>
    obtain ⟨rfl, behind⟩ := List.cons.inj split
    rw [← List.singleton_append, ← List.append_assoc]
    exact rest before other after behind

/-- **Some calls are made up to the first failure**, with the replies of dpdk. The value is 0
exactly when none has failed. -/
structure Attempted (calls : List Call) (trace : List Event) (ret : Int) (trace' : List Event)
    (objects : List Object) : Prop where
  few : objects.length ≤ calls.length
  made : trace' = trace ++ attempts calls objects
  answered : Answered dpdk trace (attempts calls objects)
  value : ret = 0 ↔ ∀ e ∈ attempts calls objects, e.reply ≠ .object none

/-- The value is 0 exactly when all calls have been made with success. -/
theorem Attempted.value_iff {calls : List Call} {trace trace' : List Event} {ret : Int}
    {objects : List Object} (attempted : Attempted dpdk calls trace ret trace' objects) :
    ret = 0 ↔ objects.length = calls.length :=
  attempted.value.trans (attempts_succeed attempted.few)

/-! ### Filling a table -/

variable (kind : Kind)

/-- **What some calls have made of a table**: the objects are in the slots behind those that were in
use, in their order, and are counted. -/
structure Filled (calls : List Call) (run : Run) (ret : Int) (run' : Run)
    (objects : List Object) : Prop
    extends Attempted dpdk calls run.trace ret run'.trace objects where
  slots : (run'.tables kind).slots = (run.tables kind).slots
  count : (run'.tables kind).count = (run.tables kind).count + objects.length
  kept : ∀ i, i < (run.tables kind).count → (run'.tables kind).tab[i]? = (run.tables kind).tab[i]?
  filled : ∀ (i : Nat) (address : Object), objects[i]? = some address →
    (run'.tables kind).tab[(run.tables kind).count + i]? = some (some address)
  others : ∀ other, other ≠ kind → run'.tables other = run.tables other

/-- No call is made. -/
theorem Filled.nil (run : Run) : Filled dpdk kind [] run 0 run [] where
  few := le_rfl
  made := (List.append_nil _).symm
  answered := answered_nil dpdk _
  value := iff_of_true rfl fun e member => absurd member List.not_mem_nil
  slots := rfl
  count := rfl
  kept := fun _ _ => rfl
  filled := by
    intro i address found
    cases found
  others := fun _ _ => rfl

/-- A call that fails is the last one. -/
theorem Filled.fails {call : Call} (calls : List Call) {run : Run}
    (room : (run.tables kind).count < (run.tables kind).slots)
    (refused : dpdk.created run.trace call = none) :
    ∃ run', allocObject dpdk kind call run = .ok (-1, run') ∧
      Filled dpdk kind (call :: calls) run (-1) run' [] := by
  have step := allocObject_eq dpdk kind call run room
  rw [refused] at step
  refine ⟨_, step, ?_⟩
  constructor
  case toAttempted =>
    constructor
    case few => exact Nat.zero_le _
    case made => rfl
    case answered =>
      apply answered_cons dpdk _ (answered_nil dpdk _)
      exact congrArg Reply.object refused.symm
    case value =>
      refine iff_of_false (by decide) fun succeed => ?_
      exact succeed _ (List.mem_singleton_self _) rfl
  case slots => rw [Run.setTable_tables]
  case count => rw [Run.setTable_tables]; rfl
  case kept =>
    intro i inUse
    rw [Run.setTable_tables]
    exact Vector.getElem?_set_ne room (Nat.ne_of_gt inUse)
  case filled =>
    intro i address found
    cases found
  case others => exact fun other different => Run.setTable_others _ _ different

/-- A call that succeeds fills the next slot. -/
theorem Filled.succeeds {call : Call} {run : Run} {address : Object}
    (room : (run.tables kind).count < (run.tables kind).slots)
    (created : dpdk.created run.trace call = some address) :
    ∃ run', allocObject dpdk kind call run = .ok (0, run') ∧
      Filled dpdk kind [call] run 0 run' [address] := by
  have step := allocObject_eq dpdk kind call run room
  rw [created] at step
  refine ⟨_, step, ?_⟩
  constructor
  case toAttempted =>
    constructor
    case few => exact le_rfl
    case made => rfl
    case answered =>
      apply answered_cons dpdk _ (answered_nil dpdk _)
      exact congrArg Reply.object created.symm
    case value =>
      refine iff_of_true rfl (List.forall_mem_singleton.mpr ?_)
      exact fun same => by cases same
  case slots => rw [Run.setTable_tables]
  case count => rw [Run.setTable_tables]; rfl
  case kept =>
    intro i inUse
    rw [Run.setTable_tables]
    exact Vector.getElem?_set_ne room (Nat.ne_of_gt inUse)
  case filled =>
    intro i address' found
    cases i with
    | zero =>
      obtain rfl := Option.some.inj found
      rw [Run.setTable_tables]
      exact Vector.getElem?_set_self room
    | succ i => cases found
  case others => exact fun other different => Run.setTable_others _ _ different

/-- The other calls go on behind it. -/
theorem Filled.cons {call : Call} {calls : List Call} {run middle run' : Run} {ret : Int}
    {address : Object} {objects : List Object}
    (first : Filled dpdk kind [call] run 0 middle [address])
    (rest : Filled dpdk kind calls middle ret run' objects) :
    Filled dpdk kind (call :: calls) run ret run' (address :: objects) := by
  have traced : middle.trace = run.trace ++ [⟨call, .object (some address)⟩] := first.made
  have counted : (middle.tables kind).count = (run.tables kind).count + 1 := first.count
  constructor
  case toAttempted =>
    constructor
    case few => exact Nat.succ_le_succ rest.few
    case made =>
      rw [rest.made, traced, List.append_assoc]
      rfl
    case answered =>
      apply answered_cons dpdk
      · have reply := first.answered [] _ [] rfl
        rw [List.append_nil] at reply
        exact reply
      · rw [← traced]
        exact rest.answered
    case value =>
      rw [rest.value, attempts, List.forall_mem_cons]
      exact (and_iff_right fun same => by cases same).symm
  case slots => rw [rest.slots, first.slots]
  case count =>
    rw [rest.count, counted, List.length_cons]
    omega
  case kept =>
    intro i inUse
    rw [rest.kept i (by omega), first.kept i inUse]
  case filled =>
    intro i address' found
    cases i with
    | zero =>
      obtain rfl := Option.some.inj found
      rw [rest.kept _ (by omega)]
      exact first.filled 0 address rfl
    | succ i =>
      have later := rest.filled i address' found
      rw [counted, Nat.add_assoc, Nat.add_comm 1 i] at later
      exact later
  case others =>
    intro other different
    rw [rest.others other different, first.others other different]

/-- **The calls fill a table that has room for them**, without an access outside of it. -/
theorem loop_fills (calls : List Call) : ∀ (run : Run),
    (run.tables kind).count + calls.length ≤ (run.tables kind).slots →
    ∃ ret run' objects, loop (allocObject dpdk kind) calls run = .ok (ret, run') ∧
      Filled dpdk kind calls run ret run' objects := by
  induction calls with
  | nil => exact fun run _ => ⟨0, run, [], rfl, .nil dpdk kind run⟩
  | cons call calls ih =>
    intro run room
    rw [List.length_cons] at room
    have inside : (run.tables kind).count < (run.tables kind).slots := by omega
    cases reply : dpdk.created run.trace call with
    | none =>
      obtain ⟨run', step, filled⟩ := Filled.fails dpdk kind calls inside reply
      exact ⟨-1, run', [], loop_cons_leaves step (by decide) calls, filled⟩
    | some address =>
      obtain ⟨middle, step, first⟩ := Filled.succeeds dpdk kind inside reply
      have counted : (middle.tables kind).count = (run.tables kind).count + 1 := first.count
      have left := first.slots
      obtain ⟨ret, run', objects, ran, rest⟩ := ih middle (by omega)
      exact ⟨ret, run', address :: objects, (loop_cons_zero step calls).trans ran,
        first.cons dpdk kind rest⟩

/-! ### The tables of a configuration -/

/-- **What allocating a table comes to**: it has a slot for each call, the calls are made in their
order up to the first failure, the objects that are created are counted, each in the slot of its
call, and the value is 0 exactly when there is one for every call. -/
structure Allocated (calls : List Call) (run : Run) (ret : Int) (run' : Run)
    (objects : List Object) : Prop
    extends Attempted dpdk calls run.trace ret run'.trace objects where
  whole : ret = 0 ↔ objects.length = calls.length
  slots : (run'.tables kind).slots = calls.length
  count : (run'.tables kind).count = objects.length
  filled : ∀ i < (run'.tables kind).count, ∃ call address, calls[i]? = some call ∧
    (attempts calls objects)[i]? = some ⟨call, .object (some address)⟩ ∧
    (run'.tables kind).tab[i]? = some (some address)
  others : ∀ other, other ≠ kind → run'.tables other = run.tables other

/-- **A table that is allocated for a list** has room for an object of each of its elements. -/
theorem allocObjects_fills {conf : AppConf} {contents : ∀ l, List (Conf l)}
    (lists : Lists confLists conf.store contents) {list : ConfList} {step : Conf list → Step}
    {call : Conf list → Call}
    (same : ∀ p run, allocObject dpdk kind (call p) run = doStep dpdk (step p) run)
    (size : (llCount list conf.store.links).toNat = (contents list).length) (run : Run) :
    ∃ ret run' objects,
      allocObjects kind list (fun p => allocObject dpdk kind (call p)) conf run = .ok (ret, run') ∧
      Allocated dpdk kind ((contents list).map call) run ret run' objects := by
  have steps : allocObjects kind list (fun p => allocObject dpdk kind (call p)) conf run = _ :=
    allocObjects_eq dpdk lists same size run
  have table : doStep dpdk (.table kind (contents list).length) run =
    .ok (0, run.setTable kind ⟨(contents list).length, .replicate _ none, 0⟩) := rfl
  have calls : ∀ run, loop (doStep dpdk) ((contents list).map step) run =
      loop (allocObject dpdk kind) ((contents list).map call) run := by
    intro run
    rw [loop_map, loop_map]
    exact loop_congr (fun p _ run => (same p run).symm) run
  obtain ⟨ret, run', objects, ran, fills⟩ := loop_fills dpdk kind ((contents list).map call)
    (run.setTable kind ⟨(contents list).length, .replicate _ none, 0⟩) (by
      rw [Run.setTable_tables, List.length_map, Nat.zero_add])
  refine ⟨ret, run', objects, ?_, ?_⟩
  · rw [steps, loop_cons_zero table, calls, ran]
  · have slots := fills.slots
    have count := fills.count
    have filled := fills.filled
    rw [Run.setTable_tables] at slots count filled
    rw [Nat.zero_add] at count
    constructor
    case toAttempted => exact fills.toAttempted
    case whole => exact fills.toAttempted.value_iff
    case slots => rw [slots, List.length_map]
    case count => exact count
    case filled =>
      intro i inside
      rw [count] at inside
      obtain ⟨call, address, made, found, event⟩ := attempts_at fills.few inside
      have entry := filled i address found
      rw [Nat.zero_add] at entry
      exact ⟨call, address, made, event, entry⟩
    case others =>
      intro other different
      rw [fills.others other different, Run.setTable_others _ _ different]

end Tables

section Parsed

variable (c : JsonC)

/-- **The pool that an entry asks for**: with its name and its socket, and its sizes as the
parameters hold them. -/
def poolAsked (entry : Json) : Call :=
  let pool := decodePktpool c entry
  .pktmbufPoolCreate pool.name (.ofInt pool.size) (.ofInt pool.cacheSize) (.ofInt pool.privSize)
    (.ofInt pool.dataRoomSize) pool.socketId

/-- **The ring that an entry asks for**: `RING_F_SP_ENQ` for a single producer, `RING_F_SC_DEQ` for
a single consumer. -/
def ringAsked (entry : Json) : Call :=
  let ring := decodeRing c entry
  .ringCreate ring.name (.ofInt ring.size) ring.socketId <|
    (if ring.singleProducer ≠ 0 then 0x0001 else 0) |||
      (if ring.singleConsumer ≠ 0 then 0x0002 else 0)

/-- The code makes the calls that are asked for. -/
theorem pktPoolCall_decode (entry : Json) :
    pktPoolCall (decodePktpool c entry) = poolAsked c entry := rfl

theorem ringCall_decode (entry : Json) : ringCall (decodeRing c entry) = ringAsked c entry := by
  unfold ringCall ringAsked
  dsimp only
  congr 1
  split_ifs <;> rfl

/-- **Both tables of a configuration that has been parsed** are as large as the lists of its
document and are filled without an access outside of them, whatever dpdk replies: the objects that
its entries ask for are created in the order of the document, up to the first one that fails. -/
theorem tables_filled {document : Document} {conf₀ conf : AppConf}
    (parsed : appConfParseFile c document conf₀ = .ok (0, conf)) :
    ∃ jsonApp jsonRessources, document.root.getEx "app" = some jsonApp ∧
      jsonApp.getEx "ressources" = some jsonRessources ∧ ∀ (dpdk : Dpdk) (run : Run),
        (∃ ret run' mps, allocPktPools dpdk conf run = .ok (ret, run') ∧
          Allocated dpdk .pktPools ((entriesAt jsonRessources "pktpools").map (poolAsked c))
            run ret run' mps) ∧
        (∃ ret run' rs, allocRings dpdk conf run = .ok (ret, run') ∧
          Allocated dpdk .rings ((entriesAt jsonRessources "rings").map (ringAsked c))
            run ret run' rs) := by
  obtain ⟨jsonApp, jsonRessources, app, _, ressources, _, loaded⟩ := parsed_loads c parsed
  have holds := loaded.holds c
  obtain ⟨contents, lists, pools, rings, _⟩ := holds.lists
  refine ⟨jsonApp, jsonRessources, app, ressources, fun dpdk run => ⟨?_, ?_⟩⟩
  · have size : (llCount .pktPoolList conf.store.links).toNat = (contents .pktPoolList).length := by
      rw [holds.poolCount, pools]
      rfl
    have same : ∀ p run,
        allocObject dpdk .pktPools (pktPoolCall p) run = doStep dpdk (.pool p) run := fun _ _ => rfl
    have filled := allocObjects_fills dpdk .pktPools lists same size run
    rw [pools, List.map_map] at filled
    simp only [Function.comp_def, pktPoolCall_decode] at filled
    exact filled
  · have size : (llCount .ringList conf.store.links).toNat = (contents .ringList).length := by
      rw [holds.ringCount, rings]
      rfl
    have same : ∀ p run,
        allocObject dpdk .rings (ringCall p) run = doStep dpdk (.ring p) run := fun _ _ => rfl
    have filled := allocObjects_fills dpdk .rings lists same size run
    rw [rings, List.map_map] at filled
    simp only [Function.comp_def, ringCall_decode] at filled
    exact filled

/-- A dpdk that creates one object, and no other. -/
def oneObject : Dpdk := ⟨1, fun trace _ => if trace.length = 0 then some 40 else none, fun _ _ => 0⟩

/-- The second pool is refused, so there is one pool in a table for two. -/
theorem tables_filled_one :
    ∃ conf, appConfParseFile namesC onePort usedConf = .ok (0, conf) ∧
      (∃ run mps, allocPktPools oneObject conf .start = .ok (-1, run) ∧ mps.length = 1 ∧
        Allocated oneObject .pktPools
          [.pktmbufPoolCreate (some "pool") 8191 32 64 2176 1,
            .pktmbufPoolCreate (some "small") 511 8 16 256 0] .start (-1) run mps) ∧
      ∀ (dpdk : Dpdk) (run : Run), ∃ ret run' rs, allocRings dpdk conf run = .ok (ret, run') ∧
        Allocated dpdk .rings [.ringCreate (some "in") 1024 1 1, .ringCreate (some "out") 512 0 3]
          run ret run' rs := by
  obtain ⟨conf, run, parsed, pooled, count⟩ :
      ∃ conf run, appConfParseFile namesC onePort usedConf = .ok (0, conf) ∧
        allocPktPools oneObject conf .start = .ok (-1, run) ∧ (run.tables .pktPools).count = 1 :=
    ⟨_, _, rfl, rfl, rfl⟩
  obtain ⟨jsonApp, jsonRessources, app, ressources, filled⟩ := tables_filled namesC parsed
  obtain rfl := Option.some.inj app
  obtain rfl := Option.some.inj ressources
  obtain ⟨⟨ret, run', mps, ran, pools⟩, _⟩ := filled oneObject .start
  obtain ⟨rfl, rfl⟩ := Prod.mk.inj (Except.ok.inj (ran.symm.trans pooled))
  exact ⟨conf, parsed, ⟨_, mps, pooled, pools.count.symm.trans count, pools⟩,
    fun dpdk run => (filled dpdk run).2⟩

end Parsed

end CyberPlatform.AppManager
