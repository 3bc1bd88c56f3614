/-
**Which documents `app_manager`'s parser accepts, and which it goes wrong on.**

* `parseTable_verdict` — a section, from the verdicts of its keys.
* `appConfParseFile_verdict` — the document.
* `schemaSound_iff` — when the parser lets no null name and no value of another type through.
-/

import CyberPlatform.AppManager.Numbers
import CyberPlatform.Foundation.Verdict

namespace CyberPlatform.AppManager

open Foundation Json LList

/-! ### The types of the fields -/

/-- A field that is there, with a type. -/
def FieldTyped (jsonEntry : Json) (item : String) (type : JsonType) : Prop :=
  ∃ jsonVal, jsonEntry.getEx item = some jsonVal ∧ jsonVal.getType = type

def pktpoolType (item : String) : JsonType := if item = "name" then .string else .int

def ringType (item : String) : JsonType :=
  if item = "name" then .string
  else if item = "single_consumer" ∨ item = "single_producer" then .boolean
  else .int

def ethportType (item : String) : JsonType :=
  if item = "port-id" then .int
  else if item = "promisc" then .boolean
  else .array

def qType (item : String) : JsonType := if item = "pktpool-name" then .string else .int

/-- A queue: no field is required, and those that are there have their types. -/
def QueueTyped (jsonQObj : Json) : Prop :=
  ∀ item ∈ qItems, ∀ jsonVal, jsonQObj.getEx item = some jsonVal → jsonVal.getType = qType item

/-- The queues under a key of a port, as they stand in the document. -/
def jsonQueues (jsonEthport : Json) (item : String) : List Json :=
  (jsonEthport.arrayAt item).getD []

/-- **The types of a document**: every required field has the type it is decoded as, and every rx
queue names its pool. -/
structure Typed (jsonRessources : Json) : Prop where
  pools : ∀ e ∈ entriesAt jsonRessources "pktpools", ∀ item ∈ pktpoolItems,
    FieldTyped e item (pktpoolType item)
  rings : ∀ e ∈ entriesAt jsonRessources "rings", ∀ item ∈ ringItems,
    FieldTyped e item (ringType item)
  ports : ∀ e ∈ entriesAt jsonRessources "ethports", ∀ item ∈ ethportItems,
    FieldTyped e item (ethportType item)
  queues : ∀ e ∈ entriesAt jsonRessources "ethports", ∀ item ∈ queueItems,
    ∀ q ∈ jsonQueues e item, QueueTyped q
  poolNames : ∀ e ∈ entriesAt jsonRessources "ethports", ∀ q ∈ jsonQueues e "rx-queues",
    q.getEx "pktpool-name" ≠ none

/-- **What the parser takes as it is**: the fields of the pools and of the rings, and an rx queue
without a pool. -/
structure Unchecked (jsonRessources : Json) : Prop where
  pools : ∀ e ∈ entriesAt jsonRessources "pktpools", ∀ item ∈ pktpoolItems,
    FieldTyped e item (pktpoolType item)
  rings : ∀ e ∈ entriesAt jsonRessources "rings", ∀ item ∈ ringItems,
    FieldTyped e item (ringType item)
  poolNames : ∀ e ∈ entriesAt jsonRessources "ethports", ∀ q ∈ jsonQueues e "rx-queues",
    q.getEx "pktpool-name" ≠ none

/-! ### What the parser looks at -/

/-- What the parser asks of a queue. -/
def QueueOk (jsonQObj : Json) : Prop := jsonQObj.IsObject ∧ QueueTyped jsonQObj

/-- What the parser asks of a field of a port. -/
def EthportItemOk (jsonEthport : Json) (item : String) : Prop :=
  FieldTyped jsonEthport item (ethportType item) ∧
    (item ∈ queueItems → ∀ q ∈ jsonQueues jsonEthport item, QueueOk q)

/-- What the parser asks of a port: all its fields and queues are looked at. -/
def EthportTyped (jsonEthport : Json) : Prop :=
  jsonEthport.IsObject ∧ ∀ item ∈ ethportItems, EthportItemOk jsonEthport item

/-- The sections that are there are arrays of entries that the parser accepts: the pools and the
rings need their keys, and the ports their types, too. -/
structure Complete (jsonRessources : Json) : Prop where
  pools : ∀ tab, jsonRessources.getEx "pktpools" = some tab → ArrayOf (EntryOk pktpoolItems) tab
  ports : ∀ tab, jsonRessources.getEx "ethports" = some tab → ArrayOf EthportTyped tab
  rings : ∀ tab, jsonRessources.getEx "rings" = some tab → ArrayOf (EntryOk ringItems) tab

/-- The entries of a section that is accepted. -/
theorem entriesAt_ok {jsonRessources : Json} {ressource : String} {ok : Json → Prop}
    (accepted : ∀ tab, jsonRessources.getEx ressource = some tab → ArrayOf ok tab) :
    ∀ e ∈ entriesAt jsonRessources ressource, ok e := by
  intro e member
  unfold entriesAt at member
  cases found : jsonRessources.arrayAt ressource with
  | none =>
    rw [found] at member
    cases member
  | some entries =>
    rw [found] at member
    obtain ⟨_, same, all⟩ := accepted _ ((arrayAt_eq_some_iff jsonRessources ressource).mp found)
    cases same
    exact all e member

/-- What is looked at and what is not are all the types. -/
theorem Complete.typed {jsonRessources : Json} (complete : Complete jsonRessources)
    (unchecked : Unchecked jsonRessources) : Typed jsonRessources where
  pools := unchecked.pools
  rings := unchecked.rings
  ports e member item known := ((entriesAt_ok complete.ports e member).2 item known).1
  queues e member item known q queue := by
    have port : item ∈ ethportItems := by
      rcases List.mem_pair.mp known with rfl | rfl <;> decide
    exact (((entriesAt_ok complete.ports e member).2 item port).2 known q queue).2
  poolNames := unchecked.poolNames

/-- **No null name is come to**: where all entries before are complete, and all keys of the entry
that are looked at before its name are there, the name is not null. -/
def NamesGiven (items : List String) (jobj : Json) : Prop :=
  ∀ front e back, jobj = array (front ++ e :: back) → (∀ e' ∈ front, EntryOk items e') →
    (∀ item ∈ items.takeWhile (· ≠ "name"), e.getEx item ≠ none) → e.getEx "name" ≠ some null

section Verdicts

variable (c : JsonC)

/-! ### The keys -/

/-- A copy of the string of a value goes wrong for null. -/
theorem strdup_getString (jsonVal : Json) :
    (jsonVal = null ∧ strdup (getString c jsonVal) = .error .nullPointer) ∨
      (jsonVal ≠ null ∧ ∃ s, strdup (getString c jsonVal) = .ok (some s)) := by
  cases jsonVal with
  | null => exact .inl ⟨rfl, rfl⟩
  | _ => exact .inr ⟨Json.noConfusion, _, rfl⟩

/-- A field of an entry with a name: every value is taken, but that of the name is copied. -/
theorem named_verdict {α : Type} (item : String) (jsonVal : Json) (keep : Option String → α)
    {others : Except Trap (Int × α)} (taken : ∃ p, others = .ok (0, p)) :
    Verdict (item = "name" → jsonVal ≠ null) True
      (if item = "name" then strdup (getString c jsonVal) >>= fun copy => .ok (0, keep copy)
      else others) := by
  by_cases name : item = "name"
  · rw [if_pos name]
    rcases strdup_getString c jsonVal with ⟨null, copied⟩ | ⟨given, s, copied⟩
    · rw [copied]
      exact .wrong _ fun safe => safe name null
    · rw [copied]
      exact .accepts _ (fun _ => given) trivial
  · obtain ⟨p, same⟩ := taken
    rw [if_neg name, same]
    exact .accepts _ (fun same => absurd same name) trivial

theorem parsePktpoolItem_verdict (item : String) (jsonVal : Json) (p : PktPoolConf) :
    Verdict (item = "name" → jsonVal ≠ null) True (parsePktpoolItem c item jsonVal p) := by
  refine named_verdict c item jsonVal (fun copy : Option String => { p with name := copy }) ?_
  split_ifs <;> exact ⟨_, rfl⟩

theorem parseRingItem_verdict (item : String) (jsonVal : Json) (p : RingConf) :
    Verdict (item = "name" → jsonVal ≠ null) True (parseRingItem c item jsonVal p) := by
  refine named_verdict c item jsonVal (fun copy : Option String => { p with name := copy }) ?_
  split_ifs <;> exact ⟨_, rfl⟩

section Queues

variable {n : Nat}

/-- A field of a queue: where it is there, its type is checked. -/
theorem parseQItem_verdict (jsonQObj : Json) {i : Nat} (inside : i < n) {item : String}
    (known : item ∈ qItems) (a : Vector EthQ n) :
    Verdict True (∀ jsonVal, jsonQObj.getEx item = some jsonVal → jsonVal.getType = qType item)
      (parseQItem c jsonQObj i item a) := by
  unfold parseQItem
  cases found : jsonQObj.getEx item with
  | none => exact .accepts _ trivial fun _ missing => by cases missing
  | some jsonQItem =>
    have same : (∀ jsonVal, some jsonQItem = some jsonVal → jsonVal.getType = qType item) ↔
        ¬ jsonQItem.getType ≠ qType item ∧ True := by
      rw [not_not, and_true]
      exact ⟨fun all => all jsonQItem rfl, fun typed _ here => Option.some.inj here ▸ typed⟩
    rw [same]
    simp only [modify_inside a inside, ok_bind]
    have cases : item = "q-id" ∨ item = "nb-desc" ∨ item = "pktpool-name" ∨ item = "socket-id" := by
      simpa [qItems] using known
    rcases cases with rfl | rfl | rfl | rfl
    · exact Verdict.check_safe fun _ => .accepts _ trivial trivial
    · exact Verdict.check_safe fun _ => .accepts _ trivial trivial
    · refine Verdict.check_safe fun typed => ?_
      obtain ⟨s, rfl⟩ := getType_eq_string_iff.mp (not_not.mp typed)
      exact .accepts _ trivial trivial
    · exact Verdict.check_safe fun _ => .accepts _ trivial trivial

theorem parseEthQueue_verdict (jsonQArray : Json) {i : Nat} (inside : i < n) (a : Vector EthQ n) :
    Verdict True (QueueOk (jsonQArray.arrayGetIdx i)) (parseEthQueue c jsonQArray i a) := by
  unfold QueueOk
  rw [← getType_eq_object_iff, ← not_ne_iff]
  refine Verdict.check_safe fun _ => Verdict.loop_safe (fun item known a => ?_) a
  exact parseQItem_verdict c (jsonQArray.arrayGetIdx i) inside known a

end Queues

/-- **A queue array**: all its elements are looked at. -/
theorem newEthQueues_verdict {items : List Json} (fits : (Json.array items).Fits) {nbQ : Int}
    (count : int32 (array items).arrayLength = nbQ) :
    Verdict True (∀ q ∈ items, QueueOk q) (newEthQueues c (array items) nbQ) := by
  have all : (∀ i ∈ List.range nbQ.toNat, QueueOk ((array items).arrayGetIdx i)) ↔
      ∀ q ∈ items, QueueOk q := by
    have same := arrayItems_eq fits
    rw [arrayItems, count] at same
    rw [← List.forall_mem_map, same]
  have rounds : Verdict True (∀ i ∈ List.range nbQ.toNat, QueueOk ((array items).arrayGetIdx i))
      (parseEthQueues c (array items) (Vector.replicate nbQ.toNat {}) nbQ) := by
    refine Verdict.loop_safe (fun i member a => ?_) _
    exact parseEthQueue_verdict c (array items) (List.mem_range.mp member) a
  rw [← all]
  exact rounds.map Vector.toList

/-! ### Ports -/

/-- **The queues under a key of a port.** -/
theorem queues_verdict {items : List Json} (fits : (Json.array items).Fits) {nbQ : Int}
    (count : int32 (array items).arrayLength = nbQ) (keep : Int → EthConf)
    (fill : Int → List EthQ → EthConf) :
    Verdict True (∀ q ∈ items, QueueOk q)
      (if nbQ = 0 then .ok (0, keep nbQ)
      else newEthQueues c (array items) nbQ >>= fun out =>
        if out.1 ≠ 0 then .ok (-1, fill nbQ out.2) else .ok (0, fill nbQ out.2)) := by
  have short := (fits_array.mp fits).1
  have length : nbQ = items.length := by
    rw [← count, arrayLength, int32_of_range (by omega) (by omega)]
  by_cases zero : nbQ = 0
  · rw [if_pos zero]
    have none : items = [] := by
      rw [← List.length_eq_zero_iff]
      omega
    rw [none]
    exact .accepts _ trivial fun _ member => absurd member List.not_mem_nil
  · rw [if_neg zero]
    exact (newEthQueues_verdict c fits count).call_last _ _

theorem parseEthportItem_verdict {jsonEthport : Json} (fits : jsonEthport.Fits) {item : String}
    (known : item ∈ ethportItems) {jsonVal : Json} (found : jsonEthport.getEx item = some jsonVal)
    (p : EthConf) :
    Verdict True (EthportItemOk jsonEthport item) (parseEthportItem c item jsonVal p) := by
  have typed : FieldTyped jsonEthport item (ethportType item) ↔
      ¬ jsonVal.getType ≠ ethportType item := by
    rw [not_not]
    exact ⟨fun ⟨_, here, type⟩ => Option.some.inj (found.symm.trans here) ▸ type,
      fun type => ⟨jsonVal, found, type⟩⟩
  have plain : item ∉ queueItems → (EthportItemOk jsonEthport item ↔
      ¬ jsonVal.getType ≠ ethportType item ∧ True) := by
    intro other
    rw [EthportItemOk, typed]
    exact and_congr_right fun _ => iff_of_true (fun member => absurd member other) trivial
  have queues : ∀ items, jsonVal = array items → jsonQueues jsonEthport item = items := by
    rintro items rfl
    rw [jsonQueues, (arrayAt_eq_some_iff jsonEthport item).mpr found, Option.getD_some]
  unfold parseEthportItem
  by_cases portId : item = "port-id"
  · rw [if_pos portId, plain (portId ▸ by decide), ethportType, if_pos portId]
    exact Verdict.check_safe fun _ => .accepts _ trivial trivial
  rw [if_neg portId]
  by_cases promisc : item = "promisc"
  · rw [if_pos promisc, plain (promisc ▸ by decide), ethportType, if_neg portId, if_pos promisc]
    exact Verdict.check_safe fun _ => .accepts _ trivial trivial
  rw [if_neg promisc, EthportItemOk, typed, ethportType, if_neg portId, if_neg promisc]
  have queued : item = "tx-queues" ∨ item = "rx-queues" := by
    simpa [ethportItems, portId, promisc] using known
  have member : item ∈ queueItems := List.mem_pair.mpr queued
  by_cases txQueues : item = "tx-queues"
  · rw [if_pos txQueues]
    refine Verdict.check_safe fun isArray => ?_
    obtain ⟨items, rfl⟩ := getType_eq_array_iff.mp (not_not.mp isArray)
    rw [queues items rfl, forall_prop_of_true member]
    generalize count : int32 (array items).arrayLength = nbTxQ
    exact queues_verdict c (fits.getEx found) count (fun n => { p with nbTxQ := n })
      fun n queues => { p with nbTxQ := n, txQueues := queues }
  · rw [if_neg txQueues, if_pos (queued.resolve_left txQueues)]
    refine Verdict.check_safe fun isArray => ?_
    obtain ⟨items, rfl⟩ := getType_eq_array_iff.mp (not_not.mp isArray)
    rw [queues items rfl, forall_prop_of_true member]
    generalize count : int32 (array items).arrayLength = nbRxQ
    exact queues_verdict c (fits.getEx found) count (fun n => { p with nbRxQ := n })
      fun n queues => { p with nbRxQ := n, rxQueues := queues }

/-! ### A section -/

section Sections

variable {l : ConfList} {items : List String}
  {parseItem : String → Json → Conf l → Except Trap (Int × Conf l)}

/-- A key: it has to be there. -/
theorem parseKey_verdict {safe goes : Prop} {jsonEntry : Json} {item : String}
    (one : ∀ jsonVal, jsonEntry.getEx item = some jsonVal → ∀ p,
      Verdict safe goes (parseItem item jsonVal p)) (p : Conf l) :
    Verdict (jsonEntry.getEx item ≠ none → safe) (jsonEntry.getEx item ≠ none ∧ goes)
      (parseKey parseItem jsonEntry item p) := by
  unfold parseKey
  cases found : jsonEntry.getEx item with
  | none => exact .refuses _ (fun given => absurd rfl given) fun both => both.1 rfl
  | some jsonVal =>
    have given : some jsonVal ≠ none := Option.some_ne_none _
    exact (one jsonVal found p).congr ⟨fun safe _ => safe, fun safe => safe given⟩
      fun _ => ⟨fun goes => ⟨given, goes⟩, And.right⟩

/-- An entry: its keys are looked at in their order. -/
theorem parseEntry_verdict {safe goes : String → Prop} {jsonEntry : Json}
    (one : ∀ item ∈ items, ∀ jsonVal, jsonEntry.getEx item = some jsonVal → ∀ p,
      Verdict (safe item) (goes item) (parseItem item jsonVal p)) (conf : AppConf) :
    Verdict (jsonEntry.IsObject →
        Guarded (fun _ item => jsonEntry.getEx item ≠ none ∧ goes item)
          (fun _ item => jsonEntry.getEx item ≠ none → safe item) [] items)
      (jsonEntry.IsObject ∧ ∀ item ∈ items, jsonEntry.getEx item ≠ none ∧ goes item)
      (parseEntry items parseItem jsonEntry conf) := by
  rw [← getType_eq_object_iff, ← not_ne_iff]
  refine Verdict.check fun _ => Verdict.call_last _ _ (Verdict.loop (fun item member p => ?_) [] _)
  exact parseKey_verdict (one item member) p

/-- **A section**: its entries are looked at in their order. -/
theorem parseTable_verdict {safe goes : Json → Prop} {tab : Json} (fits : tab.Fits)
    (one : ∀ jsonEntry : Json, jsonEntry.Fits → ∀ conf,
      Verdict (safe jsonEntry) (goes jsonEntry) (parseEntry items parseItem jsonEntry conf))
    (conf : AppConf) :
    Verdict (∀ entries, tab = array entries →
        Guarded (fun _ => goes) (fun _ => safe) [] entries)
      (ArrayOf goes tab) (parseTable items parseItem tab conf) := by
  unfold parseTable
  by_cases isArray : tab.getType = .array
  · rw [if_neg (not_not.mpr isArray)]
    obtain ⟨entries, rfl⟩ := getType_eq_array_iff.mp isArray
    rw [arrayItems_eq fits]
    refine (Verdict.loop (fun jsonEntry member conf =>
      one jsonEntry ((fits_array.mp fits).2 jsonEntry member) conf) [] conf).congr ?_ fun _ => ?_
    · exact ⟨fun guarded _ same => Json.array.inj same ▸ guarded, fun all => all entries rfl⟩
    · exact ⟨fun all => ⟨entries, rfl, all⟩, fun ⟨_, same, all⟩ => Json.array.inj same ▸ all⟩
  · rw [if_pos isArray]
    refine .refuses conf (fun entries same => ?_) fun ⟨entries, same, _⟩ => ?_
    · exact absurd (same ▸ rfl) isArray
    · exact isArray (same ▸ rfl)

/-- One round of `_json_parse_ressources`. -/
theorem parseRessource_verdict {safe goes : Json → Prop} (jsonRessources : Json)
    (ressource : String)
    (round : ∀ jsonTab, jsonRessources.getEx ressource = some jsonTab → ∀ conf,
      parseRessource c jsonRessources ressource conf =
        parseTable items parseItem jsonTab conf >>= fun out =>
          if out.1 ≠ 0 then .ok (-1, out.2) else .ok (0, out.2))
    (one : ∀ jsonTab, jsonRessources.getEx ressource = some jsonTab → ∀ conf,
      Verdict (safe jsonTab) (goes jsonTab) (parseTable items parseItem jsonTab conf))
    (conf : AppConf) :
    Verdict (∀ tab, jsonRessources.getEx ressource = some tab → safe tab)
      (∀ tab, jsonRessources.getEx ressource = some tab → goes tab)
      (parseRessource c jsonRessources ressource conf) := by
  cases found : jsonRessources.getEx ressource with
  | none =>
    have passed : parseRessource c jsonRessources ressource conf = .ok (0, conf) := by
      unfold parseRessource
      rw [found]
      rfl
    rw [passed]
    exact .accepts conf (fun _ missing => by cases missing) fun _ missing => by cases missing
  | some jsonTab =>
    rw [round jsonTab found]
    refine ((one jsonTab found conf).call_last _ _).congr ?_ fun _ => ?_
    · exact ⟨fun fine _ same => Option.some.inj same ▸ fine, fun all => all jsonTab rfl⟩
    · exact ⟨fun on _ same => Option.some.inj same ▸ on, fun all => all jsonTab rfl⟩

end Sections

/-- A loop over keys comes to the name where all keys before it are there. -/
theorem guarded_name {given : String → Prop} {fine : Prop} (items done : List String)
    (named : "name" ∈ items) :
    Guarded (fun _ item => given item ∧ True) (fun _ item => given item → item = "name" → fine)
      done items ↔
      ((∀ item ∈ items.takeWhile (· ≠ "name"), given item) → given "name" → fine) := by
  induction items generalizing done with
  | nil => exact absurd named List.not_mem_nil
  | cons first items ih =>
    rw [Guarded, List.takeWhile_cons]
    by_cases here : first = "name"
    · subst here
      constructor
      · exact fun both _ there => both.1 there rfl
      · intro safe
        have good := fun there => safe (fun _ none => absurd none (by simp)) there
        refine ⟨fun there _ => good there, fun on => ?_⟩
        exact guarded_of_forall (fun _ _ _ _ _ _ => good on.1) items _ rfl
    · have behind := (List.mem_cons.mp named).resolve_left (Ne.symm here)
      rw [ih (done ++ [first]) behind, if_pos (decide_eq_true here), List.forall_mem_cons]
      constructor
      · exact fun both all => both.2 ⟨all.1, trivial⟩ all.2
      · exact fun safe => ⟨fun _ same => absurd same here, fun on all => safe ⟨on.1, all⟩⟩

/-- **A section whose entries have a name.** -/
theorem parseNamed_verdict {l : ConfList} {items : List String}
    {parseItem : String → Json → Conf l → Except Trap (Int × Conf l)} (named : "name" ∈ items)
    (one : ∀ item jsonVal p,
      Verdict (item = "name" → jsonVal ≠ null) True (parseItem item jsonVal p))
    {tab : Json} (fits : tab.Fits) (conf : AppConf) :
    Verdict (NamesGiven items tab) (ArrayOf (EntryOk items) tab)
      (parseTable items parseItem tab conf) := by
  have entry : ∀ e : Json, e.Fits → ∀ conf, Verdict
      ((∀ item ∈ items.takeWhile (· ≠ "name"), e.getEx item ≠ none) →
        e.getEx "name" ≠ some null) (EntryOk items e) (parseEntry items parseItem e conf) := by
    intro e _ conf
    have keys : ∀ item ∈ items, ∀ jsonVal, e.getEx item = some jsonVal → ∀ p,
        Verdict (item = "name" → e.getEx "name" ≠ some null) True (parseItem item jsonVal p) := by
      intro item _ jsonVal found p
      refine (one item jsonVal p).congr (forall_congr' fun same => ?_) fun _ => Iff.rfl
      rw [← same, found, ne_eq, ne_eq, Option.some.injEq]
    refine (parseEntry_verdict keys conf).congr ?_ fun _ => ?_
    · rw [guarded_name items [] named]
      constructor
      · intro safe all null
        have there : e.getEx "name" ≠ none := null ▸ Option.some_ne_none _
        have isObject : e.IsObject := by
          cases e with
          | object fields => exact ⟨fields, rfl⟩
          | _ => cases null
        exact safe isObject all there null
      · exact fun safe _ all _ => safe all
    · exact and_congr_right fun _ => forall₂_congr fun _ _ => and_iff_left trivial
  refine (parseTable_verdict fits entry conf).congr ?_ fun _ => Iff.rfl
  constructor
  · intro guarded front e back same
    exact (guarded_iff _ []).mp (guarded _ same) front e back rfl
  · rintro given entries rfl
    refine (guarded_iff entries []).mpr fun front e back split => ?_
    exact given front e back (congrArg array split)

/-- **The ports**: nothing goes wrong. -/
theorem parseEthports_verdict {tab : Json} (fits : tab.Fits) (conf : AppConf) :
    Verdict True (ArrayOf EthportTyped tab)
      (parseTable (l := .ethPortList) ethportItems (parseEthportItem c) tab conf) := by
  have entry : ∀ e : Json, e.Fits → ∀ conf, Verdict True (EthportTyped e)
      (parseEntry (l := .ethPortList) ethportItems (parseEthportItem c) e conf) := by
    intro e fits conf
    refine (parseEntry_verdict (fun item known jsonVal found p =>
      parseEthportItem_verdict c fits known found p) conf).congr ?_ fun _ => ?_
    · refine iff_of_true (fun _ => ?_) trivial
      exact guarded_of_forall (fun _ item _ _ (_ : e.getEx item ≠ none) => trivial) _ [] rfl
    · refine and_congr_right fun _ => forall₂_congr fun item _ => and_iff_right_of_imp ?_
      rintro ⟨⟨jsonVal, found, _⟩, _⟩
      exact found ▸ Option.some_ne_none _
  refine (parseTable_verdict fits entry conf).congr ?_ fun _ => Iff.rfl
  refine iff_of_true (fun entries _ => ?_) trivial
  exact guarded_of_forall (fun _ _ _ _ => trivial) entries [] rfl

/-! ### The document -/

/-- An integer that has to be there. -/
theorem requireInt_verdict {goes : Prop} (jsonApp : Json) (key : String) {old old' : AppConf}
    {rest : Json → Except Trap (Int × AppConf)} (behind : ∀ i, Verdict True goes (rest (int i))) :
    Verdict True ((∃ i, jsonApp.getEx key = some (int i)) ∧ goes)
      (match jsonApp.getEx key with
        | none => .ok (-1, old)
        | some jsonVal => if jsonVal.getType ≠ .int then .ok (-1, old') else rest jsonVal) := by
  cases jsonApp.getEx key with
  | none => exact .refuses old trivial fun ⟨⟨_, missing⟩, _⟩ => by cases missing
  | some jsonVal =>
    refine (Verdict.check_safe fun isInt => ?_).congr Iff.rfl fun _ => and_congr_left fun _ => ?_
    · obtain ⟨i, rfl⟩ := getType_eq_int_iff.mp (not_not.mp isInt)
      exact behind i
    · rw [not_not, getType_eq_int_iff]
      exact exists_congr fun i => Option.some_inj.symm

/-- The application. -/
theorem parseJsonApp_verdict (jsonApp : Json) (conf : AppConf) :
    Verdict True (Identified jsonApp) (parseJsonApp c jsonApp conf) := by
  unfold parseJsonApp
  cases named : jsonApp.getEx "name" with
  | none =>
    refine .refuses conf trivial fun known => ?_
    obtain ⟨name, there, _⟩ := known.name
    cases named.symm.trans there
  | some jsonAppName =>
    by_cases isString : jsonAppName.getType = .string
    · obtain ⟨name, rfl⟩ := getType_eq_string_iff.mp isString
      obtain ⟨order, compared, zero⟩ := strcmp_eq_zero appName (cstr name)
      simp only [if_neg (not_not.mpr isString), getString, compared, ok_bind, strdup]
      refine (Verdict.check_safe fun _ => requireInt_verdict jsonApp "core-mask" fun _ =>
        requireInt_verdict jsonApp "memory-socket" fun _ =>
          (.accepts _ trivial trivial : Verdict True True _)).congr Iff.rfl fun _ => ?_
      rw [not_not, zero]
      constructor
      · rintro ⟨same, mask, socket, _⟩
        exact ⟨⟨name, named, same.symm⟩, mask, socket⟩
      · intro known
        obtain ⟨name', there, same⟩ := known.name
        cases named.symm.trans there
        exact ⟨same.symm, known.coreMask, known.memorySocket, trivial⟩
    · simp only [if_pos isString]
      refine .refuses conf trivial fun known => ?_
      obtain ⟨name, there, _⟩ := known.name
      cases named.symm.trans there
      exact isString rfl

/-- No null name is come to in the sections, the one of the rings after the other two. -/
structure NamesSafe (jsonRessources : Json) : Prop where
  pools : ∀ tab, jsonRessources.getEx "pktpools" = some tab → NamesGiven pktpoolItems tab
  rings : (∀ tab, jsonRessources.getEx "pktpools" = some tab →
      ArrayOf (EntryOk pktpoolItems) tab) →
    (∀ tab, jsonRessources.getEx "ethports" = some tab → ArrayOf EthportTyped tab) →
    ∀ tab, jsonRessources.getEx "rings" = some tab → NamesGiven ringItems tab

/-- **The three sections.** -/
theorem jsonParseRessources_verdict {jsonRessources : Json} (fits : jsonRessources.Fits)
    (conf : AppConf) :
    Verdict (NamesSafe jsonRessources) (Complete jsonRessources)
      (jsonParseRessources c jsonRessources conf) := by
  have pools := parseRessource_verdict c jsonRessources "pktpools"
    (fun _ found _ => by unfold parseRessource; rw [found]; rfl) fun _ found conf =>
      parseNamed_verdict (l := .pktPoolList) (by decide) (parsePktpoolItem_verdict c)
        (fits.getEx found) conf
  have ports := parseRessource_verdict c jsonRessources "ethports"
    (fun _ found _ => by unfold parseRessource; rw [found]; rfl) fun _ found conf =>
      parseEthports_verdict c (fits.getEx found) conf
  have rings := parseRessource_verdict c jsonRessources "rings"
    (fun _ found _ => by unfold parseRessource; rw [found]; rfl) fun _ found conf =>
      parseNamed_verdict (l := .ringList) (by decide) (parseRingItem_verdict c)
        (fits.getEx found) conf
  have last : ∀ conf : AppConf, Verdict True True
      (loop (parseRessource c jsonRessources) [] conf) := fun conf => .accepts conf trivial trivial
  refine (Verdict.cons (pools conf) fun conf => Verdict.cons (ports conf) fun conf =>
    Verdict.cons (rings conf) last).congr ?_ fun _ => ?_
  · exact ⟨fun all => ⟨all.1, fun pools ports => ((all.2 pools).2 ports).1⟩,
      fun safe => ⟨safe.pools, fun pools => ⟨fun _ _ => trivial, fun ports =>
        ⟨safe.rings pools ports, fun _ => trivial⟩⟩⟩⟩
  · exact ⟨fun all => ⟨all.1, all.2.1, all.2.2.1⟩,
      fun complete => ⟨complete.pools, complete.ports, complete.rings, trivial⟩⟩

/-- The sections of a document whose application is identified. -/
def SectionsOf (document jsonRessources : Json) : Prop :=
  ∃ jsonApp, document.getEx "app" = some jsonApp ∧ Identified jsonApp ∧
    jsonApp.getEx "ressources" = some jsonRessources

/-- A document has at most one place for its sections. -/
theorem SectionsOf.unique {document r r' : Json} (here : SectionsOf document r)
    (there : SectionsOf document r') : r = r' := by
  obtain ⟨jsonApp, app, _, found⟩ := here
  obtain ⟨jsonApp', app', _, found'⟩ := there
  cases app.symm.trans app'
  exact Option.some.inj (found.symm.trans found')

/-- **The document.** -/
theorem appConfParseFile_verdict (document : Document) (conf : AppConf) :
    Verdict (∀ r, SectionsOf document.root r → NamesSafe r)
      (∃ r, SectionsOf document.root r ∧ Complete r) (appConfParseFile c document conf) := by
  have missing : document.root.getEx "app" = none → ∀ r, ¬ SectionsOf document.root r := by
    rintro none r ⟨jsonApp, app, _⟩
    cases none.symm.trans app
  have refused : ∀ conf : AppConf, document.root.getEx "app" = none →
      Verdict (∀ r, SectionsOf document.root r → NamesSafe r)
        (∃ r, SectionsOf document.root r ∧ Complete r) (.ok (-1, conf)) := by
    intro conf none
    exact .refuses conf (fun r here => absurd here (missing none r))
      fun ⟨r, here, _⟩ => missing none r here
  refine Verdict.call_last _ _ ?_
  unfold jsonParse
  by_cases isNull : document.root.getType = .null
  · rw [if_pos isNull]
    refine refused _ ?_
    cases root : document.root with
    | null => rfl
    | _ => cases root ▸ isNull
  rw [if_neg isNull]
  cases app : document.root.getEx "app" with
  | none => exact refused _ app
  | some jsonApp =>
    have sections : ∀ conf : AppConf, Identified jsonApp → Verdict
        (∀ r, jsonApp.getEx "ressources" = some r → NamesSafe r)
        (∃ r, jsonApp.getEx "ressources" = some r ∧ Complete r)
        (match jsonApp.getEx "ressources" with
          | none => .ok (-1, conf)
          | some jsonRessources => jsonParseRessources c jsonRessources conf >>= fun out =>
              if out.1 ≠ 0 then .ok (-1, out.2) else .ok (0, out.2)) := by
      intro conf _
      cases found : jsonApp.getEx "ressources" with
      | none =>
        refine .refuses conf (fun _ there => ?_) fun ⟨_, there, _⟩ => ?_
        · cases there
        · cases there
      | some jsonRessources =>
        have fits := (document.fits.getEx app).getEx found
        refine ((jsonParseRessources_verdict c fits conf).call_last _ _).congr ?_ fun _ => ?_
        · simp only [Option.some.injEq, forall_eq']
        · simp only [Option.some.injEq, exists_eq_left']
    refine ((parseJsonApp_verdict c jsonApp (initConf conf)).call (fun _ => rfl) sections).congr
      ?_ fun _ => ?_
    · simp only [SectionsOf, app, Option.some.injEq, exists_eq_left', true_and, and_imp]
      exact ⟨fun all r known found => all known r found, fun all known r found => all r known found⟩
    · simp only [SectionsOf, app, Option.some.injEq, exists_eq_left']
      exact ⟨fun ⟨known, r, found, complete⟩ => ⟨r, ⟨known, found⟩, complete⟩,
        fun ⟨r, ⟨known, found⟩, complete⟩ => ⟨known, r, found, complete⟩⟩

/-! ### What reaches dpdk -/

/-- An rx queue among the sources is one of the document. -/
theorem rxQueue_mem_sources {jsonRessources item jsonQObj : Json}
    (member : .rxQueue item jsonQObj ∈ sources jsonRessources) :
    item ∈ entriesAt jsonRessources "ethports" ∧ jsonQObj ∈ jsonQueues item "rx-queues" := by
  rcases List.mem_append.mp member with pool | member
  · obtain ⟨_, _, same⟩ := List.mem_map.mp pool
    cases same
  rcases List.mem_append.mp member with ring | member
  · obtain ⟨_, _, same⟩ := List.mem_map.mp ring
    cases same
  obtain ⟨e, port, inside⟩ := List.mem_flatMap.mp member
  rcases List.mem_cons.mp inside with same | inside
  · cases same
  rcases List.mem_append.mp inside with rx | tx
  · obtain ⟨q, queue, same⟩ := List.mem_map.mp rx
    cases same
    exact ⟨port, queue⟩
  · obtain ⟨_, _, same⟩ := List.mem_map.mp tx
    cases same

/-- The rx queues of a typed document name their pools. -/
theorem Typed.named {jsonRessources : Json} (typed : Typed jsonRessources)
    {argv : List (Option String)} {ethConf : EthConf} {q : EthQ}
    (member : .rxQueue ethConf q ∈ documentSteps c argv jsonRessources) : q.pktPoolName ≠ none := by
  have kept : .rxQueue ethConf q ∈ (documentSteps c argv jsonRessources).filter Step.numbered :=
    List.mem_filter.mpr ⟨member, rfl⟩
  rw [documentSteps_sources] at kept
  obtain ⟨source, inside, stepped⟩ := List.mem_map.mp kept
  cases source with
  | rxQueue item jsonQObj =>
    cases stepped
    obtain ⟨port, queue⟩ := rxQueue_mem_sources inside
    obtain ⟨jsonVal, found⟩ := Option.ne_none_iff_exists'.mp
      (typed.poolNames item port jsonQObj queue)
    have type := typed.queues item port "rx-queues" (by decide) jsonQObj queue "pktpool-name"
      (by decide) jsonVal found
    obtain ⟨s, rfl⟩ := getType_eq_string_iff.mp type
    show stringAt c jsonQObj "pktpool-name" ≠ none
    rw [stringAt, found]
    exact Option.some_ne_none _
  | _ => cases stepped

/-- **A typed document goes through the allocator**, whatever dpdk replies, and no pool is looked up
without a name. -/
theorem Typed.returns {jsonRessources : Json} (typed : Typed jsonRessources)
    (argv : List (Option String)) (dpdk : Dpdk) :
    ∃ ret run, loop (doStep dpdk) (documentSteps c argv jsonRessources) .start = .ok (ret, run) ∧
      ∀ e ∈ run.trace, e.call ≠ .mempoolLookup none := by
  obtain ⟨ret, run, ran⟩ := doSteps_return dpdk _ (documentSteps_room c argv jsonRessources _)
    fun _ _ => typed.named c
  refine ⟨ret, run, ran, fun e member lookup => ?_⟩
  obtain ⟨step, inside, mayCall⟩ := doSteps_mayCall dpdk ran member
  rw [lookup] at mayCall
  obtain ⟨ethConf, q, rfl, unnamed⟩ := madeBy_of_mayCall mayCall
  exact typed.named c inside unnamed

end Verdicts

/-! ### The schema -/

/-- **The parser keeps to its schema**: it returns 0 or -1, and behind a 0 every field has its type,
and the allocator returns and looks up no pool without a name, whatever dpdk replies. -/
def SchemaSound (c : JsonC) (document : Document) (conf₀ : AppConf) : Prop :=
  ∃ ret conf, appConfParseFile c document conf₀ = .ok (ret, conf) ∧ (ret = 0 ∨ ret = -1) ∧
    (ret = 0 → ∃ r, SectionsOf document.root r ∧ Typed r ∧
      ∀ dpdk, ∃ code run, allocatorCreateRessources dpdk conf .start = .ok (code, run) ∧
        ∀ e ∈ run.trace, e.call ≠ .mempoolLookup none)

/-- **The parser keeps to its schema exactly when** it comes to no null name, and in a document that
has all that the parser asks for, also what it takes as it is has its types. -/
theorem schemaSound_iff (c : JsonC) (document : Document) (conf₀ : AppConf) :
    SchemaSound c document conf₀ ↔
      ∀ r, SectionsOf document.root r → NamesSafe r ∧ (Complete r → Unchecked r) := by
  have verdict := appConfParseFile_verdict c document conf₀
  constructor
  · rintro ⟨ret, conf, parsed, _, typed⟩ r here
    rw [parsed] at verdict
    obtain ⟨safe, outcome⟩ := verdict.of_ok
    refine ⟨safe r here, fun complete => ?_⟩
    rcases outcome with ⟨zero, _⟩ | ⟨_, off⟩
    · obtain ⟨r', there, typed, _⟩ := typed zero
      obtain rfl := here.unique there
      exact ⟨typed.pools, typed.rings, typed.poolNames⟩
    · exact absurd ⟨r, here, complete⟩ off
  · intro good
    cases parsed : appConfParseFile c document conf₀ with
    | error trap =>
      rw [parsed] at verdict
      cases verdict with
      | wrong _ danger => exact absurd (fun r here => (good r here).1) danger
    | ok out =>
      obtain ⟨ret, conf⟩ := out
      rw [parsed] at verdict
      rcases verdict.of_ok.2 with ⟨rfl, r, here, complete⟩ | ⟨rfl, _⟩
      · obtain ⟨jsonApp, r', app, known, found, _, loaded⟩ := parsed_loads c parsed
        obtain rfl := here.unique ⟨jsonApp, app, known, found⟩
        have typed := complete.typed ((good r here).2 complete)
        refine ⟨0, conf, parsed, .inl rfl, fun _ => ⟨r, here, typed, fun dpdk => ?_⟩⟩
        rw [allocatorCreateRessources_eq dpdk loaded.holds]
        exact typed.returns c _ dpdk
      · exact ⟨-1, conf, parsed, .inr rfl, fun zero => absurd zero (by decide)⟩

/-- A pool whose size is written as a string. -/
def sizeAsString : Document where
  root := .object [("app", .object [("name", .string "app_manager"), ("core-mask", .int 7),
    ("memory-socket", .int 1), ("ressources", .object [
      ("pktpools", .array [.object [("name", .string "pool"), ("private_size", .int 0),
        ("data_room_size", .int 2048), ("cache_size", .int 0), ("socket_id", .int 0),
        ("size", .string "8191")]])])])]
  fits := by simp

/-- It is accepted. -/
theorem schemaSound_fails_string : ¬ SchemaSound namesC sizeAsString usedConf := by
  rintro ⟨ret, conf, parsed, _, typed⟩
  obtain ⟨conf', zero⟩ : ∃ conf', appConfParseFile namesC sizeAsString usedConf = .ok (0, conf') :=
    ⟨_, rfl⟩
  cases parsed.symm.trans zero
  obtain ⟨r, ⟨jsonApp, app, _, found⟩, typed, _⟩ := typed rfl
  cases app
  cases found
  obtain ⟨jsonVal, size, type⟩ := typed.pools _ List.mem_cons_self "size" (by decide)
  cases size
  cases type

end CyberPlatform.AppManager
