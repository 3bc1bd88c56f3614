/-
**What the steps of the start-up write into the trace.**

* `doStep_writes` — the calls of a step, when it succeeds and when it fails.
* `findMempool_eq` — `rte_mempool_lookup` finds the first pool with the name.
* `doSteps_sound` — a pool that is looked up, or given to an rx queue, has been created before.
-/

import CyberPlatform.AppManager.Steps
import CyberPlatform.Foundation.Journal

namespace CyberPlatform.AppManager

open Foundation Json LList

section Trace

variable (dpdk : Dpdk)

/-! ### The calls of a step -/

/-- What a step writes when it succeeds. -/
def Writes : Step → List Event → Prop
  | .init argv, seg => ∃ ret, 0 ≤ ret ∧ seg = [⟨.ealInit argv, .code ret⟩]
  | .table _ _, seg => seg = []
  | .pool pktPoolConf, seg => ∃ mp, seg = [⟨pktPoolCall pktPoolConf, .object (some mp)⟩]
  | .ring ringConf, seg => ∃ r, seg = [⟨ringCall ringConf, .object (some r)⟩]
  | .count size, seg => size ≤ dpdk.nbPorts.toNat ∧ seg = [⟨.devCount, .code dpdk.nbPorts.toNat⟩]
  | .port ethConf, seg => ∃ ret, 0 ≤ ret ∧
      seg = [⟨configureCall ethConf, .code ret⟩, ⟨promiscuousCall ethConf, .nothing⟩]
  | .rxQueue ethConf q, seg => ∃ mp ret, 0 ≤ ret ∧
      seg = [⟨.mempoolLookup q.pktPoolName, .object (some mp)⟩,
        ⟨rxQueueCall ethConf q mp, .code ret⟩]
  | .txQueue ethConf q, seg => ∃ ret, 0 ≤ ret ∧ seg = [⟨txQueueCall ethConf q, .code ret⟩]
  | .start i, seg => ∃ ret, 0 ≤ ret ∧ seg = [⟨.devStart (.ofInt i), .code ret⟩]

/-- What a step writes when it fails. -/
def Stops : Step → List Event → Prop
  | .init argv, seg => ∃ ret, ret < 0 ∧ seg = [⟨.ealInit argv, .code ret⟩]
  | .table _ _, _ => False
  | .pool pktPoolConf, seg => seg = [⟨pktPoolCall pktPoolConf, .object none⟩]
  | .ring ringConf, seg => seg = [⟨ringCall ringConf, .object none⟩]
  | .count size, seg => dpdk.nbPorts.toNat < size ∧ seg = [⟨.devCount, .code dpdk.nbPorts.toNat⟩]
  | .port ethConf, seg => ∃ ret, ret < 0 ∧ seg = [⟨configureCall ethConf, .code ret⟩]
  | .rxQueue ethConf q, seg => seg = [⟨.mempoolLookup q.pktPoolName, .object none⟩] ∨
      ∃ mp ret, ret < 0 ∧ seg = [⟨.mempoolLookup q.pktPoolName, .object (some mp)⟩,
        ⟨rxQueueCall ethConf q mp, .code ret⟩]
  | .txQueue ethConf q, seg => ∃ ret, ret < 0 ∧ seg = [⟨txQueueCall ethConf q, .code ret⟩]
  | .start i, seg => ∃ ret, ret < 0 ∧ seg = [⟨.devStart (.ofInt i), .code ret⟩]

/-- A call that is checked writes itself. -/
theorem checked_writes {call : Call} {run run' : Run} {ret : Int}
    (ran : checked dpdk call run = .ok (ret, run')) :
    ∃ code, run'.trace = run.trace ++ [⟨call, .code code⟩] ∧
      (ret = 0 ∧ 0 ≤ code ∨ ret = -1 ∧ code < 0) := by
  refine ⟨dpdk.returned run.trace call, ?_⟩
  unfold checked at ran
  split_ifs at ran with fails <;> cases ran
  · exact ⟨rfl, .inr ⟨rfl, fails⟩⟩
  · exact ⟨rfl, .inl ⟨rfl, Int.not_lt.mp fails⟩⟩

/-- An object that is created writes itself. -/
theorem allocObject_writes {kind : Kind} {call : Call} {run run' : Run} {ret : Int}
    (ran : allocObject dpdk kind call run = .ok (ret, run')) :
    ∃ object, run'.trace = run.trace ++ [⟨call, .object object⟩] ∧
      (ret = 0 ∧ (∃ address, object = some address) ∨ ret = -1 ∧ object = none) := by
  refine ⟨dpdk.created run.trace call, ?_⟩
  unfold allocObject at ran
  obtain ⟨_, _, ran⟩ := bind_eq_ok.mp ran
  obtain ⟨_, _, ran⟩ := bind_eq_ok.mp ran
  split_ifs at ran with fails <;> cases ran
  · exact ⟨rfl, .inr ⟨rfl, fails⟩⟩
  · exact ⟨rfl, .inl ⟨rfl, Option.ne_none_iff_exists'.mp fails⟩⟩

/-- **An object is created** into the next slot of its table, and counted if there is one. -/
theorem allocObject_eq (kind : Kind) (call : Call) (run : Run)
    (room : (run.tables kind).count < (run.tables kind).slots) :
    let table := run.tables kind
    let object := dpdk.created run.trace call
    let tab := table.tab.set table.count object room
    allocObject dpdk kind call run =
      if object = none then
        .ok (-1, (run.log call (.object object)).setTable kind { table with tab := tab })
      else
        .ok (0, (run.log call (.object object)).setTable kind
          { table with tab := tab, count := table.count + 1 }) := by
  intro table object tab
  have first : store table.tab table.count none = .ok (table.tab.set table.count none room) :=
    dif_pos room
  have second : store (table.tab.set table.count none room) table.count object = .ok tab := by
    rw [store, dif_pos room, Vector.set_set]
  have start : allocObject dpdk kind call run =
      store table.tab table.count none >>= fun cleared =>
        store cleared table.count object >>= fun tab =>
          if object = none then
            .ok (-1, (run.log call (.object object)).setTable kind { table with tab := tab })
          else
            .ok (0, (run.log call (.object object)).setTable kind
              { table with tab := tab, count := table.count + 1 }) := rfl
  rw [start, first, ok_bind, second, ok_bind]

/-- **What a step writes.** -/
theorem doStep_writes (step : Step) (run : Run) (ret : Int) (run' : Run)
    (ran : doStep dpdk step run = .ok (ret, run')) :
    ∃ seg, run'.trace = run.trace ++ seg ∧
      (ret = 0 ∧ Writes dpdk step seg ∨ ret ≠ 0 ∧ Stops dpdk step seg) := by
  cases step with
  | init argv =>
    obtain ⟨code, wrote, ⟨zero, fine⟩ | ⟨rfl, fails⟩⟩ := checked_writes dpdk ran
    · exact ⟨_, wrote, .inl ⟨zero, code, fine, rfl⟩⟩
    · exact ⟨_, wrote, .inr ⟨by decide, code, fails, rfl⟩⟩
  | table kind size =>
    cases ran
    exact ⟨[], (List.append_nil _).symm, .inl ⟨rfl, rfl⟩⟩
  | pool pktPoolConf =>
    obtain ⟨_, wrote, ⟨zero, mp, rfl⟩ | ⟨rfl, rfl⟩⟩ := allocObject_writes dpdk ran
    · exact ⟨_, wrote, .inl ⟨zero, mp, rfl⟩⟩
    · exact ⟨_, wrote, .inr ⟨by decide, rfl⟩⟩
  | ring ringConf =>
    obtain ⟨_, wrote, ⟨zero, r, rfl⟩ | ⟨rfl, rfl⟩⟩ := allocObject_writes dpdk ran
    · exact ⟨_, wrote, .inl ⟨zero, r, rfl⟩⟩
    · exact ⟨_, wrote, .inr ⟨by decide, rfl⟩⟩
  | count size =>
    rw [doStep] at ran
    split_ifs at ran with few <;> cases ran
    · exact ⟨_, rfl, .inr ⟨by decide, few, rfl⟩⟩
    · exact ⟨_, rfl, .inl ⟨rfl, Int.not_lt.mp few, rfl⟩⟩
  | port ethConf =>
    obtain ⟨⟨err, middle⟩, first, ran⟩ := bind_eq_ok.mp ran
    obtain ⟨code, wrote, ⟨rfl, fine⟩ | ⟨rfl, fails⟩⟩ := checked_writes dpdk first
    · cases ran
      refine ⟨_, ?_, .inl ⟨rfl, code, fine, rfl⟩⟩
      show middle.trace ++ _ = _
      rw [wrote, List.append_assoc]
      rfl
    · cases ran
      exact ⟨_, wrote, .inr ⟨by decide, code, fails, rfl⟩⟩
  | rxQueue ethConf q =>
    obtain ⟨⟨pool, middle⟩, looked, ran⟩ := bind_eq_ok.mp ran
    obtain ⟨pool', _, same⟩ := bind_eq_ok.mp looked
    cases same
    cases pool with
    | none =>
      cases ran
      exact ⟨_, rfl, .inr ⟨by decide, .inl rfl⟩⟩
    | some mp =>
      obtain ⟨code, wrote, result⟩ := checked_writes dpdk ran
      have both : run'.trace = run.trace ++ [⟨.mempoolLookup q.pktPoolName, .object (some mp)⟩,
          ⟨rxQueueCall ethConf q mp, .code code⟩] := by
        rw [wrote]
        exact List.append_assoc _ _ _
      rcases result with ⟨zero, fine⟩ | ⟨rfl, fails⟩
      · exact ⟨_, both, .inl ⟨zero, mp, code, fine, rfl⟩⟩
      · exact ⟨_, both, .inr ⟨by decide, .inr ⟨mp, code, fails, rfl⟩⟩⟩
  | txQueue ethConf q =>
    obtain ⟨code, wrote, ⟨zero, fine⟩ | ⟨rfl, fails⟩⟩ := checked_writes dpdk ran
    · exact ⟨_, wrote, .inl ⟨zero, code, fine, rfl⟩⟩
    · exact ⟨_, wrote, .inr ⟨by decide, code, fails, rfl⟩⟩
  | start i =>
    obtain ⟨code, wrote, ⟨zero, fine⟩ | ⟨rfl, fails⟩⟩ := checked_writes dpdk ran
    · exact ⟨_, wrote, .inl ⟨zero, code, fine, rfl⟩⟩
    · exact ⟨_, wrote, .inr ⟨by decide, code, fails, rfl⟩⟩

/-- The calls that a step may make. -/
def Step.MayCall : Step → Call → Prop
  | .init argv, call => call = .ealInit argv
  | .table _ _, _ => False
  | .pool pktPoolConf, call => call = pktPoolCall pktPoolConf
  | .ring ringConf, call => call = ringCall ringConf
  | .count _, call => call = .devCount
  | .port ethConf, call => call = configureCall ethConf ∨ call = promiscuousCall ethConf
  | .rxQueue ethConf q, call =>
    call = .mempoolLookup q.pktPoolName ∨ ∃ mp, call = rxQueueCall ethConf q mp
  | .txQueue ethConf q, call => call = txQueueCall ethConf q
  | .start i, call => call = .devStart (.ofInt i)

/-- What a step writes are its own calls. -/
theorem mayCall_of_mem {step : Step} {seg : List Event}
    (wrote : Writes dpdk step seg ∨ Stops dpdk step seg) {e : Event} (member : e ∈ seg) :
    step.MayCall e.call := by
  cases step <;> grind [Writes, Stops, Step.MayCall]

/-- The step that makes a call, as far as the call tells it. -/
def Call.MadeBy : Call → Step → Prop
  | .pktmbufPoolCreate name _ _ _ _ _, step =>
    ∃ pktPoolConf, step = .pool pktPoolConf ∧ pktPoolConf.name = name
  | .mempoolLookup name, step => ∃ ethConf q, step = .rxQueue ethConf q ∧ q.pktPoolName = name
  | .rxQueueSetup _ _ _ _ _, step => ∃ ethConf q, step = .rxQueue ethConf q
  | .devStart p, step => ∃ i : Nat, step = .start i ∧ p = .ofInt i
  | _, _ => True

/-- **Whose call it is.** -/
theorem madeBy_of_mayCall {step : Step} {call : Call} (mayCall : step.MayCall call) :
    call.MadeBy step := by
  cases step with
  | init argv =>
    cases mayCall
    trivial
  | table kind size => exact mayCall.elim
  | pool pktPoolConf =>
    cases mayCall
    exact ⟨pktPoolConf, rfl, rfl⟩
  | ring ringConf =>
    cases mayCall
    trivial
  | count size =>
    cases mayCall
    trivial
  | port ethConf =>
    rcases mayCall with rfl | rfl
    · trivial
    · unfold promiscuousCall
      split_ifs <;> trivial
  | rxQueue ethConf q =>
    rcases mayCall with rfl | ⟨mp, rfl⟩
    · exact ⟨ethConf, q, rfl, rfl⟩
    · exact ⟨ethConf, q, rfl⟩
  | txQueue ethConf q =>
    cases mayCall
    trivial
  | start i =>
    cases mayCall
    exact ⟨i, rfl, rfl⟩

/-! ### The pools that are looked up -/

/-- A name is that of a pool, as far as `rte_mempool_lookup` compares it. -/
def SameName (name : String) (pool : String × Object) : Prop :=
  SamePrefix mempoolNamesize name pool.1

instance (name : String) (pool : String × Object) : Decidable (SameName name pool) :=
  inferInstanceAs (Decidable (SamePrefix _ _ _))

/-- **The lookup finds the first pool with the name.** -/
theorem findMempool_eq (name : String) (pools : List (String × Object)) :
    findMempool (some name) pools =
      .ok ((pools.find? fun pool => SameName name pool).map Prod.snd) := by
  induction pools with
  | nil => rfl
  | cons pool pools ih =>
    obtain ⟨order, compared, zero⟩ := strncmp_eq_zero mempoolNamesize name pool.1
    rw [findMempool, compared, ok_bind]
    by_cases same : SameName name pool
    · rw [if_pos (zero.mpr same), List.find?_cons_of_pos (by simpa using same)]
      rfl
    · rw [if_neg fun equal => same (zero.mp equal), List.find?_cons_of_neg (by simpa using same)]
      exact ih

/-- A pool that is found has the name, and is among those that are looked at. -/
theorem findMempool_some {name : Option String} {pools : List (String × Object)} {mp : Object}
    (found : findMempool name pools = .ok (some mp)) :
    ∃ s t, name = some s ∧ (t, mp) ∈ pools ∧ SamePrefix mempoolNamesize s t := by
  cases name with
  | none =>
    cases pools with
    | nil => cases found
    | cons pool pools => cases found
  | some s =>
    rw [findMempool_eq] at found
    obtain ⟨⟨t, mp'⟩, search, rfl⟩ := Option.map_eq_some_iff.mp (Except.ok.inj found)
    have same := List.find?_some search
    exact ⟨s, t, rfl, List.mem_of_find?_eq_some search, of_decide_eq_true same⟩

/-- A pool that some calls have created. -/
def Created (trace : List Event) (mp : Object) : Prop :=
  ∃ name n cacheSize privSize dataRoomSize socketId,
    ⟨.pktmbufPoolCreate name n cacheSize privSize dataRoomSize socketId, .object (some mp)⟩ ∈ trace

/-- The list of pools holds what was created. -/
theorem mem_mempools {trace : List Event} {t : String} {mp : Object} :
    (t, mp) ∈ trace.filterMap Event.mempool ↔
      ∃ n cacheSize privSize dataRoomSize socketId,
        ⟨.pktmbufPoolCreate (some t) n cacheSize privSize dataRoomSize socketId,
          .object (some mp)⟩ ∈ trace := by
  rw [List.mem_filterMap]
  constructor
  · rintro ⟨e, member, found⟩
    unfold Event.mempool at found
    split at found
    · cases found
      exact ⟨_, _, _, _, _, member⟩
    · cases found
  · rintro ⟨n, cacheSize, privSize, dataRoomSize, socketId, member⟩
    exact ⟨_, member, rfl⟩

/-- **What an event owes to the events before it**: a pool that is found has the name that is looked
up, and a pool that is given to a queue has been created. -/
def Event.Justified (before : List Event) : Event → Prop
  | ⟨.mempoolLookup name, .object (some mp)⟩ => ∃ s t, name = some s ∧
      (t, mp) ∈ before.filterMap Event.mempool ∧ SamePrefix mempoolNamesize s t
  | ⟨.rxQueueSetup _ _ _ _ mp, _⟩ => Created before mp
  | _ => True

/-- Every event of a trace is justified. -/
def Sound (trace : List Event) : Prop :=
  ∀ before e after, trace = before ++ e :: after → e.Justified before

theorem Event.Justified.mono {e : Event} {before before' : List Event}
    (justified : e.Justified before) (more : before ⊆ before') : e.Justified before' := by
  unfold Event.Justified at justified ⊢
  split
  · obtain ⟨s, t, named, member, same⟩ := justified
    exact ⟨s, t, named, List.filterMap_subset _ more member, same⟩
  · obtain ⟨name, n, cacheSize, privSize, dataRoomSize, socketId, member⟩ := justified
    exact ⟨name, n, cacheSize, privSize, dataRoomSize, socketId, more member⟩
  · trivial

/-- The beginning of a sound trace. -/
theorem Sound.front {trace more : List Event} (sound : Sound (trace ++ more)) : Sound trace := by
  intro before e after split
  refine sound before e (after ++ more) ?_
  rw [split, List.append_assoc]
  rfl

/-- Justified events are added. -/
theorem Sound.append {trace seg : List Event} (sound : Sound trace)
    (justified : ∀ e ∈ seg, e.Justified trace) : Sound (trace ++ seg) := by
  intro before e after split
  rcases List.append_eq_append_iff.mp split with ⟨tail, rfl, inside⟩ | ⟨tail, rfl, behind⟩
  · have member : e ∈ seg := by
      rw [inside]
      exact List.mem_append_right _ List.mem_cons_self
    exact (justified e member).mono (List.subset_append_left _ _)
  · cases tail with
    | nil =>
      have member : e ∈ seg := by
        rw [← show e :: after = seg from behind]
        exact List.mem_cons_self
      rw [List.append_nil] at justified
      exact justified e member
    | cons first tail =>
      cases behind
      exact sound before e tail rfl

/-- The other calls owe nothing. -/
theorem justified_of_call {e : Event} (before : List Event)
    (noLookup : ∀ name, e.call ≠ .mempoolLookup name)
    (noSetup : ∀ p i desc socket mp, e.call ≠ .rxQueueSetup p i desc socket mp) :
    e.Justified before := by
  unfold Event.Justified
  split
  · exact absurd rfl (noLookup _)
  · exact absurd rfl (noSetup _ _ _ _ _)
  · trivial

/-- A step that looks up no pool justifies what it writes. -/
theorem mayCall_justified {step : Step} (other : ∀ ethConf q, step ≠ .rxQueue ethConf q) {e : Event}
    (mayCall : step.MayCall e.call) (before : List Event) : e.Justified before := by
  have maker := madeBy_of_mayCall mayCall
  apply justified_of_call before
  · intro name called
    rw [called] at maker
    obtain ⟨ethConf, q, same, _⟩ := maker
    exact other ethConf q same
  · intro p i desc socket mp called
    rw [called] at maker
    obtain ⟨ethConf, q, same⟩ := maker
    exact other ethConf q same

/-- **Every step keeps the trace sound.** -/
theorem doStep_sound (step : Step) (run : Run) (ret : Int) (run' : Run)
    (ran : doStep dpdk step run = .ok (ret, run')) (sound : Sound run.trace) :
    Sound run'.trace := by
  by_cases looks : ∃ ethConf q, step = .rxQueue ethConf q
  · obtain ⟨ethConf, q, rfl⟩ := looks
    obtain ⟨⟨pool, middle⟩, looked, ran⟩ := bind_eq_ok.mp ran
    obtain ⟨pool', found, same⟩ := bind_eq_ok.mp looked
    cases same
    cases pool with
    | none =>
      cases ran
      exact sound.append (List.forall_mem_singleton.mpr trivial)
    | some mp =>
      obtain ⟨s, t, named, member, same⟩ := findMempool_some found
      have lookup : Sound (run.log (.mempoolLookup q.pktPoolName) (.object (some mp))).trace :=
        sound.append (List.forall_mem_singleton.mpr ⟨s, t, named, member, same⟩)
      obtain ⟨n, cacheSize, privSize, dataRoomSize, socketId, created⟩ := mem_mempools.mp member
      obtain ⟨code, wrote, _⟩ := checked_writes dpdk ran
      rw [wrote]
      exact lookup.append (List.forall_mem_singleton.mpr ⟨some t, n, cacheSize, privSize,
        dataRoomSize, socketId, List.mem_append_left _ created⟩)
  · obtain ⟨seg, wrote, result⟩ := doStep_writes dpdk step run ret run' ran
    rw [wrote]
    apply sound.append
    intro e member
    exact mayCall_justified (fun ethConf q same => looks ⟨ethConf, q, same⟩)
      (mayCall_of_mem dpdk (result.imp And.right And.right) member) _

/-- **Every run is sound.** -/
theorem doSteps_sound {steps : List Step} {ret : Int} {run : Run}
    (ran : loop (doStep dpdk) steps .start = .ok (ret, run)) : Sound run.trace := by
  refine loop_keeps (P := fun run => Sound run.trace) (doStep_sound dpdk) _ ran ?_
  intro before e after split
  exact absurd split (by simp [Run.start])

end Trace

end CyberPlatform.AppManager
