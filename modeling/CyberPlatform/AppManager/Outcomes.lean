/-
**How far the start-up gets.**

`Dpdk.strict` is a dpdk that refuses the calls that are not good, and no others. Under it the
start-up goes on to its end, unless it comes to a call that is not good, or to a step that dpdk has
no part in: a pool that is looked up and was not created, or too few ports.

* `doStep_reaches` — one step under a strict dpdk.
* `doSteps_return` — under any dpdk, the steps return.
* `doSteps_reach` — some steps, that have room for their objects and name their pools first.
* `createSteps_room`, `createSteps_ordered` — the steps of the start-up have.
-/

import CyberPlatform.AppManager.Trace

namespace CyberPlatform.AppManager

open Foundation Json LList

/-! ### Between two steps -/

/-- The calls that take the numbers of a configuration. -/
def Call.numbered : Call → Bool
  | .pktmbufPoolCreate .. | .ringCreate .. | .devConfigure .. | .rxQueueSetup ..
  | .txQueueSetup .. => true
  | _ => false

/-- The calls of a trace that take numbers. -/
def numberedCalls (trace : List Event) : List Call := (trace.map Event.call).filter Call.numbered

theorem numberedCalls_append (trace seg : List Event) :
    numberedCalls (trace ++ seg) = numberedCalls trace ++ numberedCalls seg := by
  rw [numberedCalls, List.map_append, List.filter_append]
  rfl

/-- The call of a step that takes numbers, where all objects have the address 0. -/
def Step.call : Step → Option Call
  | .pool pktPoolConf => some (pktPoolCall pktPoolConf)
  | .ring ringConf => some (ringCall ringConf)
  | .port ethConf => some (configureCall ethConf)
  | .rxQueue ethConf q => some (rxQueueCall ethConf q 0)
  | .txQueue ethConf q => some (txQueueCall ethConf q)
  | _ => none

/-- A pool of a configuration has the name. -/
def PoolFound (pools : List PktPoolConf) (name : Option String) : Prop :=
  ∃ s, name = some s ∧ ∃ pktPoolConf ∈ pools, ∃ t, pktPoolConf.name = some t ∧
    SamePrefix mempoolNamesize s t

/-- There is a slot for every object that is created. -/
def Room (free : Kind → Nat) : List Step → Prop
  | [] => True
  | .table kind size :: steps => Room (Function.update free kind size) steps
  | .pool _ :: steps =>
    0 < free .pktPools ∧ Room (Function.update free .pktPools (free .pktPools - 1)) steps
  | .ring _ :: steps =>
    0 < free .rings ∧ Room (Function.update free .rings (free .rings - 1)) steps
  | _ :: steps => Room free steps

/-- The slots that are free. -/
def Run.free (run : Run) (kind : Kind) : Nat := (run.tables kind).slots - (run.tables kind).count

section Outcomes

variable (nbPorts : UInt8) (good : Nat → Call → Prop) (pools : List PktPoolConf) (all : List Step)

/-- What a step asks for beyond the replies of dpdk. -/
def Step.Goes : Step → Prop
  | .count size => size ≤ nbPorts.toNat
  | .rxQueue _ q => PoolFound pools q.pktPoolName
  | _ => True

/-- **The start-up between two steps**, under a dpdk that gives out the address 0. -/
structure Between (done : List Step) (run : Run) : Prop where
  calls : numberedCalls run.trace = done.filterMap Step.call
  room : Room run.free (all.drop done.length)
  zero : ∀ pool ∈ run.trace.filterMap Event.mempool, pool.2 = 0
  known : ∀ pktPoolConf, .pool pktPoolConf ∈ done → ∀ t, pktPoolConf.name = some t →
    (t, 0) ∈ run.trace.filterMap Event.mempool

/-- The call of a step is good, if the step gets to it. -/
def StepGood (done : List Step) (step : Step) : Prop :=
  step.Goes nbPorts pools → ∀ call, step.call = some call →
    good (done.filterMap Step.call).length call

/-- The start-up has come to a call that is not good. -/
def Refused (run : Run) : Prop :=
  ∃ done step behind call, all = done ++ step :: behind ∧ step.Goes nbPorts pools ∧
    step.call = some call ∧ ¬ good (done.filterMap Step.call).length call ∧
    numberedCalls run.trace = done.filterMap Step.call ++ [call]

variable {nbPorts good pools all} {done behind : List Step} {step : Step} {run run' : Run}

/-- The room for what is still to come. -/
theorem Between.rest (split : all = done ++ step :: behind) (between : Between all done run) :
    Room run.free (step :: behind) := by
  have room := between.room
  rwa [split, List.drop_left] at room

/-- A step adds its call, and its pool. -/
theorem Between.next (split : all = done ++ step :: behind) (between : Between all done run)
    {seg : List Event} (wrote : run'.trace = run.trace ++ seg)
    (calls : numberedCalls seg = step.call.toList) (room : Room run'.free behind)
    (zero : ∀ pool ∈ seg.filterMap Event.mempool, pool.2 = 0)
    (known : ∀ pktPoolConf, step = .pool pktPoolConf → ∀ t, pktPoolConf.name = some t →
      (t, 0) ∈ seg.filterMap Event.mempool) :
    Between all (done ++ [step]) run' where
  calls := by
    have last : [step].filterMap Step.call = step.call.toList := by
      cases call : step.call <;> simp [call]
    rw [wrote, numberedCalls_append, between.calls, calls, List.filterMap_append, last]
  room := by
    rwa [split, List.append_cons done step behind, List.drop_left]
  zero := by
    rw [wrote, List.filterMap_append, List.forall_mem_append]
    exact ⟨between.zero, zero⟩
  known := by
    intro pktPoolConf member t named
    rw [wrote, List.filterMap_append, List.mem_append]
    rcases List.mem_append.mp member with before | last
    · exact .inl (between.known pktPoolConf before t named)
    · exact .inr (known pktPoolConf (List.mem_singleton.mp last).symm t named)

/-- A step that creates no pool adds its call. -/
theorem Between.next_other (split : all = done ++ step :: behind) (between : Between all done run)
    {seg : List Event} (wrote : run'.trace = run.trace ++ seg)
    (calls : numberedCalls seg = step.call.toList) (room : Room run'.free behind)
    (none : seg.filterMap Event.mempool = []) (other : ∀ pktPoolConf, step ≠ .pool pktPoolConf) :
    Between all (done ++ [step]) run' := by
  refine between.next split wrote calls room (fun pool member => ?_) fun pktPoolConf same => ?_
  · rw [none] at member
    exact absurd member List.not_mem_nil
  · exact absurd same (other pktPoolConf)

/-- A step that is refused. -/
theorem refused_of_call (split : all = done ++ step :: behind) (between : Between all done run)
    (goes : step.Goes nbPorts pools) {call : Call} (called : step.call = some call)
    (bad : ¬ good (numberedCalls run.trace).length call) {seg : List Event}
    (wrote : run'.trace = run.trace ++ seg) (calls : numberedCalls seg = [call]) :
    Refused nbPorts good pools all run' := by
  rw [between.calls] at bad
  refine ⟨done, step, behind, call, split, goes, called, bad, ?_⟩
  rw [wrote, numberedCalls_append, between.calls, calls]

/-! ### A strict dpdk -/

variable (nbPorts good) [∀ k call, Decidable (good k call)]

/-- **A dpdk that refuses a call exactly when it is not good**, for the number of calls before. -/
def Dpdk.strict : Dpdk where
  nbPorts := nbPorts
  created trace call := if good (numberedCalls trace).length call then some 0 else none
  returned trace call :=
    if call.numbered = true ∧ ¬ good (numberedCalls trace).length call then -1 else 0

variable {nbPorts good}

/-- A call that takes no numbers succeeds. -/
theorem strict_quiet {call : Call} (quiet : call.numbered = false) (run : Run) :
    checked (.strict nbPorts good) call run = .ok (0, run.log call (.code 0)) := by
  have none : ¬ (call.numbered = true ∧ ¬ good (numberedCalls run.trace).length call) := by
    rw [quiet]
    exact fun both => absurd both.1 (by decide)
  unfold checked invoke Dpdk.strict
  simp only [if_neg none]
  rfl

/-- A good call succeeds. -/
theorem strict_good {call : Call} {run : Run} (fine : good (numberedCalls run.trace).length call) :
    checked (.strict nbPorts good) call run = .ok (0, run.log call (.code 0)) := by
  have none : ¬ (call.numbered = true ∧ ¬ good (numberedCalls run.trace).length call) :=
    fun both => both.2 fine
  unfold checked invoke Dpdk.strict
  simp only [if_neg none]
  rfl

/-- A call that is not good fails. -/
theorem strict_bad {call : Call} {run : Run} (numbered : call.numbered = true)
    (bad : ¬ good (numberedCalls run.trace).length call) :
    checked (.strict nbPorts good) call run = .ok (-1, run.log call (.code (-1))) := by
  unfold checked invoke Dpdk.strict
  simp only [if_pos (And.intro numbered bad)]
  rfl

/-- What is shown of a step. -/
def Reaches (nbPorts : UInt8) (good : Nat → Call → Prop) [∀ k call, Decidable (good k call)]
    (pools : List PktPoolConf) (all done : List Step) (step : Step) (run : Run) : Prop :=
  (StepGood nbPorts good pools done step → step.Goes nbPorts pools →
    ∃ run', doStep (.strict nbPorts good) step run = .ok (0, run') ∧
      Between all (done ++ [step]) run') ∧
  (¬ StepGood nbPorts good pools done step →
    ∃ ret run', doStep (.strict nbPorts good) step run = .ok (ret, run') ∧ ret ≠ 0 ∧
      Refused nbPorts good pools all run')

/-- A step without a call that takes numbers. -/
theorem reaches_quiet (quiet : step.call = none)
    (one : step.Goes nbPorts pools →
      ∃ run', doStep (.strict nbPorts good) step run = .ok (0, run') ∧
        Between all (done ++ [step]) run') : Reaches nbPorts good pools all done step run := by
  refine ⟨fun _ goes => one goes, fun bad => absurd (fun _ call called => ?_) bad⟩
  rw [quiet] at called
  cases called

/-- A step with a call that takes numbers. -/
theorem reaches_called (between : Between all done run) {call : Call}
    (called : step.call = some call)
    (one : step.Goes nbPorts pools → good (numberedCalls run.trace).length call →
      ∃ run', doStep (.strict nbPorts good) step run = .ok (0, run') ∧
        Between all (done ++ [step]) run')
    (other : step.Goes nbPorts pools → ¬ good (numberedCalls run.trace).length call →
      ∃ run', doStep (.strict nbPorts good) step run = .ok (-1, run') ∧
        Refused nbPorts good pools all run') : Reaches nbPorts good pools all done step run := by
  rw [between.calls] at one other
  refine ⟨fun fine goes => one goes (fine goes call called), fun bad => ?_⟩
  unfold StepGood at bad
  push Not at bad
  obtain ⟨goes, call', called', wrong⟩ := bad
  cases called.symm.trans called'
  obtain ⟨run', ran, refused⟩ := other goes wrong
  exact ⟨-1, run', ran, by decide, refused⟩

/-- The free slots behind a table that is set. -/
theorem free_setTable (run : Run) (kind : Kind) (table : Table) :
    (run.setTable kind table).free =
      Function.update run.free kind (table.slots - table.count) := by
  funext k
  unfold Run.free
  by_cases same : k = kind
  · subst same
    rw [Run.setTable_tables, Function.update_self]
  · rw [Run.setTable_others run table same, Function.update_of_ne same]

/-- An object that is created, or refused. -/
theorem strict_object (nbPorts : UInt8) (good : Nat → Call → Prop)
    [∀ k call, Decidable (good k call)] (kind : Kind) (call : Call) {run : Run}
    (room : (run.tables kind).count < (run.tables kind).slots) :
    (good (numberedCalls run.trace).length call → ∃ run',
      allocObject (.strict nbPorts good) kind call run = .ok (0, run') ∧
      run'.trace = run.trace ++ [⟨call, .object (some 0)⟩] ∧
      run'.free = Function.update run.free kind (run.free kind - 1)) ∧
    (¬ good (numberedCalls run.trace).length call → ∃ run',
      allocObject (.strict nbPorts good) kind call run = .ok (-1, run') ∧
      run'.trace = run.trace ++ [⟨call, .object none⟩]) := by
  have made := allocObject_eq (.strict nbPorts good) kind call run room
  refine ⟨fun fine => ?_, fun bad => ?_⟩
  · have object : (Dpdk.strict nbPorts good).created run.trace call = some 0 := if_pos fine
    simp only [object, if_neg (Option.some_ne_none _)] at made
    refine ⟨_, made, rfl, ?_⟩
    rw [free_setTable]
    exact congrArg (Function.update run.free kind) (Nat.sub_add_eq _ _ _)
  · have object : (Dpdk.strict nbPorts good).created run.trace call = none := if_neg bad
    simp only [object, if_true] at made
    exact ⟨_, made, rfl⟩

/-- A slot that is free. -/
theorem room_of_free {kind : Kind} {run : Run} (free : 0 < run.free kind) :
    (run.tables kind).count < (run.tables kind).slots := by
  unfold Run.free at free
  omega

/-- The pool that the creation of a pool adds. -/
theorem pktPoolCall_mempool (pktPoolConf : PktPoolConf) (mp : Object) :
    [(⟨pktPoolCall pktPoolConf, .object (some mp)⟩ : Event)].filterMap Event.mempool =
      (pktPoolConf.name.map fun t => (t, mp)).toList := by
  unfold pktPoolCall
  obtain none | ⟨t, named⟩ := Option.eq_none_or_eq_some pktPoolConf.name
  · rw [none]
    rfl
  · rw [named]
    rfl

/-- The calls for the promiscuous mode take no numbers, and create no pool. -/
theorem promiscuous_quiet (ethConf : EthConf) (reply : Reply) :
    (promiscuousCall ethConf).numbered = false ∧
      Event.mempool ⟨promiscuousCall ethConf, reply⟩ = none := by
  unfold promiscuousCall
  split_ifs
  · exact ⟨rfl, rfl⟩
  · exact ⟨rfl, rfl⟩

/-- A pool of the configuration is found, once all of them are created. -/
theorem findMempool_known (between : Between all done run) {name : Option String}
    (found : PoolFound pools name) (order : ∀ pktPoolConf ∈ pools, .pool pktPoolConf ∈ done) :
    findMempool name (run.trace.filterMap Event.mempool) = .ok (some 0) := by
  obtain ⟨s, rfl, pktPoolConf, member, t, named, same⟩ := found
  have here := between.known pktPoolConf (order pktPoolConf member) t named
  rw [findMempool_eq]
  cases search : (run.trace.filterMap Event.mempool).find? fun pool => SameName s pool with
  | none => exact absurd (decide_eq_true same) (List.find?_eq_none.mp search _ here)
  | some pool =>
    have zero := between.zero pool (List.mem_of_find?_eq_some search)
    rw [Option.map_some, zero]

/-- The pools of the configuration come before the queues that use them. -/
def Ordered (pools : List PktPoolConf) (all : List Step) : Prop :=
  ∀ done ethConf q behind, all = done ++ .rxQueue ethConf q :: behind →
    ∀ pktPoolConf ∈ pools, .pool pktPoolConf ∈ done

/-- A pool under a strict dpdk. -/
theorem reaches_pool {pktPoolConf : PktPoolConf} (split : all = done ++ .pool pktPoolConf :: behind)
    (between : Between all done run) :
    Reaches nbPorts good pools all done (.pool pktPoolConf) run := by
  have room := between.rest split
  obtain ⟨created, refused⟩ := strict_object nbPorts good .pktPools (pktPoolCall pktPoolConf)
    (room_of_free room.1)
  refine reaches_called between rfl (fun _ fine => ?_) fun goes bad => ?_
  · obtain ⟨run', ran, wrote, free⟩ := created fine
    have made := pktPoolCall_mempool pktPoolConf 0
    refine ⟨run', ran, between.next split wrote rfl (free ▸ room.2) (fun pool member => ?_)
      fun pktPoolConf' same t named => ?_⟩
    · rw [made, Option.mem_toList, Option.map_eq_some_iff] at member
      obtain ⟨t, _, rfl⟩ := member
      rfl
    · cases same
      rw [made, named]
      exact List.mem_singleton_self _
  · obtain ⟨run', ran, wrote⟩ := refused bad
    exact ⟨run', ran, refused_of_call split between goes rfl bad wrote rfl⟩

/-- A port under a strict dpdk. -/
theorem reaches_port {ethConf : EthConf} (split : all = done ++ .port ethConf :: behind)
    (between : Between all done run) :
    Reaches nbPorts good pools all done (.port ethConf) run := by
  have room := between.rest split
  refine reaches_called between rfl (fun _ fine => ?_) fun goes bad => ?_
  · refine ⟨(run.log (configureCall ethConf) (.code 0)).log (promiscuousCall ethConf) .nothing,
      ?_, ?_⟩
    · rw [doStep, strict_good fine]
      rfl
    · obtain ⟨quiet, none⟩ := promiscuous_quiet ethConf .nothing
      have wrote : ((run.log (configureCall ethConf) (.code 0)).log (promiscuousCall ethConf)
          .nothing).trace = run.trace ++ [⟨configureCall ethConf, .code 0⟩,
            ⟨promiscuousCall ethConf, .nothing⟩] := List.append_assoc _ _ _
      refine between.next_other split wrote ?_ room ?_ fun _ => Step.noConfusion
      · exact congrArg (configureCall ethConf :: ·) (List.filter_cons_of_neg (by simp [quiet]))
      · exact List.filterMap_cons_none none
  · refine ⟨run.log (configureCall ethConf) (.code (-1)), ?_, ?_⟩
    · rw [doStep, strict_bad rfl bad]
      rfl
    · exact refused_of_call split between goes rfl bad rfl rfl

/-- An rx queue under a strict dpdk: its pool is found. -/
theorem reaches_rxQueue {ethConf : EthConf} {q : EthQ}
    (split : all = done ++ .rxQueue ethConf q :: behind) (between : Between all done run)
    (ordered : Ordered pools all) :
    Reaches nbPorts good pools all done (.rxQueue ethConf q) run := by
  have room := between.rest split
  have looked := fun goes : PoolFound pools q.pktPoolName =>
    findMempool_known between goes (ordered done ethConf q behind split)
  let middle := run.log (.mempoolLookup q.pktPoolName) (.object (some 0))
  have quiet : numberedCalls middle.trace = numberedCalls run.trace :=
    (numberedCalls_append _ _).trans (List.append_nil _)
  refine reaches_called between rfl (fun goes fine => ?_) fun goes bad => ?_
  · refine ⟨middle.log (rxQueueCall ethConf q 0) (.code 0), ?_, ?_⟩
    · rw [doStep, mempoolLookup, looked goes]
      exact strict_good (by rwa [quiet])
    · exact between.next_other split (List.append_assoc _ _ _) rfl room rfl
        fun _ => Step.noConfusion
  · refine ⟨middle.log (rxQueueCall ethConf q 0) (.code (-1)), ?_, ?_⟩
    · rw [doStep, mempoolLookup, looked goes]
      exact strict_bad rfl (by rwa [quiet])
    · exact refused_of_call split between goes rfl bad (List.append_assoc _ _ _) rfl

/-- **One step under a strict dpdk.** -/
theorem doStep_reaches (split : all = done ++ step :: behind) (between : Between all done run)
    (ordered : Ordered pools all) : Reaches nbPorts good pools all done step run := by
  have room := between.rest split
  cases step with
  | init argv =>
    refine reaches_quiet rfl fun _ => ⟨_, strict_quiet rfl run, ?_⟩
    exact between.next_other split rfl rfl room rfl fun _ => Step.noConfusion
  | table kind size =>
    refine reaches_quiet rfl fun _ => ⟨_, rfl, ?_⟩
    refine between.next_other split (List.append_nil _).symm rfl ?_ rfl fun _ => Step.noConfusion
    rw [free_setTable]
    exact room
  | count size =>
    refine reaches_quiet rfl fun goes => ⟨(devCount (.strict nbPorts good) run).2, ?_, ?_⟩
    · exact if_neg (Int.not_lt.mpr goes)
    · exact between.next_other split rfl rfl room rfl fun _ => Step.noConfusion
  | start i =>
    refine reaches_quiet rfl fun _ => ⟨_, strict_quiet rfl run, ?_⟩
    exact between.next_other split rfl rfl room rfl fun _ => Step.noConfusion
  | pool pktPoolConf => exact reaches_pool split between
  | ring ringConf =>
    obtain ⟨created, refused⟩ := strict_object nbPorts good .rings (ringCall ringConf)
      (room_of_free room.1)
    refine reaches_called between rfl (fun _ fine => ?_) fun goes bad => ?_
    · obtain ⟨run', ran, wrote, free⟩ := created fine
      exact ⟨run', ran, between.next_other split wrote rfl (free ▸ room.2) rfl
        fun _ => Step.noConfusion⟩
    · obtain ⟨run', ran, wrote⟩ := refused bad
      exact ⟨run', ran, refused_of_call split between goes rfl bad wrote rfl⟩
  | port ethConf => exact reaches_port split between
  | rxQueue ethConf q => exact reaches_rxQueue split between ordered
  | txQueue ethConf q =>
    refine reaches_called between rfl (fun _ fine => ?_) fun goes bad => ?_
    · refine ⟨_, strict_good fine, ?_⟩
      exact between.next_other split rfl rfl room rfl fun _ => Step.noConfusion
    · exact ⟨_, strict_bad rfl bad, refused_of_call split between goes rfl bad rfl rfl⟩

variable (nbPorts good)

/-- **Steps under a strict dpdk**: it lets them through, or it is the one that stops them. -/
theorem doSteps_reach (room : Room Run.start.free all) (ordered : Ordered pools all) :
    (Guarded (fun _ => Step.Goes nbPorts pools) (StepGood nbPorts good pools) [] all →
      (∀ step ∈ all, step.Goes nbPorts pools) →
      ∃ run, loop (doStep (.strict nbPorts good)) all .start = .ok (0, run)) ∧
    (¬ Guarded (fun _ => Step.Goes nbPorts pools) (StepGood nbPorts good pools) [] all →
      ∃ ret run, loop (doStep (.strict nbPorts good)) all .start = .ok (ret, run) ∧ ret ≠ 0 ∧
        Refused nbPorts good pools all run) := by
  have start : Between all [] Run.start :=
    ⟨rfl, room, fun _ member => absurd member List.not_mem_nil,
      fun _ member => absurd member List.not_mem_nil⟩
  obtain ⟨through, off⟩ := loop_reaches (fun _ => Step.Goes nbPorts pools)
    (StepGood nbPorts good pools) (R := Between all)
    (Q := fun _ run => Refused nbPorts good pools all run) (doStep (.strict nbPorts good))
    (fun done step behind run split between => doStep_reaches split between ordered)
    all [] rfl start
  refine ⟨fun guarded goes => ?_, off⟩
  obtain ⟨run, ran, _⟩ := through guarded ((passes_iff all []).mpr goes)
  exact ⟨run, ran⟩

end Outcomes

/-! ### Any dpdk -/

section Returns

variable (dpdk : Dpdk)

/-- A call that is checked returns, and leaves the tables alone. -/
theorem checked_returns (call : Call) (run : Run) :
    ∃ ret run', checked dpdk call run = .ok (ret, run') ∧ run'.tables = run.tables := by
  unfold checked
  split_ifs
  · exact ⟨_, _, rfl, rfl⟩
  · exact ⟨_, _, rfl, rfl⟩

/-- An object is created, or not, where there is a slot for it. -/
theorem allocObject_returns (kind : Kind) (call : Call) {run : Run}
    (room : (run.tables kind).count < (run.tables kind).slots) :
    ∃ ret run', allocObject dpdk kind call run = .ok (ret, run') ∧
      (ret = 0 → run'.free = Function.update run.free kind (run.free kind - 1)) := by
  have made := allocObject_eq dpdk kind call run room
  cases object : dpdk.created run.trace call with
  | none =>
    simp only [object, if_true] at made
    exact ⟨_, _, made, fun zero => absurd zero (by decide)⟩
  | some address =>
    simp only [object, if_neg (Option.some_ne_none _)] at made
    refine ⟨_, _, made, fun _ => ?_⟩
    rw [free_setTable]
    exact congrArg (Function.update run.free kind) (Nat.sub_add_eq _ _ _)

/-- **A step returns**, if its object has a slot and its pool a name. -/
theorem doStep_returns {step : Step} {behind : List Step} {run : Run}
    (room : Room run.free (step :: behind))
    (named : ∀ ethConf q, step = .rxQueue ethConf q → q.pktPoolName ≠ none) :
    ∃ ret run', doStep dpdk step run = .ok (ret, run') ∧ (ret = 0 → Room run'.free behind) := by
  have kept : ∀ run' : Run, run'.tables = run.tables → Room run.free behind →
      Room run'.free behind := by
    intro run' same room
    have free : run'.free = run.free := by
      funext kind
      rw [Run.free, same]
      rfl
    rwa [free]
  cases step with
  | init argv =>
    obtain ⟨ret, run', ran, same⟩ := checked_returns dpdk (.ealInit argv) run
    exact ⟨ret, run', ran, fun _ => kept run' same room⟩
  | table kind size =>
    refine ⟨0, _, rfl, fun _ => ?_⟩
    rw [free_setTable]
    exact room
  | pool pktPoolConf =>
    obtain ⟨ret, run', ran, free⟩ := allocObject_returns dpdk .pktPools (pktPoolCall pktPoolConf)
      (room_of_free room.1)
    exact ⟨ret, run', ran, fun zero => free zero ▸ room.2⟩
  | ring ringConf =>
    obtain ⟨ret, run', ran, free⟩ := allocObject_returns dpdk .rings (ringCall ringConf)
      (room_of_free room.1)
    exact ⟨ret, run', ran, fun zero => free zero ▸ room.2⟩
  | count size =>
    rw [doStep]
    split_ifs
    · exact ⟨_, _, rfl, fun _ => kept _ rfl room⟩
    · exact ⟨_, _, rfl, fun _ => kept _ rfl room⟩
  | port ethConf =>
    obtain ⟨ret, run', ran, same⟩ := checked_returns dpdk (configureCall ethConf) run
    rw [doStep, ran, ok_bind]
    split_ifs
    · exact ⟨_, _, rfl, fun _ => kept _ same room⟩
    · exact ⟨_, _, rfl, fun _ => kept _ same room⟩
  | rxQueue ethConf q =>
    obtain ⟨name, given⟩ := Option.ne_none_iff_exists'.mp (named ethConf q rfl)
    rw [doStep, mempoolLookup, given, findMempool_eq]
    cases (run.trace.filterMap Event.mempool).find? fun pool => SameName name pool with
    | none => exact ⟨_, _, rfl, fun _ => kept _ rfl room⟩
    | some pool =>
      obtain ⟨ret, run', ran, same⟩ := checked_returns dpdk (rxQueueCall ethConf q pool.2)
        (run.log (.mempoolLookup (some name)) (.object (some pool.2)))
      exact ⟨ret, run', ran, fun _ => kept run' same room⟩
  | txQueue ethConf q =>
    obtain ⟨ret, run', ran, same⟩ := checked_returns dpdk (txQueueCall ethConf q) run
    exact ⟨ret, run', ran, fun _ => kept run' same room⟩
  | start i =>
    obtain ⟨ret, run', ran, same⟩ := checked_returns dpdk (.devStart (.ofInt i)) run
    exact ⟨ret, run', ran, fun _ => kept run' same room⟩

/-- **The steps return.** -/
theorem doSteps_return (all : List Step) {run : Run} (room : Room run.free all)
    (named : ∀ ethConf q, .rxQueue ethConf q ∈ all → q.pktPoolName ≠ none) :
    ∃ ret run', loop (doStep dpdk) all run = .ok (ret, run') := by
  induction all generalizing run with
  | nil => exact ⟨0, run, rfl⟩
  | cons step all ih =>
    obtain ⟨ret, run', ran, room'⟩ := doStep_returns dpdk room
      fun ethConf q same => named ethConf q (same ▸ List.mem_cons_self)
    by_cases zero : ret = 0
    · subst zero
      rw [loop_cons_zero ran]
      exact ih (room' rfl) fun ethConf q member => named ethConf q (List.mem_cons_of_mem _ member)
    · rw [loop_cons_leaves ran zero]
      exact ⟨ret, run', rfl⟩

/-- A call of a run is one of its steps. -/
theorem doSteps_mayCall {all : List Step} {ret : Int} {run : Run}
    (ran : loop (doStep dpdk) all .start = .ok (ret, run)) {e : Event} (member : e ∈ run.trace) :
    ∃ step ∈ all, step.MayCall e.call := by
  obtain ⟨before, after, split⟩ := List.append_of_mem member
  obtain ⟨front, step, back, es, seg, seg', rfl, _, wrote, _⟩ :=
    loop_entry (doStep_writes dpdk) ran rfl split
  exact ⟨step, List.mem_append_right _ List.mem_cons_self,
    mayCall_of_mem dpdk wrote (List.mem_append_right _ List.mem_cons_self)⟩

end Returns

/-! ### What has gone through -/

section Through

variable {dpdk : Dpdk} {pools : List PktPoolConf} {steps : List Step} {es : List Event}

/-- The pools that are asked for are those of the configuration. -/
def Listed (pools : List PktPoolConf) (trace : List Event) : Prop :=
  ∀ e ∈ trace, ∀ name n cacheSize privSize dataRoomSize socketId,
    e.call = .pktmbufPoolCreate name n cacheSize privSize dataRoomSize socketId →
      ∃ pktPoolConf ∈ pools, pktPoolConf.name = name

/-- What a step writes. -/
theorem listed_of_writes {step : Step} {seg : List Event}
    (known : ∀ pktPoolConf, step = .pool pktPoolConf → pktPoolConf ∈ pools)
    (wrote : Writes dpdk step seg ∨ Stops dpdk step seg) : Listed pools seg := by
  intro e member name n cacheSize privSize dataRoomSize socketId called
  have maker := madeBy_of_mayCall (mayCall_of_mem dpdk wrote member)
  rw [called] at maker
  obtain ⟨pktPoolConf, rfl, named⟩ := maker
  exact ⟨pktPoolConf, known pktPoolConf rfl, named⟩

/-- What the steps that go through write. -/
theorem listed_of_made (known : ∀ pktPoolConf, .pool pktPoolConf ∈ steps → pktPoolConf ∈ pools)
    (made : Made (Writes dpdk) steps es) : Listed pools es := by
  intro e member
  obtain ⟨step, inside, seg, wrote, here⟩ := made.written member
  refine listed_of_writes (fun pktPoolConf same => ?_) (.inl wrote) e here
  exact known pktPoolConf (same ▸ inside)

/-- **A pool that is found** is one of the configuration. -/
theorem poolFound_of_lookup (listed : Listed pools es) (sound : Sound es) {name : Option String}
    {mp : Object} (member : ⟨.mempoolLookup name, .object (some mp)⟩ ∈ es) :
    PoolFound pools name := by
  obtain ⟨before, after, rfl⟩ := List.append_of_mem member
  obtain ⟨s, t, named, found, same⟩ := sound before _ after rfl
  obtain ⟨n, cacheSize, privSize, dataRoomSize, socketId, created⟩ := mem_mempools.mp found
  obtain ⟨pktPoolConf, inside, pool⟩ := listed _ (List.mem_append_left _ created) _ _ _ _ _ _ rfl
  exact ⟨s, named, pktPoolConf, inside, t, pool, same⟩

/-- **What has gone through** had what it asks for. -/
theorem goes_of_made (known : ∀ pktPoolConf, .pool pktPoolConf ∈ steps → pktPoolConf ∈ pools)
    (made : Made (Writes dpdk) steps es) (sound : Sound es) :
    ∀ step ∈ steps, step.Goes dpdk.nbPorts pools := by
  intro step member
  obtain ⟨seg, wrote, inside⟩ := made.covers member
  cases step with
  | count size => exact wrote.1
  | rxQueue ethConf q =>
    obtain ⟨mp, ret, _, rfl⟩ := wrote
    exact poolFound_of_lookup (listed_of_made known made) sound (inside List.mem_cons_self)
  | _ => trivial

end Through

/-! ### The steps of the start-up -/

/-- A step that creates an object. -/
def Step.Creates : Step → Prop
  | .pool _ | .ring _ => True
  | _ => False

/-- Steps that create no object need no room. -/
theorem room_of_none {steps : List Step} (none : ∀ step ∈ steps, ¬ step.Creates)
    (free : Kind → Nat) : Room free steps := by
  induction steps generalizing free with
  | nil => trivial
  | cons step steps ih =>
    obtain ⟨first, rest⟩ := List.forall_mem_cons.mp none
    cases step with
    | pool pktPoolConf => exact absurd trivial first
    | ring ringConf => exact absurd trivial first
    | table kind size => exact ih rest _
    | _ => exact ih rest free

/-- There is room for the objects of a table. -/
theorem room_objects {κ : Type} (kind : Kind) {step : κ → Step}
    (one : ∀ k free steps, Room free (step k :: steps) ↔
      0 < free kind ∧ Room (Function.update free kind (free kind - 1)) steps)
    {steps : List Step} (rest : ∀ free, Room free steps) :
    ∀ (ks : List κ) (free : Kind → Nat), ks.length ≤ free kind →
      Room free (ks.map step ++ steps) := by
  intro ks
  induction ks with
  | nil => exact fun free _ => rest free
  | cons k ks ih =>
    intro free enough
    rw [List.length_cons] at enough
    refine (one k free _).mpr ⟨by omega, ih _ ?_⟩
    rw [Function.update_self]
    omega

/-- The steps before the ports. -/
def objectSteps (argv : List (Option String)) (pools : List PktPoolConf) (rings : List RingConf) :
    List Step :=
  .init argv :: .table .pktPools pools.length ::
    (pools.map .pool ++ .table .rings rings.length :: rings.map .ring)

section Whole

variable (argv : List (Option String)) (pools : List PktPoolConf) (rings : List RingConf)
  (ports : List EthConf)

theorem createSteps_eq :
    createSteps argv pools rings ports = objectSteps argv pools rings ++ portsSteps ports := by
  unfold createSteps objectSteps
  simp only [List.cons_append, List.nil_append, List.append_assoc]

/-- The steps of the ports. -/
theorem mem_portsSteps {step : Step} (member : step ∈ portsSteps ports) :
    step = .count ports.length ∨ ∃ ethConf ∈ ports, step ∈ portSteps ethConf := by
  unfold portsSteps at member
  split_ifs at member
  · exact absurd member List.not_mem_nil
  · rcases List.mem_cons.mp member with same | behind
    · exact .inl same
    · exact .inr (List.mem_flatMap.mp behind)

/-- A step of a port. -/
theorem mem_portSteps {ethConf : EthConf} {step : Step} (member : step ∈ portSteps ethConf) :
    step = .port ethConf ∨ (∃ q ∈ ethConf.rxQueues, step = .rxQueue ethConf q) ∨
      ∃ q ∈ ethConf.txQueues, step = .txQueue ethConf q := by
  rcases List.mem_cons.mp member with same | behind
  · exact .inl same
  · rcases List.mem_append.mp behind with inside | inside
    · obtain ⟨q, queue, rfl⟩ := List.mem_map.mp inside
      exact .inr (.inl ⟨q, queue, rfl⟩)
    · obtain ⟨q, queue, rfl⟩ := List.mem_map.mp inside
      exact .inr (.inr ⟨q, queue, rfl⟩)

/-- The ports create no objects. -/
theorem portsSteps_create_none {step : Step} (member : step ∈ portsSteps ports) :
    ¬ step.Creates := by
  rcases mem_portsSteps ports member with rfl | ⟨ethConf, _, inside⟩
  · exact id
  · rcases mem_portSteps inside with rfl | ⟨q, _, rfl⟩ | ⟨q, _, rfl⟩
    · exact id
    · exact id
    · exact id

/-- A pool that is created is one of the configuration. -/
theorem pool_mem_createSteps {pktPoolConf : PktPoolConf} {rest : List Step}
    (none : ∀ step ∈ rest, ¬ step.Creates)
    (member : .pool pktPoolConf ∈ createSteps argv pools rings ports ++ rest) :
    pktPoolConf ∈ pools := by
  rw [createSteps_eq, List.append_assoc, List.mem_append, List.mem_append] at member
  rcases member with object | port | behind
  · simpa [objectSteps] using object
  · exact absurd trivial (portsSteps_create_none ports port)
  · exact absurd trivial (none _ behind)

/-- **There is a slot for every object.** -/
theorem createSteps_room {rest : List Step} (none : ∀ step ∈ rest, ¬ step.Creates)
    (free : Kind → Nat) : Room free (createSteps argv pools rings ports ++ rest) := by
  have behind : ∀ free, Room free (portsSteps ports ++ rest) :=
    room_of_none (List.forall_mem_append.mpr ⟨fun _ => portsSteps_create_none ports, none⟩)
  have withRings : ∀ free, Room free (.table .rings rings.length ::
      (rings.map .ring ++ (portsSteps ports ++ rest))) := by
    intro free
    refine room_objects .rings (fun _ _ _ => Iff.rfl) behind rings _ ?_
    rw [Function.update_self]
  have whole : Room (Function.update free .pktPools pools.length) (pools.map .pool ++
      .table .rings rings.length :: (rings.map .ring ++ (portsSteps ports ++ rest))) := by
    refine room_objects .pktPools (fun _ _ _ => Iff.rfl) withRings pools _ ?_
    rw [Function.update_self]
  rw [createSteps_eq, objectSteps]
  simp only [List.append_assoc, List.cons_append]
  exact whole

/-- **The pools come before the queues.** -/
theorem createSteps_ordered (rest : List Step) :
    Ordered pools (createSteps argv pools rings ports ++ rest) := by
  intro done ethConf q behind split pktPoolConf member
  have notIn : .rxQueue ethConf q ∉ objectSteps argv pools rings := by simp [objectSteps]
  rw [createSteps_eq, List.append_assoc] at split
  obtain ⟨tail, rfl, _⟩ := front_of_not_mem notIn split
  apply List.mem_append_left
  simp [objectSteps, member]

/-- No port that is started creates an object. -/
theorem startSteps_create_none (n : Nat) : ∀ step ∈ startSteps n, ¬ step.Creates := by
  refine List.forall_mem_cons.mpr ⟨id, fun step member => ?_⟩
  obtain ⟨i, _, rfl⟩ := List.mem_map.mp member
  exact id

end Whole

end CyberPlatform.AppManager
