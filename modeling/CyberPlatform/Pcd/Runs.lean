/-
**What holds in every run of the daemon.**

A run is any number of rounds of the main loop, in which the children change when they want, and the
world answers every question as it wants. What the parser guarantees of the rules is `Parsed`; that
they are a `Configuration` is up to their author, and that the messages are those of `Clients`, up
to the clients.

* `run_safe` — nothing but the failure action of a rule ends the daemon.
* `run_invariant` — rules, processes and timers know of each other.
* `run_cached` — what a condition remembers is what a search would find.
* `catalog_load`, `started_active` — the start enqueues the active rules of the file, and no others.
* `run_ordered`, `run_cyclic` — rules start and complete in the order of their dependencies.
* `run_forked` — processes are forked once, and signals go to pids that `fork` has returned.
* `run_supervised` — a daemon that is to be restarted is kept up.
* `run_mail` — every message is freed once, or held, or lost.
* `run_deadline` — no rule waits for its process longer than its timeout.
-/

import CyberPlatform.Pcd.Catalog
import CyberPlatform.Pcd.Cycles
import CyberPlatform.Pcd.Deadline
import CyberPlatform.Pcd.Supervision

namespace CyberPlatform.Pcd

open Foundation

/-- The clients of some rounds use the interface as it is meant. -/
def Clients (rules : List Rule) (rounds : List Round) : Prop :=
  ∀ round ∈ rounds, ∀ arrival ∈ round.arrivals, Client rules arrival.message

section Runs

variable {rules : List Rule} {tick : Nat} {rounds : List Round} {s : State}

/-- A state that a run leads to. -/
theorem reached_of_run (config : Configuration rules) (clients : Clients rules rounds)
    (ran : run tick rules rounds = .ok s) : Reached rules (inboxOf rounds) s :=
  (reached_run config tick rounds clients).of_ok ran

/-! ### A world in which nothing happens -/

/-- Memory is granted, processes are forked, and nothing else is there. -/
def stillEnv : Env where
  children := []
  stat _ := false
  hardwareAddress _ := false
  ipcOwner _ := false
  getenv _ := none
  malloc := true
  fork := 100
  kill := true
  alloc := true
  sent := true

/-- A round in that world, with some messages -/
def stillRound (messages : List Message) : Round :=
  ⟨messages.map fun message => ⟨[], message, true, true⟩, fun _ => stillEnv, fun _ => stillEnv,
    fun _ => stillEnv, 0⟩

/-- Two rules, the second of which waits for the first -/
def pairRules : List Rule :=
  [{ Rule.zero with
      ruleId := ⟨['A'], ['1']⟩, command := some ['a'], ruleState := .active },
   { Rule.zero with
      ruleId := ⟨['A'], ['2']⟩, command := some ['b'], ruleState := .active
      startCondition := .ruleCompleted [⟨none, ⟨['A'], ['1']⟩⟩] }]

theorem pair_configuration : Configuration pairRules := by
  refine ⟨⟨?_, ?_, ?_, ?_⟩, ?_, ?_⟩ <;> simp [pairRules, Rule.zero, StartCond.caches]

/-- A rule that takes the system down, because its process is not ready within a second -/
def rebootRules : List Rule :=
  [{ Rule.zero with
      ruleId := ⟨['A'], ['1']⟩, command := some ['a'], ruleState := .active, timeout := 1000
      endCondition := .processReady false, failureAction := .reboot }]

theorem reboot_configuration : Configuration rebootRules := by
  refine ⟨⟨?_, ?_, ?_, ?_⟩, ?_, ?_⟩ <;> simp [rebootRules, Rule.zero, StartCond.caches]

theorem still_clients (rules : List Rule) (n : Nat) :
    Clients rules (List.replicate n (stillRound [])) := by
  intro round member arrival absent
  rw [List.eq_of_mem_replicate member] at absent
  exact absurd absent List.not_mem_nil

/-! ### Nothing goes wrong -/

/-- **Nothing but the failure action of a rule ends the daemon**: it reads through no null pointer
and no pointer to freed memory, and all its loops end. -/
theorem run_safe (config : Configuration rules) (clients : Clients rules rounds) {stop : Stop}
    (ended : run tick rules rounds = .error stop) :
    stop = .reboot ∧ ∃ rule ∈ rules, rule.failureAction = .reboot := by
  have safe := reached_run config tick rounds clients
  rw [ended] at safe
  obtain ⟨reboots, r, stored, action⟩ := safe
  exact ⟨reboots, _, (stored_load rules).inside r stored, action⟩

theorem run_safe_reboot :
    run 500 rebootRules (List.replicate 4 (stillRound [])) = .error .reboot ∧
      ∃ rule ∈ rebootRules, rule.failureAction = .reboot := by
  have ended : run 500 rebootRules (List.replicate 4 (stillRound [])) = .error .reboot := rfl
  exact ⟨ended, (run_safe reboot_configuration (still_clients _ 4) ended).2⟩

/-- A template that a client starts itself, and then an instance, which takes over the process of
the template: when this has exited and been freed, the stop of the instance reads it. -/
example : Ensures (· = .useAfterFree) (run 2000
    [{ Rule.zero with ruleId := ⟨['A'], ['1']⟩, command := some ['a'], indexed := true }]
    [stillRound [⟨true, 7, .startProcess ⟨['A'], ['1']⟩ []⟩],
      stillRound [⟨true, 7, .startProcess ⟨['A'], ['1', '2']⟩ []⟩],
      { stillRound [] with starts := fun _ =>
        { stillEnv with children := [⟨100, by decide, .exited 0⟩] } },
      stillRound [], stillRound [⟨true, 7, .terminateProcess ⟨['A'], ['1', '2']⟩⟩]])
    fun _ => False := by decide +kernel

/-- **Rules, processes and timers know of each other** in every state that a run leads to. -/
theorem run_invariant (config : Configuration rules) (clients : Clients rules rounds)
    (ran : run tick rules rounds = .ok s) : Invariant s :=
  (reached_of_run config clients ran).inv

theorem run_invariant_pair :
    ∃ s, run 200 pairRules (List.replicate 3 (stillRound [])) = .ok s ∧
      (s.rule 1).proc = some 1 ∧ Invariant s := by
  obtain ⟨s, ran, proc⟩ : ∃ s, run 200 pairRules (List.replicate 3 (stillRound [])) = .ok s ∧
    (s.rule 1).proc = some 1 := ⟨_, rfl, rfl⟩
  exact ⟨s, ran, proc, run_invariant pair_configuration (still_clients _ 3) ran⟩

/-- **What a condition remembers is what a search would find**: the pointer in the cache of a rule
that is waited for is the one that the database would give, without a change. -/
theorem run_cached (parsed : Parsed rules) (ran : run tick rules rounds = .ok s) :
    ∀ r < s.db.size, ∀ entry ∈ (s.rule r).startCondition.caches, ∀ found,
      entry.rule = some found → s.db.getRuleById entry.ruleId = (some found, s.db) := by
  intro r _ entry member found remembers
  have stuck : Stuck (fun _ => False) s :=
    (run_stuck parsed (fun _ _ _ none => none.elim) tick rounds).of_ok ran
  obtain ⟨stored, named⟩ := stuck.cached r entry member found remembers
  exact RulesDb.getRuleByIdFuel_stored stuck.db 1 stored named

theorem run_cached_pair :
    ∃ s, run 200 pairRules (List.replicate 1 (stillRound [])) = .ok s ∧
      (s.rule 1).startCondition.caches = [⟨some 0, ⟨['A'], ['1']⟩⟩] ∧
      s.db.getRuleById ⟨['A'], ['1']⟩ = (some 0, s.db) := by
  obtain ⟨s, ran, size, caches⟩ :
      ∃ s, run 200 pairRules (List.replicate 1 (stillRound [])) = .ok s ∧ s.db.size = 2 ∧
        (s.rule 1).startCondition.caches = [⟨some 0, ⟨['A'], ['1']⟩⟩] := ⟨_, rfl, rfl, rfl⟩
  exact ⟨s, ran, caches, run_cached pair_configuration.toParsed ran 1 (by omega)
    ⟨some 0, ⟨['A'], ['1']⟩⟩ (by rw [caches]; exact List.mem_cons_self) 0 rfl⟩

/-! ### The start -/

/-- Of the rules of a file that have the same id, the first is in the catalog. -/
theorem load_catalog (rules : List Rule) :
    (load rules).catalog = fun id => rules.find? fun rule => rule.ruleId = id := by
  suffices all : ∀ db : RulesDb, db.WellFormed → (rules.foldl RulesDb.addRule db).catalog =
      fun id => (db.catalog id).or (rules.find? fun rule => rule.ruleId = id) from
    all .empty RulesDb.wellFormed_empty
  induction rules with
  | nil => exact fun db _ => funext fun id => (Option.or_none ..).symm
  | cons rule rest ih =>
    intro db wellFormed
    refine (ih _ (RulesDb.wellFormed_addRule wellFormed rule)).trans (funext fun id => ?_)
    rw [RulesDb.catalog_addRule wellFormed, List.find?_cons, Catalog.enter]
    by_cases here : rule.ruleId = id
    · subst here
      cases taken : db.catalog rule.ruleId with
      | none => simp
      | some other => simp [taken]
    · simp only [here, decide_false]
      split_ifs
      · rfl
      · rw [Function.update_of_ne (Ne.symm here)]

/-- **Of the rules of a file that have the same id, the first counts**, and is what a search for the
id gives, which calls itself at most once. -/
theorem catalog_load (rules : List Rule) :
    ((load rules).catalog = fun id => rules.find? fun rule => rule.ruleId = id) ∧
      (∀ id rule, (rules.find? fun rule => rule.ruleId = id) = some rule →
        ∃ r, (load rules).getRuleById id = (some r, load rules) ∧ (load rules).memory r = rule) ∧
      ∀ id more, RulesDb.getRuleByIdFuel (more + 2) (load rules) id =
        (load rules).getRuleById id := by
  have catalog := load_catalog rules
  have wellFormed := (stored_load rules).wellFormed
  refine ⟨catalog, fun id rule first => ?_, fun id more =>
    RulesDb.getRuleByIdFuel_eq wellFormed id more⟩
  have entered : (load rules).catalog id = some rule := (congrFun catalog id).trans first
  obtain ⟨r, stored, there, named⟩ := wellFormed.catalog_eq_some.mp entered
  exact ⟨r, RulesDb.getRuleByIdFuel_stored wellFormed 1 stored (there ▸ named), there⟩

/-- **The start enqueues the active rules**, each once, in the order of the database, and with its
whole timeout. The other rules stay as they are in the file. -/
theorem started_active (parsed : Parsed rules) :
    (activate (loaded rules)).1 = .ok ∧
      (started rules).timerObjs = ((load rules).refs.filter fun r =>
        ((load rules).memory r).ruleState = .active).map
          (fun r => ⟨r, ((load rules).memory r).timeout, false⟩) ∧
      (load rules).refs.Perm (List.range (load rules).size) ∧
      ∀ r < (load rules).size, (started rules).rule r =
        if ((load rules).memory r).ruleState = .active then
          { (load rules).memory r with ruleState := .startConditionWaiting }
        else (load rules).memory r := by
  have wellFormed := (stored_load rules).wellFormed
  have eq := activate_eq parsed
  obtain ⟨timers, rules', _⟩ := enqueueHandleRound_all ((load rules).refs.filter fun r =>
    ((load rules).memory r).ruleState = .active) (loaded rules)
  have state : started rules =
    { (activate (loaded rules)).2 with tickCounter := processTick } := rfl
  refine ⟨congrArg Prod.fst eq, ?_, wellFormed.complete, fun r stored => ?_⟩
  · rw [state, eq]
    exact timers
  · rw [state, eq]
    refine (rules' r).trans ?_
    have member : r ∈ ((load rules).refs.filter fun r =>
        ((load rules).memory r).ruleState = .active) ↔
          ((load rules).memory r).ruleState = .active := by
      rw [List.mem_filter, wellFormed.mem_refs]
      simp [stored]
    simp only [member]
    rfl

theorem started_active_pair : (started pairRules).timerObjs = [⟨0, 0, false⟩, ⟨1, 0, false⟩] :=
  (started_active pair_configuration.toParsed).2.1

/-! ### Dependencies -/

/-- **Rules start and complete in the order of their dependencies**: in front of the start of the
process of a rule, and of its completion, all rules that it waits for have completed. -/
theorem run_ordered (config : Configuration rules) (clients : Clients rules rounds)
    (ran : run tick rules rounds = .ok s) :
    ∀ before n after, s.log = before ++ n :: after → ∀ r, n.About r →
      r < s.db.size ∧ ∀ ruleId ∈ (s.rule r).startCondition.dependencies,
        ∃ q < s.db.size, (s.rule q).ruleId = ruleId ∧ .success q ∈ before :=
  ((reached_of_run config clients ran).ordered config).backed

theorem run_ordered_pair :
    ∃ s, run 200 pairRules (List.replicate 2 (stillRound [])) = .ok s ∧
      s.log = [.starting 0 0 100, .success 0, .starting 1 1 100] ∧
      ∃ q < s.db.size, (s.rule q).ruleId = ⟨['A'], ['1']⟩ ∧
        .success q ∈ [Note.starting 0 0 100, .success 0] := by
  obtain ⟨s, ran, log, names⟩ :
      ∃ s, run 200 pairRules (List.replicate 2 (stillRound [])) = .ok s ∧
        s.log = [.starting 0 0 100, .success 0] ++ [.starting 1 1 100] ∧
        (s.rule 1).startCondition.dependencies = [⟨['A'], ['1']⟩] := ⟨_, rfl, rfl, rfl⟩
  obtain ⟨_, done⟩ := run_ordered pair_configuration (still_clients _ 2) ran _ _ _ log 1
    (.inr ⟨1, 100, rfl⟩)
  exact ⟨s, ran, log, done _ (names ▸ List.mem_cons_self)⟩

/-- **Rules that wait for each other never start**, and never complete. -/
theorem run_cyclic (parsed : Parsed rules) (ran : run tick rules rounds = .ok s)
    {C : RuleId → Prop} (cycle : ∀ rule ∈ rules, ∀ ruleId, C ruleId → rule.MayBe ruleId →
      ∃ other ∈ rule.startCondition.dependencies, C other)
    {r : RuleRef} (stored : r < s.db.size) (inside : C (s.rule r).ruleId) :
    (∀ n ∈ s.log, ¬ n.About r) ∧ (s.rule r).ruleState ≠ .endConditionWaiting ∧
      (s.rule r).ruleState ≠ .completed := by
  have stuck : Stuck C s := (run_stuck parsed cycle tick rounds).of_ok ran
  have waits := stuck.closed r stored _ inside (.inl rfl)
  refine ⟨fun n member about => (stuck.log n member r about).loose waits, fun up => ?_,
    fun done => ?_⟩
  · exact stuck.front r (by rw [up]; rfl) waits
  · exact stuck.front r (by rw [done]; rfl) waits

/-- Two rules that wait for each other -/
def cycleRules : List Rule :=
  [{ Rule.zero with
      ruleId := ⟨['A'], ['1']⟩, command := some ['a'], ruleState := .active
      startCondition := .ruleCompleted [⟨none, ⟨['A'], ['2']⟩⟩] },
   { Rule.zero with
      ruleId := ⟨['A'], ['2']⟩, command := some ['b'], ruleState := .active
      startCondition := .ruleCompleted [⟨none, ⟨['A'], ['1']⟩⟩] }]

theorem run_cyclic_pair :
    ∃ s, run 200 cycleRules (List.replicate 3 (stillRound [])) = .ok s ∧
      (∀ n ∈ s.log, ¬ n.About 0) ∧ (s.rule 0).ruleState ≠ .endConditionWaiting ∧
        (s.rule 0).ruleState ≠ .completed := by
  have parsed : Parsed cycleRules := by
    refine ⟨?_, ?_, ?_, ?_⟩ <;> simp [cycleRules, Rule.zero, StartCond.caches]
  have cycle : ∀ rule ∈ cycleRules, ∀ ruleId, ruleId.groupName = ['A'] → rule.MayBe ruleId →
      ∃ other ∈ rule.startCondition.dependencies, other.groupName = ['A'] := by
    intro rule member ruleId _ _
    rcases List.mem_pair.mp member with rfl | rfl
    · exact ⟨⟨['A'], ['2']⟩, by decide, rfl⟩
    · exact ⟨⟨['A'], ['1']⟩, by decide, rfl⟩
  obtain ⟨s, ran, size, name⟩ : ∃ s, run 200 cycleRules (List.replicate 3 (stillRound [])) = .ok s ∧
    s.db.size = 2 ∧ (s.rule 0).ruleId.groupName = ['A'] := ⟨_, rfl, rfl, rfl⟩
  exact ⟨s, ran, run_cyclic parsed ran (C := fun ruleId =>
    ruleId.groupName = ['A']) cycle (show 0 < s.db.size by omega) name⟩

/-! ### Processes -/

/-- **Processes are forked once, and before they are signaled**: a signal goes to a pid that `fork`
has returned before, and no process object gets a second pid. If no `fork` has failed, all pids that
are signaled are positive. -/
theorem run_forked (config : Configuration rules) (clients : Clients rules rounds)
    (ran : run tick rules rounds = .ok s) : Backed Forks s.log ∧
      ((∀ a r pid, .starting a r pid ∈ s.log → 0 < pid) →
        ∀ pid sig, .kill pid sig ∈ s.log → 0 < pid) := by
  have backed := ((reached_of_run config clients ran).forked config).backed
  refine ⟨backed, fun positive pid sig member => ?_⟩
  obtain ⟨before, after, split⟩ := List.append_of_mem member
  obtain ⟨⟨a, r, started⟩, _⟩ := backed before _ after split
  exact positive a r pid (split ▸ List.mem_append_left _ started)

/-- A daemon that is to be restarted -/
def daemonRules : List Rule :=
  [{ Rule.zero with
      ruleId := ⟨['A'], ['1']⟩, command := some ['a'], ruleState := .active, daemon := true
      failureAction := .restart }]

/-- Its process exits in the second round. -/
def exitRounds : List Round :=
  [stillRound [], { stillRound [] with starts := fun _ =>
      { stillEnv with children := [⟨100, by decide, .exited 1⟩] } },
    stillRound [], stillRound [], stillRound []]

/-- Where a `fork` has failed, the signal of a client goes to all processes. -/
example : ∃ s, run 2000 daemonRules
    [{ stillRound [] with starts := fun _ => { stillEnv with fork := -1 } },
      stillRound [⟨true, 7, .signalProcess ⟨['A'], ['1']⟩ sigusr1⟩]] = .ok s ∧
      s.log.take 2 = [.starting 0 0 (-1), .kill (-1) sigusr1] := ⟨_, rfl, rfl⟩

/-- A message that asks to stop the first rule -/
def stopMessage : Message := ⟨true, 7, .terminateProcessSync ⟨['A'], ['1']⟩⟩

/-- A message that asks for the state of the second rule -/
def stateMessage : Message := ⟨true, 8, .getRuleState ⟨['A'], ['2']⟩⟩

/-- The first rule is stopped in the third round. -/
def stopRounds : List Round :=
  [stillRound [], stillRound [], stillRound [stopMessage, stateMessage]]

theorem stop_clients : Clients pairRules stopRounds := by
  intro round member arrival arrived
  obtain rfl | rfl | rfl : round = stillRound [] ∨ round = stillRound [] ∨
      round = stillRound [stopMessage, stateMessage] := by simpa [stopRounds] using member
  · exact absurd arrived List.not_mem_nil
  · exact absurd arrived List.not_mem_nil
  · rcases List.mem_pair.mp arrived with rfl | rfl <;>
      exact ⟨rfl, fun _ _ other => by cases other⟩

theorem run_forked_stop :
    ∃ s, run 2000 pairRules stopRounds = .ok s ∧
      s.log = [.starting 0 0 100, .success 0, .starting 1 1 100, .reply 1 8 .ok (some .running),
        .free 1, .success 1, .kill 100 15] ∧
      ∃ a r, .starting a r 100 ∈ [Note.starting 0 0 100, .success 0, .starting 1 1 100,
        .reply 1 8 .ok (some .running), .free 1, .success 1] := by
  obtain ⟨s, ran, log⟩ : ∃ s, run 2000 pairRules stopRounds = .ok s ∧
      s.log = [.starting 0 0 100, .success 0, .starting 1 1 100, .reply 1 8 .ok (some .running),
        .free 1, .success 1] ++ [.kill 100 15] := ⟨_, rfl, rfl⟩
  exact ⟨s, ran, log, ((run_forked pair_configuration stop_clients ran).1 _ _ _ log).1⟩

/-! ### Messages -/

/-- **No rule waits for its process longer than its timeout**: a rule that waits for the same
process in front of some rounds and behind them, has had time for all of them. -/
theorem run_deadline (config : Configuration rules) {later : List Round} {s' : State} {r : RuleRef}
    {a : ProcRef} (clients : Clients rules (rounds ++ later))
    (ran : run tick rules rounds = .ok s) (ranOn : later.foldlM (mainRound tick) s = .ok s')
    (waits : Up s r a) (still : Up s' r a) (finite : (s.rule r).timeout < forever) :
    ∀ n < later.length, n * tick < (s.rule r).timeout := by
  have reached := reached_of_run config
    (fun round member => clients round (List.mem_append_left _ member)) ran
  have bound := reached.bound config (by rw [waits.waits]; rfl)
  exact rounds_bound config later reached
    (fun round member => clients round (List.mem_append_right _ member))
    ranOn waits still finite bound

theorem run_deadline_reboot :
    ∃ s s', run 200 rebootRules [stillRound []] = .ok s ∧
      (List.replicate 5 (stillRound [])).foldlM (mainRound 200) s = .ok s' ∧
      Up s 0 0 ∧ Up s' 0 0 ∧ 4 * 200 < 1000 := by
  obtain ⟨s, s', ran, ranOn, up, up', timeout⟩ :
      ∃ s s', run 200 rebootRules [stillRound []] = .ok s ∧
        (List.replicate 5 (stillRound [])).foldlM (mainRound 200) s = .ok s' ∧
        Up s 0 0 ∧ Up s' 0 0 ∧ (s.rule 0).timeout = 1000 :=
    ⟨_, _, rfl, rfl, ⟨rfl, rfl⟩, ⟨rfl, rfl⟩, rfl⟩
  have late := run_deadline reboot_configuration (still_clients _ 6) ran ranOn up up'
    (by rw [timeout]; decide) 4 (by decide)
  exact ⟨s, s', ran, ranOn, up, up', timeout ▸ late⟩

end Runs

end CyberPlatform.Pcd
