/-
**What a condition remembers, and rules that wait for each other.**

Both are a matter of the database and of the start conditions alone: what is shown here holds of
every configuration that the parser gives, whatever the clients ask for, up to the end of the
daemon.

* `Stuck C` — the invariant for ids in `C`, each of which waits for another one: the rules that wait
  for `C` stay in front of their start condition.
* `startCondCheck_stuck` — a start condition that names an id in `C` does not hold.
* `mainRound_stuck` — every round keeps the invariant.
-/

import CyberPlatform.Pcd.Order

namespace CyberPlatform.Pcd

open Foundation

/-! ### The invariant -/

/-- A rule of the file that has the id, or is a template for it -/
def Rule.MayBe (rule : Rule) (ruleId : RuleId) : Prop :=
  rule.ruleId = ruleId ∨ rule.indexed = true ∧ rule.ruleId.groupName = ruleId.groupName ∧
    rule.ruleId.ruleName <+: ruleId.ruleName

/-- A rule that has to wait for an id in `C` -/
def Rule.WaitsFor (rule : Rule) (C : RuleId → Prop) : Prop :=
  ∃ ruleId ∈ rule.startCondition.dependencies, C ruleId

/-- The states behind the start condition -/
def RuleState.started : RuleState → Bool
  | .endConditionWaiting | .completed => true
  | _ => false

/-- Only a rule that has completed is still behind its start condition when it is dequeued. -/
theorem RuleState.started_dequeued {state : RuleState} {failed : Bool}
    (started : (state.dequeued failed).started) : state.started := by
  cases failed <;> cases state <;> revert started <;> decide

/-- A rule of the database that has not to wait for `C` -/
structure Loose (C : RuleId → Prop) (s : State) (r : RuleRef) : Prop where
  stored : r < s.db.size
  loose : ¬ (s.rule r).WaitsFor C

/-- **The rules that wait for `C` are stuck**: none of them is behind its start condition, and no
process and no note is about one of them. -/
structure Stuck (C : RuleId → Prop) (s : State) : Prop where
  db : s.db.WellFormed
  /-- what a condition remembers is the rule that it names -/
  cached : ∀ r, ∀ entry ∈ (s.rule r).startCondition.caches, ∀ found,
    entry.rule = some found → found < s.db.size ∧ (s.rule found).ruleId = entry.ruleId
  closed : ∀ r < s.db.size, ∀ ruleId, C ruleId → (s.rule r).MayBe ruleId → (s.rule r).WaitsFor C
  front : ∀ r, (s.rule r).ruleState.started → ¬ (s.rule r).WaitsFor C
  processes : ∀ entry ∈ s.procList, Loose C s entry.2.rule
  log : ∀ n ∈ s.log, ∀ r, n.About r → Loose C s r
  timers : ∀ obj ∈ s.timerObjs, obj.rule < s.db.size
  pending : ∀ r ∈ s.enqueueList, r < s.db.size

/-- **A later state**, where the rules are still stuck. -/
structure Onwards (C : RuleId → Prop) (s s' : State) : Prop where
  stuck : Stuck C s'
  size : s.db.size ≤ s'.db.size
  loose : ∀ r, Loose C s r → Loose C s' r

section Moves

variable {C : RuleId → Prop} {s s' s'' : State} {r : RuleRef} {a : ProcRef} {p : Proc}

theorem Onwards.trans (first : Onwards C s s') (second : Onwards C s' s'') : Onwards C s s'' :=
  ⟨second.stuck, first.size.trans second.size, fun r loose => second.loose r (first.loose r loose)⟩

namespace Stuck

variable (stuck : Stuck C s)

include stuck

theorem refl : Onwards C s s := ⟨stuck, le_rfl, fun _ loose => loose⟩

/-- The database stays. -/
theorem lists (db : s'.db = s.db) (processes : ∀ entry ∈ s'.procList, Loose C s entry.2.rule)
    (log : ∀ n ∈ s'.log, ∀ r, n.About r → Loose C s r)
    (timers : ∀ obj ∈ s'.timerObjs, obj.rule < s.db.size)
    (pending : ∀ r ∈ s'.enqueueList, r < s.db.size) : Onwards C s s' := by
  obtain ⟨db', procList, timerObjs, enqueueList, tickCounter, nextProc, nextMsg, log'⟩ := s'
  obtain rfl : db' = s.db := db
  have loose : ∀ r, Loose C s r →
      Loose C ⟨s.db, procList, timerObjs, enqueueList, tickCounter, nextProc, nextMsg, log'⟩ r :=
    fun r loose => ⟨loose.stored, loose.loose⟩
  exact ⟨⟨stuck.db, stuck.cached, stuck.closed, stuck.front,
    fun entry member => loose _ (processes entry member),
    fun n member r about => loose r (log n member r about), timers, pending⟩, le_rfl, loose⟩

/-- **A rule is rewritten**, but not its name and not what it waits for. -/
theorem setRule {x : Rule} (ruleId : x.ruleId = (s.rule r).ruleId)
    (indexed : x.indexed = (s.rule r).indexed)
    (dependencies : x.startCondition.dependencies = (s.rule r).startCondition.dependencies)
    (cached : ∀ entry ∈ x.startCondition.caches, ∀ found, entry.rule = some found →
      found < s.db.size ∧ (s.rule found).ruleId = entry.ruleId)
    (front : x.ruleState.started → ¬ (s.rule r).WaitsFor C) : Onwards C s (s.setRule r x) := by
  have sameId : ∀ q, ((s.setRule r x).rule q).ruleId = (s.rule q).ruleId :=
    State.kept_setRule Rule.ruleId ruleId
  have sameIndexed : ∀ q, ((s.setRule r x).rule q).indexed = (s.rule q).indexed :=
    State.kept_setRule Rule.indexed indexed
  have waits : ∀ q, ((s.setRule r x).rule q).WaitsFor C ↔ (s.rule q).WaitsFor C := fun q => by
    have same : ((s.setRule r x).rule q).startCondition.dependencies =
        (s.rule q).startCondition.dependencies :=
      State.kept_setRule (fun rule => rule.startCondition.dependencies) dependencies q
    rw [Rule.WaitsFor, same]
    rfl
  have loose : ∀ q, Loose C s q → Loose C (s.setRule r x) q := fun q loose =>
    ⟨loose.stored, fun stays => loose.loose ((waits q).mp stays)⟩
  refine ⟨⟨?_, ?_, ?_, ?_, ?_, ?_, stuck.timers, stuck.pending⟩, le_rfl, loose⟩
  · exact ⟨stuck.db.grouped.congr fun q _ => sameId q, stuck.db.complete⟩
  · intro q entry member found remembers
    rw [sameId]
    rw [State.rule_setRule] at member
    split_ifs at member
    · exact cached entry member found remembers
    · exact stuck.cached q entry member found remembers
  · intro q stored ruleId' inside named
    rw [waits]
    rw [Rule.MayBe, sameId, sameIndexed] at named
    exact stuck.closed q stored ruleId' inside named
  · intro q past
    rw [waits]
    rw [State.rule_setRule] at past
    split_ifs at past with here
    · rw [here]
      exact front past
    · exact stuck.front q past
  · exact fun entry member => loose _ (stuck.processes entry member)
  · exact fun n member q about => loose q (stuck.log n member q about)

/-- A rule that keeps its start condition. -/
theorem retouch {x : Rule} (ruleId : x.ruleId = (s.rule r).ruleId)
    (indexed : x.indexed = (s.rule r).indexed)
    (startCondition : x.startCondition = (s.rule r).startCondition)
    (front : x.ruleState.started → ¬ (s.rule r).WaitsFor C) : Onwards C s (s.setRule r x) :=
  stuck.setRule ruleId indexed (by rw [startCondition])
    (by rw [startCondition]; exact stuck.cached r) front

theorem setState {ruleState : RuleState}
    (front : ruleState.started → ¬ (s.rule r).WaitsFor C) : Onwards C s (s.setState r ruleState) :=
  stuck.retouch rfl rfl rfl front

/-- **A search for a rule**: a rule that is made waits for what its template waits for. -/
theorem lookup (ruleId : RuleId) : Onwards C s { s with db := (s.db.getRuleById ruleId).2 } := by
  have wellFormed := RulesDb.wellFormed_getRuleById stuck.db ruleId
  have lookup := RulesDb.getRuleById_lookup stuck.db ruleId
  generalize (s.db.getRuleById ruleId).1 = out, (s.db.getRuleById ruleId).2 = db at *
  cases lookup with
  | found r stored named => exact stuck.refl
  | missing none untemplated => exact stuck.refl
  | made t groups unused serves longest =>
    set new := RulesDb.instanceOf (s.db.memory t) ruleId.ruleName with newDef
    set s' : State := { s with
      db := ⟨groups, Function.update s.db.memory s.db.size new, s.db.size + 1⟩ } with s'Def
    have other : ∀ {r}, r ≠ s.db.size → s'.rule r = s.rule r := fun {r} differ => by
      show Function.update s.db.memory s.db.size new r = s.db.memory r
      rw [Function.update_of_ne differ]
    have this : s'.rule s.db.size = new := by
      show Function.update s.db.memory s.db.size new s.db.size = new
      rw [Function.update_self]
    have old : ∀ {r}, r < s.db.size → s'.rule r = s.rule r := fun less => other less.ne
    have loose : ∀ r, Loose C s r → Loose C s' r := fun r loose =>
      ⟨Nat.lt_succ_of_lt loose.stored, (old loose.stored).symm ▸ loose.loose⟩
    have fits : ∀ {found : RuleRef} {named : RuleId},
        found < s.db.size ∧ (s.rule found).ruleId = named →
        found < s'.db.size ∧ (s'.rule found).ruleId = named := fun {found named} fits =>
      ⟨Nat.lt_succ_of_lt fits.1, (old fits.1).symm ▸ fits.2⟩
    refine ⟨⟨wellFormed, ?_, ?_, ?_, ?_, ?_, ?_, ?_⟩, Nat.le_succ _, loose⟩
    · intro r entry member found remembers
      by_cases here : r = s.db.size
      · rw [here, this] at member
        exact fits (stuck.cached t entry member found remembers)
      · rw [other here] at member
        exact fits (stuck.cached r entry member found remembers)
    · intro r stored named inside maybe
      rcases Nat.lt_succ_iff_lt_or_eq.mp stored with less | rfl
      · rw [old less] at maybe ⊢
        exact stuck.closed r less named inside maybe
      · rw [this] at maybe ⊢
        have same : RuleId.mk (s.rule t).ruleId.groupName ruleId.ruleName = named := by
          rcases maybe with same | ⟨isTemplate, _⟩
          · exact same
          · cases isTemplate
        refine stuck.closed t serves.stored named inside (.inr ⟨serves.indexed, ?_, ?_⟩)
        · rw [← same]
        · rw [← same]
          exact serves.begins
    · intro r
      by_cases here : r = s.db.size
      · rw [here, this]
        exact stuck.front t
      · rw [other here]
        exact stuck.front r
    · exact fun entry member => loose _ (stuck.processes entry member)
    · exact fun n member r about => loose r (stuck.log n member r about)
    · exact fun obj member => Nat.lt_succ_of_lt (stuck.timers obj member)
    · exact fun r member => Nat.lt_succ_of_lt (stuck.pending r member)

/-- A process object is rewritten. -/
theorem setProc (loose : Loose C s p.rule) : Onwards C s (s.setProc a p) := by
  refine stuck.lists rfl (fun entry member => ?_) stuck.log stuck.timers stuck.pending
  obtain ⟨old, there, rfl⟩ := List.mem_map.mp member
  split_ifs
  · exact loose
  · exact stuck.processes old there

/-- A timer object that is rewritten keeps its rule. -/
theorem timer_modify {f : TimerObj → TimerObj} {i : Nat} {obj : TimerObj}
    (member : obj ∈ s.timerObjs.modify i f) (same : ∀ obj, (f obj).rule = obj.rule) :
    obj.rule < s.db.size := by
  obtain ⟨k, at'⟩ := List.mem_iff_getElem?.mp member
  rw [List.getElem?_modify] at at'
  obtain ⟨before, was, now⟩ := Option.map_eq_some_iff.mp at'
  have old := stuck.timers before (List.mem_of_getElem? was)
  split_ifs at now
  · rw [← now, same]
    exact old
  · exact now ▸ old

/-- A process object that is read belongs to a rule that does not wait for `C`. -/
theorem getProc (a : ProcRef) : Returns (s.getProc a) fun p => Loose C s p.rule := by
  unfold State.getProc
  cases found : Assoc.find a s.procList with
  | none => trivial
  | some p => exact stuck.processes _ (Assoc.mem_of_find found)

theorem note {n : Note} (about : ∀ r, n.About r → Loose C s r) : Onwards C s (s.note n) := by
  refine stuck.lists rfl stuck.processes (fun n' member => ?_) stuck.timers stuck.pending
  rcases List.mem_append.mp member with old | new
  · exact stuck.log n' old
  · rw [List.mem_singleton.mp new]
    exact about

/-- A note that is about no rule. -/
theorem noteSilent {n : Note} (silent : n.silent) : Onwards C s (s.note n) :=
  stuck.note fun r about => absurd about (Note.about_silent silent r)

theorem noteKill (pid sig : Int) : Onwards C s (s.note (.kill pid sig)) :=
  stuck.note fun r about => by rcases about with other | ⟨_, _, other⟩ <;> cases other

/-- The ticks are no matter of the rules. -/
theorem ticks (tickCounter : Nat) : Onwards C s { s with tickCounter } :=
  stuck.lists rfl stuck.processes stuck.log stuck.timers stuck.pending

/-- A rule that is started belongs to those that do not wait for `C`. -/
theorem loose (stored : r < s.db.size) (started : (s.rule r).ruleState.started) : Loose C s r :=
  ⟨stored, stuck.front r started⟩

end Stuck

end Moves

/-! ### Processes -/

section Processes

variable {C : RuleId → Prop} {s : State} {r : RuleRef} (stuck : Stuck C s)

include stuck

theorem chldHandler_stuck (children : List Child) : Onwards C s (chldHandler children s) := by
  induction children generalizing s with
  | nil => exact stuck.refl
  | cons child children ih =>
    have one : Onwards C s (processChld s child) := by
      unfold processChld
      cases found : s.procList.find? fun entry => entry.2.pid = child.pid with
      | none => exact stuck.refl
      | some entry =>
        have loose := stuck.processes entry (List.mem_of_find?_eq_some found)
        exact stuck.setProc (by cases child.status <;> exact loose)
    exact one.trans (ih one.stuck)

/-- A rule loses its process. -/
theorem detach_stuck (r : RuleRef) :
    Onwards C s (s.setRule r { s.rule r with proc := none }) :=
  stuck.retouch rfl rfl rfl (stuck.front r)

theorem processStop_stuck (r : RuleRef) (brutal : Bool) (cookie : Option Incoming) :
    Returns (processStop r brutal cookie s) fun out => Onwards C s out.2 := by
  unfold processStop
  cases (s.rule r).proc with
  | none => exact stuck.refl
  | some a =>
    refine (stuck.getProc a).bind fun p loose => ?_
    dsimp only
    split_ifs
    · have stopped : Onwards C s (s.setProc a (p.stop brutal cookie)) := stuck.setProc loose
      exact stopped.trans (detach_stuck stopped.stuck r)
    · exact stuck.refl

theorem processEnqueue_stuck (env : Env) (loose : Loose C s r) :
    Returns (processEnqueue env r s) fun out => Onwards C s out.2 := by
  unfold processEnqueue
  cases (s.rule r).proc with
  | some a => exact (stuck.getProc a).bind fun p _ => stuck.refl
  | none =>
    dsimp only
    split_ifs
    · have spawned : Onwards C s { s with
          procList := (s.nextProc, processNew r) :: s.procList
          nextProc := s.nextProc + 1 } := by
        refine stuck.lists rfl (fun entry member => ?_) stuck.log stuck.timers stuck.pending
        rcases List.mem_cons.mp member with rfl | old
        · exact loose
        · exact stuck.processes entry old
      exact spawned.trans (spawned.stuck.retouch rfl rfl rfl (spawned.stuck.front r))
    · exact stuck.refl

/-- An answer is about no rule. -/
theorem answer_stuck (sent : Bool) (msg : Incoming) (retval : Status)
    (ruleState : Option ApiRuleState) : Onwards C s (answer sent msg retval ruleState s) := by
  have replied : Onwards C s (s.note (replyNote sent msg retval ruleState)) := by
    cases sent <;> exact stuck.noteSilent rfl
  exact replied.trans (replied.stuck.noteSilent rfl)

/-! ### Failure actions -/

/-- The rule that a failure action gives is one of the database. -/
structure ActionStuck (C : RuleId → Prop) (s : State) (out : Option RuleRef × State) : Prop where
  onwards : Onwards C s out.2
  stored : ∀ q, out.1 = some q → q < out.2.db.size

theorem failureActionRestart_stuck (stored : r < s.db.size) :
    Returns (failureActionRestart r s) (ActionStuck C s) := by
  unfold failureActionRestart
  split_ifs
  · refine (processStop_stuck stuck r true none).bind fun out onwards => ⟨onwards, ?_⟩
    rintro q ⟨⟩
    exact stored.trans_le onwards.size
  · refine ⟨stuck.refl, ?_⟩
    rintro q ⟨⟩
    exact stored

theorem failureAction_stuck (stored : r < s.db.size) :
    Returns (failureAction r s) (ActionStuck C s) := by
  unfold failureAction
  cases (s.rule r).failureAction with
  | none => exact ⟨stuck.refl, fun _ absent => by cases absent⟩
  | reboot => trivial
  | restart => exact failureActionRestart_stuck stuck stored
  | execRule ruleId =>
    have searched := stuck.lookup ruleId
    obtain ⟨_, _, names⟩ := extends_lookup stuck.db ruleId
    dsimp only
    unfold failureActionExecRule
    rcases search : s.db.getRuleById ruleId with ⟨out, db⟩
    rw [search] at searched names
    have missed : ActionStuck C s (none, { s with db }) :=
      ⟨searched, fun _ absent => by cases absent⟩
    cases out with
    | none => exact missed
    | some execRule =>
      dsimp only
      split_ifs
      · exact missed
      · refine (failureActionRestart_stuck searched.stuck (names execRule rfl).1).mono
          fun out made => ⟨searched.trans made.onwards, made.stored⟩

/-! ### Enqueuing and dequeuing -/

/-- A rule gets a timer object. -/
theorem enqueueHandleRound_stuck (stored : r < s.db.size) :
    Onwards C s (enqueueHandleRound s r) := by
  have waits : Onwards C s (s.setState r .startConditionWaiting) :=
    stuck.setState fun started => by cases started
  refine waits.trans (waits.stuck.lists rfl waits.stuck.processes waits.stuck.log
    (fun obj member => ?_) waits.stuck.pending)
  rcases List.mem_append.mp member with old | new
  · exact waits.stuck.timers obj old
  · rw [List.mem_singleton.mp new]
    exact stored

/-- Some rules get timer objects. -/
theorem enqueueHandleRounds_stuck (todo : List RuleRef) (stored : ∀ q ∈ todo, q < s.db.size) :
    Onwards C s (todo.foldl enqueueHandleRound s) := by
  induction todo generalizing s with
  | nil => exact stuck.refl
  | cons q todo ih =>
    obtain ⟨first, stored⟩ := List.forall_mem_cons.mp stored
    have one : Onwards C s (enqueueHandleRound s q) := enqueueHandleRound_stuck stuck first
    exact one.trans (ih one.stuck fun q' member => (stored q' member).trans_le one.size)

theorem enqueueRule_stuck (stored : r < s.db.size) : Onwards C s (enqueueRule r s).2 := by
  unfold enqueueRule
  split_ifs
  · exact stuck.refl
  · exact enqueueHandleRound_stuck stuck stored

theorem dequeueRule_stuck (r : RuleRef) (failed : Bool) :
    Returns (dequeueRule r failed s) fun out => Onwards C s out.2 := by
  -- the timer object is taken away
  have taken : ∀ s', Onwards C s s' → Onwards C s
      (State.setState { s' with timerObjs := s'.timerObjs.eraseP fun obj => obj.rule = r } r
        ((s'.rule r).ruleState.dequeued failed)) := by
    intro s' onwards
    have erased : Onwards C s' { s' with
        timerObjs := s'.timerObjs.eraseP fun obj => obj.rule = r } :=
      onwards.stuck.lists rfl onwards.stuck.processes onwards.stuck.log
        (fun obj member => onwards.stuck.timers obj (List.mem_of_mem_eraseP member))
        onwards.stuck.pending
    exact (onwards.trans erased).trans (erased.stuck.setState fun started =>
      erased.stuck.front r (RuleState.started_dequeued started))
  unfold dequeueRule
  dsimp only
  split_ifs
  · exact (processStop_stuck stuck r false none).bind fun out onwards => taken out.2 onwards
  · exact taken s stuck.refl
  · exact stuck.refl

theorem triggerAction_stuck (stored : r < s.db.size) :
    Returns (triggerAction r s) fun out => Onwards C s out.2 := by
  unfold triggerAction
  refine (dequeueRule_stuck stuck r true).bind fun out dequeued => ?_
  refine (failureAction_stuck dequeued.stuck (stored.trans_le dequeued.size)).bind
    fun out acted => ?_
  obtain ⟨tmpRule, s'⟩ := out
  cases tmpRule with
  | none => exact dequeued.trans acted.onwards
  | some tmpRule =>
    exact (dequeued.trans acted.onwards).trans
      (enqueueRule_stuck acted.onwards.stuck (acted.stored tmpRule rfl))

end Processes

/-! ### Conditions -/

section Conditions

variable {C : RuleId → Prop} {s : State} {r : RuleRef}

/-- What is fetched for an entry is remembered. -/
theorem fetchRule_stuck {i : Nat} {entry : RuleCache} (stuck : Stuck C s) (stored : r < s.db.size)
    (there : (s.rule r).startCondition.caches[i]? = some entry) :
    Onwards C s (fetchRule r i entry s).2 := by
  unfold fetchRule
  cases entry.rule with
  | some checkRule => exact stuck.refl
  | none =>
    have searched := stuck.lookup entry.ruleId
    obtain ⟨_, old, names⟩ := extends_lookup stuck.db entry.ruleId
    rcases search : s.db.getRuleById entry.ruleId with ⟨out, db⟩
    rw [search] at searched old names
    dsimp only at searched old names ⊢
    set middle : State := { s with db } with middleDef
    have this : middle.rule r = s.rule r := old r stored
    refine searched.trans (searched.stuck.setRule rfl rfl ?_ ?_ (searched.stuck.front r))
    · rw [StartCond.dependencies, StartCond.names_setCache]
      rfl
    · intro entry' member found remembers
      rw [StartCond.caches_setCache] at member
      obtain ⟨k, at'⟩ := List.mem_iff_getElem?.mp member
      rw [List.getElem?_modify] at at'
      obtain ⟨before, was, now⟩ := Option.map_eq_some_iff.mp at'
      by_cases here : i = k
      · subst here
        rw [if_pos rfl] at now
        rw [this, there] at was
        obtain rfl := Option.some.inj was
        subst now
        exact names found remembers
      · rw [if_neg here] at now
        subst now
        exact searched.stuck.cached r before (List.mem_of_getElem? was) found remembers

/-- **Rules that have been found completed are none of `C`.** -/
theorem checkRuleCompleted_stuck (entries : List RuleCache) : ∀ (i : Nat) {s : State}, Stuck C s →
    r < s.db.size →
    (∀ k entry, entries[k]? = some entry →
      (s.rule r).startCondition.caches[i + k]? = some entry) →
    Onwards C s (checkRuleCompleted r i entries s).2 ∧
      ((checkRuleCompleted r i entries s).1 = .ok →
        ∀ ruleId ∈ (entries.map RuleCache.ruleId).takeWhile (·.groupName ≠ []), ¬ C ruleId) := by
  induction entries with
  | nil => exact fun i s stuck stored there => ⟨stuck.refl, fun _ _ absent => by cases absent⟩
  | cons entry rest ih =>
    intro i s stuck stored there
    rw [checkRuleCompleted, List.map_cons]
    by_cases last : entry.ruleId.groupName = []
    · rw [if_pos last]
      refine ⟨stuck.refl, fun _ ruleId member => ?_⟩
      rw [List.takeWhile_cons_of_neg (by simpa using last)] at member
      cases member
    rw [if_neg last]
    have fetched : Fetched r i entry s (fetchRule r i entry s) :=
      fetchRule_made stuck.db stored (there 0 entry rfl)
        (stuck.cached r entry (List.mem_of_getElem? (there 0 entry rfl)))
    have onwards : Onwards C s (fetchRule r i entry s).2 :=
      fetchRule_stuck stuck stored (there 0 entry rfl)
    generalize fetchRule r i entry s = out at fetched onwards ⊢
    obtain ⟨checkRule, middle⟩ := out
    have onwards : Onwards C s middle := onwards
    dsimp only
    cases checkRule with
    | none =>
      refine ⟨onwards.trans (onwards.stuck.setState fun started => by cases started), fun ok => ?_⟩
      cases ok
    | some checkRule =>
      dsimp only
      by_cases done : (middle.rule checkRule).ruleState = .completed
      · rw [if_pos done]
        obtain ⟨stored', named⟩ := fetched.names checkRule rfl
        obtain ⟨onwards', others⟩ :=
          ih (i + 1) onwards.stuck (stored.trans_le onwards.size) fun k next at' => by
            have place : i + 1 + k = i + (k + 1) := by omega
            rw [place, fetched.behind _ (by omega)]
            exact there (k + 1) next at'
        refine ⟨onwards.trans onwards', fun ok ruleId member => ?_⟩
        rw [List.takeWhile_cons_of_pos (by simpa using last)] at member
        rcases List.mem_cons.mp member with rfl | member
        · -- a rule of `C` waits for `C`, and does not complete
          intro inside
          have waits := onwards.stuck.closed checkRule stored' _ inside (.inl named)
          exact onwards.stuck.front checkRule (by rw [done]; rfl) waits
        · exact others ok ruleId member
      · rw [if_neg done]
        refine ⟨onwards, fun ok => ?_⟩
        cases ok

/-- **A start condition that names an id in `C` does not hold.** -/
theorem startCondCheck_stuck (env : Env) (stuck : Stuck C s) (stored : r < s.db.size) :
    Onwards C s (startCondCheck env r s).2 ∧ ((startCondCheck env r s).1 = .ok → Loose C s r) := by
  have pure : (s.rule r).startCondition.caches = [] → Loose C s r := by
    refine fun none => ⟨stored, ?_⟩
    rintro ⟨ruleId, member, _⟩
    rw [StartCond.dependencies, none] at member
    cases member
  unfold startCondCheck
  cases condition : (s.rule r).startCondition with
  | ruleCompleted ids =>
    obtain ⟨onwards, completed⟩ := checkRuleCompleted_stuck (r := r) (ids.take startCondMaxIds) 0
      stuck stored fun k entry at' => by
        rw [condition, Nat.zero_add]
        rw [List.getElem?_take] at at'
        split_ifs at at'
        exact at'
    refine ⟨onwards, fun ok => ⟨stored, ?_⟩⟩
    rintro ⟨ruleId, member, inside⟩
    rw [condition, StartCond.dependencies, ← List.map_take] at member
    exact completed ok ruleId member inside
  | none => exact ⟨stuck.refl, fun _ => pure (by rw [condition]; rfl)⟩
  | file filename => exact ⟨stuck.refl, fun _ => pure (by rw [condition]; rfl)⟩
  | netDevice netDevice => exact ⟨stuck.refl, fun _ => pure (by rw [condition]; rfl)⟩
  | ipcOwner ipcOwner => exact ⟨stuck.refl, fun _ => pure (by rw [condition]; rfl)⟩
  | envVar envVarName envVarValue => exact ⟨stuck.refl, fun _ => pure (by rw [condition]; rfl)⟩

theorem endCondCheck_stuck (env : Env) (tick : Nat) (stuck : Stuck C s) (r : RuleRef) :
    Returns (endCondCheck env r tick s) fun out => Onwards C s out.2 := by
  have same : Onwards C s s := stuck.refl
  unfold endCondCheck
  dsimp only
  cases (s.rule r).endCondition with
  | exit exitStatus =>
    have read : Returns (checkExit r exitStatus s) fun _ => Onwards C s s := by
      unfold checkExit
      cases (s.rule r).proc with
      | none => exact same
      | some a => exact (stuck.getProc a).bind fun p _ => same
    exact read.bind fun _ same => same
  | processReady processReady =>
    dsimp only
    split_ifs
    · exact stuck.retouch rfl rfl rfl (stuck.front r)
    · exact stuck.refl
  | wait left delay => exact stuck.retouch rfl rfl rfl (stuck.front r)
  | _ => exact stuck.refl

end Conditions

/-! ### The visit of a timer object -/

section Timers

variable {C : RuleId → Prop} {s : State} {i : Nat} {obj : TimerObj}

/-- A timer object is marked. -/
theorem addToDequeueList_stuck (stuck : Stuck C s) (i : Nat) :
    Onwards C s (addToDequeueList i s) := by
  refine stuck.lists rfl stuck.processes stuck.log (fun obj' member => ?_) stuck.pending
  exact stuck.timer_modify member fun _ => rfl

/-- A rule is given up, and its failure action is performed. -/
theorem giveUp_stuck (stuck : Stuck C s) (stored : obj.rule < s.db.size) {ruleState : RuleState}
    (given : ruleState.started = false) (flag : Bool) :
    Returns (failureAction obj.rule (addToDequeueList i (s.setState obj.rule ruleState)) >>=
      fun out => .ok (flag, addToEnqueueList out.1 out.2)) fun out => Onwards C s out.2 := by
  have gaveUp : Onwards C s (s.setState obj.rule ruleState) :=
    stuck.setState fun started => by rw [given] at started; cases started
  have marked := gaveUp.trans (addToDequeueList_stuck gaveUp.stuck i)
  refine (failureAction_stuck marked.stuck (stored.trans_le marked.size)).bind fun out acted => ?_
  obtain ⟨execRule, last⟩ := out
  have onwards : Onwards C s last := marked.trans acted.onwards
  cases execRule with
  | none => exact onwards
  | some execRule =>
    refine onwards.trans (onwards.stuck.lists rfl onwards.stuck.processes onwards.stuck.log
      onwards.stuck.timers fun q member => ?_)
    rcases List.mem_cons.mp member with rfl | old
    · exact acted.stored q rfl
    · exact onwards.stuck.pending q old

theorem handleStartCondition_stuck (env : Env) (stuck : Stuck C s)
    (stored : obj.rule < s.db.size) :
    Returns (handleStartCondition env i obj s) fun out => Onwards C s out.2 := by
  obtain ⟨checked, holds⟩ := startCondCheck_stuck env stuck stored
  unfold handleStartCondition
  dsimp only
  generalize startCondCheck env obj.rule s = out at checked holds ⊢
  obtain ⟨retval, middle⟩ := out
  have checked : Onwards C s middle := checked
  dsimp only
  by_cases ok : retval = .ok
  case neg =>
    rw [if_pos ok]
    exact checked
  rw [if_neg (not_not.mpr ok)]
  have loose : Loose C middle obj.rule := checked.loose _ (holds ok)
  cases (middle.rule obj.rule).command with
  | none => trivial
  | some command =>
    dsimp only
    split_ifs
    · exact checked.trans (checked.stuck.setState fun _ => loose.loose)
    refine (processEnqueue_stuck checked.stuck env loose).bind fun out enqueued => ?_
    obtain ⟨retval', last⟩ := out
    have onwards : Onwards C s last := checked.trans enqueued
    dsimp only
    split_ifs
    · exact onwards.trans (onwards.stuck.setState fun _ => (enqueued.loose _ loose).loose)
    · exact (processStop_stuck onwards.stuck obj.rule true none).bind fun out stopped =>
        onwards.trans stopped
    · exact (giveUp_stuck onwards.stuck (stored.trans_le onwards.size) rfl false).mono
        fun out gaveUp => onwards.trans gaveUp

theorem handleEndCondition_stuck (env : Env) (tick : Nat) (stuck : Stuck C s)
    (stored : obj.rule < s.db.size)
    (waits : (s.rule obj.rule).ruleState = .endConditionWaiting) :
    Returns (handleEndCondition env i obj tick s) fun out => Onwards C s out.2 := by
  have loose : Loose C s obj.rule := stuck.loose stored (by rw [waits]; rfl)
  unfold handleEndCondition
  refine (endCondCheck_stuck env tick stuck obj.rule).bind fun out checked => ?_
  obtain ⟨retval, middle⟩ := out
  have checked : Onwards C s middle := checked
  have loose' : Loose C middle obj.rule := checked.loose _ loose
  have completed : Onwards C s (addToDequeueList i
      ((middle.setState obj.rule .completed).note (.success obj.rule))) := by
    have set : Onwards C middle (middle.setState obj.rule .completed) :=
      checked.stuck.setState fun _ => loose'.loose
    have noted := set.stuck.note (n := .success obj.rule) fun r about => by
      rcases about with same | ⟨a, pid, other⟩
      · obtain rfl := Note.success.inj same
        exact set.loose _ loose'
      · cases other
    have done := (checked.trans set).trans noted
    exact done.trans (addToDequeueList_stuck done.stuck i)
  dsimp only
  split_ifs with ok endless elapsed there
  · cases (middle.rule obj.rule).proc with
    | none => exact completed
    | some a => exact (checked.stuck.getProc a).bind fun p _ => completed
  · exact checked
  · refine (processStop_stuck checked.stuck obj.rule true none).bind fun out stopped => ?_
    have onwards : Onwards C s out.2 := checked.trans stopped
    exact (giveUp_stuck onwards.stuck (stored.trans_le onwards.size) rfl true).mono
      fun out gaveUp => onwards.trans gaveUp
  · exact (giveUp_stuck checked.stuck (stored.trans_le checked.size) rfl true).mono
      fun out gaveUp => checked.trans gaveUp
  · refine checked.trans (checked.stuck.lists rfl checked.stuck.processes checked.stuck.log
      (fun obj' member => ?_) checked.stuck.pending)
    exact checked.stuck.timer_modify member fun _ => rfl

theorem timerVisit_stuck (env : Env) (tick : Nat) (stuck : Stuck C s)
    (stored : obj.rule < s.db.size) :
    Returns (timerVisit env i obj tick s) fun out => Onwards C s out.2 := by
  unfold timerVisit
  cases state : (s.rule obj.rule).ruleState with
  | startConditionWaiting => exact handleStartCondition_stuck env stuck stored
  | endConditionWaiting => exact handleEndCondition_stuck env tick stuck stored state
  | _ => exact addToDequeueList_stuck stuck i

theorem timerIterate_stuck (tick : Nat) (envs : Nat → Env) (stuck : Stuck C s) :
    Returns (timerIterate tick envs s) fun out => Onwards C s out.2 := by
  have loop : Returns ((List.range s.timerObjs.length).foldlM (timerRound tick envs) (false, s))
      fun state => Onwards C s state.2 := by
    refine Ensures.foldlM (I := fun state : Bool × State => Onwards C s state.2)
      (fun state i onwards => ?_) _ stuck.refl
    have changed := chldHandler_stuck onwards.stuck (envs i).children
    unfold timerRound
    dsimp only
    cases there : (chldHandler (envs i).children state.2).timerObjs[i]? with
    | none => exact onwards.trans changed
    | some obj =>
      have stored := changed.stuck.timers obj (List.mem_of_getElem? there)
      exact (timerVisit_stuck (envs i) tick changed.stuck stored).bind fun out visited =>
        (onwards.trans changed).trans visited
  unfold timerIterate
  refine loop.bind fun out onwards => ?_
  obtain ⟨flag, last⟩ := out
  have swept : Onwards C s (dequeueHandle last) :=
    onwards.trans (onwards.stuck.lists rfl onwards.stuck.processes onwards.stuck.log
      (fun obj member => onwards.stuck.timers obj (List.mem_of_mem_filter member))
      onwards.stuck.pending)
  have listed := enqueueHandleRounds_stuck swept.stuck _ swept.stuck.pending
  exact (swept.trans listed).trans (listed.stuck.lists rfl listed.stuck.processes
    listed.stuck.log listed.stuck.timers fun _ absent => by cases absent)

end Timers

/-! ### The visits of the processes -/

section Visits

variable {C : RuleId → Prop} {s : State} {a : ProcRef} {p : Proc}

theorem startVisit_stuck (env : Env) (stuck : Stuck C s) (a : ProcRef) :
    Returns (startVisit env s a) fun s' => Onwards C s s' := by
  unfold startVisit
  refine (stuck.getProc a).bind fun p loose => ?_
  cases p.state with
  | runme =>
    have forked : Onwards C s (s.setProc a
        { p with pid := env.fork, state := .starting, tm := 3 }) := stuck.setProc loose
    refine forked.trans (forked.stuck.note fun r about => ?_)
    rcases about with other | ⟨a', pid, same⟩
    · cases other
    · obtain ⟨_, rfl, _⟩ := Note.starting.inj same
      exact forked.loose _ loose
  | starting =>
    dsimp only
    split_ifs
    · exact stuck.setProc loose
    · exact stuck.setProc loose
  | _ => exact stuck.refl

/-- The reply to the message that a process holds -/
theorem replyMessage_stuck (stuck : Stuck C s) (alloc sent : Bool) (cookie : Option Incoming)
    (retval : Status) : Onwards C s (replyMessage alloc sent cookie retval s) := by
  cases cookie with
  | none => exact stuck.refl
  | some msg => exact answer_stuck stuck _ msg retval none

theorem stoppedAction_stuck (env : Env) (stuck : Stuck C s) (stored : p.rule < s.db.size) :
    Returns (stoppedAction env p s) fun out => Onwards C s out.2 := by
  have replied : Onwards C s (replyMessage env.alloc env.sent p.cookie .ok s) :=
    replyMessage_stuck stuck _ _ _ _
  have triggered : Returns (triggerAction p.rule s >>= fun out =>
      .ok (decide (out.1 ≠ .ok), out.2)) fun out => Onwards C s out.2 :=
    (triggerAction_stuck stuck stored).bind fun out onwards => onwards
  unfold stoppedAction
  dsimp only
  cases p.retstat with
  | nothing => exact stuck.refl
  | exited =>
    dsimp only
    split_ifs
    · exact replied
    · exact triggered
    · exact stuck.refl
  | signaled =>
    dsimp only
    split_ifs
    · exact replied
    · exact triggered
    · exact stuck.refl
  | stopped => exact triggered

theorem stoppedVisit_stuck (env : Env) (stuck : Stuck C s) (loose : Loose C s p.rule) :
    Returns (stoppedVisit env a p s) fun out => Onwards C s out.2 := by
  have detached : Onwards C s (disconnect a p.rule s) := by
    unfold disconnect
    split_ifs
    · exact detach_stuck stuck p.rule
    · exact stuck.refl
  have cleaned : Onwards C s ((disconnect a p.rule s).note (.cleanup p.pid)) :=
    detached.trans (detached.stuck.noteSilent rfl)
  unfold stoppedVisit
  refine (stoppedAction_stuck env cleaned.stuck (loose.stored.trans_le cleaned.size)).bind
    fun out acted => ?_
  obtain ⟨again, last⟩ := out
  have onwards : Onwards C s last := cleaned.trans acted
  dsimp only
  split_ifs
  · exact onwards
  · have dropped : Onwards C s { last with procList := Assoc.drop a last.procList } :=
      onwards.trans (onwards.stuck.lists rfl
        (fun entry member => onwards.stuck.processes entry (List.mem_of_mem_filter member))
        onwards.stuck.log onwards.stuck.timers onwards.stuck.pending)
    exact dropped.trans (dropped.stuck.noteSilent rfl)

theorem stopVisit_stuck (env : Env) (stuck : Stuck C s) (a : ProcRef) :
    Returns (stopVisit env a s) fun out => Onwards C s out.2 := by
  unfold stopVisit
  refine (stuck.getProc a).bind fun p loose => ?_
  have written : ∀ p', p'.rule = p.rule → Onwards C s (s.setProc a p') := fun p' same =>
    stuck.setProc (same ▸ loose)
  have signaled : ∀ p' sig, p'.rule = p.rule →
      Onwards C s ((s.setProc a p').note (.kill p.pid sig)) := fun p' sig same =>
    (written p' same).trans ((written p' same).stuck.noteKill _ _)
  cases p.state with
  | stopping => exact written _ rfl
  | stopped => exact stoppedVisit_stuck env stuck loose
  | termme =>
    dsimp only
    split_ifs
    · exact stuck.refl
    · exact signaled _ _ rfl
    · exact signaled _ _ rfl
    · exact written _ rfl
  | killme =>
    dsimp only
    split_ifs
    · exact signaled _ _ rfl
    · exact written _ rfl
    · exact written _ rfl
  | runme => exact written _ rfl
  | _ => exact stuck.refl

theorem stopLoop_stuck (envs : Nat → Env) : ∀ (fuel i : Nat) (rest : List ProcRef) {s : State},
    Stuck C s → Returns (stopLoop envs fuel i rest s) fun s' => Onwards C s s' := by
  intro fuel
  induction fuel with
  | zero =>
    intro i rest s stuck
    cases rest with
    | nil => exact stuck.refl
    | cons a rest => trivial
  | succ fuel ih =>
    intro i rest s stuck
    cases rest with
    | nil => exact stuck.refl
    | cons a rest =>
      have changed := chldHandler_stuck stuck (envs i).children
      rw [stopLoop]
      refine (stopVisit_stuck (envs i) changed.stuck a).bind fun out visited => ?_
      obtain ⟨again, middle⟩ := out
      have onwards : Onwards C s middle := changed.trans visited
      exact (ih (i + 1) _ onwards.stuck).mono fun s' last => onwards.trans last

theorem iterateProcesses_stuck (round : Round) (stuck : Stuck C s) :
    Returns (iterateProcesses round s) fun s' => Onwards C s s' := by
  have starts : Returns (iterateStart round.starts s) fun s' => Onwards C s s' := by
    refine Ensures.foldlM (I := fun s' => Onwards C s s') (fun s' visit onwards => ?_) _ stuck.refl
    have changed := chldHandler_stuck onwards.stuck (round.starts visit.2).children
    exact (startVisit_stuck _ changed.stuck visit.1).mono fun last visited =>
      (onwards.trans changed).trans visited
  unfold iterateProcesses
  exact starts.bind fun s' onwards => (stopLoop_stuck round.stops _ 0 _ onwards.stuck).mono
    fun last stopped => onwards.trans stopped

end Visits

/-! ### Clients -/

section Clients

variable {C : RuleId → Prop} {s : State} {r : RuleRef}

theorem apiStop_stuck (stuck : Stuck C s) (r : RuleRef) (brutal : Bool)
    (cookie : Option Incoming) :
    Returns (apiStop r brutal cookie s) fun out => Onwards C s out.2 := by
  have cleared : Onwards C s (setOptionalParams r none s) :=
    stuck.retouch rfl rfl rfl (stuck.front r)
  unfold apiStop
  refine (dequeueRule_stuck cleared.stuck r false).bind fun out dequeued => ?_
  obtain ⟨retval, middle⟩ := out
  have onwards : Onwards C s middle := cleared.trans dequeued
  dsimp only
  by_cases unqueued : retval = .invalidRule
  case neg =>
    rw [if_neg unqueued]
    exact onwards
  rw [if_pos unqueued]
  refine (processStop_stuck onwards.stuck r brutal cookie).bind fun out stopped => ?_
  obtain ⟨retval', last⟩ := out
  have onwards' : Onwards C s last := onwards.trans stopped
  have idle : Onwards C last (last.setState r .idle) :=
    onwards'.stuck.setState fun started => by cases started
  dsimp only
  by_cases ok : retval' = .ok
  · rw [if_pos ok]
    exact onwards'.trans idle
  · rw [if_neg ok]
    exact onwards'

theorem apiSignal_stuck (stuck : Stuck C s) (r : RuleRef) (sig : Int) :
    Returns (apiSignal r sig s) fun out => Onwards C s out.2 := by
  unfold apiSignal
  split_ifs
  · unfold processSignalByRule
    cases (s.rule r).proc with
    | none => exact stuck.refl
    | some a =>
      refine (stuck.getProc a).bind fun p _ => ?_
      split_ifs
      · exact stuck.noteKill _ _
      · exact stuck.refl
  · exact stuck.refl

theorem withRule_stuck {ruleId : RuleId}
    {request : RuleRef → State → Except Stop (Status × Option ApiRuleState × State)}
    (stuck : Stuck C s) (served : ∀ q s', Stuck C s' → q < s'.db.size →
      Returns (request q s') fun out => Onwards C s' out.2.2) :
    Returns (withRule ruleId s request) fun out => Onwards C s out.2.2 := by
  have searched := stuck.lookup ruleId
  obtain ⟨_, _, names⟩ := extends_lookup stuck.db ruleId
  unfold withRule
  rcases search : s.db.getRuleById ruleId with ⟨out, db⟩
  rw [search] at searched names
  cases out with
  | none => exact searched
  | some q =>
    exact (served q _ searched.stuck (names q rfl).1).mono fun out onwards =>
      searched.trans onwards

theorem plain_stuck {request : State → Except Stop (Status × State)}
    (served : Returns (request s) fun out => Onwards C s out.2) :
    Returns (plain request s) fun out => Onwards C s out.2.2 := served.bind fun _ made => made

theorem serve_stuck (stuck : Stuck C s) (msg : Incoming) :
    Returns (serve msg s) fun out => Onwards C s out.2.2 := by
  unfold serve
  cases msg.message.request with
  | processReady pid =>
    refine plain_stuck (?_ : Returns (.ok (apiProcessReady pid s)) _)
    unfold apiProcessReady
    cases getRuleByPid pid s with
    | none => exact stuck.refl
    | some q =>
      dsimp only
      cases (s.rule q).endCondition with
      | processReady flag => exact stuck.retouch rfl rfl rfl (stuck.front q)
      | _ => exact stuck.refl
  | netRxPriority done => exact stuck.refl
  | startProcess ruleId params =>
    refine withRule_stuck stuck fun q s' stuck' stored => ?_
    have set : Onwards C s' (if params = [] then s' else setOptionalParams q (some params) s') := by
      split_ifs
      · exact stuck'.refl
      · exact stuck'.retouch rfl rfl rfl (stuck'.front q)
    have enqueued := enqueueRule_stuck set.stuck (stored.trans_le set.size)
    exact set.trans enqueued
  | terminateProcessSync ruleId =>
    exact withRule_stuck stuck fun q s' stuck' _ => plain_stuck (apiStop_stuck stuck' q _ _)
  | terminateProcess ruleId =>
    exact withRule_stuck stuck fun q s' stuck' _ => plain_stuck (apiStop_stuck stuck' q _ _)
  | killProcess ruleId =>
    exact withRule_stuck stuck fun q s' stuck' _ => plain_stuck (apiStop_stuck stuck' q _ _)
  | signalProcess ruleId sig =>
    exact withRule_stuck stuck fun q s' stuck' _ => plain_stuck (apiSignal_stuck stuck' q sig)
  | getRuleState ruleId => exact withRule_stuck stuck fun q s' stuck' _ => stuck'.refl
  | unknown ruleId => exact withRule_stuck stuck fun q s' stuck' _ => stuck'.refl

theorem checkMessage_stuck (stuck : Stuck C s) (arrival : Arrival) :
    Returns (checkMessage arrival s) fun out => Onwards C s out.2 := by
  have changed := chldHandler_stuck stuck arrival.children
  unfold checkMessage
  set middle := chldHandler arrival.children s
  have opened : Onwards C s { middle with nextMsg := middle.nextMsg + 1 } :=
    changed.trans (changed.stuck.lists rfl changed.stuck.processes changed.stuck.log
      changed.stuck.timers changed.stuck.pending)
  dsimp only
  split_ifs
  · trivial
  · exact opened.trans (answer_stuck opened.stuck _ _ _ _)
  · refine (serve_stuck opened.stuck ⟨middle.nextMsg, arrival.message⟩).bind fun out served => ?_
    obtain ⟨retval, ruleState, last⟩ := out
    have onwards : Onwards C s last := opened.trans served
    show Onwards C s (if retval = .wait then last else _)
    split_ifs
    · exact onwards
    · exact onwards.trans (answer_stuck onwards.stuck _ _ _ _)

theorem checkLoop_stuck (arrivals : List Arrival) : ∀ {s : State}, Stuck C s →
    Returns (checkLoop arrivals s) fun s' => Onwards C s s' := by
  induction arrivals with
  | nil => exact fun stuck => stuck.refl
  | cons arrival arrivals ih =>
    intro s stuck
    rw [checkLoop]
    refine (checkMessage_stuck stuck arrival).bind fun out onwards => ?_
    obtain ⟨more, middle⟩ := out
    dsimp only
    split_ifs
    · exact (ih onwards.stuck).mono fun s' last => onwards.trans last
    · exact onwards

end Clients

/-! ### Rounds -/

section Rounds

variable {C : RuleId → Prop} {s : State} {rules : List Rule}

/-- **A round of the main loop** leaves the rules stuck. -/
theorem mainRound_stuck (tick : Nat) (round : Round) (stuck : Stuck C s) :
    Returns (mainRound tick s round) (Stuck C) := by
  unfold mainRound
  refine (checkLoop_stuck (round.arrivals.take messageBudget) stuck).bind fun first checked => ?_
  refine (timerIterate_stuck tick round.timers checked.stuck).bind fun out timed => ?_
  obtain ⟨processFlag, second⟩ := out
  have timed : Stuck C second := timed.stuck
  dsimp only
  split_ifs
  · exact (iterateProcesses_stuck round timed).bind fun third last =>
      ((last.stuck.ticks 0).stuck.ticks _).stuck
  · exact (timed.ticks _).stuck

/-- The rules of a file in which every rule for an id in `C` waits for `C` are stuck. -/
theorem stuck_loaded (parsed : Parsed rules)
    (cycle : ∀ rule ∈ rules, ∀ ruleId, C ruleId → rule.MayBe ruleId → rule.WaitsFor C) :
    Stuck C (loaded rules) := by
  have stored := stored_load rules
  refine ⟨stored.wellFormed, fun r entry member found remembers => ?_,
    fun r below => cycle _ (stored.inside r below), fun r started => ?_, ?_, ?_, ?_, ?_⟩
  · rw [rule_loaded] at member
    rcases stored.cases r with inside | zero
    · rw [parsed.uncached _ inside entry member] at remembers
      cases remembers
    · rw [zero] at member
      cases member
  · rw [rule_loaded] at started
    rcases stored.cases r with inside | zero
    · rcases parsed.states _ inside with idle | active
      · rw [idle] at started
        cases started
      · rw [active] at started
        cases started
    · rw [zero] at started
      cases started
  · exact fun _ absent => absurd absent List.not_mem_nil
  · exact fun _ absent => absurd absent List.not_mem_nil
  · exact fun _ absent => absurd absent List.not_mem_nil
  · exact fun _ absent => absurd absent List.not_mem_nil

/-- **In every run the rules that wait for each other are stuck.** -/
theorem run_stuck (parsed : Parsed rules)
    (cycle : ∀ rule ∈ rules, ∀ ruleId, C ruleId → rule.MayBe ruleId → rule.WaitsFor C)
    (tick : Nat) (rounds : List Round) : Returns (run tick rules rounds) (Stuck C) := by
  have begun : Stuck C (started rules) := by
    have listed := enqueueHandleRounds_stuck (stuck_loaded parsed cycle)
      ((load rules).refs.filter fun r => ((load rules).memory r).ruleState = .active)
      fun r member => ((stored_load rules).wellFormed.mem_refs.mp (List.mem_of_mem_filter member))
    have state : started rules =
      { (activate (loaded rules)).2 with tickCounter := processTick } := rfl
    rw [state, activate_eq parsed]
    exact (listed.stuck.ticks _).stuck
  exact Ensures.foldlM (fun s round stuck => mainRound_stuck tick round stuck) rounds begun

end Rounds

end CyberPlatform.Pcd
