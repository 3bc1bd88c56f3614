/-
**The timers are made of moves.**

* `processStop_of_none`, `processStop_of_some` — what the stop of a process does.
* `failureAction_made` — a failure action reboots, or gives a rule that may be enqueued.
* `startCondCheck_made` — a start condition that holds has all its dependencies completed.
* `timerIterate_made` — an iteration over the timers goes wrong in no way, and is made of moves.
-/

import CyberPlatform.Foundation.Ensures
import CyberPlatform.Pcd.Lasting

namespace CyberPlatform.Pcd

open Foundation

/-- **The only way in which the daemon is meant to end**: the failure action of a rule says so. -/
def Reboots (s : State) (stop : Stop) : Prop :=
  stop = .reboot ∧ ∃ r < s.db.size, (s.rule r).failureAction = .reboot

/-- What a function of the daemon returns. -/
abbrev Returns {α : Type} (x : Except Stop α) (Q : α → Prop) : Prop := Ensures (fun _ => True) x Q

/-- The rule has been there before, or its template. -/
theorem Reboots.back {s s' : State} {stop : Stop} (reboots : Reboots s' stop) (grows : Grows s s') :
    Reboots s stop := by
  obtain ⟨ends, r, stored, action⟩ := reboots
  refine ⟨ends, ?_⟩
  by_cases old : r < s.db.size
  · exact ⟨r, old, (grows.rules r old).failureAction.symm.trans action⟩
  · obtain ⟨t, stored', _, stems⟩ := grows.made r (Nat.le_of_not_lt old) stored
    exact ⟨t, stored', stems.failureAction.symm.trans action⟩

/-- What is ensured of a later state. -/
theorem Grows.since {s s' : State} {α : Type} {x : Except Stop α} {Q : α → Prop}
    (grows : Grows s s') (holds : Ensures (Reboots s') x Q) : Ensures (Reboots s) x Q :=
  holds.weaken fun _ reboots => reboots.back grows

/-! ### Processes -/

section Processes

variable {s : State} {r : RuleRef} {a : ProcRef} {p : Proc} {brutal : Bool}
  {cookie : Option Incoming}

/-- The children that have changed are seen in the process objects only. -/
theorem chldHandler_eq (children : List Child) :
    ∀ s : State, ∃ procList, chldHandler children s = { s with procList } := by
  induction children with
  | nil => exact fun s => ⟨s.procList, rfl⟩
  | cons child children ih =>
    intro s
    have first : ∃ procList, processChld s child = { s with procList } := by
      unfold processChld
      split
      · exact ⟨s.procList, rfl⟩
      · exact ⟨_, rfl⟩
    obtain ⟨procList, first⟩ := first
    obtain ⟨procList', rest⟩ := ih (processChld s child)
    refine ⟨procList', ?_⟩
    rw [first] at rest
    show chldHandler children (processChld s child) = _
    rw [first]
    exact rest

theorem chldHandler_made (children : List Child) {clock : Bool} (inv : Invariant s) :
    Moves clock s (chldHandler children s) := by
  induction children generalizing s with
  | nil => exact .refl
  | cons child children ih =>
    have first : Moves clock s (processChld s child) := by
      unfold processChld
      split
      · exact .refl
      next a p known =>
        have found := Assoc.find_of_mem inv.keys (List.mem_of_find?_eq_some known)
        have down : ∀ status, (p.chld status).state = .stopping := fun status => by
          cases status <;> rfl
        refine .single (.change a p _ found ⟨?_, ?_, ?_, ?_, ?_, ?_⟩)
        case refine_4 => exact fun _ => by rw [down]; rfl
        case refine_5 => exact (down child.status).symm ▸ ProcState.noConfusion
        case refine_6 =>
          rw [down]
          rintro (up | up) <;> cases up
        all_goals cases child.status <;> rfl
    exact first.trans (ih (first.keeps inv))

/-- **A rule without a process** has none to be stopped. -/
theorem processStop_of_none (free : (s.rule r).proc = none) :
    processStop r brutal cookie s = .ok (.invalidRule, s) := by
  rw [processStop, free]
  rfl

/-- **The process of a rule is stopped.** -/
theorem processStop_of_some (points : (s.rule r).proc = some a)
    (found : Assoc.find a s.procList = some p) (stoppable : p.state.stoppable) :
    processStop r brutal cookie s = .ok (.ok, halted r a p brutal cookie s) := by
  rw [processStop, points]
  dsimp only
  rw [State.getProc_of_find found, ok_bind, if_pos stoppable]
  rfl

end Processes

/-! ### What stays -/

/-- The timers have not been touched, and all processes are still there. -/
structure TimersStay (s s' : State) : Prop where
  timerObjs : s'.timerObjs = s.timerObjs
  enqueueList : s'.enqueueList = s.enqueueList
  procs : s'.procList.map Prod.fst = s.procList.map Prod.fst

theorem TimersStay.trans {s s' s'' : State} (first : TimersStay s s') (second : TimersStay s' s'') :
    TimersStay s s'' :=
  ⟨second.timerObjs.trans first.timerObjs, second.enqueueList.trans first.enqueueList,
    second.procs.trans first.procs⟩

/-- **A process is stopped, if there is one**, in front of the rest `f` of a function: no process is
left, and the rule is as it was. -/
theorem stopIfAny_made {s : State} {r : RuleRef} (inv : Invariant s) (brutal clock : Bool) :
    ∃ status s', (∀ {β : Type} (f : Status × State → Except Stop β),
        (if (s.rule r).proc.isSome then processStop r brutal none s >>= f
          else .ok (.ok, s) >>= f) = f (status, s')) ∧
      Moves clock s s' ∧ TimersStay s s' ∧ s'.db.size = s.db.size ∧
      (∀ r', s'.rule r' = if r' = r then { s.rule r with proc := none } else s.rule r') ∧
      ∀ a, (s.rule r).proc ≠ some a → Assoc.find a s'.procList = Assoc.find a s.procList := by
  by_cases some' : (s.rule r).proc.isSome
  · obtain ⟨a, p, points, found, back, stoppable, _⟩ := inv.proc_of some'
    refine ⟨.ok, halted r a p brutal none s, fun f => ?_,
      .single (.stop r a p brutal points found), ⟨rfl, rfl, Assoc.keys_put⟩, rfl, fun r' => ?_,
      fun a' other => ?_⟩
    · rw [if_pos some', processStop_of_some points found stoppable, ok_bind]
    · rw [halted, State.rule_setRule]
      rfl
    · refine Assoc.find_put.trans (if_neg ?_)
      rintro rfl
      exact other points
  · have free : (s.rule r).proc = none := Option.not_isSome_iff_eq_none.mp some'
    refine ⟨.ok, s, fun f => by rw [if_neg some', ok_bind], .refl, ⟨rfl, rfl, rfl⟩, rfl,
      fun r' => ?_,
      fun _ _ => rfl⟩
    split_ifs with here
    · rw [here]
      exact congrArg (fun proc => { s.rule r with proc }) free
    · rfl

/-! ### Failure actions -/

/-- A rule that may be enqueued -/
structure Enqueueable (s : State) (r : RuleRef) : Prop where
  regular : s.db.Regular r
  quiet : ¬ (s.rule r).ruleState.waiting
  free : (s.rule r).proc = none

section FailureActions

variable {s : State} {r : RuleRef} {clock : Bool}

/-- What a failure action makes: the rule that it gives may be enqueued. -/
structure ActionMade (clock : Bool) (s : State) (out : Option RuleRef × State) : Prop where
  moves : Moves clock s out.2
  stay : TimersStay s out.2
  enqueueable : ∀ rule, out.1 = some rule → Enqueueable out.2 rule

theorem failureActionRestart_made (inv : Invariant s) (regular : s.db.Regular r)
    (quiet : ¬ (s.rule r).ruleState.waiting) :
    Ensures (Reboots s) (failureActionRestart r s) (ActionMade clock s) := by
  obtain ⟨status, s', ran, moves, stay, size, rules, _⟩ := stopIfAny_made inv (r := r) true clock
  have this := rules r
  rw [if_pos rfl] at this
  have fits : Enqueueable s' r := by
    refine ⟨⟨size ▸ regular.stored, ?_⟩, ?_, ?_⟩
    · exact (congrArg Rule.indexed this).trans regular.plain
    · rw [this]
      exact quiet
    · rw [this]
  have made : ActionMade clock s (some r, s') :=
    ⟨moves, stay, fun rule same => Option.some.inj same ▸ fits⟩
  rw [show failureActionRestart r s = _ from ran fun out => .ok (some r, out.2)]
  exact made

/-- **A failure action** reboots, or gives a rule that may be enqueued. -/
theorem failureAction_made (inv : Invariant s) (regular : s.db.Regular r)
    (quiet : ¬ (s.rule r).ruleState.waiting) :
    Ensures (Reboots s) (failureAction r s) (ActionMade clock s) := by
  unfold failureAction
  split
  next => exact ⟨.refl, ⟨rfl, rfl, rfl⟩, fun _ none => by cases none⟩
  next action => exact ⟨rfl, r, regular.stored, action⟩
  next => exact failureActionRestart_made inv regular quiet
  next ruleId action =>
    have wellFormed := inv.db
    have lookup := RulesDb.getRuleById_lookup wellFormed ruleId
    have searched : Moves clock s { s with db := (s.db.getRuleById ruleId).2 } :=
      .single (.lookup ruleId)
    have inv' := searched.keeps inv
    have untemplated : ¬ Template s ruleId := inv.execs r regular.stored ruleId action
    unfold failureActionExecRule
    rcases search : s.db.getRuleById ruleId with ⟨out, db⟩
    rw [search] at lookup searched inv'
    dsimp only at lookup searched inv' ⊢
    cases found : out with
    | none => exact ⟨searched, ⟨rfl, rfl, rfl⟩, fun _ none => by cases none⟩
    | some execRule =>
      dsimp only
      split_ifs with waits
      · exact ⟨searched, ⟨rfl, rfl, rfl⟩, fun _ none => by cases none⟩
      · have regular' : RulesDb.Regular db execRule := by
          subst found
          cases lookup with
          | found _ stored named =>
            refine ⟨stored, ?_⟩
            cases indexed : (s.db.memory execRule).indexed with
            | false => rfl
            | true => exact absurd ⟨execRule, stored, indexed, named⟩ untemplated
          | made t groups _ _ _ =>
            refine ⟨Nat.lt_succ_self _, ?_⟩
            show (Function.update s.db.memory s.db.size _ s.db.size).indexed = false
            rw [Function.update_self]
            rfl
        have restarted : Ensures (Reboots { s with db }) _ (ActionMade clock _) :=
          failureActionRestart_made inv' regular' waits
        refine (searched.grows inv).since (restarted.mono fun out made => ?_)
        exact ⟨searched.trans made.moves,
          ⟨made.stay.timerObjs, made.stay.enqueueList, made.stay.procs⟩,
          made.enqueueable⟩

end FailureActions

/-! ### Start conditions -/

section StartConditions

variable {s : State} {r : RuleRef}

/-- The rules of a state are those of another one, and maybe more. -/
structure Extends (s s' : State) : Prop where
  size : s.db.size ≤ s'.db.size
  ruleId : ∀ q < s.db.size, (s'.rule q).ruleId = (s.rule q).ruleId
  ruleState : ∀ q < s.db.size, (s'.rule q).ruleState = (s.rule q).ruleState

theorem Extends.refl (s : State) : Extends s s := ⟨le_rfl, fun _ _ => rfl, fun _ _ => rfl⟩

theorem Extends.trans {s s' s'' : State} (first : Extends s s') (second : Extends s' s'') :
    Extends s s'' where
  size := first.size.trans second.size
  ruleId q stored :=
    (second.ruleId q (stored.trans_le first.size)).trans (first.ruleId q stored)
  ruleState q stored :=
    (second.ruleState q (stored.trans_le first.size)).trans (first.ruleState q stored)

theorem Extends.completed {s s' : State} (extends' : Extends s s') {ruleId : RuleId}
    (completed : Completed s ruleId) : Completed s' ruleId := by
  obtain ⟨q, stored, named, done⟩ := completed
  exact ⟨q, stored.trans_le extends'.size, (extends'.ruleId q stored).trans named,
    (extends'.ruleState q stored).trans done⟩

/-- The rule in front of its condition, and what the check leaves of it. -/
structure SameRule (old new : Rule) : Prop where
  names : new.startCondition.caches.map RuleCache.ruleId =
    old.startCondition.caches.map RuleCache.ruleId
  command : new.command = old.command
  proc : new.proc = old.proc
  indexed : new.indexed = old.indexed

theorem SameRule.refl (rule : Rule) : SameRule rule rule := ⟨rfl, rfl, rfl, rfl⟩

theorem SameRule.trans {x y z : Rule} (first : SameRule x y) (second : SameRule y z) :
    SameRule x z :=
  ⟨second.names.trans first.names, second.command.trans first.command,
    second.proc.trans first.proc, second.indexed.trans first.indexed⟩

theorem SameRule.dependencies {x y : Rule} (same : SameRule x y) :
    y.startCondition.dependencies = x.startCondition.dependencies := by
  rw [StartCond.dependencies, StartCond.dependencies, same.names]

/-- What the check of a start condition makes. -/
structure StartMade (r : RuleRef) (names : List RuleId) (s : State) (out : Status × State) :
    Prop where
  moves : Moves true s out.2
  stay : TimersStay s out.2
  holds : out.1 = .ok → Extends s out.2 ∧ SameRule (s.rule r) (out.2.rule r) ∧
    ∀ ruleId ∈ names.takeWhile (·.groupName ≠ []), Completed out.2 ruleId

/-- A condition that does not change anything. -/
theorem startMade_pure (status : Status) : StartMade r [] s (status, s) :=
  ⟨.refl, ⟨rfl, rfl, rfl⟩, fun _ => ⟨.refl s, .refl _, fun _ member => by cases member⟩⟩

/-- A search for a rule, in front of the rest of a check. -/
theorem extends_lookup (wellFormed : s.db.WellFormed) (ruleId : RuleId) :
    Extends s { s with db := (s.db.getRuleById ruleId).2 } ∧
      (∀ q < s.db.size, (s.db.getRuleById ruleId).2.memory q = s.rule q) ∧
      ∀ found, (s.db.getRuleById ruleId).1 = some found →
        found < (s.db.getRuleById ruleId).2.size ∧
          ((s.db.getRuleById ruleId).2.memory found).ruleId = ruleId := by
  have lookup := RulesDb.getRuleById_lookup wellFormed ruleId
  generalize (s.db.getRuleById ruleId).1 = out, (s.db.getRuleById ruleId).2 = db at *
  cases lookup with
  | found r stored named =>
    refine ⟨.refl s, fun _ _ => rfl, fun found same => ?_⟩
    obtain rfl := Option.some.inj same
    exact ⟨stored, named⟩
  | missing none untemplated => exact ⟨.refl s, fun _ _ => rfl, fun _ none => by cases none⟩
  | made t groups unused serves longest =>
    have old : ∀ q < s.db.size, Function.update s.db.memory s.db.size
        (RulesDb.instanceOf (s.db.memory t) ruleId.ruleName) q = s.rule q := fun q stored => by
      rw [Function.update_of_ne stored.ne]
      rfl
    refine ⟨⟨Nat.le_succ _, fun q stored => congrArg Rule.ruleId (old q stored),
      fun q stored => congrArg Rule.ruleState (old q stored)⟩, old, fun found same => ?_⟩
    obtain rfl := Option.some.inj same
    refine ⟨Nat.lt_succ_self _, ?_⟩
    dsimp only
    rw [Function.update_self]
    show RuleId.mk (s.db.memory t).ruleId.groupName ruleId.ruleName = ruleId
    rw [serves.group]

/-- **What the fetching of a rule makes.** -/
structure Fetched (r : RuleRef) (i : Nat) (entry : RuleCache) (s : State)
    (out : Option RuleRef × State) : Prop where
  moves : Moves true s out.2
  stay : TimersStay s out.2
  extends' : Extends s out.2
  same : SameRule (s.rule r) (out.2.rule r)
  names : ∀ found, out.1 = some found →
    found < out.2.db.size ∧ (out.2.rule found).ruleId = entry.ruleId
  behind : ∀ k, i < k → (out.2.rule r).startCondition.caches[k]? =
    (s.rule r).startCondition.caches[k]?

/-- An empty cache entry stays as it is, where nothing is found. -/
theorem StartCond.setCache_none {condition : StartCond} {i : Nat} {entry : RuleCache}
    (there : condition.caches[i]? = some entry) (empty : entry.rule = Option.none) :
    condition.setCache i Option.none = condition := by
  cases condition with
  | ruleCompleted ids =>
    refine congrArg StartCond.ruleCompleted (List.ext_getElem? fun k => ?_)
    rw [List.getElem?_modify]
    by_cases here : i = k
    · subst here
      rw [show ids[i]? = some entry from there]
      refine congrArg some ((if_pos rfl).trans ?_)
      cases entry
      exact congrArg (RuleCache.mk · _) empty.symm
    · simp [here]
  | none => rfl
  | file filename => rfl
  | netDevice netDevice => rfl
  | ipcOwner ipcOwner => rfl
  | envVar envVarName envVarValue => rfl

theorem fetchRule_made {i : Nat} {entry : RuleCache} (wellFormed : s.db.WellFormed)
    (stored : r < s.db.size) (there : (s.rule r).startCondition.caches[i]? = some entry)
    (cached : ∀ found, entry.rule = some found →
      found < s.db.size ∧ (s.rule found).ruleId = entry.ruleId) :
    Fetched r i entry s (fetchRule r i entry s) := by
  unfold fetchRule
  cases cache : entry.rule with
  | some checkRule =>
    refine ⟨.refl, ⟨rfl, rfl, rfl⟩, .refl s, .refl _, fun found same => ?_, fun _ _ => rfl⟩
    obtain rfl := Option.some.inj same
    exact cached checkRule cache
  | none =>
    obtain ⟨more, old, names⟩ := extends_lookup wellFormed entry.ruleId
    have searched : Moves true s { s with db := (s.db.getRuleById entry.ruleId).2 } :=
      .single (.lookup entry.ruleId)
    rcases search : s.db.getRuleById entry.ruleId with ⟨out, db⟩
    rw [search] at more old names searched
    dsimp only at more old names searched ⊢
    set middle : State := { s with db } with middleDef
    have this : middle.rule r = s.rule r := old r stored
    rw [this]
    cases out with
    | none =>
      have idle : { s.rule r with
          startCondition := (s.rule r).startCondition.setCache i none } = s.rule r := by
        rw [StartCond.setCache_none there cache]
      rw [idle, ← this, State.setRule_rule]
      refine ⟨searched, ⟨rfl, rfl, rfl⟩, more, this ▸ .refl _, fun _ absent => ?_, fun k _ => ?_⟩
      · cases absent
      · rw [this]
    | some checkRule =>
      obtain ⟨stored', named⟩ := names checkRule rfl
      have cached : Move true middle (middle.setRule r { s.rule r with
          startCondition := (s.rule r).startCondition.setCache i (some checkRule) }) := by
        have move := Move.cache (s := middle) r i entry.ruleId checkRule
          (by rw [this, there]; rfl) stored' named
        rwa [this] at move
      have rules : ∀ q, (middle.setRule r { s.rule r with
          startCondition := (s.rule r).startCondition.setCache i (some checkRule) }).rule q =
          if q = r then { s.rule r with
            startCondition := (s.rule r).startCondition.setCache i (some checkRule) }
          else middle.rule q := fun q => State.rule_setRule
      have kept : ∀ q, ((middle.setRule r { s.rule r with
          startCondition :=
            (s.rule r).startCondition.setCache i (some checkRule) }).rule q).ruleId =
            (middle.rule q).ruleId ∧
          ((middle.setRule r { s.rule r with
            startCondition := (s.rule r).startCondition.setCache i (some checkRule) }).rule
              q).ruleState = (middle.rule q).ruleState := by
        intro q
        rw [rules]
        split_ifs with here
        · rw [here, this]
          exact ⟨rfl, rfl⟩
        · exact ⟨rfl, rfl⟩
      refine ⟨searched.trans (.single cached), ⟨rfl, rfl, rfl⟩,
        more.trans ⟨le_rfl, fun q _ => (kept q).1,
        fun q _ => (kept q).2⟩, ?_, fun found same => ?_, fun k behind => ?_⟩
      · rw [rules, if_pos rfl]
        exact ⟨StartCond.names_setCache _ _ _, rfl, rfl, rfl⟩
      · obtain rfl := Option.some.inj same
        exact ⟨stored', (kept checkRule).1.trans named⟩
      · rw [rules, if_pos rfl, StartCond.caches_setCache, List.getElem?_modify]
        cases (s.rule r).startCondition.caches[k]? with
        | none => rfl
        | some entry => exact congrArg some (if_neg behind.ne)

/-- **The check that some rules are completed**, from an entry on. -/
theorem checkRuleCompleted_made (entries : List RuleCache) : ∀ (i : Nat) {s : State}, Invariant s →
    r < s.db.size → (s.rule r).ruleState = .startConditionWaiting →
    (∀ k entry, entries[k]? = some entry →
      (s.rule r).startCondition.caches[i + k]? = some entry) →
    StartMade r (entries.map RuleCache.ruleId) s (checkRuleCompleted r i entries s) := by
  induction entries with
  | nil =>
    intro i s inv stored start there
    exact startMade_pure _
  | cons entry rest ih =>
    intro i s inv stored start there
    rw [checkRuleCompleted, List.map_cons]
    by_cases last : entry.ruleId.groupName = []
    · rw [if_pos last]
      refine ⟨.refl, ⟨rfl, rfl, rfl⟩, fun _ => ⟨.refl s, .refl _, fun _ member => ?_⟩⟩
      rw [List.takeWhile_cons_of_neg (by simpa using last)] at member
      cases member
    · rw [if_neg last]
      have fetched : Fetched r i entry s (fetchRule r i entry s) :=
        fetchRule_made inv.db stored (there 0 entry rfl)
          (inv.cached r stored entry (List.mem_of_getElem? (there 0 entry rfl)))
      generalize fetchRule r i entry s = out at fetched ⊢
      obtain ⟨checkRule, middle⟩ := out
      dsimp only
      have inv' := fetched.moves.keeps inv
      have start' := (fetched.extends'.ruleState r stored).trans start
      cases checkRule with
      | none =>
        refine ⟨fetched.moves.trans (.single (.miss r start')),
          ⟨fetched.stay.timerObjs, fetched.stay.enqueueList, fetched.stay.procs⟩, fun ok => ?_⟩
        cases ok
      | some checkRule =>
        dsimp only
        by_cases done : (middle.rule checkRule).ruleState = .completed
        · rw [if_pos done]
          obtain ⟨stored', named⟩ := fetched.names checkRule rfl
          have rest' :=
            ih (i + 1) inv' (stored.trans_le fetched.extends'.size) start' fun k next at' => by
            have place : i + 1 + k = i + (k + 1) := by omega
            rw [place, fetched.behind _ (by omega)]
            exact there (k + 1) next at'
          refine ⟨fetched.moves.trans rest'.moves, fetched.stay.trans rest'.stay, fun ok => ?_⟩
          obtain ⟨more, same, completed⟩ := rest'.holds ok
          refine ⟨fetched.extends'.trans more, fetched.same.trans same, fun ruleId member => ?_⟩
          rw [List.takeWhile_cons_of_pos (by simpa using last)] at member
          rcases List.mem_cons.mp member with rfl | member
          · exact more.completed ⟨checkRule, stored', named, done⟩
          · exact completed ruleId member
        · rw [if_neg done]
          refine ⟨fetched.moves, fetched.stay, fun ok => ?_⟩
          cases ok

/-- **A start condition that holds** has all its dependencies completed. -/
theorem startCondCheck_made (env : Env) (inv : Invariant s) (stored : r < s.db.size)
    (start : (s.rule r).ruleState = .startConditionWaiting) :
    StartMade r (((s.rule r).startCondition.caches.map RuleCache.ruleId).take startCondMaxIds) s
      (startCondCheck env r s) := by
  unfold startCondCheck
  cases condition : (s.rule r).startCondition with
  | ruleCompleted ids =>
    have made := checkRuleCompleted_made (r := r) (ids.take startCondMaxIds) 0 inv stored start
      fun k entry at' => by
        rw [condition, Nat.zero_add]
        rw [List.getElem?_take] at at'
        split_ifs at at'
        exact at'
    rw [List.map_take] at made
    exact made
  | none => exact startMade_pure _
  | file filename => exact startMade_pure _
  | netDevice netDevice => exact startMade_pure _
  | ipcOwner ipcOwner => exact startMade_pure _
  | envVar envVarName envVarValue => exact startMade_pure _

end StartConditions

/-! ### The visit of a timer object -/

section Visits

variable {s : State} {i : Nat} {obj : TimerObj}

/-- What the visit of object `i` makes: the other objects stay as they are. -/
structure VisitMade (i : Nat) (s : State) (out : Bool × State) : Prop where
  moves : Moves true s out.2
  others : ∀ j, j ≠ i → out.2.timerObjs[j]? = s.timerObjs[j]?

/-- Object `i` is rewritten. -/
theorem getElem?_modify_of_ne (f : TimerObj → TimerObj) (objs : List TimerObj) {j : Nat}
    (differ : j ≠ i) : (objs.modify i f)[j]? = objs[j]? := by
  rw [List.getElem?_modify]
  cases objs[j]? with
  | none => rfl
  | some obj => exact congrArg some (if_neg differ.symm)

/-- **A rule is given up**: its object is marked, and its failure action is performed. -/
theorem giveUp_made (inv : Invariant s) (failed : Bool) (flag : Bool)
    (there : s.timerObjs[i]? = some obj) (waits : (s.rule obj.rule).ruleState.waiting) :
    Ensures (Reboots s) (failureAction obj.rule (addToDequeueList i
        (s.setState obj.rule (if failed then .failed else .notCompleted))) >>= fun out =>
      .ok (flag, addToEnqueueList out.1 out.2)) fun out => VisitMade i s out ∧
        ∃ middle, (middle.rule obj.rule).ruleState ≠ .endConditionWaiting ∧ Moves true s middle ∧
          Moves true middle out.2 := by
  have regular := inv.timed obj (List.mem_of_getElem? there)
  have gaveUp : Moves true s _ := .single (.giveUp i obj failed there waits)
  set middle := addToDequeueList i
    (s.setState obj.rule (if failed then .failed else .notCompleted))
  have this : middle.rule obj.rule = { s.rule obj.rule with
      ruleState := if failed then .failed else .notCompleted } := State.rule_setRule_self
  have quiet : ¬ (middle.rule obj.rule).ruleState.waiting := by
    rw [this]
    cases failed <;> exact Bool.false_ne_true
  have acted : Ensures (Reboots middle) _ (ActionMade true middle) :=
    failureAction_made (gaveUp.keeps inv)
      ⟨regular.stored, (congrArg Rule.indexed this).trans regular.plain⟩ quiet
  refine (gaveUp.grows inv).since (acted.bind fun out made => ?_)
  obtain ⟨execRule, last⟩ := out
  have scheduled : Moves true middle (addToEnqueueList execRule last) := by
    refine Relation.ReflTransGen.trans made.moves ?_
    cases execRule with
    | none => exact .refl
    | some execRule =>
      obtain ⟨regular, quiet, free⟩ := made.enqueueable execRule rfl
      exact .single (.schedule execRule regular quiet free)
  have stay : (addToEnqueueList execRule last).timerObjs = middle.timerObjs := by
    cases execRule <;> exact made.stay.timerObjs
  refine ⟨⟨gaveUp.trans scheduled, fun j differ => ?_⟩, middle, fun same => ?_, gaveUp, scheduled⟩
  · show (addToEnqueueList execRule last).timerObjs[j]? = _
    rw [stay]
    exact getElem?_modify_of_ne _ _ differ
  · rw [same] at quiet
    exact quiet rfl

/-- What the check of an end condition makes. -/
structure EndMade (r : RuleRef) (s : State) (out : Status × State) : Prop where
  moves : Moves true s out.2
  written : ∃ condition, out.2 = s.setRule r { s.rule r with endCondition := condition }

theorem endCondCheck_made (env : Env) (tick : Nat) (inv : Invariant s) {r : RuleRef}
    (waits : (s.rule r).ruleState = .endConditionWaiting) :
    Ensures (Reboots s) (endCondCheck env r tick s) (EndMade r s) := by
  have kept : ∀ status, Ensures (Reboots s) (.ok (status, s)) (EndMade r s) :=
    fun status => ⟨.refl, _, State.setRule_rule.symm⟩
  have written : ∀ status condition, Ensures (Reboots s)
      (.ok (status, s.setRule r { s.rule r with endCondition := condition })) (EndMade r s) :=
    fun status condition => ⟨.single (.endCondition r condition waits), condition, rfl⟩
  unfold endCondCheck
  dsimp only
  cases (s.rule r).endCondition with
  | none => exact kept _
  | file filename => exact kept _
  | netDevice netDevice => exact kept _
  | ipcOwner ipcOwner => exact kept _
  | exit exitStatus =>
    unfold checkExit
    cases points : (s.rule r).proc with
    | none => exact kept _
    | some a =>
      obtain ⟨p, found, _⟩ := inv.attached r a points
      dsimp only
      rw [State.getProc_of_find found]
      exact kept _
  | processReady processReady =>
    dsimp only
    split_ifs
    · exact written _ _
    · exact kept _
  | wait left delay => exact written _ _

/-- **The visit of an object whose rule waits for its start condition.** -/
theorem handleStartCondition_made (env : Env) (inv : Invariant s)
    (there : s.timerObjs[i]? = some obj)
    (start : (s.rule obj.rule).ruleState = .startConditionWaiting) :
    Ensures (Reboots s) (handleStartCondition env i obj s) (VisitMade i s) := by
  have regular := inv.timed obj (List.mem_of_getElem? there)
  have checked := startCondCheck_made env inv regular.stored start
  unfold handleStartCondition
  dsimp only
  generalize startCondCheck env obj.rule s = out at checked ⊢
  obtain ⟨retval, middle⟩ := out
  have stay : ∀ j : Nat, middle.timerObjs[j]? = s.timerObjs[j]? := fun j => by
    rw [checked.stay.timerObjs]
  dsimp only
  by_cases ok : retval = .ok
  case neg =>
    rw [if_pos ok]
    exact ⟨checked.moves, fun j _ => stay j⟩
  rw [if_neg (not_not.mpr ok)]
  obtain ⟨more, same, completed⟩ := checked.holds ok
  have inv' : Invariant middle := checked.moves.keeps inv
  have start' : (middle.rule obj.rule).ruleState = .startConditionWaiting :=
    (more.ruleState obj.rule regular.stored).trans start
  have stored' := regular.stored.trans_le more.size
  have met : DependenciesMet middle obj.rule := fun ruleId member => by
    rw [same.dependencies] at member
    exact completed ruleId member
  have free := inv'.unstarted obj.rule start'
  have there' : middle.timerObjs[i]? = some obj := (stay i).trans there
  have regular' : middle.db.Regular obj.rule := ⟨stored', same.indexed.trans regular.plain⟩
  cases command : (middle.rule obj.rule).command with
  | none => exact absurd command (inv'.commands obj.rule stored')
  | some command =>
    dsimp only
    split_ifs with pseudo
    · exact ⟨checked.moves.tail (.pass obj.rule start' met), fun j _ => stay j⟩
    unfold processEnqueue
    rw [free]
    dsimp only
    by_cases granted : env.malloc
    · rw [if_pos granted]
      have launch := checked.moves.tail (.launch obj.rule regular' start' free met)
      have same : State.setState (State.setRule { middle with
          procList := (middle.nextProc, processNew obj.rule) :: middle.procList
          nextProc := middle.nextProc + 1 } obj.rule
          { middle.rule obj.rule with proc := some middle.nextProc }) obj.rule
            .endConditionWaiting = launched obj.rule middle := by
        rw [State.setState, State.rule_setRule_self, State.setRule_setRule]
        rfl
      rw [← same] at launch
      exact ⟨launch, fun j _ => stay j⟩
    · rw [if_neg granted]
      have waits : (middle.rule obj.rule).ruleState.waiting := by rw [start']; rfl
      refine (checked.moves.grows inv).since
        ((giveUp_made inv' true false there' waits).mono fun out made => ?_)
      obtain ⟨⟨moves, others⟩, _⟩ := made
      exact ⟨Relation.ReflTransGen.trans checked.moves moves,
        fun j differ => (others j differ).trans (stay j)⟩

/-- What becomes of the time of an object whose rule waits for its end condition: it stays as it is,
or is counted down, or the rule does not wait any more. -/
inductive Counted (tick i : Nat) (obj : TimerObj) (s : State) (out : Bool × State) : Prop
  | endless : obj.timeout = forever → Counted tick i obj s out
  | counted : obj.timeout ≠ 0 →
      out.2.timerObjs[i]? = some { obj with timeout := countdown tick obj.timeout } →
      Counted tick i obj s out
  | left (middle : State) : (middle.rule obj.rule).ruleState ≠ .endConditionWaiting →
      Moves true s middle → Moves true middle out.2 → Counted tick i obj s out

/-- **The visit of an object whose rule waits for its end condition.** -/
theorem handleEndCondition_made (env : Env) (tick : Nat) (inv : Invariant s)
    (there : s.timerObjs[i]? = some obj)
    (start : (s.rule obj.rule).ruleState = .endConditionWaiting) :
    Ensures (Reboots s) (handleEndCondition env i obj tick s) fun out =>
      VisitMade i s out ∧ Counted tick i obj s out := by
  have regular := inv.timed obj (List.mem_of_getElem? there)
  unfold handleEndCondition
  refine (endCondCheck_made env tick inv start).bind fun out checked => ?_
  obtain ⟨retval, middle⟩ := out
  have moves : Moves true s middle := checked.moves
  obtain ⟨condition, rfl⟩ := checked.written
  set middle := s.setRule obj.rule { s.rule obj.rule with endCondition := condition }
  have inv' : Invariant middle := moves.keeps inv
  have this : middle.rule obj.rule = { s.rule obj.rule with endCondition := condition } :=
    State.rule_setRule_self
  have start' : (middle.rule obj.rule).ruleState = .endConditionWaiting := by rw [this, start]
  dsimp only
  by_cases ok : retval = .ok
  · rw [if_pos ok]
    have complete : Moves true s (addToDequeueList i
        ((middle.setState obj.rule .completed).note (.success obj.rule))) :=
      moves.tail (.complete i obj there start')
    have made : VisitMade i s (false, addToDequeueList i
        ((middle.setState obj.rule .completed).note (.success obj.rule))) :=
      ⟨complete, fun j differ => getElem?_modify_of_ne _ _ differ⟩
    have done : ((addToDequeueList i ((middle.setState obj.rule .completed).note
        (.success obj.rule))).rule obj.rule).ruleState ≠ .endConditionWaiting := by
      have last : (addToDequeueList i ((middle.setState obj.rule .completed).note
          (.success obj.rule))).rule obj.rule = { middle.rule obj.rule with
            ruleState := .completed } := State.rule_setRule_self
      rw [last]
      exact RuleState.noConfusion
    cases points : (middle.rule obj.rule).proc with
    | none => exact ⟨made, .left _ done complete .refl⟩
    | some a =>
      obtain ⟨p, found, _⟩ := inv'.attached obj.rule a points
      dsimp only
      rw [State.getProc_of_find found]
      exact ⟨made, .left _ done complete .refl⟩
  rw [if_neg ok]
  by_cases endless : obj.timeout = forever
  · rw [if_pos endless]
    exact ⟨⟨moves, fun _ _ => rfl⟩, .endless endless⟩
  rw [if_neg endless]
  by_cases elapsed : obj.timeout = 0
  case neg =>
    rw [if_neg elapsed]
    have less : ∀ obj', middle.timerObjs[i]? = some obj' →
        countdown tick obj.timeout ≤ obj'.timeout := fun obj' at' => by
      obtain rfl := Option.some.inj (there.symm.trans at')
      unfold countdown
      split_ifs <;> omega
    refine ⟨⟨moves.tail (.count i _ less), fun j differ => getElem?_modify_of_ne _ _ differ⟩,
      .counted elapsed ?_⟩
    show (s.timerObjs.modify i _)[i]? = _
    rw [List.getElem?_modify, there]
    exact congrArg some (if_pos rfl)
  · rw [if_pos elapsed]
    obtain ⟨status, s', ran, stopped, stay, size, rules, _⟩ := stopIfAny_made inv' true true
    have this' := rules obj.rule
    rw [if_pos rfl] at this'
    rw [ran]
    have waits : (s'.rule obj.rule).ruleState.waiting := by
      rw [this']
      exact congrArg RuleState.waiting start'
    have there' : s'.timerObjs[i]? = some obj := by
      rw [stay.timerObjs]
      exact there
    have before : Moves true s s' := moves.trans stopped
    refine (before.grows inv).since
      ((giveUp_made (before.keeps inv) false true there' waits).mono fun out made => ?_)
    obtain ⟨⟨moves', others⟩, last, left, first, second⟩ := made
    refine ⟨⟨before.trans moves', fun j differ => (others j differ).trans ?_⟩,
      .left last left (before.trans first) second⟩
    rw [stay.timerObjs]
    rfl

theorem timerVisit_made (env : Env) (tick : Nat) (inv : Invariant s)
    (there : s.timerObjs[i]? = some obj) :
    Ensures (Reboots s) (timerVisit env i obj tick s) fun out => VisitMade i s out ∧
      ((s.rule obj.rule).ruleState = .endConditionWaiting → Counted tick i obj s out) := by
  unfold timerVisit
  cases state : (s.rule obj.rule).ruleState with
  | startConditionWaiting =>
    exact (handleStartCondition_made env inv there state).mono fun out made =>
      ⟨made, fun same => by cases same⟩
  | endConditionWaiting =>
    exact (handleEndCondition_made env tick inv there state).mono fun out made =>
      ⟨made.1, fun _ => made.2⟩
  | _ =>
    refine ⟨⟨.single (.discard i obj there (by rw [state]; decide)),
      fun j differ => getElem?_modify_of_ne _ _ differ⟩, fun same => by cases same⟩

end Visits

/-! ### The iteration -/

section Iteration

variable {s : State}

/-- A round of the loop. -/
theorem timerRound_made (tick : Nat) (envs : Nat → Env) (i : Nat) {flag : Bool}
    (inv : Invariant s) :
    Ensures (Reboots s) (timerRound tick envs (flag, s) i) fun out => Moves true s out.2 ∧
      (∀ j, j ≠ i → out.2.timerObjs[j]? = s.timerObjs[j]?) ∧
      ∀ obj, s.timerObjs[i]? = some obj → ∃ middle, Moves true s middle ∧ Moves true middle out.2 ∧
        ((middle.rule obj.rule).ruleState = .endConditionWaiting →
          Counted tick i obj middle out) := by
  have changed : Moves true s (chldHandler (envs i).children s) := chldHandler_made _ inv
  obtain ⟨procList, same⟩ := chldHandler_eq (envs i).children s
  have timers : (chldHandler (envs i).children s).timerObjs = s.timerObjs := by rw [same]
  unfold timerRound
  dsimp only
  cases there : (chldHandler (envs i).children s).timerObjs[i]? with
  | none =>
    refine ⟨changed, fun j _ => by rw [timers], fun obj there' => ?_⟩
    rw [timers, there'] at there
    cases there
  | some obj =>
    refine (changed.grows inv).since
      ((timerVisit_made (envs i) tick (changed.keeps inv) there).bind fun out made => ?_)
    refine ⟨changed.trans made.1.moves, fun j differ =>
      (made.1.others j differ).trans (by rw [timers]),
      fun obj' there' => ⟨_, changed, made.1.moves, ?_⟩⟩
    rw [timers, there'] at there
    obtain rfl := Option.some.inj there
    intro waits
    cases made.2 waits with
    | endless endless => exact .endless endless
    | counted more counted => exact .counted more counted
    | left middle left first second => exact .left middle left first second

/-- **An iteration over the timers** goes wrong in no way, and is made of moves. Behind it no rule
is left that is to be enqueued. -/
theorem timerIterate_made (tick : Nat) (envs : Nat → Env) (inv : Invariant s) :
    Ensures (Reboots s) (timerIterate tick envs s) fun out =>
      Moves true s out.2 ∧ out.2.enqueueList = [] := by
  unfold timerIterate
  have loop : Ensures (Reboots s)
      ((List.range s.timerObjs.length).foldlM (timerRound tick envs) (false, s))
      fun state => Moves true s state.2 := by
    refine Ensures.foldlM (fun state i moves => ?_) _ .refl
    have grows : Grows s state.2 := Moves.grows moves inv
    refine grows.since
      ((timerRound_made tick envs i (Moves.keeps moves inv)).mono fun out more => ?_)
    exact Relation.ReflTransGen.trans moves more.1
  refine loop.bind fun out moves => ⟨?_, rfl⟩
  exact (moves.tail .sweep).tail .enlist

end Iteration

end CyberPlatform.Pcd
