/-
**What stays the same while the daemon runs.**

* `Rule.Lasts` — what is never written again of a rule that is there.
* `Rule.Stems` — what a rule that has been made has of its template.
* `Grows` — what one state has of an earlier one: its rules and its log, and no process is given to
  a rule twice.
* `Steps.grows` — every sequence of moves leads to such a state.
-/

import CyberPlatform.Pcd.Invariant

namespace CyberPlatform.Pcd

open Foundation

/-- What stays the same of a rule. -/
structure Rule.Lasts (x y : Rule) : Prop where
  ruleId : y.ruleId = x.ruleId
  indexed : y.indexed = x.indexed
  timeout : y.timeout = x.timeout
  command : y.command = x.command
  failureAction : y.failureAction = x.failureAction
  daemon : y.daemon = x.daemon
  dependencies : y.startCondition.dependencies = x.startCondition.dependencies

theorem Rule.Lasts.refl (x : Rule) : x.Lasts x := ⟨rfl, rfl, rfl, rfl, rfl, rfl, rfl⟩

theorem Rule.Lasts.trans {x y z : Rule} (first : x.Lasts y) (second : y.Lasts z) : x.Lasts z where
  ruleId := second.ruleId.trans first.ruleId
  indexed := second.indexed.trans first.indexed
  timeout := second.timeout.trans first.timeout
  command := second.command.trans first.command
  failureAction := second.failureAction.trans first.failureAction
  daemon := second.daemon.trans first.daemon
  dependencies := second.dependencies.trans first.dependencies

/-- What a rule has of the template from which it has been made. -/
structure Rule.Stems (x y : Rule) : Prop where
  indexed : y.indexed = false
  group : y.ruleId.groupName = x.ruleId.groupName
  begins : x.ruleId.ruleName <+: y.ruleId.ruleName
  timeout : y.timeout = x.timeout
  command : y.command = x.command
  failureAction : y.failureAction = x.failureAction
  daemon : y.daemon = x.daemon
  dependencies : y.startCondition.dependencies = x.startCondition.dependencies

theorem Rule.Stems.lasts {x y z : Rule} (stems : x.Stems y) (lasts : y.Lasts z) : x.Stems z where
  indexed := lasts.indexed.trans stems.indexed
  group := (congrArg RuleId.groupName lasts.ruleId).trans stems.group
  begins := lasts.ruleId.symm ▸ stems.begins
  timeout := lasts.timeout.trans stems.timeout
  command := lasts.command.trans stems.command
  failureAction := lasts.failureAction.trans stems.failureAction
  daemon := lasts.daemon.trans stems.daemon
  dependencies := lasts.dependencies.trans stems.dependencies

theorem Rule.Lasts.stems {x y z : Rule} (lasts : x.Lasts y) (stems : y.Stems z) : x.Stems z where
  indexed := stems.indexed
  group := stems.group.trans (congrArg RuleId.groupName lasts.ruleId)
  begins := lasts.ruleId ▸ stems.begins
  timeout := stems.timeout.trans lasts.timeout
  command := stems.command.trans lasts.command
  failureAction := stems.failureAction.trans lasts.failureAction
  daemon := stems.daemon.trans lasts.daemon
  dependencies := stems.dependencies.trans lasts.dependencies

/-- **What a state has of an earlier one.** -/
structure Grows (s s' : State) : Prop where
  size : s.db.size ≤ s'.db.size
  nextProc : s.nextProc ≤ s'.nextProc
  log : s.log <+: s'.log
  rules : ∀ r < s.db.size, (s.rule r).Lasts (s'.rule r)
  /-- a rule is made from a template -/
  made : ∀ r, s.db.size ≤ r → r < s'.db.size →
    ∃ t < s.db.size, (s.rule t).indexed = true ∧ (s.rule t).Stems (s'.rule r)
  /-- a process that was there already belongs to its rule already -/
  attached : ∀ r a, (s'.rule r).proc = some a → a < s.nextProc → (s.rule r).proc = some a

namespace Grows

variable {s s' s'' : State}

theorem refl (s : State) : Grows s s where
  size := le_rfl
  nextProc := le_rfl
  log := List.prefix_rfl
  rules _ _ := .refl _
  made _ above below := absurd below above.not_gt
  attached _ _ points _ := points

theorem trans (first : Grows s s') (second : Grows s' s'') : Grows s s'' where
  size := first.size.trans second.size
  nextProc := first.nextProc.trans second.nextProc
  log := first.log.trans second.log
  rules r stored := (first.rules r stored).trans (second.rules r (stored.trans_le first.size))
  made r above below := by
    by_cases between : r < s'.db.size
    · obtain ⟨t, stored, indexed, stems⟩ := first.made r above between
      exact ⟨t, stored, indexed, stems.lasts (second.rules r between)⟩
    · obtain ⟨t, stored, indexed, stems⟩ := second.made r (Nat.le_of_not_lt between) below
      by_cases old : t < s.db.size
      · have lasts := first.rules t old
        exact ⟨t, old, lasts.indexed.symm.trans indexed, lasts.stems stems⟩
      · obtain ⟨_, _, _, plain⟩ := first.made t (Nat.le_of_not_lt old) stored
        exact absurd (plain.indexed.symm.trans indexed) Bool.false_ne_true
  attached r a points old :=
    first.attached r a (second.attached r a points (old.trans_le first.nextProc)) old

/-- The templates are those that have been there. -/
theorem template (grows : Grows s s') {ruleId : RuleId} (template : Template s' ruleId) :
    Template s ruleId := by
  obtain ⟨t, stored, indexed, named⟩ := template
  by_cases old : t < s.db.size
  · have lasts := grows.rules t old
    exact ⟨t, old, lasts.indexed.symm.trans indexed, lasts.ruleId.symm.trans named⟩
  · obtain ⟨_, _, _, plain⟩ := grows.made t (Nat.le_of_not_lt old) stored
    exact absurd (plain.indexed.symm.trans indexed) Bool.false_ne_true

/-- Other lists, and the rules as they are. -/
theorem of_db (db : s'.db = s.db) (nextProc : s.nextProc ≤ s'.nextProc) (log : s.log <+: s'.log) :
    Grows s s' where
  size := (congrArg RulesDb.size db).ge
  nextProc := nextProc
  log := log
  rules r _ := by
    rw [State.rule, State.rule, db]
    exact .refl _
  made r above below := by
    rw [db] at below
    exact absurd below above.not_gt
  attached r a points _ := by
    rw [State.rule, db] at points
    exact points

/-- One rule is written. -/
theorem setRule {r : RuleRef} {x : Rule} (lasts : (s.rule r).Lasts x)
    (proc : ∀ a, x.proc = some a → a < s.nextProc → (s.rule r).proc = some a) :
    Grows s (s.setRule r x) where
  size := le_rfl
  nextProc := le_rfl
  log := List.prefix_rfl
  rules r' _ := by
    rw [State.rule_setRule]
    split_ifs with here
    · rw [here]
      exact lasts
    · exact .refl _
  made _ above below := absurd below above.not_gt
  attached r' a := by
    rw [State.rule_setRule]
    split_ifs with here
    · rw [here]
      exact proc a
    · exact fun points _ => points

/-- The state of a rule is written. -/
theorem setState (s : State) (r : RuleRef) (ruleState : RuleState) :
    Grows s (s.setState r ruleState) :=
  setRule ⟨rfl, rfl, rfl, rfl, rfl, rfl, rfl⟩ fun _ points _ => points

/-- A rule loses its process. -/
theorem detach (s : State) (r : RuleRef) : Grows s (s.setRule r { s.rule r with proc := none }) :=
  setRule ⟨rfl, rfl, rfl, rfl, rfl, rfl, rfl⟩ fun _ none => by cases none

/-- A process is stopped. -/
theorem halt (s : State) (r : RuleRef) (a : ProcRef) (p : Proc) (brutal : Bool)
    (cookie : Option Incoming) : Grows s (halted r a p brutal cookie s) := by
  have rewritten : Grows s (s.setProc a (p.stop brutal cookie)) :=
    .of_db rfl le_rfl List.prefix_rfl
  exact rewritten.trans (.detach _ r)

/-- A search for a rule. -/
theorem lookup (inv : Invariant s) (ruleId : RuleId) :
    Grows s { s with db := (s.db.getRuleById ruleId).2 } := by
  have lookup := RulesDb.getRuleById_lookup inv.db ruleId
  generalize (s.db.getRuleById ruleId).1 = out, (s.db.getRuleById ruleId).2 = db at *
  cases lookup with
  | found r stored named => exact .refl s
  | missing none untemplated => exact .refl s
  | made t groups unused serves longest =>
    set new := RulesDb.instanceOf (s.db.memory t) ruleId.ruleName
    set s' : State := { s with
      db := ⟨groups, Function.update s.db.memory s.db.size new, s.db.size + 1⟩ }
    have other : ∀ r, r ≠ s.db.size → s'.rule r = s.rule r := fun r differ =>
      Function.update_of_ne differ ..
    have this : s'.rule s.db.size = new := Function.update_self ..
    refine ⟨Nat.le_succ _, le_rfl, List.prefix_rfl, fun r stored => ?_, fun r above below => ?_,
      fun r a points _ => ?_⟩
    · rw [other r stored.ne]
      exact .refl _
    · obtain rfl : r = s.db.size := Nat.le_antisymm (Nat.lt_succ_iff.mp below) above
      refine ⟨t, serves.stored, serves.indexed, ?_⟩
      rw [this]
      exact ⟨rfl, rfl, serves.begins, rfl, rfl, rfl, rfl, rfl⟩
    · by_cases here : r = s.db.size
      · rw [here, this] at points
        have free : new.proc = none := (inv.templates t serves.indexed).2
        exact absurd (free.symm.trans points) (Option.some_ne_none _).symm
      · rw [other r here] at points
        exact points

/-- Some rules are enqueued. -/
theorem enqueued (rules : List RuleRef) :
    ∀ s : State, Grows s (rules.foldl enqueueHandleRound s) := by
  induction rules with
  | nil => exact refl
  | cons r rest ih =>
    intro s
    have first : Grows s (enqueueHandleRound s r) :=
      (setState s r .startConditionWaiting).trans (of_db rfl le_rfl List.prefix_rfl)
    exact first.trans (ih _)

end Grows

/-- **Every move leads to a state that has grown.** -/
theorem Move.grows {clock : Bool} {s s' : State} (move : Move clock s s') (inv : Invariant s) :
    Grows s s' := by
  have noted : ∀ (s : State) n, s.log <+: (s.note n).log := fun s n => List.prefix_append _ _
  cases move with
  | lookup ruleId => exact .lookup inv ruleId
  | params r optionalParams =>
    exact .setRule ⟨rfl, rfl, rfl, rfl, rfl, rfl, rfl⟩ fun _ points _ => points
  | ready r flag kind =>
    exact .setRule ⟨rfl, rfl, rfl, rfl, rfl, rfl, rfl⟩ fun _ points _ => points
  | enqueue r regular quiet free unlisted =>
    exact (Grows.setState s r .startConditionWaiting).trans (.of_db rfl le_rfl List.prefix_rfl)
  | dequeue r failed there free =>
    refine Grows.trans ?_ (.setState { s with timerObjs := _ } r _)
    exact .of_db rfl le_rfl List.prefix_rfl
  | idle r free quiet => exact .setState s r .idle
  | stop r a p brutal points found => exact .halt s r a p brutal Option.none
  | change a p p' found changes => exact .of_db rfl le_rfl List.prefix_rfl
  | fork a p pid found runme => exact .of_db rfl le_rfl (noted _ _)
  | kill a p p' sig found changes positive => exact .of_db rfl le_rfl (noted _ _)
  | signal a p sig found up user => exact .of_db rfl le_rfl (noted _ _)
  | disconnect r a points => exact .detach s r
  | cleanup pid => exact .of_db rfl le_rfl (noted _ _)
  | remove a p free empty cookie => exact .of_db rfl le_rfl (List.prefix_append _ _)
  | tick tickCounter => exact .of_db rfl le_rfl List.prefix_rfl
  | cache r i ruleId found names stored named =>
    refine .setRule ⟨rfl, rfl, rfl, rfl, rfl, rfl, ?_⟩ fun _ points _ => points
    rw [StartCond.dependencies, StartCond.dependencies, StartCond.names_setCache]
  | miss r start => exact .setState s r .notCompleted
  | pass r start met => exact .setState s r .endConditionWaiting
  | launch r regular start free met =>
    have spawned : Grows s { s with
        procList := (s.nextProc, processNew r) :: s.procList
        nextProc := s.nextProc + 1 } := .of_db rfl (Nat.le_succ _) List.prefix_rfl
    have attached : Grows s (s.setRule r
        { s.rule r with proc := some s.nextProc, ruleState := .endConditionWaiting }) := by
      refine .setRule ⟨rfl, rfl, rfl, rfl, rfl, rfl, rfl⟩ fun a points old => ?_
      exact absurd old (Option.some.inj points).le.not_gt
    exact { attached with nextProc := spawned.nextProc }
  | endCondition r condition waits =>
    exact .setRule ⟨rfl, rfl, rfl, rfl, rfl, rfl, rfl⟩ fun _ points _ => points
  | complete i obj there waits =>
    refine (Grows.setState s obj.rule .completed).trans ?_
    exact .of_db rfl le_rfl (noted _ _)
  | giveUp i obj failed there waits =>
    exact (Grows.setState s obj.rule _).trans (.of_db rfl le_rfl List.prefix_rfl)
  | discard i obj there quiet => exact .of_db rfl le_rfl List.prefix_rfl
  | count i timeout less => exact .of_db rfl le_rfl List.prefix_rfl
  | schedule r regular quiet free => exact .of_db rfl le_rfl List.prefix_rfl
  | sweep => exact .of_db rfl le_rfl List.prefix_rfl
  | enlist => exact (Grows.enqueued s.enqueueList s).trans (.of_db rfl le_rfl List.prefix_rfl)

theorem Deliver.grows {x y : Desk × State} (deliver : Deliver x y) : Grows x.2 y.2 := by
  have noted : ∀ (s : State) (n : Note), s.log <+: (s.note n).log := fun s n =>
    List.prefix_append _ _
  have answered : ∀ (s : State) sent msg retval ruleState,
      s.log <+: (answer sent msg retval ruleState s).log := fun s sent msg retval ruleState =>
    (noted s _).trans (noted _ _)
  cases deliver with
  | receive message => exact .of_db rfl le_rfl List.prefix_rfl
  | respond sent msg retval ruleState => exact .of_db rfl le_rfl (answered ..)
  | hold r a p brutal msg points found => exact .halt _ r a p brutal (some msg)
  | settle sent a p msg free found kept answers =>
    exact .of_db rfl le_rfl ((answered _ sent msg .ok none).trans (noted _ _))
  | lose a p msg free holds kept quiet => exact .of_db rfl le_rfl (noted _ _)

/-- **So does every sequence of moves.** -/
theorem Steps.grows {clock : Bool} {x y : Desk × State} (steps : Steps clock x y)
    (inv : Invariant x.2) : Grows x.2 y.2 := by
  induction steps with
  | refl => exact .refl _
  | tail steps step ih =>
    refine ih.trans ?_
    have inv' := Steps.keeps steps inv
    cases step with
    | move move => exact move.grows inv'
    | deliver deliver => exact deliver.grows

theorem Moves.grows {clock : Bool} {s s' : State} (moves : Moves clock s s') (inv : Invariant s) :
    Grows s s' := (moves.steps ⟨[], none⟩).grows inv

/-! ### The rules that are to be enqueued -/

/-- Only the timers write the list of the rules that are to be enqueued. -/
theorem Move.enqueueList {s s' : State} (move : Move false s s') :
    s'.enqueueList = s.enqueueList := by
  cases move <;> rfl

theorem Moves.enqueueList {s s' : State} (moves : Moves false s s') :
    s'.enqueueList = s.enqueueList := by
  induction moves with
  | refl => rfl
  | tail _ move ih => exact move.enqueueList.trans ih

theorem Steps.enqueueList {x y : Desk × State} (steps : Steps false x y) :
    y.2.enqueueList = x.2.enqueueList := by
  induction steps with
  | refl => rfl
  | tail _ step ih =>
    refine Eq.trans ?_ ih
    cases step with
    | move move => exact move.enqueueList
    | deliver deliver => cases deliver <;> rfl

/-! ### In front of a free desk -/

section Goes

variable {clock : Bool} {inbox inbox' : List Message} {s s' : State}

theorem Goes.keeps (goes : Goes clock inbox s inbox' s') (inv : Invariant s) : Invariant s' :=
  Steps.keeps goes inv

theorem Goes.grows (goes : Goes clock inbox s inbox' s') (inv : Invariant s) : Grows s s' :=
  Steps.grows goes inv

theorem Goes.enqueueList (goes : Goes false inbox s inbox' s') :
    s'.enqueueList = s.enqueueList :=
  Steps.enqueueList goes

end Goes

end CyberPlatform.Pcd
