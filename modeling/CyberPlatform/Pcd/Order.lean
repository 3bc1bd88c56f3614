/-
**The order in which things happen.**

* `Move.kind` — the moves that start, complete, fork or signal something, and the others.
* `Ordered` — every success and every start of a process is preceded by the success of all rules on
  which it depends.
* `Forked` — a process is forked once, and signals go to pids that `fork` has returned.
-/

import CyberPlatform.Foundation.History
import CyberPlatform.Pcd.Daemon

namespace CyberPlatform.Pcd

open Foundation

/-! ### The kinds of moves -/

/-- A note that is neither about a rule nor a signal. -/
def Note.silent : Note → Bool
  | .cleanup _ | .reply .. | .unanswered _ | .free _ | .release .. => true
  | .success _ | .starting .. | .kill .. => false

/-- A move that does not complete a rule, let it pass its start condition, fork a process or signal
it. -/
structure Calm (s s' : State) : Prop where
  grows : Grows s s'
  log : ∃ notes, s'.log = s.log ++ notes ∧ ∀ n ∈ notes, n.silent
  states : ∀ r, (s'.rule r).ruleState = (s.rule r).ruleState ∨
    (s'.rule r).ruleState ≠ .completed ∧ (s'.rule r).ruleState ≠ .endConditionWaiting
  procs : ∀ a p', Assoc.find a s'.procList = some p' → ∃ p, Assoc.find a s.procList = some p ∧
    p'.rule = p.rule ∧ p'.pid = p.pid ∧ (p'.state = .runme → p.state = .runme) ∧
    (p'.state = .starting ∨ p'.state = .running → p.state = .starting ∨ p.state = .running)

namespace Calm

variable {s s' : State}

/-- The log and the processes stay as they are. -/
theorem of_rules (grows : Grows s s') (log : s'.log = s.log) (procs : s'.procList = s.procList)
    (states : ∀ r, (s'.rule r).ruleState = (s.rule r).ruleState ∨
      (s'.rule r).ruleState ≠ .completed ∧ (s'.rule r).ruleState ≠ .endConditionWaiting) :
    Calm s s' where
  grows := grows
  log := ⟨[], by rw [log, List.append_nil], fun _ absent => absurd absent List.not_mem_nil⟩
  states := states
  procs a p found := ⟨p, procs ▸ found, rfl, rfl, id, id⟩

/-- A rule is written. -/
theorem setRule {r : RuleRef} {x : Rule} (grows : Grows s (s.setRule r x))
    (state : x.ruleState = (s.rule r).ruleState ∨
      x.ruleState ≠ .completed ∧ x.ruleState ≠ .endConditionWaiting) :
    Calm s (s.setRule r x) := by
  refine of_rules grows rfl rfl fun r' => ?_
  rw [State.rule_setRule]
  split_ifs with here
  · rw [here]
    exact state
  · exact .inl rfl

/-- The state of a rule is written. -/
theorem setState {r : RuleRef} {ruleState : RuleState} (completed : ruleState ≠ .completed)
    (passed : ruleState ≠ .endConditionWaiting) : Calm s (s.setState r ruleState) :=
  setRule (.setState s r ruleState) (.inr ⟨completed, passed⟩)

/-- The timers are written. -/
theorem of_db (db : s'.db = s.db) (nextProc : s.nextProc ≤ s'.nextProc) (log : s'.log = s.log)
    (procs : s'.procList = s.procList) : Calm s s' :=
  of_rules (.of_db db nextProc (log ▸ List.prefix_rfl)) log procs fun r => .inl (by
    rw [State.rule, State.rule, db])

/-- A note that is neither about a rule nor a signal. -/
theorem note {n : Note} (silent : n.silent) : Calm s (s.note n) where
  grows := .of_db rfl le_rfl (List.prefix_append _ _)
  log := ⟨[n], rfl, fun _ member => List.mem_singleton.mp member ▸ silent⟩
  states _ := .inl rfl
  procs _ p found := ⟨p, found, rfl, rfl, id, id⟩

/-- A process object is rewritten. -/
theorem setProc {a : ProcRef} {p p' : Proc} (found : Assoc.find a s.procList = some p)
    (rule : p'.rule = p.rule) (pid : p'.pid = p.pid) (begun : p'.state = .runme → p.state = .runme)
    (up : p'.state = .starting ∨ p'.state = .running → p.state = .starting ∨ p.state = .running) :
    Calm s (s.setProc a p') where
  grows := .of_db rfl le_rfl List.prefix_rfl
  log := ⟨[], (List.append_nil _).symm, fun _ absent => absurd absent List.not_mem_nil⟩
  states _ := .inl rfl
  procs a' q there := by
    rw [show Assoc.find a' (s.setProc a p').procList = _ from Assoc.find_put, found] at there
    split_ifs at there with here
    · subst here
      obtain rfl := Option.some.inj there
      exact ⟨p, found, rule, pid, begun, up⟩
    · exact ⟨q, there, rfl, rfl, id, id⟩

/-- A process object is taken out of the list. -/
theorem drop (a : ProcRef) : Calm s { s with procList := Assoc.drop a s.procList } where
  grows := .of_db rfl le_rfl List.prefix_rfl
  log := ⟨[], (List.append_nil _).symm, fun _ absent => absurd absent List.not_mem_nil⟩
  states _ := .inl rfl
  procs a' q there := by
    rw [Assoc.find_drop] at there
    split_ifs at there
    exact ⟨q, there, rfl, rfl, id, id⟩

theorem trans {s'' : State} (first : Calm s s') (second : Calm s' s'') : Calm s s'' where
  grows := first.grows.trans second.grows
  log := by
    obtain ⟨notes, log, silent⟩ := first.log
    obtain ⟨notes', log', silent'⟩ := second.log
    refine ⟨notes ++ notes', by rw [log', log, List.append_assoc], fun n member => ?_⟩
    exact (List.mem_append.mp member).elim (silent n) (silent' n)
  states r := by
    rcases second.states r with same | left
    · rw [same]
      exact first.states r
    · exact .inr left
  procs a q there := by
    obtain ⟨p, there, rule, pid, begun, up⟩ := second.procs a q there
    obtain ⟨o, there, rule', pid', begun', up'⟩ := first.procs a p there
    exact ⟨o, there, rule.trans rule', pid.trans pid', begun' ∘ begun, up' ∘ up⟩

/-- A process object is freed. -/
theorem release (a : ProcRef) (p : Proc) (s : State) : Calm s (release a p s) :=
  (drop a).trans (note rfl)

/-- A message is answered, or its reply cannot be sent. -/
theorem answer (sent : Bool) (msg : Incoming) (retval : Status) (ruleState : Option ApiRuleState)
    (s : State) : Calm s (answer sent msg retval ruleState s) := by
  have silent : (replyNote sent msg retval ruleState).silent := by cases sent <;> rfl
  exact (note silent).trans (note rfl)

/-- A process is stopped. -/
theorem halt {r : RuleRef} {a : ProcRef} {p : Proc} (found : Assoc.find a s.procList = some p)
    (brutal : Bool) (cookie : Option Incoming) : Calm s (halted r a p brutal cookie s) := by
  have stopped : Calm s (s.setProc a (p.stop brutal cookie)) := by
    refine setProc found rfl rfl (fun begun => ?_) fun up => ?_
    · cases brutal <;> cases begun
    · cases brutal <;> rcases up with up | up <;> cases up
  exact stopped.trans (setRule (.detach _ r) (.inl rfl))

/-- A search for a rule. -/
theorem lookup (inv : Invariant s) (ruleId : RuleId) :
    Calm s { s with db := (s.db.getRuleById ruleId).2 } := by
  refine of_rules (.lookup inv ruleId) rfl rfl fun r => ?_
  have lookup := RulesDb.getRuleById_lookup inv.db ruleId
  generalize (s.db.getRuleById ruleId).1 = out, (s.db.getRuleById ruleId).2 = db at *
  cases lookup with
  | found r stored named => exact .inl rfl
  | missing none untemplated => exact .inl rfl
  | made t groups unused serves longest =>
    by_cases here : r = s.db.size
    · subst here
      have idle : (RulesDb.instanceOf (s.db.memory t) ruleId.ruleName).ruleState = .idle :=
        (inv.templates t serves.indexed).1
      refine .inr ?_
      show (Function.update s.db.memory s.db.size _ s.db.size).ruleState ≠ _ ∧
        (Function.update s.db.memory s.db.size _ s.db.size).ruleState ≠ _
      rw [Function.update_self, idle]
      exact ⟨RuleState.noConfusion, RuleState.noConfusion⟩
    · exact .inl (congrArg Rule.ruleState (Function.update_of_ne here ..))

/-- A rule is enqueued. -/
theorem enqueue (s : State) (r : RuleRef) :
    Calm s (timerEnqueue r (s.setState r .startConditionWaiting)) :=
  (setState RuleState.noConfusion RuleState.noConfusion).trans (of_db rfl le_rfl rfl rfl)

/-- Some rules are enqueued. -/
theorem enqueued (rules : List RuleRef) :
    ∀ s : State, Calm s (rules.foldl enqueueHandleRound s) := by
  induction rules with
  | nil => exact fun s => of_db rfl le_rfl rfl rfl
  | cons r rest ih => exact fun s => (enqueue s r).trans (ih _)

end Calm

/-- **The kinds of moves.** -/
inductive Kind (s : State) : State → Prop
  | calm {s'} : Calm s s' → Kind s s'
  | pass (r : RuleRef) : (s.rule r).ruleState = .startConditionWaiting → DependenciesMet s r →
      Kind s (s.setState r .endConditionWaiting)
  | launch (r : RuleRef) : s.db.Regular r → (s.rule r).proc = none → DependenciesMet s r →
      Grows s (launched r s) → Kind s (launched r s)
  | complete (i : Nat) (obj : TimerObj) : s.timerObjs[i]? = some obj →
      (s.rule obj.rule).ruleState = .endConditionWaiting →
      Kind s (addToDequeueList i ((s.setState obj.rule .completed).note (.success obj.rule)))
  | fork (a : ProcRef) (p : Proc) (pid : Int) : Assoc.find a s.procList = some p →
      p.state = .runme → Kind s
        ((s.setProc a { p with pid, state := .starting, tm := 3 }).note (.starting a p.rule pid))
  | kill {s'} (a : ProcRef) (p : Proc) (sig : Int) : Assoc.find a s.procList = some p →
      0 < p.pid ∨ (p.state = .starting ∨ p.state = .running) ∧ (sig = sigusr1 ∨ sig = sigusr2) →
      Calm s s' → s'.log = s.log → Kind s (s'.note (.kill p.pid sig))

/-- **Every move is of one of these kinds.** -/
theorem Move.kind {clock : Bool} {s s' : State} (move : Move clock s s') (inv : Invariant s) :
    Kind s s' := by
  have quiet : ∀ failed state, (RuleState.dequeued failed state ≠ .completed ∨ state = .completed) ∧
      RuleState.dequeued failed state ≠ .endConditionWaiting := fun failed state => by
    cases failed <;> cases state <;> decide
  cases move with
  | lookup ruleId => exact .calm (.lookup inv ruleId)
  | params r optionalParams =>
    exact .calm (.setRule (.setRule ⟨rfl, rfl, rfl, rfl, rfl, rfl, rfl⟩ fun _ points _ => points)
      (.inl rfl))
  | ready r flag kind =>
    exact .calm (.setRule (.setRule ⟨rfl, rfl, rfl, rfl, rfl, rfl, rfl⟩ fun _ points _ => points)
      (.inl rfl))
  | enqueue r regular quiet free unlisted => exact .calm (.enqueue s r)
  | dequeue r failed there free =>
    have erased : Calm s { s with timerObjs := s.timerObjs.eraseP fun obj => obj.rule = r } :=
      .of_db rfl le_rfl rfl rfl
    refine .calm (erased.trans (.setRule (.setState _ r _) ?_))
    obtain ⟨completed | same, passed⟩ := quiet failed (s.rule r).ruleState
    · exact .inr ⟨completed, passed⟩
    · cases failed with
      | true => exact .inr ⟨RuleState.noConfusion, RuleState.noConfusion⟩
      | false =>
        refine .inl ?_
        show RuleState.dequeued false (s.rule r).ruleState = (s.rule r).ruleState
        rw [same]
        rfl
  | idle r free quiet => exact .calm (.setState RuleState.noConfusion RuleState.noConfusion)
  | stop r a p brutal points found => exact .calm (.halt found brutal none)
  | change a p p' found changes =>
    exact .calm (.setProc found changes.rule changes.pid (fun begun => absurd begun changes.begun)
      changes.up)
  | fork a p pid found runme => exact .fork a p pid found runme
  | kill a p p' sig found changes positive =>
    exact .kill a p sig found (.inl positive) (.setProc found changes.rule changes.pid
      (fun begun => absurd begun changes.begun) changes.up) rfl
  | signal a p sig found up user =>
    exact .kill a p sig found (.inr ⟨up, user⟩) (.of_db rfl le_rfl rfl rfl) rfl
  | disconnect r a points => exact .calm (.setRule (.detach s r) (.inl rfl))
  | cleanup pid => exact .calm (.note rfl)
  | remove a p free empty cookie => exact .calm (.release a p s)
  | tick tickCounter => exact .calm (.of_db rfl le_rfl rfl rfl)
  | cache r i ruleId found names stored named =>
    have move : Move true s _ := .cache r i ruleId found names stored named
    exact .calm (.setRule (move.grows inv) (.inl rfl))
  | miss r start => exact .calm (.setState RuleState.noConfusion RuleState.noConfusion)
  | pass r start met => exact .pass r start met
  | launch r regular start free met =>
    exact .launch r regular free met ((Move.launch r regular start free met).grows inv)
  | endCondition r condition waits =>
    exact .calm (.setRule (.setRule ⟨rfl, rfl, rfl, rfl, rfl, rfl, rfl⟩ fun _ points _ => points)
      (.inl rfl))
  | complete i obj there waits => exact .complete i obj there waits
  | giveUp i obj failed there waits =>
    have gaveUp : Calm s (s.setState obj.rule (if failed then .failed else .notCompleted)) := by
      cases failed with
      | true => exact .setState RuleState.noConfusion RuleState.noConfusion
      | false => exact .setState RuleState.noConfusion RuleState.noConfusion
    exact .calm (gaveUp.trans (.of_db rfl le_rfl rfl rfl))
  | discard i obj there quiet => exact .calm (.of_db rfl le_rfl rfl rfl)
  | count i timeout less => exact .calm (.of_db rfl le_rfl rfl rfl)
  | schedule r regular quiet free => exact .calm (.of_db rfl le_rfl rfl rfl)
  | sweep => exact .calm (.of_db rfl le_rfl rfl rfl)
  | enlist => exact .calm ((Calm.enqueued s.enqueueList s).trans (.of_db rfl le_rfl rfl rfl))

/-- **The moves with a message** are none of them. -/
theorem Deliver.calm {x y : Desk × State} (deliver : Deliver x y) : Calm x.2 y.2 := by
  cases deliver with
  | receive message => exact .of_db rfl le_rfl rfl rfl
  | respond sent msg retval ruleState => exact .answer sent msg retval ruleState _
  | hold r a p brutal msg points found => exact .halt found brutal (some msg)
  | settle sent a p msg free found kept answers =>
    exact (Calm.answer sent msg .ok none _).trans (.release a p _)
  | lose a p msg free holds kept quiet => exact .release a p _

theorem Step.kind {clock : Bool} {x y : Desk × State} (step : Step clock x y)
    (inv : Invariant x.2) : Kind x.2 y.2 := by
  cases step with
  | move move => exact move.kind inv
  | deliver deliver => exact .calm deliver.calm

/-! ### Rules in order -/

/-- A note that a rule has completed, or that its process has been started. -/
def Note.About (n : Note) (r : RuleRef) : Prop := n = .success r ∨ ∃ a pid, n = .starting a r pid

theorem Note.about_silent {n : Note} (silent : n.silent) (r : RuleRef) : ¬ n.About r := by
  rintro (rfl | ⟨a, pid, rfl⟩) <;> cases silent

/-- Before that, all rules on which a rule depends have completed. -/
def Printed (s : State) (before : List Note) (r : RuleRef) : Prop :=
  ∀ ruleId ∈ (s.rule r).startCondition.dependencies,
    ∃ q < s.db.size, (s.rule q).ruleId = ruleId ∧ .success q ∈ before

/-- What has been printed, has been printed later on. -/
theorem Printed.grows {s s' : State} {before before' : List Note} {r : RuleRef}
    (printed : Printed s before r) (grows : Grows s s') (stored : r < s.db.size)
    (more : before ⊆ before') : Printed s' before' r := by
  intro ruleId member
  rw [(grows.rules r stored).dependencies] at member
  obtain ⟨q, stored', named, done⟩ := printed ruleId member
  exact ⟨q, stored'.trans_le grows.size, (grows.rules q stored').ruleId.trans named, more done⟩

/-- What the log has to show in front of a note about a rule -/
def Preceded (s : State) (before : List Note) (n : Note) : Prop :=
  ∀ r, n.About r → r < s.db.size ∧ Printed s before r

/-- **The rules complete in order.** -/
structure Ordered (s : State) : Prop where
  backed : Backed (Preceded s) s.log
  completed : ∀ r, (s.rule r).ruleState = .completed → .success r ∈ s.log
  passed : ∀ r, (s.rule r).ruleState = .endConditionWaiting → Printed s s.log r
  procs : ∀ a p, Assoc.find a s.procList = some p → Printed s s.log p.rule

namespace Ordered

variable {s s' : State}

/-- A rule that waits is in the database. -/
theorem stored_of_waiting (inv : Invariant s) {r : RuleRef} (waits : (s.rule r).ruleState.waiting) :
    r < s.db.size := by
  obtain ⟨obj, member, rfl, _⟩ := inv.queued r waits
  exact (inv.timed obj member).stored

/-- The dependencies of a rule whose start condition holds. -/
theorem met (ordered : Ordered s) {r : RuleRef} (met : DependenciesMet s r) :
    Printed s s.log r := fun ruleId member => by
  obtain ⟨q, stored, named, done⟩ := met ruleId member
  exact ⟨q, stored, named, ordered.completed q done⟩

theorem backed_grows (ordered : Ordered s) (grows : Grows s s') : Backed (Preceded s') s.log :=
  ordered.backed.mono fun before n preceded r about => by
    obtain ⟨stored, printed⟩ := preceded r about
    exact ⟨stored.trans_le grows.size, printed.grows grows stored (List.Subset.refl _)⟩

/-- Moves that are not about the order. -/
theorem calm (ordered : Ordered s) (inv : Invariant s) (calm : Calm s s') : Ordered s' := by
  obtain ⟨notes, log, silent⟩ := calm.log
  have more : s.log ⊆ s'.log := calm.grows.log.subset
  refine ⟨?_, fun r done => ?_, fun r passed => ?_, fun a p' found => ?_⟩
  · rw [log]
    exact (ordered.backed_grows calm.grows).append fun n member before r about =>
      absurd about (Note.about_silent (silent n member) r)
  · rcases calm.states r with same | ⟨other, _⟩
    · exact more (ordered.completed r (same ▸ done))
    · exact absurd done other
  · rcases calm.states r with same | ⟨_, other⟩
    · have waits : (s.rule r).ruleState = .endConditionWaiting := same ▸ passed
      have stored := stored_of_waiting inv (r := r) (by rw [waits]; rfl)
      exact (ordered.passed r waits).grows calm.grows stored more
    · exact absurd passed other
  · obtain ⟨p, there, rule, _⟩ := calm.procs a p' found
    rw [rule]
    exact (ordered.procs a p there).grows calm.grows (inv.owned a p there).stored more

/-- A note behind the log. -/
theorem note (ordered : Ordered s) {n : Note} (preceded : Preceded s s.log n) :
    Ordered (s.note n) := by
  have more : s.log ⊆ (s.note n).log := List.subset_append_left _ _
  have kept : ∀ r, Printed s s.log r → Printed (s.note n) (s.note n).log r :=
    fun r printed ruleId member => by
      obtain ⟨q, stored, named, done⟩ := printed ruleId member
      exact ⟨q, stored, named, more done⟩
  exact ⟨Backed.concat ordered.backed preceded, fun r done => more (ordered.completed r done),
    fun r passed => kept r (ordered.passed r passed), fun a p found => kept p.rule
      (ordered.procs a p found)⟩

/-- A rule passes its start condition, and may get a process. -/
theorem pass (ordered : Ordered s) (inv : Invariant s) {r : RuleRef} (stored : r < s.db.size)
    (printed : Printed s s.log r) (grows : Grows s s') (log : s'.log = s.log)
    (states : ∀ q, q ≠ r → (s'.rule q).ruleState = (s.rule q).ruleState)
    (passed : (s'.rule r).ruleState = .endConditionWaiting)
    (procs : ∀ a p, Assoc.find a s'.procList = some p →
      p.rule = r ∨ Assoc.find a s.procList = some p) : Ordered s' := by
  have printed' : Printed s' s'.log r := printed.grows grows stored (log ▸ List.Subset.refl _)
  refine ⟨?_, fun q done => ?_, fun q waits => ?_, fun a p found => ?_⟩
  · rw [log]
    exact ordered.backed_grows grows
  · have other : q ≠ r := by
      rintro rfl
      exact absurd (passed.symm.trans done) RuleState.noConfusion
    rw [states q other] at done
    exact log ▸ ordered.completed q done
  · by_cases here : q = r
    · exact here ▸ printed'
    · rw [states q here] at waits
      have stored' := stored_of_waiting inv (r := q) (by rw [waits]; rfl)
      exact (ordered.passed q waits).grows grows stored' (log ▸ List.Subset.refl _)
  · rcases procs a p found with here | old
    · exact here ▸ printed'
    · exact (ordered.procs a p old).grows grows (inv.owned a p old).stored
        (log ▸ List.Subset.refl _)

/-- **Every kind of move keeps the order.** -/
theorem kind (ordered : Ordered s) (inv : Invariant s) (kind : Kind s s') : Ordered s' := by
  cases kind with
  | calm calm => exact ordered.calm inv calm
  | pass r start met =>
    have stored := stored_of_waiting inv (r := r) (by rw [start]; rfl)
    refine ordered.pass inv stored (ordered.met met) (.setState s r _) rfl (fun q other => ?_) ?_
      fun a p found => .inr found
    · rw [State.setState, State.rule_setRule_of_ne other]
    · rw [State.setState, State.rule_setRule_self]
  | launch r regular free met grows =>
    refine ordered.pass inv regular.stored (ordered.met met) grows rfl (fun q other => ?_) ?_
      fun a p found => ?_
    · exact congrArg Rule.ruleState (State.rule_setRule_of_ne other)
    · rw [launched, State.rule_setRule_self]
    · have found : Assoc.find a ((s.nextProc, processNew r) :: s.procList) = some p := found
      rw [Assoc.find_cons] at found
      split_ifs at found
      · exact .inl (congrArg Proc.rule (Option.some.inj found)).symm
      · exact .inr found
  | complete i obj there waits =>
    have stored := stored_of_waiting inv (r := obj.rule) (by rw [waits]; rfl)
    have noted : Ordered (s.note (.success obj.rule)) := ordered.note fun r about => by
      rcases about with same | ⟨_, _, same⟩
      · obtain rfl := Note.success.inj same
        exact ⟨stored, ordered.passed obj.rule waits⟩
      · cases same
    have rules : ∀ q, (addToDequeueList i ((s.setState obj.rule .completed).note
        (.success obj.rule))).rule q =
        if q = obj.rule then { s.rule obj.rule with ruleState := .completed } else s.rule q :=
      fun q => State.rule_setRule
    have grows : Grows (s.note (.success obj.rule)) (addToDequeueList i
        ((s.setState obj.rule .completed).note (.success obj.rule))) :=
      (Grows.setState (s.note (.success obj.rule)) obj.rule .completed).trans
        (.of_db rfl le_rfl List.prefix_rfl)
    refine ⟨noted.backed_grows grows, fun q done => ?_, fun q passed => ?_, fun a p found => ?_⟩
    · by_cases here : q = obj.rule
      · rw [here]
        exact List.mem_append_right _ List.mem_cons_self
      · rw [rules, if_neg here] at done
        exact noted.completed q done
    · rw [rules] at passed
      split_ifs at passed with here
      have stored' := stored_of_waiting inv (r := q) (by rw [passed]; rfl)
      exact (noted.passed q passed).grows grows stored' (List.Subset.refl _)
    · exact (noted.procs a p found).grows grows (inv.owned a p found).stored (List.Subset.refl _)
  | fork a p pid found runme =>
    have forked : Ordered (s.setProc a { p with pid, state := .starting, tm := 3 }) := by
      refine ⟨ordered.backed, ordered.completed, ordered.passed, fun a' q there => ?_⟩
      rw [show Assoc.find a' (s.setProc a _).procList = _ from Assoc.find_put, found] at there
      split_ifs at there
      · obtain rfl := Option.some.inj there
        exact ordered.procs a p found
      · exact ordered.procs a' q there
    refine forked.note fun r about => ?_
    rcases about with same | ⟨_, _, same⟩
    · cases same
    · obtain ⟨_, rfl, _⟩ := Note.starting.inj same
      exact ⟨(inv.owned a p found).stored, ordered.procs a p found⟩
  | kill a p sig found alive calm log =>
    refine (ordered.calm inv calm).note fun r about => ?_
    rcases about with same | ⟨_, _, same⟩ <;> cases same

/-- **Every run keeps the order.** -/
theorem steps {clock : Bool} {x y : Desk × State} (steps : Steps clock x y)
    (inv : Invariant x.2) (ordered : Ordered x.2) : Ordered y.2 := by
  induction steps with
  | refl => exact ordered
  | tail steps step ih => exact ih.kind (Steps.keeps steps inv) (step.kind (Steps.keeps steps inv))

end Ordered

/-! ### Processes that have been forked -/

/-- What the log has to show in front of a signal, and of the start of a process: `fork` has
returned the pid, or none has been forked for the object. A pid that is not positive, of a `fork`
that has failed, gets the signals only that a client may ask for. -/
def Forks (before : List Note) : Note → Prop
  | .kill pid sig => (∃ a r, .starting a r pid ∈ before) ∧
      (0 < pid ∨ sig = sigusr1 ∨ sig = sigusr2)
  | .starting a _ _ => ∀ r pid, .starting a r pid ∉ before
  | _ => True

/-- **Processes are forked before they are signaled**, and once. -/
structure Forked (s : State) : Prop where
  backed : Backed Forks s.log
  fresh : ∀ a r pid, .starting a r pid ∈ s.log → a < s.nextProc
  unforked : ∀ a p, Assoc.find a s.procList = some p → p.state = .runme →
    ∀ r pid, .starting a r pid ∉ s.log
  up : ∀ a p, Assoc.find a s.procList = some p →
    p.pid ≠ 0 ∨ p.state = .starting ∨ p.state = .running → .starting a p.rule p.pid ∈ s.log

namespace Forked

variable {s s' : State}

/-- Moves that do not fork or signal. -/
theorem of_procs (forked : Forked s) {notes : List Note} (log : s'.log = s.log ++ notes)
    (silent : ∀ n ∈ notes, (∀ a r pid, n ≠ .starting a r pid) ∧ ∀ pid sig, n ≠ .kill pid sig)
    (nextProc : s.nextProc ≤ s'.nextProc)
    (procs : ∀ a p', Assoc.find a s'.procList = some p' → ∃ p, Assoc.find a s.procList = some p ∧
      p'.rule = p.rule ∧ p'.pid = p.pid ∧ (p'.state = .runme → p.state = .runme) ∧
      (p'.state = .starting ∨ p'.state = .running → p.state = .starting ∨ p.state = .running)) :
    Forked s' := by
  have old : ∀ a r pid, .starting a r pid ∈ s'.log → .starting a r pid ∈ s.log := by
    intro a r pid member
    rw [log] at member
    exact (List.mem_append.mp member).resolve_right fun new => (silent _ new).1 a r pid rfl
  have more : s.log ⊆ s'.log := log ▸ List.subset_append_left _ _
  refine ⟨?_, fun a r pid member => ?_, fun a p' found begun r pid member => ?_,
    fun a p' found alive => ?_⟩
  · rw [log]
    refine forked.backed.append fun n member before => ?_
    obtain ⟨starting, kill⟩ := silent n member
    cases n with
    | starting a r pid => exact absurd rfl (starting a r pid)
    | kill pid sig => exact absurd rfl (kill pid sig)
    | _ => exact trivial
  · exact (forked.fresh a r pid (old a r pid member)).trans_le nextProc
  · obtain ⟨p, there, _, _, begun', _⟩ := procs a p' found
    exact forked.unforked a p there (begun' begun) r pid (old a r pid member)
  · obtain ⟨p, there, rule, pid, _, up⟩ := procs a p' found
    rw [rule, pid]
    rw [pid] at alive
    exact more (forked.up a p there (alive.imp_right up))

theorem calm (forked : Forked s) (calm : Calm s s') : Forked s' := by
  obtain ⟨notes, log, silent⟩ := calm.log
  refine forked.of_procs log (fun n member => ?_) calm.grows.nextProc calm.procs
  have quiet := silent n member
  constructor
  · rintro a r pid rfl
    cases quiet
  · rintro pid sig rfl
    cases quiet

/-- **Every kind of move** forks before it signals. -/
theorem kind (forked : Forked s) (inv : Invariant s) (kind : Kind s s') : Forked s' := by
  cases kind with
  | calm calm => exact forked.calm calm
  | pass r start met =>
    exact forked.of_procs (List.append_nil _).symm (fun _ absent => absurd absent List.not_mem_nil)
      le_rfl fun a p found => ⟨p, found, rfl, rfl, id, id⟩
  | complete i obj there waits =>
    have quiet : ∀ n ∈ [Note.success obj.rule],
        (∀ a r pid, n ≠ .starting a r pid) ∧ ∀ pid sig, n ≠ .kill pid sig := fun n member => by
      rw [List.mem_singleton.mp member]
      exact ⟨fun _ _ _ => Note.noConfusion, fun _ _ => Note.noConfusion⟩
    exact forked.of_procs rfl quiet le_rfl fun a p found => ⟨p, found, rfl, rfl, id, id⟩
  | launch r regular free met grows =>
    have others : ∀ a p, Assoc.find a (launched r s).procList = some p →
        a = s.nextProc ∧ p = processNew r ∨ Assoc.find a s.procList = some p := by
      intro a p found
      have found : Assoc.find a ((s.nextProc, processNew r) :: s.procList) = some p := found
      rw [Assoc.find_cons] at found
      split_ifs at found with here
      · exact .inl ⟨here.symm, (Option.some.inj found).symm⟩
      · exact .inr found
    refine ⟨forked.backed, fun a r' pid member => ?_, fun a p found begun r' pid member => ?_,
      fun a p found alive => ?_⟩
    · exact (forked.fresh a r' pid member).trans_le grows.nextProc
    · rcases others a p found with ⟨rfl, rfl⟩ | old
      · exact absurd (forked.fresh _ r' pid member) (lt_irrefl _)
      · exact forked.unforked a p old begun r' pid member
    · rcases others a p found with ⟨rfl, rfl⟩ | old
      · rcases alive with alive | alive | alive
        · exact absurd rfl alive
        · cases alive
        · cases alive
      · exact forked.up a p old alive
  | fork a p pid found runme =>
    have others : ∀ a' q, Assoc.find a' (Assoc.put a { p with pid, state := .starting, tm := 3 }
        s.procList) = some q → a' = a ∧ q = { p with pid, state := .starting, tm := 3 } ∨
          a' ≠ a ∧ Assoc.find a' s.procList = some q := by
      intro a' q there
      rw [Assoc.find_put, found] at there
      split_ifs at there with here
      · exact .inl ⟨here, (Option.some.inj there).symm⟩
      · exact .inr ⟨here, there⟩
    refine ⟨?_, fun a' r pid' member => ?_, fun a' q there begun r pid' member => ?_,
      fun a' q there alive => ?_⟩
    · exact forked.backed.concat (forked.unforked a p found runme)
    · rcases List.mem_append.mp member with old | new
      · exact forked.fresh a' r pid' old
      · obtain ⟨rfl, _⟩ := Note.starting.inj (List.mem_singleton.mp new)
        exact inv.fresh _ (List.mem_map.mpr ⟨_, Assoc.mem_of_find found, rfl⟩)
    · rcases others a' q there with ⟨rfl, rfl⟩ | ⟨differ, there⟩
      · cases begun
      · rcases List.mem_append.mp member with old | new
        · exact forked.unforked a' q there begun r pid' old
        · exact differ (Note.starting.inj (List.mem_singleton.mp new)).1
    · rcases others a' q there with ⟨rfl, rfl⟩ | ⟨_, there⟩
      · exact List.mem_append_right _ List.mem_cons_self
      · exact List.mem_append_left _ (forked.up a' q there alive)
  | @kill middle a p sig found alive calm log =>
    have kept := forked.calm calm
    have signaled : .starting a p.rule p.pid ∈ s.log :=
      forked.up a p found (alive.imp (fun positive => (Int.ne_of_lt positive).symm) And.left)
    have old : ∀ a' r pid, .starting a' r pid ∈ (middle.note (.kill p.pid sig)).log →
        .starting a' r pid ∈ s.log := by
      intro a' r pid member
      rcases List.mem_append.mp member with member | new
      · exact log ▸ member
      · cases List.mem_singleton.mp new
    refine ⟨?_, fun a' r pid member => ?_, fun a' q there begun r pid member => ?_,
      fun a' q there alive => List.mem_append_left _ (kept.up a' q there alive)⟩
    · exact kept.backed.concat ⟨⟨a, p.rule, log ▸ signaled⟩, alive.imp_right And.right⟩
    · exact kept.fresh a' r pid (log ▸ old a' r pid member)
    · exact kept.unforked a' q there begun r pid (log ▸ old a' r pid member)

/-- **Every run** forks before it signals. -/
theorem steps {clock : Bool} {x y : Desk × State} (steps : Steps clock x y)
    (inv : Invariant x.2) (forked : Forked x.2) : Forked y.2 := by
  induction steps with
  | refl => exact forked
  | tail steps step ih => exact ih.kind (Steps.keeps steps inv) (step.kind (Steps.keeps steps inv))

end Forked

/-! ### The runs of the daemon -/

section Runs

variable {rules : List Rule} {inbox : List Message} {s : State}

theorem Reached.ordered (reached : Reached rules inbox s) (config : Configuration rules) :
    Ordered s := by
  refine Ordered.steps reached.goes (invariant_loaded config)
    ⟨backed_nil, fun r done => ?_,
    fun r waits => ?_, fun _ _ absent => by cases absent⟩
  · rw [rule_loaded] at done
    rcases (stored_load rules).cases r with member | zero
    · rcases config.states _ member with idle | active
      · exact absurd (idle.symm.trans done) RuleState.noConfusion
      · exact absurd (active.symm.trans done) RuleState.noConfusion
    · rw [zero] at done
      cases done
  · exact absurd (by rw [waits]; rfl) (quiet_loaded config.toParsed r)

theorem Reached.forked (reached : Reached rules inbox s) (config : Configuration rules) :
    Forked s :=
  Forked.steps reached.goes (invariant_loaded config)
    ⟨backed_nil, fun _ _ _ absent =>
    absurd absent List.not_mem_nil, fun _ _ absent => (by cases absent), fun _ _ absent =>
    by cases absent⟩

end Runs

end CyberPlatform.Pcd
