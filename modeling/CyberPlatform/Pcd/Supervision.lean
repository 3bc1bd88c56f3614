/-
**The rules that are kept up.**

A rule for a daemon, whose failure action is to be restarted, is up or comes up in every state that
a run leads to: from its activation on it waits for its start condition, or it has a process that
has been forked or is to be, and of which the daemon knows how it goes. A `fork` that fails is not
noticed, so this is true only where none does.

* `Comes` — a rule is up, or comes up.
* `Due` — in the course of a round, it may also be a rule that is to be enqueued.
* `triggerAction_due` — whichever rule has failed, the failure actions keep it due.
* `mainRound_comes` — a round of the main loop keeps it up.
-/

import CyberPlatform.Pcd.Order

namespace CyberPlatform.Pcd

open Foundation

/-- A process has been forked unless it is still to be, the daemon has not signaled it, and knows
how it has ended if it has. -/
structure Proc.Healthy (p : Proc) : Prop where
  forked : p.state ≠ .runme → 0 < p.pid
  unsignaled : p.signaled = false
  told : p.state = .stopping ∨ p.state = .stopped → p.retstat ≠ .nothing

/-- A rule has a process, and the daemon knows how it goes. -/
def Alive (s : State) (r : RuleRef) : Prop :=
  ∃ a p, (s.rule r).proc = some a ∧ Assoc.find a s.procList = some p ∧ p.Healthy

/-- **A rule is up, or comes up.** -/
inductive Comes (s : State) (r : RuleRef) : Prop
  | waits : (s.rule r).ruleState = .startConditionWaiting → Comes s r
  | up : (s.rule r).ruleState = .endConditionWaiting ∨ (s.rule r).ruleState = .completed →
      Alive s r → Comes s r

/-- A rule is up, comes up, or is to be enqueued. -/
def Due (s : State) (r : RuleRef) : Prop := r ∈ s.enqueueList ∨ Comes s r

/-- **A rule that is to be kept up**: it is for a daemon that is to be restarted, it has a command,
and the rules that it waits for are there. -/
structure Supervised (s : State) (r : RuleRef) : Prop where
  stored : r < s.db.size
  daemon : (s.rule r).daemon = true
  restart : (s.rule r).failureAction = .restart
  command : ∀ command, (s.rule r).command = some command → strcmp command "NONE".toList ≠ 0
  known : ∀ ruleId ∈ (s.rule r).startCondition.dependencies,
    ∃ q < s.db.size, (s.rule q).ruleId = ruleId

section Frames

variable {s s' : State} {r q : RuleRef} {a : ProcRef} {p p' : Proc}

theorem Supervised.grows (supervised : Supervised s r) (grows : Grows s s') : Supervised s' r := by
  obtain ⟨stored, daemon, restart, command, known⟩ := supervised
  have lasts := grows.rules r stored
  refine ⟨stored.trans_le grows.size, lasts.daemon.trans daemon, lasts.failureAction.trans restart,
    fun c same => command c (lasts.command.symm.trans same), fun ruleId member => ?_⟩
  rw [lasts.dependencies] at member
  obtain ⟨q, stored', named⟩ := known ruleId member
  exact ⟨q, stored'.trans_le grows.size, (grows.rules q stored').ruleId.trans named⟩

/-! ### What is not about a rule -/

/-- **A rule and its process are as they were**, and maybe more is to be enqueued. -/
structure Spares (r : RuleRef) (s s' : State) : Prop where
  ruleState : (s'.rule r).ruleState = (s.rule r).ruleState
  proc : (s'.rule r).proc = (s.rule r).proc
  process : ∀ a, (s.rule r).proc = some a → Assoc.find a s'.procList = Assoc.find a s.procList
  listed : s.enqueueList ⊆ s'.enqueueList

theorem Spares.comes (spares : Spares r s s') (comes : Comes s r) : Comes s' r := by
  cases comes with
  | waits state => exact .waits (spares.ruleState.trans state)
  | up state alive =>
    obtain ⟨a, p, points, found, healthy⟩ := alive
    rw [← spares.ruleState] at state
    exact .up state
      ⟨a, p, spares.proc.trans points, (spares.process a points).trans found, healthy⟩

theorem Spares.due (spares : Spares r s s') (due : Due s r) : Due s' r :=
  due.imp (fun member => spares.listed member) spares.comes

/-- The rules are as they were, and so are the processes. -/
theorem Comes.of_eq (comes : Comes s r) (db : s'.db = s.db) (procList : s'.procList = s.procList) :
    Comes s' r := by
  have same : s'.rule r = s.rule r := by rw [State.rule, db, State.rule]
  cases comes with
  | waits state => exact .waits (same ▸ state)
  | up state alive =>
    obtain ⟨a, p, points, found, healthy⟩ := alive
    exact .up (same ▸ state) ⟨a, p, same ▸ points, procList ▸ found, healthy⟩

theorem Due.of_eq (due : Due s r) (db : s'.db = s.db) (procList : s'.procList = s.procList)
    (listed : s.enqueueList ⊆ s'.enqueueList) : Due s' r :=
  due.imp (fun member => listed member) fun comes => comes.of_eq db procList

/-- Another rule is written. -/
theorem spares_setRule {x : Rule} (other : r ≠ q) : Spares r s (s.setRule q x) := by
  have same : (s.setRule q x).rule r = s.rule r := State.rule_setRule_of_ne other
  exact ⟨by rw [same], by rw [same], fun _ _ => rfl, List.Subset.refl _⟩

/-- A rule is written, and keeps its state and its process. -/
theorem Due.retouch {x : Rule} (due : Due s r) (ruleState : x.ruleState = (s.rule q).ruleState)
    (proc : x.proc = (s.rule q).proc) : Due (s.setRule q x) r := by
  refine Spares.due (s := s) ?_ due
  by_cases here : r = q
  · subst here
    exact ⟨by rw [State.rule_setRule_self, ruleState], by rw [State.rule_setRule_self, proc],
      fun _ _ => rfl, List.Subset.refl _⟩
  · exact spares_setRule here

/-- A search for a rule. -/
theorem spares_lookup (inv : Invariant s) (stored : r < s.db.size) (ruleId : RuleId) :
    Spares r s { s with db := (s.db.getRuleById ruleId).2 } := by
  obtain ⟨_, old, _⟩ := extends_lookup inv.db ruleId
  have same : State.rule { s with db := (s.db.getRuleById ruleId).2 } r = s.rule r := old r stored
  exact ⟨by rw [same], by rw [same], fun _ _ => rfl, List.Subset.refl _⟩

/-- A process is written, and stays healthy if it is the one of the rule. -/
theorem Due.setProc (due : Due s r) (found : Assoc.find a s.procList = some p)
    (healthy : (s.rule r).proc = some a → p.Healthy → p'.Healthy) : Due (s.setProc a p') r := by
  refine due.imp_right fun comes => ?_
  cases comes with
  | waits state => exact .waits state
  | up state alive =>
    obtain ⟨a', q, points, found', healthy'⟩ := alive
    by_cases here : a' = a
    · subst here
      obtain rfl := Option.some.inj (found.symm.trans found')
      refine .up state ⟨a', p', points, ?_, healthy points healthy'⟩
      exact Assoc.find_put.trans (by rw [if_pos rfl, found]; rfl)
    · exact .up state ⟨a', q, points, Assoc.find_put.trans ((if_neg here).trans found'), healthy'⟩

/-- The object of another process is freed. -/
theorem Due.drop (due : Due s r) (other : (s.rule r).proc ≠ some a) :
    Due { s with procList := Assoc.drop a s.procList } r := by
  refine Spares.due (s := s) ⟨rfl, rfl, fun a' points => ?_, List.Subset.refl _⟩ due
  refine Assoc.find_drop.trans (if_neg ?_)
  rintro rfl
  exact other points

/-- **The children that have changed** do not take a process from a rule, as they tell how they have
ended. -/
theorem due_chldHandler {children : List Child}
    (reported : ∀ child ∈ children, child.status ≠ .other)
    (inv : Invariant s) (due : Due s r) : Due (chldHandler children s) r := by
  induction children generalizing s with
  | nil => exact due
  | cons child children ih =>
    obtain ⟨here, others⟩ := List.forall_mem_cons.mp reported
    have moves : Moves false s (processChld s child) := chldHandler_made [child] inv
    have first : Invariant (processChld s child) := moves.keeps inv
    refine ih others first ?_
    unfold processChld
    split
    next => exact due
    next a p known =>
      have found := Assoc.find_of_mem inv.keys (List.mem_of_find?_eq_some known)
      refine due.setProc found fun _ healthy => ?_
      have pid : p.pid = child.pid := by simpa using List.find?_some known
      have positive : 0 < p.pid := pid ▸ child.positive
      cases status : child.status with
      | exited _ => exact ⟨fun _ => positive, healthy.unsignaled, fun _ => ProcExit.noConfusion⟩
      | signaled _ => exact ⟨fun _ => positive, healthy.unsignaled, fun _ => ProcExit.noConfusion⟩
      | stopped _ => exact ⟨fun _ => positive, healthy.unsignaled, fun _ => ProcExit.noConfusion⟩
      | other => exact absurd status here

end Frames

/-! ### Failure actions -/

section Actions

variable {s : State} {r q : RuleRef}

/-- The process of another rule has been stopped, if there was one. -/
theorem spares_stopIfAny {s' : State} (inv : Invariant s) (stay : TimersStay s s')
    (rules : ∀ r', s'.rule r' = if r' = q then { s.rule q with proc := none } else s.rule r')
    (procs : ∀ a, (s.rule q).proc ≠ some a → Assoc.find a s'.procList = Assoc.find a s.procList)
    (other : r ≠ q) : Spares r s s' := by
  have same : s'.rule r = s.rule r := (rules r).trans (if_neg other)
  refine ⟨by rw [same], by rw [same], fun a points => procs a fun points' => ?_,
    stay.enqueueList ▸ List.Subset.refl _⟩
  obtain ⟨p, found, back, _⟩ := inv.attached r a points
  obtain ⟨p', found', back', _⟩ := inv.attached q a points'
  obtain rfl := Option.some.inj (found.symm.trans found')
  exact other (back.symm.trans back')

theorem failureActionRestart_due (inv : Invariant s) (due : q ≠ r → Due s r) :
    Returns (failureActionRestart q s) fun out => Due out.2 r ∨ out.1 = some r := by
  obtain ⟨status, s', ran, _, stay, _, rules, procs⟩ := stopIfAny_made inv (r := q) true false
  rw [show failureActionRestart q s = _ from ran fun out => .ok (some q, out.2)]
  by_cases here : r = q
  · exact .inr (congrArg some here.symm)
  · exact .inl ((spares_stopIfAny inv stay rules procs here).due (due (Ne.symm here)))

/-- **A failure action keeps a rule due**, or gives it. -/
theorem failureAction_due (inv : Invariant s) (supervised : Supervised s r)
    (due : q ≠ r → Due s r) :
    Returns (failureAction q s) fun out => Due out.2 r ∨ out.1 = some r := by
  unfold failureAction
  have other : (s.rule q).failureAction ≠ .restart → q ≠ r := by
    rintro differs rfl
    exact differs supervised.restart
  split
  next action => exact .inl (due (other (action ▸ FailureAction.noConfusion)))
  next => trivial
  next => exact failureActionRestart_due inv due
  next ruleId action =>
    have due := due (other (action ▸ FailureAction.noConfusion))
    have inv' : Invariant { s with db := (s.db.getRuleById ruleId).2 } := inv.lookup ruleId
    have due' := (spares_lookup inv supervised.stored ruleId).due due
    unfold failureActionExecRule
    generalize (s.db.getRuleById ruleId) = found at inv' due' ⊢
    obtain ⟨out, db⟩ := found
    dsimp only at inv' due' ⊢
    cases out with
    | none => exact .inl due'
    | some execRule =>
      dsimp only
      split_ifs with waits
      · exact .inl due'
      · exact failureActionRestart_due inv' fun _ => due'

/-- A rule is enqueued, which may be this one. -/
theorem due_timerEnqueue (due : q ≠ r → Due s r) :
    Due (timerEnqueue q (s.setState q .startConditionWaiting)) r := by
  by_cases here : r = q
  · subst here
    refine .inr (.waits ?_)
    show ((s.setState r .startConditionWaiting).rule r).ruleState = _
    rw [State.setState, State.rule_setRule_self]
  · have written : Due (s.setState q .startConditionWaiting) r :=
      (spares_setRule here).due (due (Ne.symm here))
    exact written.of_eq rfl rfl (List.Subset.refl _)

theorem Due.enqueueRule (due : Due s r) (q : RuleRef) : Due (enqueueRule q s).2 r := by
  unfold Pcd.enqueueRule
  split_ifs
  · exact due
  · exact due_timerEnqueue fun _ => due

/-- The timer object of another rule is taken away. -/
theorem dequeueRule_due (inv : Invariant s) (failed : Bool) (other : r ≠ q) (due : Due s r) :
    Returns (dequeueRule q failed s) fun out => Due out.2 r := by
  unfold dequeueRule
  by_cases there : s.timerObjs.any fun obj => obj.rule = q
  · obtain ⟨status, s', ran, _, stay, _, rules, procs⟩ := stopIfAny_made inv (r := q) false false
    rw [if_pos there, ran]
    refine (spares_setRule other).due ?_
    exact ((spares_stopIfAny inv stay rules procs other).due due).of_eq rfl rfl (List.Subset.refl _)
  · rw [if_neg there]
    exact due

/-- **Whichever rule has failed**, its failure action keeps a rule due. -/
theorem triggerAction_due (inv : Invariant s) (regular : s.db.Regular q)
    (supervised : Supervised s r) (due : q ≠ r → Due s r) :
    Returns (triggerAction q s) fun out => Due out.2 r := by
  obtain ⟨status, s', ran, dequeued, procs, quiet, _⟩ := dequeueRule_made inv (r := q) true
  have due' : q ≠ r → Due s' r := fun other =>
    (dequeueRule_due inv true (Ne.symm other) (due other)).of_ok ran
  have grows := dequeued.grows inv
  have regular' : s'.db.Regular q :=
    ⟨regular.stored.trans_le grows.size,
      (grows.rules q regular.stored).indexed.trans regular.plain⟩
  have action : Ensures (Reboots s') (failureAction q s') (ActionMade false s') :=
    failureAction_made (dequeued.keeps inv) regular' quiet
  have acted := action.and
    (failureAction_due (dequeued.keeps inv) (supervised.grows grows) due')
  unfold triggerAction
  rw [ran, ok_bind]
  refine acted.bind fun out made => ?_
  obtain ⟨tmpRule, last⟩ := out
  obtain ⟨made, due''⟩ := made
  cases tmpRule with
  | none => exact due''.resolve_right (Option.some_ne_none r).symm
  | some tmpRule =>
    have fits := made.enqueueable tmpRule rfl
    dsimp only
    rw [enqueueRule_of fits.quiet fits.free]
    exact due_timerEnqueue fun other => due''.resolve_right fun same => other (Option.some.inj same)

end Actions

/-! ### Processes -/

section Processes

variable {s : State} {r : RuleRef} {a : ProcRef} {p : Proc} {inbox : List Message}

/-- No process is still to be forked. -/
def Begun (s : State) : Prop := ∀ a p, Assoc.find a s.procList = some p → p.state ≠ .runme

/-- Only the timers make processes. -/
theorem Move.nextProc {s' : State} (move : Move false s s') : s'.nextProc = s.nextProc := by
  cases move <;> rfl

theorem Step.runme {x y : Desk × State} (step : Step false x y) (inv : Invariant x.2) {p' : Proc}
    (found : Assoc.find a y.2.procList = some p') (runme : p'.state = .runme) :
    ∃ p, Assoc.find a x.2.procList = some p ∧ p.state = .runme := by
  have calm : ∀ {s s' : State}, Calm s s' → Assoc.find a s'.procList = some p' →
      ∃ p, Assoc.find a s.procList = some p ∧ p.state = .runme := fun calm found => by
    obtain ⟨p, there, _, _, back, _⟩ := calm.procs a p' found
    exact ⟨p, there, back runme⟩
  cases step with
  | deliver deliver => exact calm deliver.calm found
  | move move =>
    cases move.kind inv with
    | calm calm' => exact calm calm' found
    | pass r start met => exact ⟨p', found, runme⟩
    | launch r regular free met grows => exact absurd move.nextProc (Nat.succ_ne_self _)
    | complete i obj there waits => exact ⟨p', found, runme⟩
    | fork a' p pid there begins =>
      rw [show
        Assoc.find a ((State.setProc _ a' _).note _).procList = _ from Assoc.find_put] at found
      split_ifs at found with here
      · rw [there] at found
        obtain rfl := Option.some.inj found
        cases runme
      · exact ⟨p', found, runme⟩
    | kill a' p sig there alive calm' log => exact calm calm' found

/-- **A process that has begun stays so**, but for the timers. -/
theorem Steps.runme {x y : Desk × State} (steps : Steps false x y) (inv : Invariant x.2) {p' : Proc}
    (found : Assoc.find a y.2.procList = some p') (runme : p'.state = .runme) :
    ∃ p, Assoc.find a x.2.procList = some p ∧ p.state = .runme := by
  induction steps generalizing p' with
  | refl => exact ⟨p', found, runme⟩
  | tail steps step ih =>
    obtain ⟨p, there, runme'⟩ := step.runme (Steps.keeps steps inv) found runme
    exact ih there runme'

theorem Goes.begun {inbox' : List Message} {s' : State} (goes : Goes false inbox s inbox' s')
    (inv : Invariant s) (begun : Begun s) : Begun s' := fun _ _ found runme => by
  obtain ⟨p, there, runme'⟩ := Steps.runme goes inv found runme
  exact begun _ p there runme'

/-- The visit of a process that is started keeps a rule due, and the process has begun. -/
theorem startVisit_due (env : Env) (forks : 0 < env.fork) (due : Due s r) :
    Returns (startVisit env s a) fun s' => Due s' r ∧
      ∀ p', Assoc.find a s'.procList = some p' → p'.state ≠ .runme := by
  unfold startVisit
  cases found : Assoc.find a s.procList with
  | none =>
    rw [State.getProc, found]
    trivial
  | some p =>
    rw [State.getProc_of_find found, ok_bind]
    have written : ∀ p', Assoc.find a (s.setProc a p').procList = some p' := fun p' =>
      Assoc.find_put.trans (by rw [if_pos rfl, found]; rfl)
    have same : ∀ p' q, Assoc.find a (s.setProc a p').procList = some q → q = p' :=
      fun p' q there => Option.some.inj (there.symm.trans (written p'))
    cases state : p.state with
    | runme =>
      refine ⟨?_, fun p' there => same _ p' there ▸ ProcState.noConfusion⟩
      have forked : ∀ p', p' = { p with pid := env.fork, state := .starting, tm := 3 } →
          p.Healthy → p'.Healthy := by
        rintro p' rfl healthy
        exact ⟨fun _ => forks, healthy.unsignaled,
          fun down => by rcases down with down | down <;> cases down⟩
      exact (due.setProc found fun _ => forked _ rfl).of_eq rfl rfl (List.Subset.refl _)
    | starting =>
      have begun : p.state ≠ .runme := state ▸ ProcState.noConfusion
      dsimp only
      split_ifs
      · refine ⟨due.setProc found fun _ healthy =>
          ⟨fun _ => healthy.forked begun, healthy.unsignaled, ?_⟩,
          fun p' there => same _ p' there ▸ ProcState.noConfusion⟩
        rintro (down | down) <;> cases down
      · refine ⟨due.setProc found fun _ healthy =>
          ⟨fun _ => healthy.forked begun, healthy.unsignaled, ?_⟩,
          fun p' there => same _ p' there ▸ ProcState.noConfusion⟩
        rintro (down | down) <;> cases down
    | _ =>
      refine ⟨due, fun p' there runme => ?_⟩
      rw [found] at there
      obtain rfl := Option.some.inj there
      exact absurd (state.symm.trans runme) ProcState.noConfusion

/-- The children of a world tell how they have ended. -/
def Told (env : Env) : Prop := ∀ child ∈ env.children, child.status ≠ .other

/-- **The processes are started**, and a rule is kept due. -/
theorem iterateStart_due {envs : Nat → Env} (told : ∀ i, Told (envs i))
    (forks : ∀ i, 0 < (envs i).fork) (inv : Invariant s) (due : Due s r) :
    Ensures (Reboots s) (iterateStart envs s) fun s' => Moves false s s' ∧ Due s' r ∧ Begun s' := by
  have loop : Ensures (Reboots s) (iterateStart envs s) fun s' => (Moves false s s' ∧
      s'.procList.map Prod.fst = s.procList.map Prod.fst ∧ Due s' r) ∧
      ∀ visit ∈ (s.procList.map Prod.fst).zipIdx, ∀ p,
        Assoc.find visit.1 s'.procList = some p → p.state ≠ .runme := by
    refine Ensures.foldlM_from (I := fun (done : List (ProcRef × Nat)) s' => (Moves false s s' ∧
      s'.procList.map Prod.fst = s.procList.map Prod.fst ∧ Due s' r) ∧
      ∀ visit ∈ done, ∀ p, Assoc.find visit.1 s'.procList = some p → p.state ≠ .runme)
      (fun done visit rest split s' kept => ?_)
      ⟨⟨.refl, rfl, due⟩, fun _ absent => absurd absent List.not_mem_nil⟩
    obtain ⟨⟨moves, keys, due'⟩, begun⟩ := kept
    have inv' := Moves.keeps moves inv
    have changed : Moves false s' (chldHandler (envs visit.2).children s') :=
      chldHandler_made _ inv'
    have moves' : Moves false s (chldHandler (envs visit.2).children s') := moves.trans changed
    have keys' := (keys_chldHandler (envs visit.2).children).trans keys
    have member : visit ∈ (s.procList.map Prod.fst).zipIdx := by
      rw [split]
      exact List.mem_append_right _ List.mem_cons_self
    have there : visit.1 ∈ s.procList.map Prod.fst := List.fst_mem_of_mem_zipIdx member
    have visited := (startVisit_due (a := visit.1) (envs visit.2) (forks visit.2)
      (due_chldHandler (told visit.2) inv' due')).and (startVisit_made (envs visit.2)
        (Moves.keeps moves' inv) (keys' ▸ there))
    refine (moves'.grows inv).since (visited.mono fun last made => ?_)
    obtain ⟨⟨due'', begun'⟩, more, keys''⟩ := made
    refine ⟨⟨moves'.trans more, keys''.trans keys', due''⟩, fun visit' member' p found runme => ?_⟩
    rcases List.mem_append.mp member' with old | new
    · obtain ⟨p', there', runme'⟩ :=
        Steps.runme (Moves.steps (changed.trans more) ⟨[], none⟩) inv' found runme
      exact begun visit' old p' there' runme'
    · rw [List.mem_singleton.mp new] at found
      exact begun' p found runme
  refine loop.mono fun s' made => ⟨made.1.1, made.1.2.2, fun a p found => ?_⟩
  have there : a ∈ s.procList.map Prod.fst := by
    rw [← made.1.2.1]
    exact List.mem_map.mpr ⟨_, Assoc.mem_of_find found, rfl⟩
  obtain ⟨i, here⟩ := List.mem_iff_getElem?.mp there
  exact made.2 (a, i) (List.mk_mem_zipIdx_iff_getElem?.mpr here) p found

/-- What is done for a process that has stopped keeps a rule due, or is the failure action of the
rule. -/
theorem stoppedAction_due (env : Env) (inv : Invariant s) (regular : s.db.Regular p.rule)
    (supervised : Supervised s r)
    (due : Due s r ∨ p.rule = r ∧ p.signaled = false ∧ p.retstat ≠ .nothing) :
    Returns (stoppedAction env p s) fun out => Due out.2 r := by
  have triggered : Returns (triggerAction p.rule s >>= fun out =>
      .ok (decide (out.1 ≠ .ok), out.2)) fun out => Due out.2 r :=
    (triggerAction_due inv regular supervised fun other =>
      due.resolve_right fun ended => other ended.1).bind fun out made => made
  have replied : Due s r → Returns (.ok (false, replyMessage env.alloc env.sent p.cookie .ok s))
      fun out => Due out.2 r := fun due => by
    cases p.cookie with
    | none => exact due
    | some msg => exact due.of_eq rfl rfl (List.Subset.refl _)
  unfold stoppedAction
  dsimp only
  cases retstat : p.retstat with
  | nothing => exact due.resolve_right fun ended => ended.2.2 retstat
  | exited =>
    dsimp only
    split_ifs with signaled failed
    · exact replied (due.resolve_right fun ended => by rw [ended.2.1] at signaled; cases signaled)
    · exact triggered
    · refine due.resolve_right fun ended => failed ?_
      rw [Proc.exitFailed, ended.1, supervised.daemon]
      rfl
  | signaled =>
    dsimp only
    split_ifs with signaled failed
    · exact replied (due.resolve_right fun ended => by rw [ended.2.1] at signaled; cases signaled)
    · exact triggered
    · refine due.resolve_right fun ended => failed ?_
      rw [ended.1]
      exact supervised.daemon
  | stopped => exact triggered

/-- **A rule whose process has stopped comes up again.** -/
theorem stoppedVisit_due (env : Env) (inv : Invariant s) (unlisted : s.enqueueList = [])
    (supervised : Supervised s r) (found : Assoc.find a s.procList = some p)
    (state : p.state = .stopped) (due : Due s r) :
    Returns (stoppedVisit env a p s) fun out => Due out.2 r := by
  obtain ⟨disconnected, procs, free⟩ := disconnect_made inv found
  have noted : Moves false s ((disconnect a p.rule s).note (.cleanup p.pid)) :=
    disconnected.tail (.cleanup p.pid)
  have due' : Due ((disconnect a p.rule s).note (.cleanup p.pid)) r ∨
      p.rule = r ∧ p.signaled = false ∧ p.retstat ≠ .nothing := by
    by_cases points : (s.rule r).proc = some a
    · refine .inr ?_
      obtain ⟨p', found', back, _⟩ := inv.attached r a points
      obtain rfl := Option.some.inj (found.symm.trans found')
      rcases due with listed | waits | ⟨_, a', q, points', found', healthy⟩
      · rw [unlisted] at listed
        cases listed
      · exact absurd ((inv.unstarted r waits).symm.trans points) (Option.some_ne_none a).symm
      · obtain rfl := Option.some.inj (points.symm.trans points')
        obtain rfl := Option.some.inj (found.symm.trans found')
        exact ⟨back, healthy.unsignaled, healthy.told (.inr state)⟩
    · refine .inl ?_
      unfold disconnect
      split_ifs with points'
      · have other : r ≠ p.rule := by
          rintro rfl
          exact points points'
        exact ((spares_setRule other).due due).of_eq rfl rfl (List.Subset.refl _)
      · exact due.of_eq rfl rfl (List.Subset.refl _)
  unfold stoppedVisit
  dsimp only
  set middle := (disconnect a p.rule s).note (.cleanup p.pid)
  have inv' : Invariant middle := noted.keeps inv
  have found' : Assoc.find a middle.procList = some p := procs.symm ▸ found
  have fresh : a < middle.nextProc :=
    inv'.fresh a (List.mem_map.mpr ⟨_, Assoc.mem_of_find found', rfl⟩)
  have acted := (stoppedAction_made env inv' (noted.enqueueList.trans unlisted)
    (inv'.owned a p found')).and (stoppedAction_due env inv' (inv'.owned a p found')
      (supervised.grows (noted.grows inv)) due')
  refine acted.bind fun out made => ?_
  obtain ⟨dealt, due''⟩ := made
  rw [dealt.once]
  refine (due''.drop (a := a) fun points => ?_).of_eq rfl rfl (List.Subset.refl _)
  rcases dealt.made with ⟨moves, _⟩ | ⟨sent, msg, _, _, answered⟩
  · exact free r ((moves.grows inv').attached r a points fresh)
  · rw [answered] at points
    exact free r points

/-- **The visit of a process keeps a rule due.** -/
theorem stopVisit_due (env : Env) (inv : Invariant s) (unlisted : s.enqueueList = [])
    (begun : Begun s) (supervised : Supervised s r) (due : Due s r) :
    Returns (stopVisit env a s) fun out => Due out.2 r := by
  unfold stopVisit
  cases found : Assoc.find a s.procList with
  | none =>
    rw [State.getProc, found]
    trivial
  | some p =>
    rw [State.getProc_of_find found, ok_bind]
    -- the process of a rule is one that can be stopped
    have other : p.state.stoppable = false → (s.rule r).proc ≠ some a := fun no points => by
      obtain ⟨p', found', _, yes, _⟩ := inv.attached r a points
      obtain rfl := Option.some.inj (found.symm.trans found')
      exact absurd (no.symm.trans yes) Bool.false_ne_true
    have written : p.state.stoppable = false → ∀ p', Due (s.setProc a p') r := fun no p' =>
      due.setProc found fun points => absurd points (other no)
    have noted : p.state.stoppable = false → ∀ p' n, Due ((s.setProc a p').note n) r :=
      fun no p' n => (written no p').of_eq rfl rfl (List.Subset.refl _)
    cases state : p.state with
    | stopping =>
      exact due.setProc found fun _ healthy => ⟨fun _ => healthy.forked (begun a p found),
        healthy.unsignaled, fun _ => healthy.told (.inl state)⟩
    | stopped => exact stoppedVisit_due env inv unlisted supervised found state due
    | termme =>
      have no : p.state.stoppable = false := by rw [state]; rfl
      dsimp only
      split_ifs
      · exact due
      · exact noted no _ _
      · exact noted no _ _
      · exact written no _
    | killme =>
      have no : p.state.stoppable = false := by rw [state]; rfl
      dsimp only
      split_ifs
      · exact noted no _ _
      · exact written no _
      · exact written no _
    | runme => exact absurd state (begun a p found)
    | nothing => exact due
    | starting => exact due
    | running => exact due

/-- **The loop over the processes keeps a rule due.** -/
theorem stopLoop_due {envs : Nat → Env} (told : ∀ i, Told (envs i)) :
    ∀ (fuel i : Nat) (rest : List ProcRef) {s : State}, Invariant s → s.enqueueList = [] →
      rest ⊆ s.procList.map Prod.fst → rest.Nodup → Begun s → Supervised s r → Due s r →
      Returns (stopLoop envs fuel i rest s) fun s' => Due s' r
  | _, _, [], s, _, _, _, _, _, _, due => by
    rw [stopLoop]
    exact due
  | 0, _, _ :: _, _, _, _, _, _, _, _, _ => by
    rw [stopLoop]
    trivial
  | fuel + 1, i, a :: rest, s, inv, unlisted, there, nodup, begun, supervised, due => by
    obtain ⟨apart, nodup⟩ := List.nodup_cons.mp nodup
    have changed : Moves false s (chldHandler (envs i).children s) := chldHandler_made _ inv
    have keys := keys_chldHandler (s := s) (envs i).children
    rw [← keys] at there
    obtain ⟨first, there⟩ := List.cons_subset.mp there
    have inv' := changed.keeps inv
    have unlisted' := changed.enqueueList.trans unlisted
    have begun' : Begun (chldHandler (envs i).children s) := (changed.goes []).begun inv begun
    have visit : Ensures (Reboots (chldHandler (envs i).children s)) _ (StopMade [] a _) :=
      stopVisit_made (envs i) inv' unlisted' first
    have visited := visit.and
      (stopVisit_due (envs i) inv' unlisted' begun' (supervised.grows (changed.grows inv))
        (due_chldHandler (told i) inv due))
    rw [stopLoop]
    refine visited.bind fun out made => ?_
    obtain ⟨again, middle⟩ := out
    obtain ⟨made, due'⟩ := made
    obtain rfl : again = false := made.once
    have goes : Goes false [] s [] middle := (changed.goes []).trans made.goes
    refine stopLoop_due told fuel (i + 1) rest (goes.keeps inv) (goes.enqueueList.trans unlisted)
      (fun a' member => ?_) nodup (goes.begun inv begun) (supervised.grows (goes.grows inv)) due'
    exact made.procs a' (there member) fun same => apart (same ▸ member)

end Processes

/-! ### Clients -/

/-- The rule whose process a client asks to be stopped -/
def Request.stops : Request → Option RuleId
  | .terminateProcessSync ruleId | .terminateProcess ruleId | .killProcess ruleId => some ruleId
  | _ => none

section Clients

variable {s : State} {r q : RuleRef}

/-- The process of another rule is stopped by a client. -/
theorem apiStop_due (inv : Invariant s) (brutal : Bool) (cookie : Option Incoming) (other : r ≠ q)
    (due : Due s r) : Returns (apiStop q brutal cookie s) fun out => Due out.2 r := by
  have cleared : Moves false s (setOptionalParams q none s) := .single (.params q none)
  have due' : Due (setOptionalParams q none s) r := (spares_setRule other).due due
  unfold apiStop
  set middle := setOptionalParams q none s
  have inv' : Invariant middle := cleared.keeps inv
  obtain ⟨status, s', ran, dequeued, _, quiet, result⟩ := dequeueRule_made inv' (r := q) false
  have due'' : Due s' r := (dequeueRule_due inv' false other due').of_ok ran
  dsimp only
  rw [ran, ok_bind]
  rcases result with rfl | ⟨rfl, rfl⟩
  · exact due''
  · dsimp only
    rw [if_pos rfl]
    cases points : (middle.rule q).proc with
    | none =>
      rw [processStop_of_none points]
      exact due''
    | some a =>
      obtain ⟨p, found, back, stoppable, _⟩ := inv'.attached q a points
      rw [processStop_of_some points found stoppable, ok_bind, if_pos rfl]
      have apart : (middle.rule r).proc ≠ some a := fun points' => by
        obtain ⟨p', found', back', _⟩ := inv'.attached r a points'
        obtain rfl := Option.some.inj (found.symm.trans found')
        exact other (back'.symm.trans back)
      have stopped : Due (middle.setProc a (p.stop brutal cookie)) r :=
        due''.setProc found fun points' => absurd points' apart
      exact (spares_setRule other).due ((spares_setRule other).due stopped)

/-- A request about a rule, behind the search for it. -/
theorem withRule_due {ruleId : RuleId}
    {request : RuleRef → State → Except Stop (Status × Option ApiRuleState × State)}
    (inv : Invariant s) (stored : r < s.db.size) (due : Due s r)
    (served : ∀ q s', Moves false s s' → q < s'.db.size → (s'.rule q).ruleId = ruleId → Due s' r →
      Returns (request q s') fun out => Due out.2.2 r) :
    Returns (withRule ruleId s request) fun out => Due out.2.2 r := by
  have searched : Moves false s { s with db := (s.db.getRuleById ruleId).2 } :=
    .single (.lookup ruleId)
  have due' := (spares_lookup inv stored ruleId).due due
  obtain ⟨_, _, names⟩ := extends_lookup inv.db ruleId
  unfold withRule
  rcases search : s.db.getRuleById ruleId with ⟨out, db⟩
  rw [search] at searched names due'
  cases out with
  | none => exact due'
  | some q =>
    obtain ⟨stored', named⟩ := names q rfl
    exact served q _ searched stored' named due'

theorem plain_due {request : State → Except Stop (Status × State)}
    (served : Returns (request s) fun out => Due out.2 r) :
    Returns (plain request s) fun out => Due out.2.2 r := served.bind fun _ made => made

/-- **The handling of a message keeps a rule due**, if the message does not ask to stop it. -/
theorem serve_due (inv : Invariant s) (msg : Incoming) (stored : r < s.db.size)
    (kept : msg.message.request.stops ≠ some (s.rule r).ruleId) (due : Due s r) :
    Returns (serve msg s) fun out => Due out.2.2 r := by
  -- a rule with another id is another rule
  have stop : ∀ {ruleId : RuleId} {brutal cookie}, msg.message.request.stops = some ruleId →
      Returns (withRule ruleId s fun rule => plain (apiStop rule brutal cookie))
        fun out => Due out.2.2 r := fun {ruleId} _ _ stops => by
    refine withRule_due inv stored due fun q s' searched stored' named due' => ?_
    refine plain_due (apiStop_due (searched.keeps inv) _ _ ?_ due')
    rintro rfl
    rw [((searched.grows inv).rules r stored).ruleId] at named
    exact kept (stops.trans (congrArg some named.symm))
  unfold serve
  cases request : msg.message.request with
  | processReady pid =>
    refine plain_due (?_ : Returns (.ok (apiProcessReady pid s)) _)
    unfold apiProcessReady
    cases getRuleByPid pid s with
    | none => exact due
    | some q =>
      dsimp only
      cases condition : (s.rule q).endCondition with
      | processReady flag => exact due.retouch rfl rfl
      | _ => exact due
  | netRxPriority done => exact due
  | startProcess ruleId params =>
    refine withRule_due inv stored due fun q s' searched stored' named due' => ?_
    have set : Due (if params = [] then s' else setOptionalParams q (some params) s') r := by
      split_ifs
      · exact due'
      · exact due'.retouch rfl rfl
    exact plain_due (set.enqueueRule q)
  | terminateProcessSync ruleId => exact stop (by rw [request]; rfl)
  | terminateProcess ruleId => exact stop (by rw [request]; rfl)
  | killProcess ruleId => exact stop (by rw [request]; rfl)
  | signalProcess ruleId sig =>
    refine withRule_due inv stored due fun q s' searched _ _ due' => plain_due ?_
    unfold apiSignal
    split_ifs
    · unfold processSignalByRule
      cases points : (s'.rule q).proc with
      | none => exact due'
      | some a =>
        obtain ⟨p, found, _⟩ := (searched.keeps inv).attached q a points
        dsimp only
        rw [State.getProc_of_find found, ok_bind]
        split_ifs with up
        · exact due'.of_eq rfl rfl (List.Subset.refl _)
        · exact due'
    · exact due'
  | getRuleState ruleId => exact withRule_due inv stored due fun q s' _ _ _ due' => due'
  | unknown ruleId => exact withRule_due inv stored due fun q s' _ _ _ due' => due'

end Clients

/-! ### Timers -/

section Timers

variable {s : State} {r q : RuleRef} {i : Nat} {obj : TimerObj}

theorem fetchRule_due {entry : RuleCache} (inv : Invariant s) (stored : r < s.db.size)
    (due : Due s r) : Due (fetchRule q i entry s).2 r := by
  unfold fetchRule
  split
  next => exact due
  next =>
    have due' := (spares_lookup inv stored entry.ruleId).due due
    exact due'.retouch rfl rfl

/-- A rule that is there is found. -/
theorem fetchRule_known {entry : RuleCache} (inv : Invariant s)
    (known : ∃ x < s.db.size, (s.rule x).ruleId = entry.ruleId) :
    (fetchRule q i entry s).1 ≠ none := by
  unfold fetchRule
  split
  next => exact Option.some_ne_none _
  next =>
    have lookup := RulesDb.getRuleById_lookup inv.db entry.ruleId
    dsimp only
    generalize (s.db.getRuleById entry.ruleId).1 = out,
      (s.db.getRuleById entry.ruleId).2 = db at lookup
    cases lookup with
    | found x stored named => exact Option.some_ne_none _
    | made t groups unused serves longest => exact Option.some_ne_none _
    | missing unused unserved =>
      obtain ⟨x, stored, named⟩ := known
      exact absurd named (unused x stored)

/-- **The check of the rules that a rule waits for keeps a rule due**, as the rules that it waits
for itself are there. -/
theorem checkRuleCompleted_due (entries : List RuleCache) : ∀ (i : Nat) {s : State}, Invariant s →
    q < s.db.size → r < s.db.size →
    (∀ k entry, entries[k]? = some entry →
      (s.rule q).startCondition.caches[i + k]? = some entry) →
    (q = r → ∀ ruleId ∈ (entries.map RuleCache.ruleId).takeWhile (·.groupName ≠ []),
      ∃ x < s.db.size, (s.rule x).ruleId = ruleId) →
    Due s r → Due (checkRuleCompleted q i entries s).2 r := by
  induction entries with
  | nil => exact fun _ _ _ _ _ _ _ due => due
  | cons entry rest ih =>
    intro i s inv stored stored' there known due
    rw [checkRuleCompleted]
    by_cases last : entry.ruleId.groupName = []
    · rw [if_pos last]
      exact due
    · rw [if_neg last]
      rw [List.map_cons, List.takeWhile_cons_of_pos (by simpa using last)] at known
      have fetched : Fetched q i entry s (fetchRule q i entry s) :=
        fetchRule_made inv.db stored (there 0 entry rfl)
          (inv.cached q stored entry (List.mem_of_getElem? (there 0 entry rfl)))
      have due' : Due (fetchRule q i entry s).2 r := fetchRule_due inv stored' due
      have found : q = r → (fetchRule q i entry s).1 ≠ none := fun same =>
        fetchRule_known inv (known same entry.ruleId List.mem_cons_self)
      generalize fetchRule q i entry s = out at fetched due' found ⊢
      obtain ⟨checkRule, middle⟩ := out
      dsimp only at due' found ⊢
      cases checkRule with
      | none => exact (spares_setRule fun same => found same.symm rfl).due due'
      | some checkRule =>
        dsimp only
        split_ifs
        · refine ih (i + 1) (fetched.moves.keeps inv) (stored.trans_le fetched.extends'.size)
            (stored'.trans_le fetched.extends'.size) (fun k next at' => ?_)
            (fun same ruleId member => ?_) due'
          · have place : i + 1 + k = i + (k + 1) := by omega
            rw [place, fetched.behind _ (by omega)]
            exact there (k + 1) next at'
          · obtain ⟨x, old, named⟩ := known same ruleId (List.mem_cons_of_mem _ member)
            exact ⟨x, old.trans_le fetched.extends'.size,
              (fetched.extends'.ruleId x old).trans named⟩
        · exact due'

theorem startCondCheck_due (env : Env) (inv : Invariant s) (stored : q < s.db.size)
    (supervised : Supervised s r) (due : Due s r) : Due (startCondCheck env q s).2 r := by
  unfold startCondCheck
  cases condition : (s.rule q).startCondition with
  | ruleCompleted ids =>
    refine checkRuleCompleted_due (ids.take startCondMaxIds) 0 inv stored supervised.stored
      (fun k entry at' => ?_) (fun same ruleId member => ?_) due
    · rw [condition, Nat.zero_add]
      rw [List.getElem?_take] at at'
      split_ifs at at'
      exact at'
    · refine supervised.known ruleId ?_
      rw [← same, condition, StartCond.dependencies, ← List.map_take]
      exact member
  | _ => exact due

/-- A rule is given up, and its failure action is performed. -/
theorem giveUp_due (inv : Invariant s) (supervised : Supervised s r) (failed flag : Bool)
    (there : s.timerObjs[i]? = some obj) (waits : (s.rule obj.rule).ruleState.waiting)
    (due : obj.rule ≠ r → Due s r) :
    Returns (failureAction obj.rule (addToDequeueList i
        (s.setState obj.rule (if failed then .failed else .notCompleted))) >>= fun out =>
      .ok (flag, addToEnqueueList out.1 out.2)) fun out => Due out.2 r := by
  have gaveUp : Move true s _ := .giveUp i obj failed there waits
  refine (failureAction_due (gaveUp.keeps inv) (supervised.grows (gaveUp.grows inv)) fun other =>
    ((spares_setRule (Ne.symm other)).due (due other)).of_eq rfl rfl (List.Subset.refl _)).bind
      fun out made => ?_
  obtain ⟨execRule, last⟩ := out
  cases execRule with
  | none => exact made.resolve_right (Option.some_ne_none r).symm
  | some execRule =>
    rcases made with due | same
    · exact Due.of_eq due rfl rfl (List.subset_cons_self _ _)
    · obtain rfl : execRule = r := Option.some.inj same
      exact .inl List.mem_cons_self

/-- A rule that gets a process is up. -/
theorem launched_due (due : q ≠ r → Due s r) (inv : Invariant s) : Due (launched q s) r := by
  by_cases here : r = q
  · subst here
    have this : (launched r s).rule r = _ := State.rule_setRule_self
    refine .inr (.up (.inl (by rw [this]))
      ⟨s.nextProc, processNew r, by rw [this], ?_, ?_, rfl, ?_⟩)
    · exact (Assoc.find_cons _).trans (if_pos rfl)
    · exact fun begun => absurd rfl begun
    · rintro (down | down) <;> cases down
  · refine Spares.due ?_ (due (Ne.symm here))
    have same : (launched q s).rule r = s.rule r := State.rule_setRule_of_ne here
    refine ⟨by rw [same], by rw [same], fun a points => ?_, List.Subset.refl _⟩
    obtain ⟨p, found, _⟩ := inv.attached r a points
    have old : a < s.nextProc := inv.fresh a (List.mem_map.mpr ⟨_, Assoc.mem_of_find found, rfl⟩)
    exact (Assoc.find_cons _).trans (if_neg old.ne')

/-- **The visit of an object whose rule waits for its start condition keeps a rule due.** -/
theorem handleStartCondition_due (env : Env) (inv : Invariant s) (supervised : Supervised s r)
    (there : s.timerObjs[i]? = some obj)
    (start : (s.rule obj.rule).ruleState = .startConditionWaiting) (due : Due s r) :
    Returns (handleStartCondition env i obj s) fun out => Due out.2 r := by
  have regular := inv.timed obj (List.mem_of_getElem? there)
  have checked := startCondCheck_made env inv regular.stored start
  have due' := startCondCheck_due env inv regular.stored supervised due
  unfold handleStartCondition
  dsimp only
  generalize startCondCheck env obj.rule s = out at checked due' ⊢
  obtain ⟨retval, middle⟩ := out
  have due' : Due middle r := due'
  have supervised' : Supervised middle r := supervised.grows (checked.moves.grows inv)
  dsimp only
  by_cases ok : retval = .ok
  case neg =>
    rw [if_pos ok]
    exact due'
  rw [if_neg (not_not.mpr ok)]
  obtain ⟨more, same, completed⟩ := checked.holds ok
  have inv' : Invariant middle := checked.moves.keeps inv
  have start' : (middle.rule obj.rule).ruleState = .startConditionWaiting :=
    (more.ruleState obj.rule regular.stored).trans start
  have free := inv'.unstarted obj.rule start'
  have there' : middle.timerObjs[i]? = some obj := by
    rw [checked.stay.timerObjs]
    exact there
  cases command : (middle.rule obj.rule).command with
  | none => trivial
  | some command =>
    dsimp only
    split_ifs with pseudo
    · refine (spares_setRule ?_).due due'
      rintro rfl
      exact supervised'.command _ ‹_› pseudo
    unfold processEnqueue
    rw [free]
    dsimp only
    by_cases granted : env.malloc
    · rw [if_pos granted]
      have same : State.setState (State.setRule { middle with
          procList := (middle.nextProc, processNew obj.rule) :: middle.procList
          nextProc := middle.nextProc + 1 } obj.rule
          { middle.rule obj.rule with proc := some middle.nextProc }) obj.rule
            .endConditionWaiting = launched obj.rule middle := by
        rw [State.setState, State.rule_setRule_self, State.setRule_setRule]
        rfl
      have launch : Due (launched obj.rule middle) r := launched_due (fun _ => due') inv'
      rw [← same] at launch
      exact launch
    · rw [if_neg granted]
      have waits : (middle.rule obj.rule).ruleState.waiting := by rw [start']; rfl
      exact giveUp_due inv' supervised' true false there' waits fun _ => due'

/-- **The visit of an object whose rule waits for its end condition keeps a rule due.** -/
theorem handleEndCondition_due (env : Env) (tick : Nat) (inv : Invariant s)
    (supervised : Supervised s r) (there : s.timerObjs[i]? = some obj)
    (start : (s.rule obj.rule).ruleState = .endConditionWaiting) (due : Due s r) :
    Returns (handleEndCondition env i obj tick s) fun out => Due out.2 r := by
  unfold handleEndCondition
  refine (Ensures.weaken (endCondCheck_made env tick inv start) fun _ _ => trivial).bind
    fun out checked => ?_
  obtain ⟨retval, middle⟩ := out
  have moves : Moves true s middle := checked.moves
  obtain ⟨condition, rfl⟩ := checked.written
  set middle := s.setRule obj.rule { s.rule obj.rule with endCondition := condition }
  have inv' : Invariant middle := moves.keeps inv
  have this : middle.rule obj.rule = { s.rule obj.rule with endCondition := condition } :=
    State.rule_setRule_self
  have start' : (middle.rule obj.rule).ruleState = .endConditionWaiting := by rw [this, start]
  have due' : Due middle r := due.retouch rfl rfl
  dsimp only
  by_cases ok : retval = .ok
  · rw [if_pos ok]
    -- a rule that completes keeps its process
    have completed : Due (middle.setState obj.rule .completed) r := by
      by_cases here : r = obj.rule
      · rcases due' with listed | waits | ⟨_, a, p, points, found, healthy⟩
        · exact .inl listed
        · rw [here, start'] at waits
          cases waits
        · have last : (middle.setState obj.rule .completed).rule r =
              { middle.rule r with ruleState := .completed } := by
            rw [here, State.setState, State.rule_setRule_self]
          exact .inr (.up (.inr (by rw [last])) ⟨a, p, by rw [last]; exact points, found, healthy⟩)
      · exact (spares_setRule here).due due'
    have made : Due (addToDequeueList i ((middle.setState obj.rule .completed).note
        (.success obj.rule))) r := completed.of_eq rfl rfl (List.Subset.refl _)
    cases points : (middle.rule obj.rule).proc with
    | none => exact made
    | some a =>
      obtain ⟨p, found, _⟩ := inv'.attached obj.rule a points
      dsimp only
      rw [State.getProc_of_find found]
      exact made
  rw [if_neg ok]
  by_cases endless : obj.timeout = forever
  · rw [if_pos endless]
    exact due'
  rw [if_neg endless]
  by_cases elapsed : obj.timeout = 0
  case neg =>
    rw [if_neg elapsed]
    exact due'.of_eq rfl rfl (List.Subset.refl _)
  · rw [if_pos elapsed]
    obtain ⟨status, s', ran, stopped, stay, size, rules, procs⟩ := stopIfAny_made inv' true true
    have this' := rules obj.rule
    rw [if_pos rfl] at this'
    rw [ran]
    have waits : (s'.rule obj.rule).ruleState.waiting := by
      rw [this']
      exact congrArg RuleState.waiting start'
    have before : Moves true s s' := moves.trans stopped
    exact giveUp_due (before.keeps inv) (supervised.grows (before.grows inv)) false true
      (stay.timerObjs ▸ there) waits fun other =>
        (spares_stopIfAny inv' stay rules procs (Ne.symm other)).due due'

theorem timerVisit_due (env : Env) (tick : Nat) (inv : Invariant s) (supervised : Supervised s r)
    (there : s.timerObjs[i]? = some obj) (due : Due s r) :
    Returns (timerVisit env i obj tick s) fun out => Due out.2 r := by
  unfold timerVisit
  cases state : (s.rule obj.rule).ruleState with
  | startConditionWaiting => exact handleStartCondition_due env inv supervised there state due
  | endConditionWaiting => exact handleEndCondition_due env tick inv supervised there state due
  | _ => exact due.of_eq rfl rfl (List.Subset.refl _)

/-- The rules that are to be enqueued come up. -/
theorem comes_enqueueHandle (todo : List RuleRef) : ∀ {s : State}, r ∈ todo ∨ Comes s r →
    Comes (todo.foldl enqueueHandleRound s) r := by
  induction todo with
  | nil => exact fun due => due.resolve_left List.not_mem_nil
  | cons q todo ih =>
    intro s due
    refine ih ?_
    by_cases here : r = q
    · subst here
      refine .inr (.waits ?_)
      show ((s.setState r .startConditionWaiting).rule r).ruleState = _
      rw [State.setState, State.rule_setRule_self]
    · rcases due with listed | comes
      · exact .inl ((List.mem_cons.mp listed).resolve_left here)
      · have written : Comes (s.setState q .startConditionWaiting) r :=
          (spares_setRule here).comes comes
        exact .inr (written.of_eq rfl rfl)

/-- **An iteration over the timers keeps a rule up.** -/
theorem timerIterate_comes (tick : Nat) {envs : Nat → Env} (told : ∀ i, Told (envs i))
    (inv : Invariant s) (supervised : Supervised s r) (comes : Comes s r) :
    Returns (timerIterate tick envs s) fun out => Comes out.2 r := by
  have loop : Returns ((List.range s.timerObjs.length).foldlM (timerRound tick envs) (false, s))
      fun state => Moves true s state.2 ∧ Due state.2 r := by
    refine Ensures.foldlM (fun state i kept => ?_) _ ⟨.refl, .inr comes⟩
    obtain ⟨flag, middle⟩ := state
    obtain ⟨moves, due⟩ := kept
    have inv' : Invariant middle := Moves.keeps moves inv
    have changed : Moves true middle (chldHandler (envs i).children middle) :=
      chldHandler_made _ inv'
    have due' : Due (chldHandler (envs i).children middle) r := due_chldHandler (told i) inv' due
    have supervised' :=
      supervised.grows (Moves.grows (Relation.ReflTransGen.trans moves changed) inv)
    have visited : Returns (timerRound tick envs (flag, middle) i) fun out => Due out.2 r := by
      unfold timerRound
      dsimp only
      cases there : (chldHandler (envs i).children middle).timerObjs[i]? with
      | none => exact due'
      | some obj =>
        exact (timerVisit_due (envs i) tick (changed.keeps inv') supervised' there due').bind
          fun out made => made
    exact ((timerRound_made tick envs i inv').and visited).mono fun out made =>
      ⟨Relation.ReflTransGen.trans moves made.1.1, made.2⟩
  unfold timerIterate
  refine loop.bind fun out made => ?_
  obtain ⟨flag, last⟩ := out
  obtain ⟨_, due⟩ := made
  have swept : Due (dequeueHandle last) r := due.of_eq rfl rfl (List.Subset.refl _)
  exact (comes_enqueueHandle _ swept).of_eq rfl rfl

end Timers

/-! ### Rounds -/

/-- **A round in which no `fork` fails, and all children tell how they have ended**: that one has
stopped or goes on is reported by `waitpid` only where it is asked for. -/
structure Round.Fair (round : Round) : Prop where
  forks : ∀ i, 0 < (round.starts i).fork
  arrivals : ∀ arrival ∈ round.arrivals, ∀ child ∈ arrival.children, child.status ≠ .other
  timers : ∀ i, Told (round.timers i)
  starts : ∀ i, Told (round.starts i)
  stops : ∀ i, Told (round.stops i)

section Rounds

variable {s : State} {r : RuleRef}

/-- Where nothing is to be enqueued, a rule that is due is up, or comes up. -/
theorem Due.comes (due : Due s r) (unlisted : s.enqueueList = []) : Comes s r :=
  due.resolve_left fun member => absurd (unlisted ▸ member) List.not_mem_nil

theorem checkMessage_due (inv : Invariant s) (arrival : Arrival)
    (told : ∀ child ∈ arrival.children, child.status ≠ .other) (stored : r < s.db.size)
    (kept : arrival.message.request.stops ≠ some (s.rule r).ruleId) (due : Due s r) :
    Returns (checkMessage arrival s) fun out => Due out.2 r := by
  have changed : Moves false s (chldHandler arrival.children s) := chldHandler_made _ inv
  have lasts := (changed.grows inv).rules r stored
  have stored' := stored.trans_le (changed.grows inv).size
  have due' : Due (chldHandler arrival.children s) r := due_chldHandler told inv due
  have inv' := changed.keeps inv
  unfold checkMessage
  set middle := chldHandler arrival.children s
  set opened : State := { middle with nextMsg := middle.nextMsg + 1 }
  have received : Step false (⟨[], none⟩, middle) (⟨[] ++ [arrival.message],
      some ⟨middle.nextMsg, arrival.message⟩⟩, opened) := .deliver (.receive arrival.message)
  have inv'' : Invariant opened := received.keeps inv'
  have due'' : Due opened r := due'.of_eq rfl rfl (List.Subset.refl _)
  dsimp only
  split_ifs with magic alloc
  · trivial
  · exact due''.of_eq rfl rfl (List.Subset.refl _)
  · refine (serve_due inv'' ⟨middle.nextMsg, arrival.message⟩ stored' (fun stops => kept ?_)
      due'').bind fun out made => ?_
    · exact stops.trans (congrArg some lasts.ruleId)
    · obtain ⟨retval, ruleState, last⟩ := out
      have made : Due last r := made
      show Due (if retval = .wait then last else _) r
      split_ifs
      · exact made
      · exact made.of_eq rfl rfl (List.Subset.refl _)

/-- **The messages are answered**, and a rule that none of them asks to stop is kept due. -/
theorem checkLoop_due (arrivals : List Arrival) : ∀ {s : State}, Invariant s →
    s.enqueueList = [] → (∀ arrival ∈ arrivals, Admitted s arrival.message) →
    (∀ arrival ∈ arrivals, ∀ child ∈ arrival.children, child.status ≠ .other) →
    r < s.db.size →
    (∀ arrival ∈ arrivals, arrival.message.request.stops ≠ some (s.rule r).ruleId) →
    Due s r → Returns (checkLoop arrivals s) fun s' => Due s' r := by
  induction arrivals with
  | nil => exact fun _ _ _ _ _ _ due => due
  | cons arrival arrivals ih =>
    intro s inv unlisted admitted told stored kept due
    obtain ⟨arrived, admitted⟩ := List.forall_mem_cons.mp admitted
    obtain ⟨first, told⟩ := List.forall_mem_cons.mp told
    obtain ⟨spares, kept⟩ := List.forall_mem_cons.mp kept
    have made := (checkMessage_made inv unlisted arrival arrived []).and
      (checkMessage_due inv arrival first stored spares due)
    rw [checkLoop]
    refine made.bind fun out made => ?_
    obtain ⟨more, middle⟩ := out
    obtain ⟨⟨_, goes⟩, due'⟩ := made
    have grows := goes.grows inv
    dsimp only
    split_ifs
    · refine ih (goes.keeps inv) (goes.enqueueList.trans unlisted) (fun next member => ?_) told
        (stored.trans_le grows.size) (fun next member => ?_) due'
      · obtain ⟨magic, untemplated⟩ := admitted next member
        exact ⟨magic, fun ruleId params request template =>
          untemplated ruleId params request (grows.template template)⟩
      · exact (grows.rules r stored).ruleId ▸ kept next member
    · exact due'

/-- **A round of the main loop keeps a rule up.** -/
theorem mainRound_comes (tick : Nat) (inv : Invariant s) (unlisted : s.enqueueList = [])
    {round : Round} (admitted : ∀ arrival ∈ round.arrivals, Admitted s arrival.message)
    (fair : round.Fair) (supervised : Supervised s r)
    (kept : ∀ arrival ∈ round.arrivals, arrival.message.request.stops ≠ some (s.rule r).ruleId)
    (comes : Comes s r) : Returns (mainRound tick s round) fun s' => Comes s' r := by
  unfold mainRound
  have served := (checkMessages_made inv unlisted round.arrivals admitted []).and
    (checkLoop_due (round.arrivals.take messageBudget) inv unlisted
      (fun arrival member => admitted arrival (List.mem_of_mem_take member))
      (fun arrival member => fair.arrivals arrival (List.mem_of_mem_take member))
      supervised.stored (fun arrival member => kept arrival (List.mem_of_mem_take member))
      (.inr comes))
  refine served.bind fun first made => ?_
  obtain ⟨goes, due⟩ := made
  have comes : Comes first r := due.comes (goes.enqueueList.trans unlisted)
  have inv₁ := goes.keeps inv
  have supervised₁ := supervised.grows (goes.grows inv)
  have iterated := (timerIterate_made tick round.timers inv₁).and
    (timerIterate_comes tick fair.timers inv₁ supervised₁ comes)
  refine iterated.bind fun out made => ?_
  obtain ⟨processFlag, second⟩ := out
  obtain ⟨⟨timed, unlisted₂⟩, comes⟩ := made
  have comes : Comes second r := comes
  have inv₂ : Invariant second := Moves.keeps timed inv₁
  have supervised₂ : Supervised second r := supervised₁.grows (Moves.grows timed inv₁)
  dsimp only
  split_ifs
  · have begins : Returns (iterateStart round.starts second) _ :=
      (iterateStart_due fair.starts fair.forks inv₂ (.inr comes)).weaken fun _ _ => trivial
    have iterated' : Returns (iterateProcesses round second) fun s' => Comes s' r := by
      refine begins.bind fun third made => ?_
      obtain ⟨started, due, begun⟩ := made
      have inv₃ : Invariant third := Moves.keeps started inv₂
      have unlisted₃ := (Moves.enqueueList started).trans unlisted₂
      have stops : Ensures (Reboots third) _ (Goes false [] third []) :=
        iterateStop_made round.retries round.stops inv₃ unlisted₃
      have stopped := stops.and
        (stopLoop_due fair.stops _ 0 _ inv₃ unlisted₃ (List.Subset.refl _) inv₃.keys begun
          (supervised₂.grows (Moves.grows started inv₂)) due)
      exact stopped.mono fun last made => made.2.comes (made.1.enqueueList.trans unlisted₃)
    exact iterated'.bind fun last comes => Comes.of_eq comes rfl rfl
  · exact comes.of_eq rfl rfl

/-- **An active rule of the file comes up** at the start. -/
theorem comes_started {rules : List Rule} (parsed : Parsed rules)
    (stored : r < (load rules).size) (active : ((load rules).memory r).ruleState = .active) :
    Comes (started rules) r := by
  have listed : r ∈ (load rules).refs.filter fun r => ((load rules).memory r).ruleState = .active :=
    List.mem_filter.mpr ⟨(stored_load rules).wellFormed.mem_refs.mpr stored, decide_eq_true active⟩
  have comes := comes_enqueueHandle (s := loaded rules) _ (.inl listed)
  refine Comes.of_eq (s := (activate (loaded rules)).2) ?_ rfl rfl
  rw [activate_eq parsed]
  exact comes

end Rounds

end CyberPlatform.Pcd
