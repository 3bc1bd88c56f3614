/-
**The clients and the processes are made of moves.**

* `triggerAction_made` — the failure action of a process that has failed never has to be tried
  again.
* `checkMessage_made` — a message is answered, or kept with the process that is waited for.
* `stopLoop_made` — every process is visited once, and none is read behind its end.
* `mainRound_made` — a round of the main loop goes wrong in no way, and is made of moves.
-/

import CyberPlatform.Pcd.Mail
import CyberPlatform.Pcd.Timing

namespace CyberPlatform.Pcd

open Foundation

/-! ### Enqueuing and dequeuing -/

section Enqueuing

variable {s : State} {r : RuleRef}

/-- A rule that neither waits nor has a process is enqueued. -/
theorem enqueueRule_of (quiet : ¬ (s.rule r).ruleState.waiting) (free : (s.rule r).proc = none) :
    enqueueRule r s = (.ok, timerEnqueue r (s.setState r .startConditionWaiting)) := by
  have refused : ¬ ((s.rule r).ruleState.waiting ∨ (s.rule r).proc.isSome) := by
    rintro (waits | there)
    · exact quiet waits
    · rw [free] at there
      cases there
  rw [enqueueRule, if_neg refused]

theorem enqueueRule_made (regular : s.db.Regular r) (unlisted : s.enqueueList = []) :
    Moves false s (enqueueRule r s).2 := by
  by_cases refused : (s.rule r).ruleState.waiting ∨ (s.rule r).proc.isSome
  · rw [enqueueRule, if_pos refused]
  · obtain ⟨quiet, free⟩ := not_or.mp refused
    have free : (s.rule r).proc = none := Option.not_isSome_iff_eq_none.mp free
    rw [enqueueRule_of quiet free]
    exact .single (.enqueue r regular quiet free (unlisted ▸ List.not_mem_nil))

/-- **The timer object of a rule is taken away**, if there is one. -/
theorem dequeueRule_made (inv : Invariant s) (failed : Bool) :
    ∃ status s', dequeueRule r failed s = .ok (status, s') ∧ Moves false s s' ∧
      s'.procList.map Prod.fst = s.procList.map Prod.fst ∧ ¬ (s'.rule r).ruleState.waiting ∧
      (status = .ok ∨ status = .invalidRule ∧ s' = s) := by
  by_cases there : s.timerObjs.any fun obj => obj.rule = r
  · obtain ⟨status, s', ran, stopped, stay, size, rules, _⟩ :=
      stopIfAny_made inv (r := r) false false
    have this := rules r
    rw [if_pos rfl] at this
    have free : (s'.rule r).proc = none := by rw [this]
    obtain ⟨obj, member, same⟩ := List.any_eq_true.mp there
    have there' : ∃ obj ∈ s'.timerObjs, obj.rule = r :=
      ⟨obj, stay.timerObjs.symm ▸ member, of_decide_eq_true same⟩
    refine ⟨.ok, _, ?_, stopped.tail (.dequeue r failed there' free), stay.procs, ?_, .inl rfl⟩
    · unfold dequeueRule
      rw [if_pos there, ran]
      rfl
    · rw [State.setState, State.rule_setRule_self]
      exact RuleState.dequeued_waiting failed _
  · refine ⟨.invalidRule, s, ?_, .refl, rfl, fun waits => ?_, .inr ⟨rfl, rfl⟩⟩
    · unfold dequeueRule
      rw [if_neg there]
      rfl
    · obtain ⟨obj, member, same, _⟩ := inv.queued r waits
      exact there (List.any_eq_true.mpr ⟨obj, member, decide_eq_true same⟩)

/-- **The failure action of a process that has failed** ends with the status that tells the
processes not to try again. -/
theorem triggerAction_made (inv : Invariant s) (regular : s.db.Regular r)
    (unlisted : s.enqueueList = []) :
    Ensures (Reboots s) (triggerAction r s) fun out => out.1 = .ok ∧ Moves false s out.2 ∧
      out.2.procList.map Prod.fst = s.procList.map Prod.fst := by
  obtain ⟨status, s', ran, dequeued, procs, quiet, _⟩ := dequeueRule_made inv (r := r) true
  have lasts := (dequeued.grows inv).rules r regular.stored
  have regular' : s'.db.Regular r :=
    ⟨regular.stored.trans_le (dequeued.grows inv).size, lasts.indexed.trans regular.plain⟩
  have acted : Ensures (Reboots s) (failureAction r s') (ActionMade false s') :=
    (dequeued.grows inv).since (failureAction_made (dequeued.keeps inv) regular' quiet)
  unfold triggerAction
  rw [ran, ok_bind]
  refine acted.bind fun out made => ?_
  obtain ⟨tmpRule, last⟩ := out
  cases tmpRule with
  | none => exact ⟨rfl, dequeued.trans made.moves, made.stay.procs.trans procs⟩
  | some tmpRule =>
    have fits := made.enqueueable tmpRule rfl
    have unlisted' : last.enqueueList = [] := by
      rw [made.stay.enqueueList, dequeued.enqueueList, unlisted]
    have enqueued := enqueueRule_made fits.regular unlisted'
    rw [enqueueRule_of fits.quiet fits.free] at enqueued
    dsimp only
    rw [enqueueRule_of fits.quiet fits.free]
    exact ⟨rfl, (dequeued.trans made.moves).trans enqueued, made.stay.procs.trans procs⟩

end Enqueuing

/-! ### Processes that are started -/

section Starting

variable {s : State}

/-- No process is added or taken away by the children that have changed. -/
theorem keys_chldHandler (children : List Child) :
    (chldHandler children s).procList.map Prod.fst = s.procList.map Prod.fst := by
  induction children generalizing s with
  | nil => rfl
  | cons child children ih =>
    refine (ih (s := processChld s child)).trans ?_
    unfold processChld
    split
    · rfl
    · exact Assoc.keys_put

theorem startVisit_made (env : Env) (inv : Invariant s) {a : ProcRef}
    (there : a ∈ s.procList.map Prod.fst) :
    Ensures (Reboots s) (startVisit env s a) fun s' =>
      Moves false s s' ∧ s'.procList.map Prod.fst = s.procList.map Prod.fst := by
  obtain ⟨entry, member, rfl⟩ := List.mem_map.mp there
  obtain ⟨a, p⟩ := entry
  have found := Assoc.find_of_mem inv.keys member
  unfold startVisit
  rw [State.getProc_of_find found, ok_bind]
  cases state : p.state with
  | runme => exact ⟨.single (.fork a p env.fork found state), Assoc.keys_put⟩
  | starting =>
    dsimp only
    split_ifs
    · refine ⟨.single (.change a p _ found ⟨rfl, rfl, rfl, fun _ => rfl, ?_, fun _ => .inl state⟩),
        Assoc.keys_put⟩
      exact ProcState.noConfusion
    · refine ⟨.single (.change a p _ found ⟨rfl, rfl, rfl, fun _ => rfl, ?_, fun _ => .inl state⟩),
        Assoc.keys_put⟩
      exact ProcState.noConfusion
  | _ => exact ⟨.refl, rfl⟩

/-- **The processes are started.** -/
theorem iterateStart_made (envs : Nat → Env) (inv : Invariant s) :
    Ensures (Reboots s) (iterateStart envs s) fun s' => Moves false s s' := by
  have loop : Ensures (Reboots s) (iterateStart envs s) fun s' =>
      Moves false s s' ∧ s'.procList.map Prod.fst = s.procList.map Prod.fst := by
    refine Ensures.foldlM_mem (fun visit member s' kept => ?_) ⟨.refl, rfl⟩
    obtain ⟨moves, keys⟩ := kept
    have changed : Moves false s (chldHandler (envs visit.2).children s') :=
      Relation.ReflTransGen.trans moves (chldHandler_made _ (Moves.keeps moves inv))
    have keys' := (keys_chldHandler (envs visit.2).children).trans keys
    have there : visit.1 ∈ s.procList.map Prod.fst := List.fst_mem_of_mem_zipIdx member
    refine (changed.grows inv).since
      ((startVisit_made _ (changed.keeps inv) (keys' ▸ there)).mono fun last made => ?_)
    exact ⟨changed.trans made.1, made.2.trans keys'⟩
  exact loop.mono fun _ made => made.1

end Starting

/-! ### Processes on their way out -/

section Stopping

variable {s : State} {a : ProcRef} {p : Proc} {inbox : List Message}

/-- A rule is disconnected from a process, and no other rule points to it. -/
theorem disconnect_made (inv : Invariant s) (found : Assoc.find a s.procList = some p) :
    Moves false s (disconnect a p.rule s) ∧ (disconnect a p.rule s).procList = s.procList ∧
      ∀ r, ((disconnect a p.rule s).rule r).proc ≠ some a := by
  have alone : ∀ r, (s.rule r).proc = some a → r = p.rule := by
    intro r points
    obtain ⟨q, there, back, _⟩ := inv.attached r a points
    obtain rfl := Option.some.inj (found.symm.trans there)
    exact back.symm
  unfold disconnect
  split_ifs with points
  · refine ⟨.single (.disconnect p.rule a points), rfl, fun r => ?_⟩
    rw [State.rule_setRule]
    split_ifs with here
    · exact (Option.some_ne_none a).symm
    · exact fun points' => here (alone r points')
  · refine ⟨.refl, rfl, fun r points' => points ?_⟩
    rw [← alone r points']
    exact points'

/-- What is done for a process that has stopped. -/
structure Dealt (p : Proc) (s : State) (out : Bool × State) : Prop where
  once : out.1 = false
  procs : out.2.procList.map Prod.fst = s.procList.map Prod.fst
  made : Moves false s out.2 ∧ (p.cookie = none ∨ p.answers = false) ∨
    ∃ sent msg, p.cookie = some msg ∧ p.answers = true ∧ out.2 = answer sent msg .ok none s

/-- **What is done for a process that has stopped** is never to be tried again. -/
theorem stoppedAction_made (env : Env) (inv : Invariant s) (unlisted : s.enqueueList = [])
    (regular : s.db.Regular p.rule) : Ensures (Reboots s) (stoppedAction env p s) (Dealt p s) := by
  have kept : p.answers = false → Ensures (Reboots s) (.ok (false, s)) (Dealt p s) := fun quiet =>
    ⟨rfl, rfl, .inl ⟨.refl, .inr quiet⟩⟩
  have replied : p.answers = true → Ensures (Reboots s)
      (.ok (false, replyMessage env.alloc env.sent p.cookie .ok s)) (Dealt p s) := fun answers => by
    cases cookie : p.cookie with
    | none => exact ⟨rfl, rfl, .inl ⟨.refl, .inl cookie⟩⟩
    | some msg => exact ⟨rfl, rfl, .inr ⟨_, msg, cookie, answers, rfl⟩⟩
  have triggered : p.answers = false → Ensures (Reboots s) (triggerAction p.rule s >>= fun out =>
      .ok (decide (out.1 ≠ .ok), out.2)) (Dealt p s) := fun quiet => by
    refine (triggerAction_made inv regular unlisted).bind fun out made => ?_
    exact ⟨by rw [made.1]; rfl, made.2.2, .inl ⟨made.2.1, .inr quiet⟩⟩
  have unsignaled : p.signaled = false → p.answers = false :=
    fun no => by rw [Proc.answers, no]; rfl
  have told : p.signaled = true → p.retstat = .exited ∨ p.retstat = .signaled →
      p.answers = true := fun yes kind => by
    rw [Proc.answers, yes]
    rcases kind with exited | signaled
    · rw [exited]
      rfl
    · rw [signaled]
      rfl
  unfold stoppedAction
  dsimp only
  cases retstat : p.retstat with
  | nothing => exact kept (by rw [Proc.answers, retstat]; exact Bool.and_false _)
  | exited =>
    dsimp only
    split_ifs with signaled
    · exact replied (told signaled (.inl retstat))
    · exact triggered (unsignaled (Bool.not_eq_true _ ▸ signaled))
    · exact kept (unsignaled (Bool.not_eq_true _ ▸ signaled))
  | signaled =>
    dsimp only
    split_ifs with signaled
    · exact replied (told signaled (.inr retstat))
    · exact triggered (unsignaled (Bool.not_eq_true _ ▸ signaled))
    · exact kept (unsignaled (Bool.not_eq_true _ ▸ signaled))
  | stopped => exact triggered (by rw [Proc.answers, retstat]; exact Bool.and_false _)

/-- What the visit of a process makes: it is not to be repeated, and the others are still there. -/
structure StopMade (inbox : List Message) (a : ProcRef) (s : State) (out : Bool × State) :
    Prop where
  once : out.1 = false
  goes : Goes false inbox s inbox out.2
  procs : ∀ a' ∈ s.procList.map Prod.fst, a' ≠ a → a' ∈ out.2.procList.map Prod.fst

/-- **The object of a process that has stopped is freed**, with the message that waits for it. -/
theorem stoppedVisit_made (env : Env) (inv : Invariant s) (unlisted : s.enqueueList = [])
    (found : Assoc.find a s.procList = some p) :
    Ensures (Reboots s) (stoppedVisit env a p s) (StopMade inbox a s) := by
  obtain ⟨disconnected, procs, free⟩ := disconnect_made inv found
  have noted : Moves false s ((disconnect a p.rule s).note (.cleanup p.pid)) :=
    disconnected.tail (.cleanup p.pid)
  unfold stoppedVisit
  dsimp only
  set middle := (disconnect a p.rule s).note (.cleanup p.pid)
  have inv' : Invariant middle := noted.keeps inv
  have procs' : middle.procList = s.procList := procs
  have found' : Assoc.find a middle.procList = some p := procs'.symm ▸ found
  have fresh : a < middle.nextProc :=
    inv'.fresh a (List.mem_map.mpr ⟨_, Assoc.mem_of_find found', rfl⟩)
  have acted := stoppedAction_made env inv' (noted.enqueueList.trans unlisted)
    (inv'.owned a p found')
  refine (noted.grows inv).since (acted.bind fun out dealt => ?_)
  rw [dealt.once]
  refine ⟨rfl, ?_, fun a' member differ => ?_⟩
  · rcases dealt.made with ⟨moves, quiet⟩ | ⟨sent, msg, cookie, answers, answered⟩
    · have free' : ∀ r, (out.2.rule r).proc ≠ some a := fun r points =>
        free r ((moves.grows inv').attached r a points fresh)
      cases cookie : p.cookie with
      | none =>
        have empty : ∀ q, Assoc.find a out.2.procList = some q → q.cookie = none := by
          intro q there
          cases kept : q.cookie with
          | none => rfl
          | some msg =>
            obtain ⟨p', found'', kept'⟩ := (moves.cookies inv' a msg).mp ⟨q, there, kept⟩
            obtain rfl := Option.some.inj (found'.symm.trans found'')
            exact absurd (cookie.symm.trans kept') (Option.some_ne_none msg).symm
        exact Moves.goes ((noted.trans moves).tail (.remove a p free' empty cookie)) inbox
      | some msg =>
        have holds : Holds out.2 a msg := (moves.cookies inv' a msg).mpr ⟨p, found', cookie⟩
        have quiet : p.answers = false := quiet.resolve_left fun none =>
          absurd (none.symm.trans cookie) (Option.some_ne_none msg).symm
        exact (Moves.steps (noted.trans moves) _).tail
          (.deliver (.lose a p msg free' holds cookie quiet))
    · rw [answered]
      exact (noted.steps _).tail (.deliver (.settle sent a p msg free found' cookie answers))
  · show a' ∈ (Assoc.drop a out.2.procList).map Prod.fst
    rw [Assoc.keys_drop, dealt.procs, procs']
    exact List.mem_filter.mpr ⟨member, decide_eq_true differ⟩

/-- **The visit of a process.** -/
theorem stopVisit_made (env : Env) (inv : Invariant s) (unlisted : s.enqueueList = [])
    (there : a ∈ s.procList.map Prod.fst) :
    Ensures (Reboots s) (stopVisit env a s) (StopMade inbox a s) := by
  obtain ⟨entry, member, rfl⟩ := List.mem_map.mp there
  obtain ⟨a, p⟩ := entry
  have found := Assoc.find_of_mem inv.keys member
  -- the object is rewritten, or it is rewritten and its process is signaled
  have changed : ∀ p', Changes p p' →
      Ensures (Reboots s) (.ok (false, s.setProc a p')) (StopMade inbox a s) := fun p' changes =>
    ⟨rfl, Moves.goes (.single (.change a p p' found changes)) inbox, fun a' old _ => by
      rw [show (s.setProc a p').procList.map Prod.fst = _ from Assoc.keys_put]
      exact old⟩
  have killed : ∀ p' sig, Changes p p' → 0 < p.pid →
      Ensures (Reboots s) (.ok (false, (s.setProc a p').note (.kill p.pid sig)))
        (StopMade inbox a s) := fun p' sig changes positive =>
    ⟨rfl, Moves.goes (.single (.kill a p p' sig found changes positive)) inbox, fun a' old _ => by
      rw [show ((s.setProc a p').note _).procList.map Prod.fst = _ from Assoc.keys_put]
      exact old⟩
  have kept : Ensures (Reboots s) (.ok (false, s)) (StopMade inbox a s) :=
    ⟨rfl, Moves.goes .refl inbox, fun _ old _ => old⟩
  have unstoppable : p.state.stoppable = false → ∀ state tm signaled, state ≠ .runme →
      state ≠ .starting ∧ state ≠ .running → Changes p { p with state, tm, signaled } :=
    fun no state tm signaled begun down =>
      ⟨rfl, rfl, rfl, fun yes => absurd (no.symm.trans yes) Bool.false_ne_true, begun,
        fun up => (up.elim down.1 down.2).elim⟩
  unfold stopVisit
  rw [State.getProc_of_find found, ok_bind]
  cases state : p.state with
  | stopping => exact changed _ ⟨rfl, rfl, rfl, fun _ => rfl, by simp, by simp⟩
  | stopped => exact stoppedVisit_made env inv unlisted found
  | termme =>
    have outOf := unstoppable (by rw [state]; rfl)
    dsimp only
    split_ifs with busy alive granted
    · exact kept
    · exact killed _ _ (outOf _ _ _ (by simp) (by simp)) alive
    · exact killed _ _ (outOf _ _ _ (by simp) (by simp)) alive
    · exact changed _ (outOf _ _ _ (by simp) (by simp))
  | killme =>
    have outOf := unstoppable (by rw [state]; rfl)
    dsimp only
    split_ifs with spent alive
    · exact killed _ _ (outOf _ _ _ (by simp) (by simp)) alive
    · exact changed _ (outOf _ _ _ (by simp) (by simp))
    · exact changed _ (outOf _ _ _ (by simp) (by simp))
  | runme => exact changed _ ⟨rfl, rfl, rfl, fun _ => rfl, by simp, by simp⟩
  | nothing => exact kept
  | starting => exact kept
  | running => exact kept

/-- **The loop over the processes** visits every process once, and ends. -/
theorem stopLoop_made (envs : Nat → Env) : ∀ (fuel i : Nat) (rest : List ProcRef) {s : State},
    Invariant s → s.enqueueList = [] → rest.Nodup → rest ⊆ s.procList.map Prod.fst →
    rest.length ≤ fuel →
    Ensures (Reboots s) (stopLoop envs fuel i rest s) (Goes false inbox s inbox)
  | _, _, [], s, _, _, _, _, _ => by
    rw [stopLoop]
    exact Moves.goes .refl inbox
  | 0, _, _ :: _, _, _, _, _, _, enough => absurd enough (Nat.not_succ_le_zero _)
  | fuel + 1, i, a :: rest, s, inv, unlisted, nodup, there, enough => by
    obtain ⟨apart, nodup⟩ := List.nodup_cons.mp nodup
    have changed : Moves false s (chldHandler (envs i).children s) := chldHandler_made _ inv
    have keys := keys_chldHandler (s := s) (envs i).children
    rw [← keys] at there
    obtain ⟨first, there⟩ := List.cons_subset.mp there
    have visited : Ensures (Reboots _) _ (StopMade inbox a (chldHandler (envs i).children s)) :=
      stopVisit_made (envs i) (changed.keeps inv) (changed.enqueueList.trans unlisted) first
    rw [stopLoop]
    refine ((changed.grows inv).since visited).bind fun out made => ?_
    obtain ⟨again, middle⟩ := out
    obtain rfl : again = false := made.once
    have goes : Goes false inbox s inbox middle := (changed.goes inbox).trans made.goes
    refine (goes.grows inv).since ((stopLoop_made envs fuel (i + 1) rest (goes.keeps inv)
      (goes.enqueueList.trans unlisted) nodup (fun a' member => ?_)
      (Nat.le_of_succ_le_succ enough)).mono fun last made' => goes.trans made')
    exact made.procs a' (there member) fun same => apart (same ▸ member)

/-- **The processes on their way out are taken a step further.** -/
theorem iterateStop_made (retries : Nat) (envs : Nat → Env) (inv : Invariant s)
    (unlisted : s.enqueueList = []) :
    Ensures (Reboots s) (iterateStop retries envs s) (Goes false inbox s inbox) :=
  stopLoop_made envs _ 0 _ inv unlisted inv.keys (List.Subset.refl _)
    (by rw [List.length_map]; exact Nat.le_add_right _ _)

end Stopping

/-! ### Clients -/

/-- A message that the daemon is meant to get: it has the magic number, and does not ask to start
the process of a template. -/
structure Admitted (s : State) (message : Message) : Prop where
  magic : message.magic = true
  untemplated : ∀ ruleId params, message.request = .startProcess ruleId params →
    ¬ Template s ruleId

section Clients

variable {s : State} {r : RuleRef}

/-- What the handling of a message makes: it is to be answered, or has been kept. -/
structure Served (msg : Incoming) (s : State) (out : Status × Option ApiRuleState × State) :
    Prop where
  answered : out.1 ≠ .wait → Moves false s out.2.2
  kept : out.1 = .wait → ∀ inbox, Steps false (⟨inbox, some msg⟩, s) (⟨inbox, none⟩, out.2.2)

/-- A request that is answered with its status only. -/
theorem plain_made {msg : Incoming} {request : State → Except Stop (Status × State)}
    (served : Ensures (Reboots s) (request s) fun out =>
      (out.1 ≠ .wait → Moves false s out.2) ∧
        (out.1 = .wait → ∀ inbox, Steps false (⟨inbox, some msg⟩, s) (⟨inbox, none⟩, out.2))) :
    Ensures (Reboots s) (plain request s) (Served msg s) :=
  served.bind fun _ made => ⟨made.1, made.2⟩

/-- **A request about a rule**, behind the search for it. -/
theorem withRule_made {msg : Incoming} {ruleId : RuleId}
    {request : RuleRef → State → Except Stop (Status × Option ApiRuleState × State)}
    (inv : Invariant s)
    (served : ∀ r s', Moves false s s' → r < s'.db.size → (s'.rule r).ruleId = ruleId →
      Ensures (Reboots s') (request r s') (Served msg s')) :
    Ensures (Reboots s) (withRule ruleId s request) (Served msg s) := by
  have searched : Moves false s { s with db := (s.db.getRuleById ruleId).2 } :=
    .single (.lookup ruleId)
  obtain ⟨_, _, names⟩ := extends_lookup inv.db ruleId
  unfold withRule
  rcases search : s.db.getRuleById ruleId with ⟨out, db⟩
  rw [search] at searched names
  cases out with
  | none => exact ⟨fun _ => searched, fun wait => by cases wait⟩
  | some r =>
    obtain ⟨stored, named⟩ := names r rfl
    refine (searched.grows inv).since ((served r _ searched stored named).mono fun out made =>
      ⟨fun answered => ?_, fun wait inbox => ?_⟩)
    · exact searched.trans (made.answered answered)
    · exact (searched.steps _).trans (made.kept wait inbox)

/-- **The process of a rule is stopped by a client.** -/
theorem apiStop_made (inv : Invariant s) (msg : Incoming) (brutal waits : Bool) :
    Ensures (Reboots s) (apiStop r brutal (if waits then some msg else none) s) fun out =>
      (out.1 ≠ .wait → Moves false s out.2) ∧
        (out.1 = .wait → ∀ inbox, Steps false (⟨inbox, some msg⟩, s) (⟨inbox, none⟩, out.2)) := by
  have cleared : Moves false s (setOptionalParams r none s) := .single (.params r none)
  unfold apiStop
  set middle := setOptionalParams r none s
  have inv' : Invariant middle := cleared.keeps inv
  obtain ⟨status, s', ran, dequeued, _, quiet, result⟩ := dequeueRule_made inv' (r := r) false
  dsimp only
  rw [ran, ok_bind]
  rcases result with rfl | ⟨rfl, rfl⟩
  · exact ⟨fun _ => cleared.trans dequeued, fun wait => by cases wait⟩
  · dsimp only
    rw [if_pos rfl]
    cases points : (middle.rule r).proc with
    | none =>
      rw [processStop_of_none points]
      exact ⟨fun _ => cleared, fun wait => by cases wait⟩
    | some a =>
      obtain ⟨p, found, back, stoppable, _⟩ := inv'.attached r a points
      rw [processStop_of_some points found stoppable, ok_bind, if_pos rfl]
      have gone : ∀ cookie, ((halted r a p brutal cookie middle).rule r).proc = none :=
        fun cookie => by rw [halted, State.rule_setRule_self]
      have quiet' : ∀ cookie, ¬ ((halted r a p brutal cookie middle).rule r).ruleState.waiting :=
        fun cookie => by
          rw [halted, State.rule_setRule_self]
          exact quiet
      cases waits with
      | false =>
        refine ⟨fun _ => ?_, fun wait => by cases wait⟩
        exact (cleared.tail (.stop r a p brutal points found)).tail
          (.idle r (gone none) (quiet' none))
      | true =>
        refine ⟨fun answered => absurd rfl answered, fun _ inbox => ?_⟩
        refine Relation.ReflTransGen.tail ?_ (.move (.idle r (gone (some msg)) (quiet' (some msg))))
        exact (cleared.steps _).tail (.deliver (.hold r a p brutal msg points found))

/-- **The handling of a message.** -/
theorem serve_made (inv : Invariant s) (unlisted : s.enqueueList = []) (msg : Incoming)
    (admitted : Admitted s msg.message) : Ensures (Reboots s) (serve msg s) (Served msg s) := by
  have status : ∀ (status : Status) (ruleState : Option ApiRuleState) (s' : State), status ≠ .wait →
      Moves false s s' → Served msg s (status, ruleState, s') := fun _ _ _ differs moves =>
    ⟨fun _ => moves, fun wait => absurd wait differs⟩
  unfold serve
  cases request : msg.message.request with
  | processReady pid =>
    refine plain_made (?_ : Ensures (Reboots s) (.ok (apiProcessReady pid s)) _)
    unfold apiProcessReady
    cases getRuleByPid pid s with
    | none => exact ⟨fun _ => .refl, fun wait => by cases wait⟩
    | some r =>
      dsimp only
      cases condition : (s.rule r).endCondition with
      | processReady flag =>
        exact ⟨fun _ => .single (.ready r flag condition), fun wait => by cases wait⟩
      | _ => exact ⟨fun _ => .refl, fun wait => by cases wait⟩
  | netRxPriority done =>
    refine status _ none s ?_ .refl
    cases done <;> exact Status.noConfusion
  | startProcess ruleId params =>
    refine withRule_made inv fun r s' searched stored named => ?_
    have regular : s'.db.Regular r := by
      refine ⟨stored, ?_⟩
      cases indexed : (s'.db.memory r).indexed with
      | false => rfl
      | true =>
        exact absurd ((searched.grows inv).template ⟨r, stored, indexed, named⟩)
          (admitted.untemplated ruleId params request)
    have set : Moves false s' (if params = [] then s'
        else setOptionalParams r (some params) s') := by
      split_ifs
      · exact .refl
      · exact .single (.params r (some params))
    dsimp only
    set last := if params = [] then s' else setOptionalParams r (some params) s'
    have inv' := searched.keeps inv
    have regular' : last.db.Regular r := by
      have lasts := (set.grows inv').rules r stored
      exact ⟨stored.trans_le (set.grows inv').size, lasts.indexed.trans regular.plain⟩
    have unlisted' : last.enqueueList = [] := by
      rw [set.enqueueList, searched.enqueueList, unlisted]
    have served : Ensures (Reboots last) (plain (fun s => .ok (enqueueRule r s)) last)
        (Served msg last) := plain_made ⟨fun _ => enqueueRule_made regular' unlisted',
        fun wait => by
      unfold enqueueRule at wait
      split_ifs at wait⟩
    refine (set.grows inv').since (served.mono fun out made =>
      ⟨fun answered => set.trans (made.answered answered),
        fun wait inbox => (set.steps _).trans (made.kept wait inbox)⟩)
  | terminateProcessSync ruleId =>
    exact withRule_made inv fun r s' searched _ _ =>
      plain_made (apiStop_made (searched.keeps inv) msg false true)
  | terminateProcess ruleId =>
    exact withRule_made inv fun r s' searched _ _ =>
      plain_made (apiStop_made (searched.keeps inv) msg false false)
  | killProcess ruleId =>
    exact withRule_made inv fun r s' searched _ _ =>
      plain_made (apiStop_made (searched.keeps inv) msg true false)
  | signalProcess ruleId sig =>
    refine withRule_made inv fun r s' searched _ _ => plain_made ?_
    unfold apiSignal
    split_ifs with user
    · unfold processSignalByRule
      cases points : (s'.rule r).proc with
      | none => exact ⟨fun _ => .refl, fun wait => by cases wait⟩
      | some a =>
        obtain ⟨p, found, _⟩ := (searched.keeps inv).attached r a points
        dsimp only
        rw [State.getProc_of_find found, ok_bind]
        split_ifs with up
        · exact ⟨fun _ => .single (.signal a p sig found up user), fun wait => by cases wait⟩
        · exact ⟨fun _ => .refl, fun wait => by cases wait⟩
    · exact ⟨fun _ => .refl, fun wait => by cases wait⟩
  | getRuleState ruleId =>
    exact withRule_made inv fun r s' _ _ _ => ⟨fun _ => .refl, fun wait => by cases wait⟩
  | unknown ruleId =>
    exact withRule_made inv fun r s' _ _ _ => ⟨fun _ => .refl, fun wait => by cases wait⟩

/-- **A message is answered, or kept** with the process that is waited for. -/
theorem checkMessage_made (inv : Invariant s) (unlisted : s.enqueueList = [])
    (arrival : Arrival) (admitted : Admitted s arrival.message) (inbox : List Message) :
    Ensures (Reboots s) (checkMessage arrival s) fun out =>
      out.1 = arrival.alloc ∧ Goes false inbox s (inbox ++ [arrival.message]) out.2 := by
  have changed : Moves false s (chldHandler arrival.children s) := chldHandler_made _ inv
  unfold checkMessage
  set middle := chldHandler arrival.children s
  set opened : State := { middle with nextMsg := middle.nextMsg + 1 }
  have received : Steps false (⟨inbox, none⟩, s)
      (⟨inbox ++ [arrival.message], some ⟨middle.nextMsg, arrival.message⟩⟩, opened) :=
    (changed.steps _).tail (.deliver (.receive arrival.message))
  have inv' : Invariant opened := Steps.keeps received inv
  have grows : Grows s opened := Steps.grows received inv
  have admitted' : Admitted opened arrival.message := ⟨admitted.magic,
    fun ruleId params request template =>
      admitted.untemplated ruleId params request (grows.template template)⟩
  have unlisted' : opened.enqueueList = [] := (Steps.enqueueList received).trans unlisted
  rw [admitted.magic]
  cases alloc : arrival.alloc with
  | false => exact ⟨rfl, received.tail (.deliver (.respond false _ .nok none))⟩
  | true =>
    refine grows.since ((serve_made inv' unlisted' ⟨middle.nextMsg, arrival.message⟩
      admitted').bind fun out made => ⟨rfl, ?_⟩)
    obtain ⟨retval, ruleState, last⟩ := out
    dsimp only
    split_ifs with wait
    · exact received.trans (made.kept wait _)
    · exact (received.trans ((made.answered wait).steps _)).tail
        (.deliver (.respond arrival.sent _ retval ruleState))

/-- The messages that are received in a round of the main loop: the last one is that whose reply
cannot be allocated, if there is one. -/
def received (arrivals : List Arrival) : List Message :=
  taken (arrivals.take messageBudget)
where
  taken : List Arrival → List Message
    | [] => []
    | arrival :: arrivals => arrival.message :: if arrival.alloc then taken arrivals else []

/-- **The messages are answered**, until the reply to one cannot be allocated. -/
theorem checkLoop_made (inv : Invariant s) (unlisted : s.enqueueList = [])
    (arrivals : List Arrival) (admitted : ∀ arrival ∈ arrivals, Admitted s arrival.message)
    (inbox : List Message) :
    Ensures (Reboots s) (checkLoop arrivals s)
      (Goes false inbox s (inbox ++ received.taken arrivals)) := by
  induction arrivals generalizing s inbox with
  | nil =>
    show Goes false inbox s (inbox ++ []) s
    rw [List.append_nil]
  | cons arrival arrivals ih =>
    have made := checkMessage_made inv unlisted arrival
      (admitted arrival List.mem_cons_self) inbox
    refine made.bind fun out made => ?_
    obtain ⟨more, middle⟩ := out
    obtain ⟨same, goes⟩ := made
    have grows := goes.grows inv
    dsimp only at same ⊢
    unfold received.taken
    rw [same]
    split_ifs
    · have rest := ih (goes.keeps inv) (goes.enqueueList.trans unlisted)
        (fun next member => ⟨(admitted next (List.mem_cons_of_mem _ member)).magic,
          fun ruleId params request template =>
            (admitted next (List.mem_cons_of_mem _ member)).untemplated ruleId params request
              (grows.template template)⟩) (inbox ++ [arrival.message])
      rw [List.append_assoc, List.singleton_append] at rest
      exact grows.since (rest.mono fun last more => goes.trans more)
    · exact goes

theorem checkMessages_made (inv : Invariant s) (unlisted : s.enqueueList = [])
    (arrivals : List Arrival) (admitted : ∀ arrival ∈ arrivals, Admitted s arrival.message)
    (inbox : List Message) :
    Ensures (Reboots s) (checkMessages arrivals s)
      (Goes false inbox s (inbox ++ received arrivals)) :=
  checkLoop_made inv unlisted _ (fun arrival member =>
    admitted arrival (List.mem_of_mem_take member)) inbox

end Clients

/-! ### The main loop -/

/-- The processes are started, and those on their way out are taken a step further. -/
theorem iterateProcesses_made (round : Round) {s : State} (inv : Invariant s)
    (unlisted : s.enqueueList = []) (inbox : List Message) :
    Ensures (Reboots s) (iterateProcesses round s) (Goes false inbox s inbox) := by
  refine (iterateStart_made round.starts inv).bind fun middle started => ?_
  have stopped : Ensures (Reboots s) (iterateStop round.retries round.stops middle)
      (Goes false inbox middle inbox) := (started.grows inv).since (iterateStop_made round.retries
    round.stops (Moves.keeps started inv) (started.enqueueList.trans unlisted))
  exact stopped.mono fun last more => (started.goes inbox).trans more

/-- **The parts of a round**: what is done for the clients, the iteration over the timers, and what
is done for the processes. -/
structure RoundMade (tick : Nat) (round : Round) (inbox : List Message) (s s' : State) : Prop where
  parts : ∃ first flag second, Goes false inbox s (inbox ++ received round.arrivals) first ∧
    timerIterate tick round.timers first = .ok (flag, second) ∧ Moves true first second ∧
    Goes false (inbox ++ received round.arrivals) second (inbox ++ received round.arrivals) s'
  unlisted : s'.enqueueList = []

theorem RoundMade.goes {tick : Nat} {round : Round} {inbox : List Message} {s s' : State}
    (made : RoundMade tick round inbox s s') :
    Goes true inbox s (inbox ++ received round.arrivals) s' := by
  obtain ⟨first, flag, second, served, _, timed, moved⟩ := made.parts
  exact ((served.timed true).trans (timed.goes _)).trans (moved.timed true)

/-- **A round of the main loop** goes wrong in no way, and is made of moves. -/
theorem mainRound_made (tick : Nat) {s : State} (inv : Invariant s) (unlisted : s.enqueueList = [])
    (round : Round) (admitted : ∀ arrival ∈ round.arrivals, Admitted s arrival.message)
    (inbox : List Message) :
    Ensures (Reboots s) (mainRound tick s round) (RoundMade tick round inbox s) := by
  unfold mainRound
  refine (checkMessages_made inv unlisted round.arrivals admitted inbox).bind fun first served => ?_
  have inv₁ := served.keeps inv
  have iterated := (served.grows inv).since (timerIterate_made tick round.timers inv₁)
  refine iterated.bind_ran fun out ran timed => ?_
  obtain ⟨processFlag, second⟩ := out
  obtain ⟨timed, unlisted₂⟩ := timed
  have inv₂ : Invariant second := Moves.keeps timed inv₁
  have ticked : ∀ (s : State) n, Moves false s { s with tickCounter := n } := fun s n =>
    .single (.tick n)
  dsimp only
  split_ifs
  · have grows : Grows s second := (served.grows inv).trans (Moves.grows timed inv₁)
    refine (grows.since (iterateProcesses_made round inv₂ unlisted₂
      (inbox ++ received round.arrivals))).bind fun last moved =>
        ⟨⟨first, processFlag, second, served, ran, timed, ?_⟩, moved.enqueueList.trans unlisted₂⟩
    exact moved.trans (Moves.goes ((ticked last 0).trans (ticked _ _)) _)
  · exact ⟨⟨first, processFlag, second, served, ran, timed, (ticked second _).goes _⟩, unlisted₂⟩

end CyberPlatform.Pcd
