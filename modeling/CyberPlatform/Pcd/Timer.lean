/-
**The timers of the rules, and their failure actions.**

A rule that has been enqueued has a timer object. Every tick, `timerIterate` goes through the
objects: it starts the process of a rule whose start condition holds, takes away a rule whose end
condition holds, and counts down the time of the others. What is to be taken away or enqueued in the
course of that is noted, and done at its end.
-/

import CyberPlatform.Pcd.Condchk
import CyberPlatform.Pcd.Process

namespace CyberPlatform.Pcd

open Foundation

/-! ### Failure actions -/

/-- `PCD_failure_action_RESTART` -/
def failureActionRestart (rule : RuleRef) (s : State) :
    Except Stop (Option RuleRef × State) := do
  if (s.rule rule).proc.isSome then
    let (_, s) ← processStop rule true none s
    return (some rule, s)
  else return (some rule, s)

/-- `PCD_failure_action_EXEC_RULE` -/
def failureActionExecRule (ruleId : RuleId) (s : State) :
    Except Stop (Option RuleRef × State) := do
  let (execRule, db) := s.db.getRuleById ruleId
  let s := { s with db }
  match execRule with
  | none => return (none, s)
  | some execRule =>
    if (s.rule execRule).ruleState.waiting then return (none, s)
    else failureActionRestart execRule s

/-- `failureActionFunc`: the rule that is to be enqueued -/
def failureAction (rule : RuleRef) (s : State) : Except Stop (Option RuleRef × State) :=
  match (s.rule rule).failureAction with
  | .none => .ok (none, s)
  -- the signal that the daemon sends to itself is handled at once
  | .reboot => .error .reboot
  | .restart => failureActionRestart rule s
  | .execRule ruleId => failureActionExecRule ruleId s

/-! ### Enqueuing and dequeuing -/

/-- `PCD_timer_new` and `PCD_timer_enqueue` -/
def timerEnqueue (rule : RuleRef) (s : State) : State :=
  { s with timerObjs := s.timerObjs ++ [⟨rule, (s.rule rule).timeout, false⟩] }

/-- `PCD_timer_enqueue_rule`, where memory is granted -/
def enqueueRule (rule : RuleRef) (s : State) : Status × State :=
  if (s.rule rule).ruleState.waiting ∨ (s.rule rule).proc.isSome then (.invalidRule, s)
  else (.ok, timerEnqueue rule (s.setState rule .startConditionWaiting))

/-- The state of a rule whose timer object has been taken away -/
def RuleState.dequeued (failed : Bool) : RuleState → RuleState
  | state =>
    if failed then .failed
    else if state = .completed ∨ state = .idle then state
    else .notCompleted

/-- `PCD_timer_dequeue_rule` -/
def dequeueRule (rule : RuleRef) (failed : Bool) (s : State) : Except Stop (Status × State) := do
  if s.timerObjs.any fun obj => obj.rule = rule then
    let (_, s) ← if (s.rule rule).proc.isSome then processStop rule false none s else .ok (.ok, s)
    let s := { s with timerObjs := s.timerObjs.eraseP fun obj => obj.rule = rule }
    return (.ok, s.setState rule ((s.rule rule).ruleState.dequeued failed))
  else return (.invalidRule, s)

/-- `PCD_timer_add_to_dequeue_list`, where memory is granted -/
def addToDequeueList (i : Nat) (s : State) : State :=
  { s with timerObjs := s.timerObjs.modify i fun obj => { obj with dequeue := true } }

/-- `PCD_timer_add_to_enqueue_list`, where memory is granted -/
def addToEnqueueList (rule : Option RuleRef) (s : State) : State :=
  match rule with
  | none => s
  | some rule => { s with enqueueList := rule :: s.enqueueList }

/-- `PCD_timer_dequeue_handle` -/
def dequeueHandle (s : State) : State :=
  { s with timerObjs := s.timerObjs.filter fun obj => !obj.dequeue }

/-- A round of `PCD_timer_enqueue_handle` -/
def enqueueHandleRound (s : State) (rule : RuleRef) : State :=
  timerEnqueue rule (s.setState rule .startConditionWaiting)

/-- `PCD_timer_enqueue_handle` -/
def enqueueHandle (s : State) : State :=
  { s.enqueueList.foldl enqueueHandleRound s with enqueueList := [] }

/-! ### The visit of a timer object -/

section Visit

variable (env : Env) (i : Nat) (obj : TimerObj)

/-- `PCD_timer_handle_start_condition` -/
def handleStartCondition (s : State) : Except Stop (Bool × State) := do
  let rule := obj.rule
  let (retval, s) := startCondCheck env rule s
  if retval ≠ .ok then return (false, s)
  match (s.rule rule).command with
  | none => .error .nullPointer
  | some command =>
    if strcmp command "NONE".toList = 0 then
      return (false, s.setState rule .endConditionWaiting)
    let (retval, s) ← processEnqueue env rule s
    if retval = .ok then return (true, s.setState rule .endConditionWaiting)
    else if retval = .invalidRule then
      -- "how could this be??"
      let (_, s) ← processStop rule true none s
      return (true, s)
    else
      let s := addToDequeueList i (s.setState rule .failed)
      let (execRule, s) ← failureAction rule s
      return (false, addToEnqueueList execRule s)

/-- What `PCD_timer_handle_end_condition` leaves of a timeout -/
def countdown (tick timeout : Nat) : Nat := if timeout ≤ tick then 0 else timeout - tick

/-- `PCD_timer_handle_end_condition` -/
def handleEndCondition (tick : Nat) (s : State) : Except Stop (Bool × State) := do
  let rule := obj.rule
  let (retval, s) ← endCondCheck env rule tick s
  if retval = .ok then
    -- the printout shows the pid
    if let some a := (s.rule rule).proc then
      let _ ← s.getProc a
    return (false, addToDequeueList i ((s.setState rule .completed).note (.success rule)))
  else if obj.timeout = forever then return (false, s)
  else if obj.timeout = 0 then
    let (_, s) ← if (s.rule rule).proc.isSome then processStop rule true none s else .ok (.ok, s)
    let s := addToDequeueList i (s.setState rule .notCompleted)
    let (execRule, s) ← failureAction rule s
    return (true, addToEnqueueList execRule s)
  else
    let timeout := countdown tick obj.timeout
    return (false, { s with timerObjs := s.timerObjs.modify i fun obj => { obj with timeout } })

/-- The visit of an object in `PCD_timer_iterate` -/
def timerVisit (tick : Nat) (s : State) : Except Stop (Bool × State) :=
  match (s.rule obj.rule).ruleState with
  | .startConditionWaiting => handleStartCondition env i obj s
  | .endConditionWaiting => handleEndCondition env i obj tick s
  | _ => .ok (false, addToDequeueList i s)

end Visit

/-- A round of the loop of `PCD_timer_iterate`: object number `i` -/
def timerRound (tick : Nat) (envs : Nat → Env) (state : Bool × State) (i : Nat) :
    Except Stop (Bool × State) := do
  let s := chldHandler (envs i).children state.2
  match s.timerObjs[i]? with
  | none => return (state.1, s)
  | some obj =>
    let (processFlag, s) ← timerVisit (envs i) i obj tick s
    return (state.1 || processFlag, s)

/-- `PCD_timer_iterate`, where the timer has been started. The loop neither adds nor removes
objects, so it goes through those that are there at its begin. -/
def timerIterate (tick : Nat) (envs : Nat → Env) (s : State) : Except Stop (Bool × State) := do
  let (processFlag, s) ← (List.range s.timerObjs.length).foldlM (timerRound tick envs) (false, s)
  return (processFlag, enqueueHandle (dequeueHandle s))

end CyberPlatform.Pcd
