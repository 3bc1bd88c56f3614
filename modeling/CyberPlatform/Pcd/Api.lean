/-
**The requests of the clients.**

A client asks the daemon to start, stop or signal the process of a rule, or for the state of a rule.
Every message is answered and freed, except for that of a client that waits for the end of a
process: it is kept with the process, and answered and freed when the process has ended. A message
whose reply cannot be allocated or sent is freed without an answer.
-/

import CyberPlatform.Pcd.Timer

namespace CyberPlatform.Pcd

open Foundation

/-- What tells of the answer to a message: whether `IPC_reply_msg` has sent it -/
def replyNote (sent : Bool) (msg : Incoming) (retval : Status)
    (ruleState : Option ApiRuleState) : Note :=
  if sent then .reply msg.ref msg.message.msgId retval ruleState else .unanswered msg.ref

/-- An answer that is sent, or cannot be sent, and the message that is freed behind it -/
def answer (sent : Bool) (msg : Incoming) (retval : Status) (ruleState : Option ApiRuleState)
    (s : State) : State :=
  (s.note (replyNote sent msg retval ruleState)).note (.free msg.ref)

/-- `PCD_api_reply_message`: a reply that cannot be allocated is not sent either. -/
def replyMessage (alloc sent : Bool) (cookie : Option Incoming) (retval : Status) (s : State) :
    State :=
  match cookie with
  | none => s
  | some msg => answer (alloc && sent) msg retval none s

/-- `PCD_rulesdb_setup_optional_params` and `PCD_rulesdb_clear_optional_params` -/
def setOptionalParams (rule : RuleRef) (optionalParams : Option Text) (s : State) : State :=
  s.setRule rule { s.rule rule with optionalParams }

/-- `PCD_api_stop` -/
def apiStop (rule : RuleRef) (brutal : Bool) (cookie : Option Incoming) (s : State) :
    Except Stop (Status × State) := do
  let s := setOptionalParams rule none s
  let (retval, s) ← dequeueRule rule false s
  if retval = .invalidRule then
    let (retval, s) ← processStop rule brutal cookie s
    if retval = .ok then
      return (if cookie.isSome then .wait else retval, s.setState rule .idle)
    else return (retval, s)
  else return (retval, s)

/-- `PCD_api_signal` -/
def apiSignal (rule : RuleRef) (sig : Int) (s : State) : Except Stop (Status × State) :=
  if sig = sigusr1 ∨ sig = sigusr2 then processSignalByRule rule sig s else .ok (.badParams, s)

/-- The state of a rule as a client sees it -/
def Rule.apiState (rule : Rule) : ApiRuleState :=
  match rule.ruleState with
  | .idle => .idle
  | .active | .startConditionWaiting | .endConditionWaiting => .running
  | .completed => if rule.proc.isSome then .completedProcessRunning else .completedProcessExited
  | .failed => .failed
  | .notCompleted => .notCompleted

/-- The event of a process that is ready -/
def apiProcessReady (pid : Int) (s : State) : Status × State :=
  match getRuleByPid pid s with
  | none => (.invalidRule, s)
  | some rule =>
    match (s.rule rule).endCondition with
    | .processReady _ =>
      (.ok, s.setRule rule { s.rule rule with endCondition := .processReady true })
    | _ => (.badParams, s)

/-- A request about a rule, whose id is looked up first -/
def withRule (ruleId : RuleId) (s : State)
    (serve : RuleRef → State → Except Stop (Status × Option ApiRuleState × State)) :
    Except Stop (Status × Option ApiRuleState × State) :=
  let (rule, db) := s.db.getRuleById ruleId
  let s := { s with db }
  match rule with
  | none => .ok (.invalidRule, none, s)
  | some rule => serve rule s

/-- A request that is answered with its status only -/
def plain (request : State → Except Stop (Status × State)) (s : State) :
    Except Stop (Status × Option ApiRuleState × State) := do
  let (retval, s) ← request s
  return (retval, none, s)

/-- The handling of a message in `PCD_api_check_messages`: the status and the state of the rule that
are sent back -/
def serve (msg : Incoming) (s : State) : Except Stop (Status × Option ApiRuleState × State) :=
  match msg.message.request with
  | .processReady pid => plain (fun s => .ok (apiProcessReady pid s)) s
  | .netRxPriority done => .ok (.ofBool done, none, s)
  | .startProcess ruleId params =>
    withRule ruleId s fun rule s =>
      let s := if params = [] then s else setOptionalParams rule (some params) s
      plain (fun s => .ok (enqueueRule rule s)) s
  | .terminateProcessSync ruleId => withRule ruleId s fun rule =>
    plain (apiStop rule false (some msg))
  | .terminateProcess ruleId => withRule ruleId s fun rule => plain (apiStop rule false none)
  | .killProcess ruleId => withRule ruleId s fun rule => plain (apiStop rule true none)
  | .signalProcess ruleId sig => withRule ruleId s fun rule => plain (apiSignal rule sig)
  | .getRuleState ruleId =>
    withRule ruleId s fun rule s => .ok (.ok, some (s.rule rule).apiState, s)
  | .unknown ruleId => withRule ruleId s fun _ s => .ok (.badParams, none, s)

/-- A message that comes behind the signals of some children, and whether the reply to it can be
allocated and sent. -/
structure Arrival where
  children : List Child
  message : Message
  alloc : Bool
  sent : Bool

/-- A round of `PCD_api_check_messages`: `false` where the function returns for want of a reply -/
def checkMessage (arrival : Arrival) (s : State) : Except Stop (Bool × State) := do
  let s := chldHandler arrival.children s
  let msg : Incoming := ⟨s.nextMsg, arrival.message⟩
  let s := { s with nextMsg := s.nextMsg + 1 }
  -- `IPC_get_msg` gives no data of a message without the magic number
  if !arrival.message.magic then .error .nullPointer
  else if !arrival.alloc then return (false, answer false msg .nok none s)
  else
    let (retval, ruleState, s) ← serve msg s
    return (true, if retval = .wait then s else answer arrival.sent msg retval ruleState s)

/-- The budget of `PCD_api_check_messages` -/
def messageBudget : Nat := 5

/-- The loop of `PCD_api_check_messages` -/
def checkLoop : List Arrival → State → Except Stop State
  | [], s => .ok s
  | arrival :: arrivals, s => do
    let (more, s) ← checkMessage arrival s
    if more then checkLoop arrivals s else return s

/-- `PCD_api_check_messages`, for the messages that are there -/
def checkMessages (arrivals : List Arrival) (s : State) : Except Stop State :=
  checkLoop (arrivals.take messageBudget) s

end CyberPlatform.Pcd
