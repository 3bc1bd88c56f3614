/-
**The main loop of the process control daemon.**

Every tick the daemon answers its clients and goes through its timers; when a process was started or
stopped by that, and otherwise every 1500 milliseconds, it goes through its processes: first it
starts those that are to be started (`iterateStart`), and then takes those that are on their way out
a step further (`iterateStop`).
-/

import CyberPlatform.Pcd.Api

namespace CyberPlatform.Pcd

open Foundation

/-- `PCD_process_trigger_action` -/
def triggerAction (rule : RuleRef) (s : State) : Except Stop (Status × State) := do
  let (_, s) ← dequeueRule rule true s
  let (tmpRule, s) ← failureAction rule s
  match tmpRule with
  | none => return (.ok, s)
  | some tmpRule => return enqueueRule tmpRule s

/-! ### Processes on their way out -/

/-- Whether a process that has exited on its own has failed -/
def Proc.exitFailed (p : Proc) (rule : Rule) : Bool :=
  rule.daemon ||
    match rule.endCondition with
    | .exit exitStatus => p.retcode ≠ exitStatus
    | _ => p.retcode ≠ 0

/-- What is done for a process that has stopped, by the way in which it ended: `true` where it is to
be tried again -/
def stoppedAction (env : Env) (p : Proc) (s : State) : Except Stop (Bool × State) :=
  let replied (s : State) : Except Stop (Bool × State) :=
    .ok (false, replyMessage env.alloc env.sent p.cookie .ok s)
  let trigger (s : State) : Except Stop (Bool × State) := do
    let (retval, s) ← triggerAction p.rule s
    return (retval ≠ .ok, s)
  match p.retstat with
  | .nothing => .ok (false, s)
  | .exited =>
    if p.signaled then replied s
    else if p.exitFailed (s.rule p.rule) then trigger s
    else .ok (false, s)
  | .signaled =>
    if p.signaled then replied s
    else if (s.rule p.rule).daemon then trigger s
    else .ok (false, s)
  | .stopped => trigger s

/-- A rule whose process has stopped is disconnected from it -/
def disconnect (a : ProcRef) (rule : RuleRef) (s : State) : State :=
  if (s.rule rule).proc = some a then s.setRule rule { s.rule rule with proc := none } else s

/-- `PCD_process_free` of a process that has been taken out of the list -/
def release (a : ProcRef) (p : Proc) (s : State) : State :=
  { s with procList := Assoc.drop a s.procList }.note (.release a p)

/-- The visit of a process that has stopped: its object is freed, or it is to be tried again -/
def stoppedVisit (env : Env) (a : ProcRef) (p : Proc) (s : State) : Except Stop (Bool × State) := do
  let s := (disconnect a p.rule s).note (.cleanup p.pid)
  let (again, s) ← stoppedAction env p s
  if again then return (true, s) else return (false, release a p s)

/-- The visit of a process in `PCD_process_iterate_stop`: `true` where it is to be tried again -/
def stopVisit (env : Env) (a : ProcRef) (s : State) : Except Stop (Bool × State) := do
  let p ← s.getProc a
  match p.state with
  | .stopping => return (false, s.setProc a { p with state := .stopped })
  | .stopped => stoppedVisit env a p s
  | .termme =>
    -- one process is terminated at a time
    if s.procList.any fun entry => entry.2.state = .killme then return (false, s)
    else if 0 < p.pid then
      let state := if env.kill then .killme else .stopped
      let s := s.setProc a { p with state, tm := 7, signaled := true }
      return (false, s.note (.kill p.pid sigterm))
    else return (false, s.setProc a { p with state := .stopped })
  | .killme =>
    if p.tm = 0 then
      if 0 < p.pid then
        let s := s.setProc a { p with state := .stopped, signaled := true }
        return (false, s.note (.kill p.pid sigkill))
      else return (false, s.setProc a { p with state := .stopped })
    else return (false, s.setProc a { p with tm := p.tm - 1 })
  | .runme => return (false, s.setProc a { p with state := .stopped })
  | _ => return (false, s)

/-- The loop of `PCD_process_iterate_stop` from visit `i` on, for at most `fuel` visits: a process
that is to be tried again is visited again at once. -/
def stopLoop (envs : Nat → Env) : Nat → Nat → List ProcRef → State → Except Stop State
  | _, _, [], s => .ok s
  | 0, _, _ :: _, _ => .error .endless
  | fuel + 1, i, a :: rest, s => do
    let (again, s) ← stopVisit (envs i) a (chldHandler (envs i).children s)
    stopLoop envs fuel (i + 1) (if again then a :: rest else rest) s

/-- `PCD_process_iterate_stop`, where no more than `retries` visits are repeated -/
def iterateStop (retries : Nat) (envs : Nat → Env) (s : State) : Except Stop State :=
  stopLoop envs (s.procList.length + retries) 0 (s.procList.map Prod.fst) s

/-! ### The main loop -/

/-- `PCD_PROCESS_TICK` -/
def processTick : Nat := 1500

/-- What the world does in one round of the main loop. -/
structure Round where
  arrivals : List Arrival
  timers : Nat → Env
  starts : Nat → Env
  stops : Nat → Env
  retries : Nat

/-- `PCD_process_iterate_start` and `PCD_process_iterate_stop` -/
def iterateProcesses (round : Round) (s : State) : Except Stop State := do
  let s ← iterateStart round.starts s
  iterateStop round.retries round.stops s

/-- The body of the loop of `PCD_main_loop`, for a timer tick of `tick` milliseconds -/
def mainRound (tick : Nat) (s : State) (round : Round) : Except Stop State := do
  let s ← checkMessages round.arrivals s
  let (processFlag, s) ← timerIterate tick round.timers s
  let s ←
    if processFlag ∨ processTick ≤ s.tickCounter then do
      let s ← iterateProcesses round s
      pure { s with tickCounter := 0 }
    else pure s
  return { s with tickCounter := s.tickCounter + tick }

/-! ### The start of the daemon -/

/-- The loop of `PCD_rulesdb_activate` -/
def activateLoop : Nat → Option RuleRef × RulesDb.Cursor → State → Status × State
  | fuel + 1, (some rule, cursor), s =>
    if (s.rule rule).ruleState = .active then
      let (retval, s) := enqueueRule rule s
      if retval = .ok then activateLoop fuel (RulesDb.getNext cursor) s else (.nok, s)
    else activateLoop fuel (RulesDb.getNext cursor) s
  | _, _, s => (.ok, s)

/-- `PCD_rulesdb_activate` -/
def activate (s : State) : Status × State := activateLoop s.db.size s.db.getFirst s

end CyberPlatform.Pcd
