/-
**The processes of the rules.**

A process object is made by `processEnqueue`, gets its process in `iterateStart`, and is on its way
out from `processStop` on, or from the signal by which its process tells that it has ended. The
functions that take it further are in `Main`, because they look at the timers.
-/

import CyberPlatform.Pcd.State

namespace CyberPlatform.Pcd

open Foundation

def sigterm : Int := 15
def sigkill : Int := 9
def sigusr1 : Int := 10
def sigusr2 : Int := 12

/-- `PCD_process_new` -/
def processNew (rule : RuleRef) : Proc where
  rule := rule
  pid := 0
  state := .runme
  retstat := .nothing
  retcode := 0
  tm := 0
  signaled := false
  cookie := none

/-! ### Children that have changed -/

/-- What `PCD_process_chld` writes to the object of a child -/
def Proc.chld (p : Proc) : WaitStatus → Proc
  | .exited status => { p with retstat := .exited, retcode := status, state := .stopping }
  | .signaled sig => { p with retstat := .signaled, retcode := sig, state := .stopping }
  | .stopped sig => { p with retstat := .stopped, retcode := sig, state := .stopping }
  | .other => { p with state := .stopping }

/-- `PCD_process_chld` -/
def processChld (s : State) (child : Child) : State :=
  match s.procList.find? fun entry => entry.2.pid = child.pid with
  | none => s
  | some (a, p) => s.setProc a (p.chld child.status)

/-- `PCD_process_chld_handler` -/
def chldHandler (children : List Child) (s : State) : State := children.foldl processChld s

/-! ### Starting and stopping -/

/-- `PCD_process_enqueue` -/
def processEnqueue (env : Env) (rule : RuleRef) (s : State) : Except Stop (Status × State) := do
  match (s.rule rule).proc with
  | some a =>
    -- the warning prints the pid
    let _ ← s.getProc a
    return (.invalidRule, s)
  | none =>
    if env.malloc then
      let s := { s with
        procList := (s.nextProc, processNew rule) :: s.procList
        nextProc := s.nextProc + 1 }
      return (.ok, s.setRule rule { s.rule rule with proc := some (s.nextProc - 1) })
    else return (.nok, s)

/-- What `PCD_process_stop` writes to the object of a process: one that has exited on its own counts
as signaled. -/
def Proc.stop (p : Proc) (brutal : Bool) (cookie : Option Incoming) : Proc :=
  { p with
    signaled := p.signaled || p.state = .stopped || p.state = .stopping
    state := if brutal then .killme else .termme
    tm := 0
    cookie }

/-- A process that `PCD_process_stop` stops -/
def ProcState.stoppable : ProcState → Bool
  | .stopped | .stopping | .starting | .running | .runme => true
  | .nothing | .termme | .killme => false

/-- `PCD_process_stop` -/
def processStop (rule : RuleRef) (brutal : Bool) (cookie : Option Incoming) (s : State) :
    Except Stop (Status × State) := do
  match (s.rule rule).proc with
  | none => return (.invalidRule, s)
  | some a =>
    let p ← s.getProc a
    if p.state.stoppable then
      let s := s.setProc a (p.stop brutal cookie)
      return (.ok, s.setRule rule { s.rule rule with proc := none })
    else return (.invalidRule, s)

/-- `PCD_process_signal_by_rule` -/
def processSignalByRule (rule : RuleRef) (sig : Int) (s : State) :
    Except Stop (Status × State) := do
  match (s.rule rule).proc with
  | none => return (.invalidRule, s)
  | some a =>
    let p ← s.getProc a
    if p.state = .starting ∨ p.state = .running then return (.ok, s.note (.kill p.pid sig))
    else return (.invalidRule, s)

/-- `PCD_process_get_rule_by_pid` -/
def getRuleByPid (pid : Int) (s : State) : Option RuleRef :=
  (s.procList.find? fun entry => entry.2.pid = pid).map fun entry => entry.2.rule

/-! ### Forking -/

/-- The visit of a process in `PCD_process_iterate_start`; the child's side of
`PCD_process_spawn` is not the daemon. -/
def startVisit (env : Env) (s : State) (a : ProcRef) : Except Stop State := do
  let p ← s.getProc a
  match p.state with
  | .runme =>
    let s := s.setProc a { p with pid := env.fork, state := .starting, tm := 3 }
    return s.note (.starting a p.rule env.fork)
  | .starting =>
    if p.tm = 0 then return s.setProc a { p with state := .running }
    else return s.setProc a { p with tm := p.tm - 1 }
  | _ => return s

/-- `PCD_process_iterate_start`; `envs` is the world at the first, second, … visit -/
def iterateStart (envs : Nat → Env) (s : State) : Except Stop State :=
  (s.procList.map Prod.fst).zipIdx.foldlM
    (fun s visit => startVisit (envs visit.2) (chldHandler (envs visit.2).children s) visit.1) s

end CyberPlatform.Pcd
