/-
**The state of the process control daemon.**

The daemon keeps the rules, a list of process objects and a list of timer objects, one of each for
every rule that waits. What it does to the world outside is written to a log: the processes that it
starts and signals, the rules whose success it prints, and the messages that it answers and frees.

* `Env` — what the world answers, from one visit of a list element to the next.
* `Stop` — how the daemon ends: by a reboot, or by going wrong.
-/

import CyberPlatform.Foundation.Assoc
import CyberPlatform.Pcd.RulesDb

namespace CyberPlatform.Pcd

open Foundation

/-! ### Processes -/

/-- `procState_e` -/
inductive ProcState where
  | nothing
  | runme
  | starting
  | running
  | termme
  | killme
  | stopping
  | stopped
  deriving DecidableEq, Repr

/-- `procExit_e` -/
inductive ProcExit where
  | nothing
  | exited
  | signaled
  | stopped
  deriving DecidableEq, Repr

/-- `pcdApiRuleState_e` -/
inductive ApiRuleState where
  | idle
  | running
  | completedProcessRunning
  | completedProcessExited
  | notCompleted
  | failed
  deriving DecidableEq, Repr

/-- What a client asks for: the type of a `pcdApiMessage_t` and the fields that go with it. The
requests about the network priority have nothing to do with rules; `done` is what they return. -/
inductive Request where
  | processReady (pid : Int)
  | netRxPriority (done : Bool)
  | startProcess (ruleId : RuleId) (params : Text)
  | terminateProcessSync (ruleId : RuleId)
  | terminateProcess (ruleId : RuleId)
  | killProcess (ruleId : RuleId)
  | signalProcess (ruleId : RuleId) (sig : Int)
  | getRuleState (ruleId : RuleId)
  | unknown (ruleId : RuleId)
  deriving DecidableEq, Repr

/-- A datagram: whether it has the magic number of `IPC_message_t`, and the `pcdApiMessage_t`. -/
structure Message where
  magic : Bool
  msgId : Nat
  request : Request
  deriving DecidableEq, Repr

/-- `IPC_message_t *`: a message that has been received, under its number. -/
structure Incoming where
  ref : Nat
  message : Message
  deriving DecidableEq, Repr

/-- `procObj_t` -/
structure Proc where
  rule : RuleRef
  pid : Int
  state : ProcState
  retstat : ProcExit
  retcode : Nat
  tm : Nat
  signaled : Bool
  cookie : Option Incoming
  deriving DecidableEq, Repr

/-! ### Timers -/

/-- `timerObj_t`, and whether it is in the list of the objects to be dequeued: an object is put
there at most once before that list is handled. -/
structure TimerObj where
  rule : RuleRef
  timeout : Nat
  dequeue : Bool
  deriving DecidableEq, Repr

/-! ### The world -/

/-- How a child has changed: what `waitpid` tells of it. -/
inductive WaitStatus where
  | exited (status : Nat)
  | signaled (sig : Nat)
  | stopped (sig : Nat)
  | other
  deriving DecidableEq, Repr

/-- A child that `waitpid` has returned. -/
structure Child where
  pid : Int
  positive : 0 < pid
  status : WaitStatus

/-- **What the world answers** while one element of a list is visited: the children whose signal has
come before, the files, network devices, owners and variables that are there, how `malloc`, `fork`
and `kill` end, and whether a reply can be allocated and sent. -/
structure Env where
  children : List Child
  stat : Text → Bool
  hardwareAddress : Text → Bool
  ipcOwner : Nat → Bool
  getenv : Text → Option Text
  malloc : Bool
  fork : Int
  kill : Bool
  alloc : Bool
  sent : Bool

/-- What the daemon does to the world. -/
inductive Note where
  /-- the printout of a rule that has completed -/
  | success (rule : RuleRef)
  /-- the process of an object has been forked -/
  | starting (proc : ProcRef) (rule : RuleRef) (pid : Int)
  | kill (pid : Int) (sig : Int)
  /-- `IPC_cleanup_proc` -/
  | cleanup (pid : Int)
  | reply (msg : Nat) (msgId : Nat) (retval : Status) (ruleState : Option ApiRuleState)
  /-- the reply to a message could not be allocated or sent -/
  | unanswered (msg : Nat)
  | free (msg : Nat)
  /-- `PCD_process_free` -/
  | release (proc : ProcRef) (p : Proc)
  deriving DecidableEq, Repr

/-- How the daemon ends. -/
inductive Stop where
  /-- it takes the system down -/
  | reboot
  | nullPointer
  | useAfterFree
  | endless
  deriving DecidableEq, Repr

/-! ### The state -/

/-- **The state of the daemon**, with the number of process objects and messages so far. -/
structure State where
  db : RulesDb
  procList : List (ProcRef × Proc)
  timerObjs : List TimerObj
  enqueueList : List RuleRef
  tickCounter : Nat
  nextProc : ProcRef
  nextMsg : Nat
  log : List Note

namespace State

variable (s : State)

/-- The daemon in front of the first rule of its file. -/
def initial : State := ⟨.empty, [], [], [], 0, 0, 0, []⟩

def rule (r : RuleRef) : Rule := s.db.memory r

def setRule (r : RuleRef) (rule : Rule) : State :=
  { s with db := { s.db with memory := Function.update s.db.memory r rule } }

def setState (r : RuleRef) (ruleState : RuleState) : State :=
  s.setRule r { s.rule r with ruleState }

/-- A `procObj_t` is read through a pointer that should not dangle. -/
def getProc (a : ProcRef) : Except Stop Proc :=
  match Assoc.find a s.procList with
  | some p => .ok p
  | none => .error .useAfterFree

def setProc (a : ProcRef) (p : Proc) : State := { s with procList := Assoc.put a p s.procList }

def note (n : Note) : State := { s with log := s.log ++ [n] }

/-! ### What is at a pointer behind a store -/

variable {s} {r r' : RuleRef} {x : Rule} {a a' : ProcRef} {p : Proc}

theorem rule_setRule : (s.setRule r x).rule r' = if r' = r then x else s.rule r' := by
  show Function.update s.db.memory r x r' = _
  rw [Function.update_apply]
  rfl

@[simp] theorem rule_setRule_self : (s.setRule r x).rule r = x := by rw [rule_setRule, if_pos rfl]

theorem rule_setRule_of_ne (differ : r' ≠ r) : (s.setRule r x).rule r' = s.rule r' := by
  rw [rule_setRule, if_neg differ]

/-- **What a store keeps of a rule**, it keeps of all. -/
theorem kept_setRule {β : Type} (f : Rule → β) (same : f x = f (s.rule r)) (r' : RuleRef) :
    f ((s.setRule r x).rule r') = f (s.rule r') := by
  rw [rule_setRule]
  split_ifs with here
  · rw [here, same]
  · rfl

/-- A store that writes what is there. -/
theorem setRule_rule : s.setRule r (s.rule r) = s := by
  show { s with db := { s.db with memory := Function.update s.db.memory r (s.db.memory r) } } = s
  rw [Function.update_eq_self]

theorem setRule_setRule {y : Rule} : (s.setRule r x).setRule r y = s.setRule r y := by
  show { s with db := { s.db with
    memory := Function.update (Function.update s.db.memory r x) r y } } = _
  rw [Function.update_idem]
  rfl

/-- A process object that is there is read. -/
theorem getProc_of_find (found : Assoc.find a s.procList = some p) : s.getProc a = .ok p := by
  rw [getProc, found]

end State

end CyberPlatform.Pcd
