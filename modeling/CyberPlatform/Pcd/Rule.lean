/-
**The rules of the process control daemon.**

A rule says when a process is started (`StartCond`), when it counts as up (`EndCond`), how long it
may take (`timeout`) and what happens if it does not (`FailureAction`). A `rule_t *` is a number, as
is a `procObj_t *`: rules are never freed, and a process is in the list of the processes exactly as
long as it is allocated.
-/

import CyberPlatform.Foundation.CString
import Mathlib.Algebra.Group.Nat.Defs

namespace CyberPlatform.Pcd

open Foundation

/-- `ruleId_t` -/
structure RuleId where
  groupName : Text
  ruleName : Text
  deriving DecidableEq, Repr

/-- `rule_t *` -/
abbrev RuleRef := Nat

/-- `procObj_t *` -/
abbrev ProcRef := Nat

/-- `PCD_START_COND_MAX_IDS` -/
def startCondMaxIds : Nat := 8

/-- `ruleCache_t`: a rule that has to complete, and where it was found -/
structure RuleCache where
  rule : Option RuleRef
  ruleId : RuleId
  deriving DecidableEq, Repr

/-- `startCond_t`. Of the ids behind `ruleCompleted`, those in front of the first empty one count.
-/
inductive StartCond where
  | none
  | file (filename : Text)
  | ruleCompleted (ids : List RuleCache)
  | netDevice (netDevice : Text)
  | ipcOwner (ipcOwner : Nat)
  | envVar (envVarName envVarValue : Text)
  deriving DecidableEq, Repr

/-- `endCond_t` -/
inductive EndCond where
  | none
  | file (filename : Text)
  | exit (exitStatus : Nat)
  | netDevice (netDevice : Text)
  | ipcOwner (ipcOwner : Nat)
  | processReady (processReady : Bool)
  /-- what is left of the delay, and the delay -/
  | wait (left delay : Nat)
  deriving DecidableEq, Repr

/-- `failureAction_t` -/
inductive FailureAction where
  | none
  | reboot
  | restart
  | execRule (ruleId : RuleId)
  deriving DecidableEq, Repr

/-- `schedType_t` -/
inductive SchedType where
  | fifo (fifoSched : Int)
  | nice (niceSched : Int)
  deriving DecidableEq, Repr

/-- `pcdRuleState_e` -/
inductive RuleState where
  | idle
  | active
  | startConditionWaiting
  | endConditionWaiting
  | completed
  | notCompleted
  | failed
  deriving DecidableEq, Repr

/-- The macro `PCD_RULE_ACTIVE` -/
def RuleState.waiting : RuleState → Bool
  | .startConditionWaiting | .endConditionWaiting => true
  | _ => false

/-- The timeout `~0` -/
def forever : Nat := 2 ^ 32 - 1

/-- `rule_t`. The chain of a group is kept by its group. -/
structure Rule where
  ruleId : RuleId
  startCondition : StartCond
  endCondition : EndCond
  timeout : Nat
  command : Option Text
  params : Option Text
  optionalParams : Option Text
  failureAction : FailureAction
  sched : SchedType
  daemon : Bool
  uid : Nat
  ruleState : RuleState
  indexed : Bool
  proc : Option ProcRef
  deriving DecidableEq, Repr

/-- `memset( &rule, 0, sizeof( rule_t ) )` -/
def Rule.zero : Rule where
  ruleId := ⟨[], []⟩
  startCondition := .none
  endCondition := .none
  timeout := 0
  command := none
  params := none
  optionalParams := none
  failureAction := .none
  sched := .fifo 0
  daemon := false
  uid := 0
  ruleState := .idle
  indexed := false
  proc := none

/-- `PCD_status_e` -/
inductive Status where
  | ok
  | wait
  | nok
  | invalidRule
  | badParams
  | timeout
  deriving DecidableEq, Repr

end CyberPlatform.Pcd
