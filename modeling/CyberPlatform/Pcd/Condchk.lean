/-
**The conditions of a rule.**

`startCondCheck` and `endCondCheck` look at the world, at the states of the other rules, and at the
process of the rule. A rule that has been found once is remembered by the condition that names it.
-/

import CyberPlatform.Pcd.State

namespace CyberPlatform.Pcd

open Foundation

/-- The entry of a condition that remembers where its rule was found -/
def StartCond.setCache (i : Nat) (found : Option RuleRef) : StartCond → StartCond
  | .ruleCompleted ids => .ruleCompleted (ids.modify i fun entry => { entry with rule := found })
  | other => other

/-- A status that tells whether something holds -/
def Status.ofBool (holds : Bool) : Status := if holds then .ok else .nok

section Conditions

variable (env : Env) (rule : RuleRef)

/-- The rule that entry `i` of a condition names: from the cache, or from the database, and then it
is stored in the cache. -/
def fetchRule (i : Nat) (entry : RuleCache) (s : State) : Option RuleRef × State :=
  match entry.rule with
  | some checkRule => (some checkRule, s)
  | none =>
    let (checkRule, db) := s.db.getRuleById entry.ruleId
    let s := { s with db }
    let startCondition := (s.rule rule).startCondition.setCache i checkRule
    (checkRule, s.setRule rule { s.rule rule with startCondition })

/-- `PCD_start_cond_check_RULE_COMPLETED` from entry `i` on -/
def checkRuleCompleted (i : Nat) : List RuleCache → State → Status × State
  | [], s => (.ofBool (0 < i), s)
  | entry :: rest, s =>
    if entry.ruleId.groupName = [] then (.ofBool (0 < i), s)
    else
      let (checkRule, s) := fetchRule rule i entry s
      match checkRule with
      | none => (.nok, s.setState rule .notCompleted)
      | some checkRule =>
        if (s.rule checkRule).ruleState = .completed then checkRuleCompleted (i + 1) rest s
        else (.nok, s)

/-- `PCD_start_cond_check_ENV_VAR` -/
def checkEnvVar (envVarName envVarValue : Text) : Status :=
  match env.getenv envVarName with
  | none => .nok
  | some sp => .ofBool (strcmp envVarValue sp = 0)

/-- `startCondCheckFunc` -/
def startCondCheck (s : State) : Status × State :=
  match (s.rule rule).startCondition with
  | .none => (.ok, s)
  | .file filename => (.ofBool (env.stat filename), s)
  | .ruleCompleted ids => checkRuleCompleted rule 0 (ids.take startCondMaxIds) s
  | .netDevice netDevice => (.ofBool (env.hardwareAddress netDevice), s)
  | .ipcOwner ipcOwner => (.ofBool (env.ipcOwner ipcOwner), s)
  | .envVar envVarName envVarValue => (checkEnvVar env envVarName envVarValue, s)

/-- `PCD_end_cond_check_EXIT` -/
def checkExit (exitStatus : Nat) (s : State) : Except Stop Status := do
  match (s.rule rule).proc with
  | none => return .nok
  | some a =>
    let p ← s.getProc a
    return .ofBool (p.retstat = .exited ∧ p.retcode = exitStatus)

/-- `PCD_end_cond_check_WAIT`, with what is left of the delay -/
def checkWait (tick left delay : Nat) : Status × Nat :=
  if left < tick then (.ok, delay) else (.nok, left - tick)

/-- `endCondCheckFunc`, for a timer tick of `tick` milliseconds -/
def endCondCheck (tick : Nat) (s : State) : Except Stop (Status × State) := do
  let old := s.rule rule
  match old.endCondition with
  | .none => return (.ok, s)
  | .file filename => return (.ofBool (env.stat filename), s)
  | .exit exitStatus =>
    let retval ← checkExit rule exitStatus s
    return (retval, s)
  | .netDevice netDevice => return (.ofBool (env.hardwareAddress netDevice), s)
  | .ipcOwner ipcOwner => return (.ofBool (env.ipcOwner ipcOwner), s)
  | .processReady processReady =>
    if processReady then
      return (.ok, s.setRule rule { old with endCondition := .processReady false })
    else return (.nok, s)
  | .wait left delay =>
    let (retval, left) := checkWait tick left delay
    return (retval, s.setRule rule { old with endCondition := .wait left delay })

end Conditions

end CyberPlatform.Pcd
