/-
**The moves of the daemon.**

Whatever the functions of the daemon do is a sequence of moves, each of which changes one thing, and
says under which condition it is made. `Move clock` are the moves of the daemon, those with
`clock = true` only of the timers; `Deliver` are the moves with a message. The invariants are proved
of the moves, and the functions are shown to be made of them.
-/

import CyberPlatform.Pcd.Main
import Mathlib.Logic.Relation

namespace CyberPlatform.Pcd

open Foundation

/-- The entries of a condition that names rules -/
def StartCond.caches : StartCond → List RuleCache
  | .ruleCompleted ids => ids
  | _ => []

/-- **The rules that have to be completed** before a rule is started: those in front of the first
empty id, and not more than eight. -/
def StartCond.dependencies (condition : StartCond) : List RuleId :=
  ((condition.caches.map RuleCache.ruleId).take startCondMaxIds).takeWhile (·.groupName ≠ [])

/-- What a cache entry remembers is not seen in the others. -/
theorem StartCond.caches_setCache (condition : StartCond) (i : Nat) (found : Option RuleRef) :
    (condition.setCache i found).caches =
      condition.caches.modify i fun entry => { entry with rule := found } := by
  cases condition with
  | ruleCompleted ids => rfl
  | none => exact (List.modify_nil _ _).symm
  | file filename => exact (List.modify_nil _ _).symm
  | netDevice netDevice => exact (List.modify_nil _ _).symm
  | ipcOwner ipcOwner => exact (List.modify_nil _ _).symm
  | envVar envVarName envVarValue => exact (List.modify_nil _ _).symm

theorem StartCond.names_setCache (condition : StartCond) (i : Nat) (found : Option RuleRef) :
    (condition.setCache i found).caches.map RuleCache.ruleId =
      condition.caches.map RuleCache.ruleId := by
  rw [StartCond.caches_setCache]
  refine List.ext_getElem? fun k => ?_
  rw [List.getElem?_map, List.getElem?_map, List.getElem?_modify]
  cases condition.caches[k]? with
  | none => rfl
  | some entry =>
    refine congrArg some ?_
    dsimp only
    split_ifs <;> rfl

/-- Some rule of the id is completed. -/
def Completed (s : State) (ruleId : RuleId) : Prop :=
  ∃ r < s.db.size, (s.rule r).ruleId = ruleId ∧ (s.rule r).ruleState = .completed

/-- All rules that a rule waits for are completed. -/
def DependenciesMet (s : State) (r : RuleRef) : Prop :=
  ∀ ruleId ∈ (s.rule r).startCondition.dependencies, Completed s ruleId

/-- A rule of the database that is not a template. -/
structure RulesDb.Regular (db : RulesDb) (r : RuleRef) : Prop where
  stored : r < db.size
  plain : (db.memory r).indexed = false

/-- What may happen to a process object without a message: it belongs to the same rule, a process
that can be stopped stays one, and none is started. -/
structure Changes (p p' : Proc) : Prop where
  rule : p'.rule = p.rule
  pid : p'.pid = p.pid
  cookie : p'.cookie = p.cookie
  stoppable : p.state.stoppable → p'.state.stoppable
  begun : p'.state ≠ .runme
  up : p'.state = .starting ∨ p'.state = .running → p.state = .starting ∨ p.state = .running

/-- The state behind the start of a rule's process, by the timer -/
def launched (r : RuleRef) (s : State) : State :=
  { s with
    procList := (s.nextProc, processNew r) :: s.procList
    nextProc := s.nextProc + 1 }.setRule r
      { s.rule r with proc := some s.nextProc, ruleState := .endConditionWaiting }

/-- The state behind the stop of a rule's process -/
def halted (r : RuleRef) (a : ProcRef) (p : Proc) (brutal : Bool) (cookie : Option Incoming)
    (s : State) : State :=
  (s.setProc a (p.stop brutal cookie)).setRule r { s.rule r with proc := none }

/-- **The moves of the daemon.** -/
inductive Move : Bool → State → State → Prop
  | lookup {clock s} (ruleId : RuleId) :
      Move clock s { s with db := (s.db.getRuleById ruleId).2 }
  | params {clock s} (r : RuleRef) (optionalParams : Option Text) :
      Move clock s (setOptionalParams r optionalParams s)
  | ready {clock s} (r : RuleRef) (flag : Bool) : (s.rule r).endCondition = .processReady flag →
      Move clock s (s.setRule r { s.rule r with endCondition := .processReady true })
  | enqueue {clock s} (r : RuleRef) : s.db.Regular r → ¬ (s.rule r).ruleState.waiting →
      (s.rule r).proc = none → r ∉ s.enqueueList →
      Move clock s (timerEnqueue r (s.setState r .startConditionWaiting))
  | dequeue {clock s} (r : RuleRef) (failed : Bool) : (∃ obj ∈ s.timerObjs, obj.rule = r) →
      (s.rule r).proc = none →
      Move clock s ({ s with timerObjs := s.timerObjs.eraseP fun obj => obj.rule = r }.setState r
        ((s.rule r).ruleState.dequeued failed))
  | idle {clock s} (r : RuleRef) : (s.rule r).proc = none → ¬ (s.rule r).ruleState.waiting →
      Move clock s (s.setState r .idle)
  | stop {clock s} (r : RuleRef) (a : ProcRef) (p : Proc) (brutal : Bool) :
      (s.rule r).proc = some a → Assoc.find a s.procList = some p →
      Move clock s (halted r a p brutal none s)
  | change {clock s} (a : ProcRef) (p p' : Proc) : Assoc.find a s.procList = some p →
      Changes p p' → Move clock s (s.setProc a p')
  | fork {clock s} (a : ProcRef) (p : Proc) (pid : Int) : Assoc.find a s.procList = some p →
      p.state = .runme → Move clock s
        ((s.setProc a { p with pid, state := .starting, tm := 3 }).note (.starting a p.rule pid))
  | kill {clock s} (a : ProcRef) (p p' : Proc) (sig : Int) : Assoc.find a s.procList = some p →
      Changes p p' → 0 < p.pid → Move clock s ((s.setProc a p').note (.kill p.pid sig))
  | signal {clock s} (a : ProcRef) (p : Proc) (sig : Int) : Assoc.find a s.procList = some p →
      p.state = .starting ∨ p.state = .running → sig = sigusr1 ∨ sig = sigusr2 →
      Move clock s (s.note (.kill p.pid sig))
  | disconnect {clock s} (r : RuleRef) (a : ProcRef) : (s.rule r).proc = some a →
      Move clock s (s.setRule r { s.rule r with proc := none })
  | cleanup {clock s} (pid : Int) : Move clock s (s.note (.cleanup pid))
  | remove {clock s} (a : ProcRef) (p : Proc) : (∀ r, (s.rule r).proc ≠ some a) →
      (∀ q, Assoc.find a s.procList = some q → q.cookie = none) → p.cookie = none →
      Move clock s (release a p s)
  | tick {clock s} (tickCounter : Nat) : Move clock s { s with tickCounter }
  | cache {s} (r : RuleRef) (i : Nat) (ruleId : RuleId) (found : RuleRef) :
      (s.rule r).startCondition.caches[i]?.map RuleCache.ruleId = some ruleId →
      found < s.db.size → (s.rule found).ruleId = ruleId →
      Move true s (s.setRule r { s.rule r with
        startCondition := (s.rule r).startCondition.setCache i (some found) })
  | miss {s} (r : RuleRef) : (s.rule r).ruleState = .startConditionWaiting →
      Move true s (s.setState r .notCompleted)
  | pass {s} (r : RuleRef) : (s.rule r).ruleState = .startConditionWaiting → DependenciesMet s r →
      Move true s (s.setState r .endConditionWaiting)
  | launch {s} (r : RuleRef) : s.db.Regular r → (s.rule r).ruleState = .startConditionWaiting →
      (s.rule r).proc = none → DependenciesMet s r → Move true s (launched r s)
  | endCondition {s} (r : RuleRef) (condition : EndCond) :
      (s.rule r).ruleState = .endConditionWaiting →
      Move true s (s.setRule r { s.rule r with endCondition := condition })
  | complete {s} (i : Nat) (obj : TimerObj) : s.timerObjs[i]? = some obj →
      (s.rule obj.rule).ruleState = .endConditionWaiting →
      Move true s (addToDequeueList i
        ((s.setState obj.rule .completed).note (.success obj.rule)))
  | giveUp {s} (i : Nat) (obj : TimerObj) (failed : Bool) : s.timerObjs[i]? = some obj →
      (s.rule obj.rule).ruleState.waiting →
      Move true s (addToDequeueList i
        (s.setState obj.rule (if failed then .failed else .notCompleted)))
  | discard {s} (i : Nat) (obj : TimerObj) : s.timerObjs[i]? = some obj →
      ¬ (s.rule obj.rule).ruleState.waiting → Move true s (addToDequeueList i s)
  | count {s} (i : Nat) (timeout : Nat) :
      (∀ obj, s.timerObjs[i]? = some obj → timeout ≤ obj.timeout) →
      Move true s { s with timerObjs := s.timerObjs.modify i fun obj => { obj with timeout } }
  | schedule {s} (r : RuleRef) : s.db.Regular r → ¬ (s.rule r).ruleState.waiting →
      (s.rule r).proc = none → Move true s (addToEnqueueList (some r) s)
  | sweep {s} : Move true s (dequeueHandle s)
  | enlist {s} : Move true s (enqueueHandle s)

/-- A process whose client is answered when it has stopped: it has exited, or has been ended by a
signal, and the daemon has signaled it. -/
def Proc.answers (p : Proc) : Bool := p.signaled && (p.retstat = .exited || p.retstat = .signaled)

/-- A process holds a message until it has stopped. -/
def Holds (s : State) (a : ProcRef) (msg : Incoming) : Prop :=
  ∃ p, Assoc.find a s.procList = some p ∧ p.cookie = some msg

/-- The messages that have been received, and the one that is being handled. -/
structure Desk where
  inbox : List Message
  hand : Option Incoming

/-- **The moves with a message.** -/
inductive Deliver : Desk × State → Desk × State → Prop
  | receive {inbox s} (message : Message) : Deliver (⟨inbox, none⟩, s)
      (⟨inbox ++ [message], some ⟨s.nextMsg, message⟩⟩, { s with nextMsg := s.nextMsg + 1 })
  | respond {inbox s} (sent : Bool) (msg : Incoming) (retval : Status)
      (ruleState : Option ApiRuleState) :
      Deliver (⟨inbox, some msg⟩, s) (⟨inbox, none⟩, answer sent msg retval ruleState s)
  | hold {inbox s} (r : RuleRef) (a : ProcRef) (p : Proc) (brutal : Bool) (msg : Incoming) :
      (s.rule r).proc = some a → Assoc.find a s.procList = some p →
      Deliver (⟨inbox, some msg⟩, s) (⟨inbox, none⟩, halted r a p brutal (some msg) s)
  | settle {desk s} (sent : Bool) (a : ProcRef) (p : Proc) (msg : Incoming) :
      (∀ r, (s.rule r).proc ≠ some a) → Assoc.find a s.procList = some p →
      p.cookie = some msg → p.answers = true →
      Deliver (desk, s) (desk, release a p (answer sent msg .ok none s))
  | lose {desk s} (a : ProcRef) (p : Proc) (msg : Incoming) : (∀ r, (s.rule r).proc ≠ some a) →
      Holds s a msg → p.cookie = some msg → p.answers = false →
      Deliver (desk, s) (desk, release a p s)

/-- Some moves, one after the other -/
abbrev Moves (clock : Bool) : State → State → Prop := Relation.ReflTransGen (Move clock)

/-- A move of any kind -/
inductive Step (clock : Bool) : Desk × State → Desk × State → Prop
  | move {desk s s'} : Move clock s s' → Step clock (desk, s) (desk, s')
  | deliver {x y} : Deliver x y → Step clock x y

/-- Some moves of any kind -/
abbrev Steps (clock : Bool) : Desk × State → Desk × State → Prop :=
  Relation.ReflTransGen (Step clock)

theorem Moves.steps {clock : Bool} {s s' : State} (moves : Moves clock s s') (desk : Desk) :
    Steps clock (desk, s) (desk, s') := by
  induction moves with
  | refl => exact .refl
  | tail _ move ih => exact ih.tail (.move move)

/-- What a function makes that is not the timers, the timers may make. -/
theorem Move.timed {s s' : State} (move : Move false s s') (clock : Bool) : Move clock s s' := by
  cases move with
  | lookup ruleId => exact .lookup ruleId
  | params r optionalParams => exact .params r optionalParams
  | ready r flag kind => exact .ready r flag kind
  | enqueue r regular quiet free unlisted => exact .enqueue r regular quiet free unlisted
  | dequeue r failed there free => exact .dequeue r failed there free
  | idle r free quiet => exact .idle r free quiet
  | stop r a p brutal attached found => exact .stop r a p brutal attached found
  | change a p p' found changes => exact .change a p p' found changes
  | fork a p pid found runme => exact .fork a p pid found runme
  | kill a p p' sig found changes positive => exact .kill a p p' sig found changes positive
  | signal a p sig found up user => exact .signal a p sig found up user
  | disconnect r a attached => exact .disconnect r a attached
  | cleanup pid => exact .cleanup pid
  | remove a p free empty cookie => exact .remove a p free empty cookie
  | tick tickCounter => exact .tick tickCounter

theorem Moves.timed {s s' : State} (moves : Moves false s s') (clock : Bool) : Moves clock s s' :=
  Relation.ReflTransGen.mono (fun _ _ move => Move.timed move clock) _ _ moves

theorem Steps.timed {x y : Desk × State} (steps : Steps false x y) (clock : Bool) :
    Steps clock x y := by
  refine Relation.ReflTransGen.mono (fun _ _ step => ?_) _ _ steps
  cases step with
  | move move => exact .move (move.timed clock)
  | deliver deliver => exact .deliver deliver

/-! ### In front of a free desk -/

/-- Some moves of any kind between two times at which no message is being handled. -/
abbrev Goes (clock : Bool) (inbox : List Message) (s : State) (inbox' : List Message)
    (s' : State) : Prop :=
  Steps clock (⟨inbox, none⟩, s) (⟨inbox', none⟩, s')

theorem Moves.goes {clock : Bool} {s s' : State} (moves : Moves clock s s') (inbox : List Message) :
    Goes clock inbox s inbox s' :=
  moves.steps _

end CyberPlatform.Pcd
