/-
**What always holds of the daemon.**

* `Invariant` — the invariant: a rule and its process know of each other, a rule that waits has a
  timer object, and a template is idle.
* `Move.keeps`, `Deliver.keeps` — every move keeps it.
-/

import CyberPlatform.Pcd.Moves

namespace CyberPlatform.Pcd

open Foundation

/-- Some template has the id. -/
def Template (s : State) (ruleId : RuleId) : Prop :=
  ∃ t < s.db.size, (s.rule t).indexed = true ∧ (s.rule t).ruleId = ruleId

/-- **The invariant of the daemon.** -/
structure Invariant (s : State) : Prop where
  db : s.db.WellFormed
  keys : (s.procList.map Prod.fst).Nodup
  fresh : ∀ a ∈ s.procList.map Prod.fst, a < s.nextProc
  /-- a process belongs to a rule that is not a template -/
  owned : ∀ a p, Assoc.find a s.procList = some p → s.db.Regular p.rule
  /-- so does a timer object -/
  timed : ∀ obj ∈ s.timerObjs, s.db.Regular obj.rule
  /-- a rule that is to be enqueued neither waits nor has a process -/
  pending : ∀ r ∈ s.enqueueList,
    s.db.Regular r ∧ ¬ (s.rule r).ruleState.waiting ∧ (s.rule r).proc = none
  /-- a process that a rule points to is there, points back, and is not on its way out -/
  attached : ∀ r a, (s.rule r).proc = some a →
    ∃ p, Assoc.find a s.procList = some p ∧ p.rule = r ∧ p.state.stoppable ∧ p.cookie = none
  /-- a rule that waits for its start condition has no process -/
  unstarted : ∀ r, (s.rule r).ruleState = .startConditionWaiting → (s.rule r).proc = none
  /-- a rule that waits has a timer object that stays -/
  queued : ∀ r, (s.rule r).ruleState.waiting →
    ∃ obj ∈ s.timerObjs, obj.rule = r ∧ obj.dequeue = false
  templates : ∀ r, (s.rule r).indexed = true →
    (s.rule r).ruleState = .idle ∧ (s.rule r).proc = none
  commands : ∀ r < s.db.size, (s.rule r).command ≠ none
  /-- no failure action names a template -/
  execs : ∀ r < s.db.size, ∀ ruleId, (s.rule r).failureAction = .execRule ruleId →
    ¬ Template s ruleId
  /-- what a condition remembers is the rule that it names -/
  cached : ∀ r < s.db.size, ∀ entry ∈ (s.rule r).startCondition.caches, ∀ found,
    entry.rule = some found → found < s.db.size ∧ (s.rule found).ruleId = entry.ruleId

namespace Invariant

variable {s : State} (inv : Invariant s)

include inv

/-- The process of a rule. -/
theorem proc_of {r : RuleRef} (regular : (s.rule r).proc.isSome) :
    ∃ a p, (s.rule r).proc = some a ∧ Assoc.find a s.procList = some p ∧ p.rule = r ∧
      p.state.stoppable ∧ p.cookie = none := by
  obtain ⟨a, attached⟩ := Option.isSome_iff_exists.mp regular
  obtain ⟨p, found, back⟩ := inv.attached r a attached
  exact ⟨a, p, attached, found, back⟩

/-- **A rule may be rewritten** if it stays the rule that it is, and the lists still fit. -/
theorem setRule {r : RuleRef} {x : Rule} (ruleId : x.ruleId = (s.rule r).ruleId)
    (indexed : x.indexed = (s.rule r).indexed) (command : x.command = (s.rule r).command)
    (failureAction : x.failureAction = (s.rule r).failureAction)
    (pending : r ∈ s.enqueueList → ¬ x.ruleState.waiting ∧ x.proc = none)
    (attached : ∀ a, x.proc = some a →
      ∃ p, Assoc.find a s.procList = some p ∧ p.rule = r ∧ p.state.stoppable ∧ p.cookie = none)
    (unstarted : x.ruleState = .startConditionWaiting → x.proc = none)
    (queued : x.ruleState.waiting → ∃ obj ∈ s.timerObjs, obj.rule = r ∧ obj.dequeue = false)
    (template : x.indexed = true → x.ruleState = .idle ∧ x.proc = none)
    (cached : ∀ entry ∈ x.startCondition.caches, ∀ found, entry.rule = some found →
      entry ∈ (s.rule r).startCondition.caches ∨
        found < s.db.size ∧ (s.rule found).ruleId = entry.ruleId) :
    Invariant (s.setRule r x) := by
  have sameId : ∀ r', ((s.setRule r x).rule r').ruleId = (s.rule r').ruleId :=
    State.kept_setRule Rule.ruleId ruleId
  have sameIndexed : ∀ r', ((s.setRule r x).rule r').indexed = (s.rule r').indexed :=
    State.kept_setRule Rule.indexed indexed
  have regular : ∀ r', s.db.Regular r' → (s.setRule r x).db.Regular r' := fun r' regular =>
    ⟨regular.stored, (sameIndexed r').trans regular.plain⟩
  have templates : ∀ ruleId, Template (s.setRule r x) ruleId → Template s ruleId := by
    rintro ruleId ⟨t, stored, isTemplate, named⟩
    exact ⟨t, stored, (sameIndexed t).symm.trans isTemplate, (sameId t).symm.trans named⟩
  constructor
  case db =>
    exact ⟨inv.db.grouped.congr fun r' _ => sameId r', inv.db.complete⟩
  case keys => exact inv.keys
  case fresh => exact inv.fresh
  case owned => exact fun a p found => regular _ (inv.owned a p found)
  case timed => exact fun obj member => regular _ (inv.timed obj member)
  case pending =>
    intro r' member
    obtain ⟨plain, quiet, free⟩ := inv.pending r' member
    refine ⟨regular _ plain, ?_⟩
    rw [State.rule_setRule]
    split_ifs with here
    · exact pending (here ▸ member)
    · exact ⟨quiet, free⟩
  case attached =>
    intro r' a
    rw [State.rule_setRule]
    split_ifs with here
    · rw [here]
      exact attached a
    · exact inv.attached r' a
  case unstarted =>
    intro r'
    rw [State.rule_setRule]
    split_ifs with here
    · exact unstarted
    · exact inv.unstarted r'
  case queued =>
    intro r'
    rw [State.rule_setRule]
    split_ifs with here
    · rw [here]
      exact queued
    · exact inv.queued r'
  case templates =>
    intro r'
    rw [State.rule_setRule]
    split_ifs with here
    · exact template
    · exact inv.templates r'
  case commands =>
    intro r' stored
    rw [State.rule_setRule]
    split_ifs with here
    · rw [command]
      exact inv.commands r (here ▸ stored)
    · exact inv.commands r' stored
  case execs =>
    intro r' stored ruleId
    rw [State.rule_setRule]
    split_ifs with here
    · rw [failureAction]
      exact fun action => inv.execs r (here ▸ stored) ruleId action ∘ templates ruleId
    · exact fun action => inv.execs r' stored ruleId action ∘ templates ruleId
  case cached =>
    intro r' stored entry
    rw [State.rule_setRule]
    split_ifs with here
    · intro member found remembers
      rw [sameId]
      rcases cached entry member found remembers with old | fits
      · exact inv.cached r (here ▸ stored) entry old found remembers
      · exact fits
    · intro member found remembers
      rw [sameId]
      exact inv.cached r' stored entry member found remembers

/-- Another state for a rule. -/
theorem setState {r : RuleRef} {ruleState : RuleState}
    (pending : r ∈ s.enqueueList → ¬ ruleState.waiting)
    (unstarted : ruleState = .startConditionWaiting → (s.rule r).proc = none)
    (queued : ruleState.waiting → ∃ obj ∈ s.timerObjs, obj.rule = r ∧ obj.dequeue = false)
    (template : (s.rule r).indexed = true → ruleState = .idle) :
    Invariant (s.setState r ruleState) :=
  inv.setRule rfl rfl rfl rfl (fun member => ⟨pending member, (inv.pending r member).2.2⟩)
    (inv.attached r) unstarted queued
    (fun isTemplate => ⟨template isTemplate, (inv.templates r isTemplate).2⟩)
    fun _ member _ _ => .inl member

/-- A rule whose state and process stay. -/
theorem retouch {r : RuleRef} {x : Rule} (ruleId : x.ruleId = (s.rule r).ruleId)
    (indexed : x.indexed = (s.rule r).indexed) (command : x.command = (s.rule r).command)
    (failureAction : x.failureAction = (s.rule r).failureAction)
    (ruleState : x.ruleState = (s.rule r).ruleState) (proc : x.proc = (s.rule r).proc)
    (cached : ∀ entry ∈ x.startCondition.caches, ∀ found, entry.rule = some found →
      entry ∈ (s.rule r).startCondition.caches ∨
        found < s.db.size ∧ (s.rule found).ruleId = entry.ruleId) :
    Invariant (s.setRule r x) := by
  refine inv.setRule ruleId indexed command failureAction ?_ ?_ ?_ ?_ ?_ cached
  all_goals rw [proc] at *
  all_goals try rw [ruleState]
  · exact fun member => (inv.pending r member).2
  · exact inv.attached r
  · exact inv.unstarted r
  · exact inv.queued r
  · rw [indexed]
    exact inv.templates r

/-- A rule loses its process. -/
theorem detach (r : RuleRef) : Invariant (s.setRule r { s.rule r with proc := none }) :=
  inv.setRule rfl rfl rfl rfl (fun member => ⟨(inv.pending r member).2.1, rfl⟩)
    (fun _ points => absurd points.symm (Option.some_ne_none _)) (fun _ => rfl) (inv.queued r)
    (fun isTemplate => ⟨(inv.templates r isTemplate).1, rfl⟩) fun _ member _ _ => .inl member

/-- **A process object may be rewritten** if it stays with its rule, and stays one that can be
stopped while its rule points to it. -/
theorem setProc {a : ProcRef} {p p' : Proc} (found : Assoc.find a s.procList = some p)
    (rule : p'.rule = p.rule)
    (fits : ∀ r, (s.rule r).proc = some a → p'.state.stoppable ∧ p'.cookie = none) :
    Invariant (s.setProc a p') := by
  have keys : (s.setProc a p').procList.map Prod.fst = s.procList.map Prod.fst := Assoc.keys_put
  refine { inv with keys := ?keys, fresh := ?fresh, owned := ?owned, attached := ?attached }
  case keys =>
    rw [keys]
    exact inv.keys
  case fresh =>
    rw [keys]
    exact inv.fresh
  case owned =>
    intro a' q there
    rw [show Assoc.find a' (s.setProc a p').procList = _ from Assoc.find_put, found] at there
    split_ifs at there with here
    · obtain rfl := Option.some.inj there
      rw [rule]
      exact inv.owned a p found
    · exact inv.owned a' q there
  case attached =>
    intro r a' points
    rw [show Assoc.find a' (s.setProc a p').procList = _ from Assoc.find_put, found]
    obtain ⟨q, there, back, stoppable, cookie⟩ := inv.attached r a' points
    split_ifs with here
    · subst here
      obtain rfl := Option.some.inj (found.symm.trans there)
      exact ⟨p', rfl, rule.trans back, fits r points⟩
    · exact ⟨q, there, back, stoppable, cookie⟩

/-- A process object is rewritten as the daemon does. -/
theorem change {a : ProcRef} {p p' : Proc} (found : Assoc.find a s.procList = some p)
    (changes : Changes p p') : Invariant (s.setProc a p') := by
  refine inv.setProc found changes.rule fun r points => ?_
  obtain ⟨q, there, _, stoppable, cookie⟩ := inv.attached r a points
  obtain rfl := Option.some.inj (found.symm.trans there)
  exact ⟨changes.stoppable stoppable, changes.cookie.trans cookie⟩

/-- A process to which no rule points may be freed. -/
theorem drop {a : ProcRef} (free : ∀ r, (s.rule r).proc ≠ some a) :
    Invariant { s with procList := Assoc.drop a s.procList } := by
  refine { inv with keys := ?keys, fresh := ?fresh, owned := ?owned, attached := ?attached }
  case keys =>
    rw [Assoc.keys_drop]
    exact inv.keys.filter _
  case fresh =>
    intro a' member
    rw [Assoc.keys_drop] at member
    exact inv.fresh a' (List.mem_of_mem_filter member)
  case owned =>
    intro a' p there
    rw [Assoc.find_drop] at there
    split_ifs at there
    exact inv.owned a' p there
  case attached =>
    intro r a' points
    have other : a' ≠ a := by
      rintro rfl
      exact free r points
    rw [Assoc.find_drop, if_neg other]
    exact inv.attached r a' points

/-- A new process, for a rule that is not a template. -/
theorem spawn {r : RuleRef} (regular : s.db.Regular r) :
    Invariant { s with
      procList := (s.nextProc, processNew r) :: s.procList
      nextProc := s.nextProc + 1 } := by
  have new : s.nextProc ∉ s.procList.map Prod.fst := fun member =>
    (inv.fresh s.nextProc member).false
  have others : ∀ {a p}, Assoc.find a s.procList = some p → s.nextProc ≠ a := by
    rintro a p there rfl
    exact new (List.mem_map.mpr ⟨_, Assoc.mem_of_find there, rfl⟩)
  refine { inv with keys := ?keys, fresh := ?fresh, owned := ?owned, attached := ?attached }
  case keys => exact List.nodup_cons.mpr ⟨new, inv.keys⟩
  case fresh =>
    refine List.forall_mem_cons.mpr ⟨Nat.lt_succ_self _, fun a member => ?_⟩
    exact Nat.lt_succ_of_lt (inv.fresh a member)
  case owned =>
    intro a p there
    rw [Assoc.find_cons] at there
    split_ifs at there
    · obtain rfl := Option.some.inj there
      exact regular
    · exact inv.owned a p there
  case attached =>
    intro r' a points
    obtain ⟨p, there, back⟩ := inv.attached r' a points
    refine ⟨p, ?_, back⟩
    rw [Assoc.find_cons, if_neg (others there)]
    exact there

/-- **Other timer objects**, if a rule that waits keeps one. -/
theorem setTimers {timerObjs : List TimerObj} (timed : ∀ obj ∈ timerObjs, s.db.Regular obj.rule)
    (queued : ∀ r, (s.rule r).ruleState.waiting →
      ∃ obj ∈ timerObjs, obj.rule = r ∧ obj.dequeue = false) :
    Invariant { s with timerObjs } :=
  { inv with timed := timed, queued := queued }

/-- A new timer object, and the state of its rule. -/
theorem enqueue {r : RuleRef} (regular : s.db.Regular r) (free : (s.rule r).proc = none)
    (unlisted : r ∉ s.enqueueList) :
    Invariant (timerEnqueue r (s.setState r .startConditionWaiting)) := by
  -- the object first, the state of its rule behind it
  have more :
      Invariant { s with timerObjs := s.timerObjs ++ [⟨r, (s.rule r).timeout, false⟩] } := by
    refine inv.setTimers (fun obj member => ?_) fun r' waits => ?_
    · rcases List.mem_append.mp member with old | new
      · exact inv.timed obj old
      · rw [List.mem_singleton.mp new]
        exact regular
    · obtain ⟨obj, member, fits⟩ := inv.queued r' waits
      exact ⟨obj, List.mem_append_left _ member, fits⟩
  have done : Invariant (State.setState _ r .startConditionWaiting) := more.setState
    (fun member => absurd member unlisted) (fun _ => free)
    (fun _ => ⟨_, List.mem_append_right _ List.mem_cons_self, rfl, rfl⟩)
    fun isTemplate => absurd (regular.plain.symm.trans isTemplate) Bool.false_ne_true
  have timeout : ((s.setState r .startConditionWaiting).rule r).timeout = (s.rule r).timeout := by
    rw [State.setState, State.rule_setRule_self]
  rw [timerEnqueue, timeout]
  exact done

/-- **A search for a rule**, which may make one from a template. -/
theorem lookup (ruleId : RuleId) : Invariant { s with db := (s.db.getRuleById ruleId).2 } := by
  have wellFormed := RulesDb.wellFormed_getRuleById inv.db ruleId
  have lookup := RulesDb.getRuleById_lookup inv.db ruleId
  generalize (s.db.getRuleById ruleId).1 = out, (s.db.getRuleById ruleId).2 = db at *
  cases lookup with
  | found r stored named => exact inv
  | missing none untemplated => exact inv
  | made t groups unused serves longest =>
    obtain ⟨idle, free⟩ := inv.templates t serves.indexed
    set new := RulesDb.instanceOf (s.db.memory t) ruleId.ruleName with newDef
    set s' : State := { s with
      db := ⟨groups, Function.update s.db.memory s.db.size new, s.db.size + 1⟩ } with s'Def
    have other : ∀ {r}, r ≠ s.db.size → s'.rule r = s.rule r := fun {r} differ => by
      show Function.update s.db.memory s.db.size new r = s.db.memory r
      rw [Function.update_of_ne differ]
    have this : s'.rule s.db.size = new := by
      show Function.update s.db.memory s.db.size new s.db.size = new
      rw [Function.update_self]
    have old : ∀ {r}, r < s.db.size → s'.rule r = s.rule r := fun less => other less.ne
    have regular : ∀ {r}, s.db.Regular r → s'.db.Regular r := fun {r} regular =>
      ⟨Nat.lt_succ_of_lt regular.stored, (congrArg Rule.indexed (old regular.stored)).trans
        regular.plain⟩
    have templates : ∀ ruleId, Template s' ruleId → Template s ruleId := by
      rintro ruleId ⟨t', stored, isTemplate, named⟩
      rcases Nat.lt_succ_iff_lt_or_eq.mp stored with less | rfl
      · rw [old less] at isTemplate named
        exact ⟨t', less, isTemplate, named⟩
      · rw [this] at isTemplate
        cases isTemplate
    constructor
    case db => exact wellFormed
    case keys => exact inv.keys
    case fresh => exact inv.fresh
    case owned => exact fun a p there => regular (inv.owned a p there)
    case timed => exact fun obj member => regular (inv.timed obj member)
    case pending =>
      intro r member
      obtain ⟨plain, quiet⟩ := inv.pending r member
      rw [old plain.stored]
      exact ⟨regular plain, quiet⟩
    case attached =>
      intro r a
      by_cases here : r = s.db.size
      · subst here
        rw [this]
        exact fun points => absurd (free.symm.trans points) (Option.some_ne_none a).symm
      · rw [other here]
        exact inv.attached r a
    case unstarted =>
      intro r
      by_cases here : r = s.db.size
      · subst here
        rw [this]
        exact fun _ => free
      · rw [other here]
        exact inv.unstarted r
    case queued =>
      intro r
      by_cases here : r = s.db.size
      · subst here
        rw [this]
        intro waits
        rw [show new.ruleState = .idle from idle] at waits
        cases waits
      · rw [other here]
        exact inv.queued r
    case templates =>
      intro r
      by_cases here : r = s.db.size
      · subst here
        rw [this]
        exact fun isTemplate => absurd isTemplate Bool.false_ne_true
      · rw [other here]
        exact inv.templates r
    case commands =>
      intro r stored
      rcases Nat.lt_succ_iff_lt_or_eq.mp stored with less | rfl
      · rw [old less]
        exact inv.commands r less
      · rw [this]
        exact inv.commands t serves.stored
    case execs =>
      intro r stored ruleId
      rcases Nat.lt_succ_iff_lt_or_eq.mp stored with less | rfl
      · rw [old less]
        exact fun action => inv.execs r less ruleId action ∘ templates ruleId
      · rw [this]
        exact fun action => inv.execs t serves.stored ruleId action ∘ templates ruleId
    case cached =>
      intro r stored
      have kept : ∀ {found ruleId}, found < s.db.size ∧ (s.rule found).ruleId = ruleId →
          found < s'.db.size ∧ (s'.rule found).ruleId = ruleId := fun ⟨less, named⟩ =>
        ⟨Nat.lt_succ_of_lt less, (congrArg Rule.ruleId (old less)).trans named⟩
      rcases Nat.lt_succ_iff_lt_or_eq.mp stored with less | rfl
      · rw [old less]
        exact fun entry member found remembers =>
          kept (inv.cached r less entry member found remembers)
      · rw [this]
        exact fun entry member found remembers =>
          kept (inv.cached t serves.stored entry member found remembers)

/-- **The process of a rule is stopped.** -/
theorem halt {r : RuleRef} {a : ProcRef} {p : Proc} (points : (s.rule r).proc = some a)
    (found : Assoc.find a s.procList = some p) (brutal : Bool) (cookie : Option Incoming) :
    Invariant (halted r a p brutal cookie s) := by
  have alone : ∀ r', ((s.setRule r { s.rule r with proc := none }).rule r').proc ≠ some a := by
    intro r'
    rw [State.rule_setRule]
    split_ifs with here
    · exact (Option.some_ne_none a).symm
    · intro points'
      obtain ⟨q, there, back, _⟩ := inv.attached r a points
      obtain ⟨q', there', back', _⟩ := inv.attached r' a points'
      obtain rfl := Option.some.inj (there.symm.trans there')
      exact here (back'.symm.trans back)
  have rewritten : Invariant ((s.setRule r { s.rule r with proc := none }).setProc a
      (p.stop brutal cookie)) :=
    (inv.detach r).setProc found rfl fun r' points' => absurd points' (alone r')
  exact rewritten

/-- A timer object that is rewritten stays with its rule. -/
theorem timed_modify {f : TimerObj → TimerObj} (rule : ∀ obj, (f obj).rule = obj.rule) (i : Nat) :
    ∀ obj ∈ s.timerObjs.modify i f, s.db.Regular obj.rule := by
  intro obj member
  obtain ⟨j, at'⟩ := List.mem_iff_getElem?.mp member
  rw [List.getElem?_modify] at at'
  obtain ⟨old, at'', rfl⟩ := Option.map_eq_some_iff.mp at'
  have regular := inv.timed old (List.mem_of_getElem? at'')
  split_ifs
  · rw [rule]
    exact regular
  · exact regular

/-- **A timer object is marked**, whose rule does not wait. -/
theorem mark {i : Nat} {obj : TimerObj} (there : s.timerObjs[i]? = some obj)
    (quiet : ¬ (s.rule obj.rule).ruleState.waiting) : Invariant (addToDequeueList i s) := by
  refine inv.setTimers (inv.timed_modify (by exact fun _ => rfl) i) fun r waits => ?_
  obtain ⟨obj', member, rule, stays⟩ := inv.queued r waits
  obtain ⟨j, at'⟩ := List.mem_iff_getElem?.mp member
  have other : i ≠ j := by
    rintro rfl
    obtain rfl := Option.some.inj (there.symm.trans at')
    rw [rule] at quiet
    exact quiet waits
  refine ⟨obj', List.mem_of_getElem? (i := j) ?_, rule, stays⟩
  rw [List.getElem?_modify, at']
  exact congrArg some (if_neg other)

/-- A timer object counts down. -/
theorem count (i timeout : Nat) :
    Invariant { s with timerObjs := s.timerObjs.modify i fun obj => { obj with timeout } } := by
  refine inv.setTimers (inv.timed_modify (by exact fun _ => rfl) i) fun r waits => ?_
  obtain ⟨obj', member, rule, stays⟩ := inv.queued r waits
  obtain ⟨j, at'⟩ := List.mem_iff_getElem?.mp member
  refine ⟨_, List.mem_of_getElem? (i := j) (by rw [List.getElem?_modify, at']; rfl), ?_⟩
  split_ifs
  · exact ⟨rule, stays⟩
  · exact ⟨rule, stays⟩

/-- **A rule is settled**: it does not wait any more, and its timer object is marked. -/
theorem settle {i : Nat} {obj : TimerObj} {ruleState : RuleState}
    (there : s.timerObjs[i]? = some obj) (quiet : ¬ ruleState.waiting) :
    Invariant (addToDequeueList i (s.setState obj.rule ruleState)) := by
  have plain := (inv.timed obj (List.mem_of_getElem? there)).plain
  have settled : Invariant (s.setState obj.rule ruleState) := inv.setState (fun _ => quiet)
    (fun start => absurd (congrArg RuleState.waiting start) quiet)
    (fun waits => absurd waits quiet)
    fun isTemplate => absurd (plain.symm.trans isTemplate) Bool.false_ne_true
  refine settled.mark (i := i) there ?_
  rw [State.setState, State.rule_setRule_self]
  exact quiet

/-- **A rule loses its timer object**, and does not wait any more. -/
theorem dequeue {r : RuleRef} {ruleState : RuleState} (there : ∃ obj ∈ s.timerObjs, obj.rule = r)
    (quiet : ¬ ruleState.waiting) :
    Invariant (State.setState { s with
      timerObjs := s.timerObjs.eraseP fun obj => obj.rule = r } r ruleState) := by
  obtain ⟨obj, member, rule⟩ := there
  have plain := (inv.timed obj member).plain
  rw [rule] at plain
  have settled : Invariant (s.setState r ruleState) := inv.setState (fun _ => quiet)
    (fun start => absurd (congrArg RuleState.waiting start) quiet)
    (fun waits => absurd waits quiet)
    fun isTemplate => absurd (plain.symm.trans isTemplate) Bool.false_ne_true
  refine settled.setTimers (fun obj' member => ?_) fun r' waits => ?_
  · exact settled.timed obj' (List.mem_of_mem_eraseP member)
  · obtain ⟨obj', member, rule', stays⟩ := settled.queued r' waits
    have other : ¬ decide (obj'.rule = r) := by
      intro same
      rw [← rule', of_decide_eq_true same, State.setState, State.rule_setRule_self] at waits
      exact quiet waits
    have kept :=
      (List.mem_eraseP_of_neg (p := fun obj : TimerObj => obj.rule = r) other).mpr member
    exact ⟨obj', kept, rule', stays⟩

/-- **A condition remembers the rule that it names.** -/
theorem cache {r : RuleRef} {i : Nat} {ruleId : RuleId} {found : RuleRef}
    (names : (s.rule r).startCondition.caches[i]?.map RuleCache.ruleId = some ruleId)
    (stored : found < s.db.size) (named : (s.rule found).ruleId = ruleId) :
    Invariant (s.setRule r { s.rule r with
      startCondition := (s.rule r).startCondition.setCache i (some found) }) := by
  refine inv.retouch rfl rfl rfl rfl rfl rfl fun entry member found' remembers => ?_
  rw [StartCond.caches_setCache] at member
  obtain ⟨j, at'⟩ := List.mem_iff_getElem?.mp member
  rw [List.getElem?_modify] at at'
  obtain ⟨old, at'', rfl⟩ := Option.map_eq_some_iff.mp at'
  by_cases here : i = j
  · subst here
    right
    rw [if_pos rfl] at remembers ⊢
    obtain rfl := Option.some.inj remembers
    rw [at''] at names
    exact ⟨stored, named.trans (Option.some.inj names).symm⟩
  · left
    rw [if_neg here]
    exact List.mem_of_getElem? at''

/-- What is put on the list of the rules to be enqueued, is enqueued. -/
theorem enlist : Invariant (enqueueHandle s) := by
  have rounds : ∀ (rules : List RuleRef) (s : State),
      Invariant { s with enqueueList := [] } →
      (∀ r ∈ rules, s.db.Regular r ∧ (s.rule r).proc = none) →
      Invariant { rules.foldl enqueueHandleRound s with enqueueList := [] } := by
    intro rules
    induction rules with
    | nil => exact fun s inv _ => inv
    | cons r rest ih =>
      intro s inv fits
      obtain ⟨⟨regular, free⟩, fits⟩ := List.forall_mem_cons.mp fits
      refine ih _ (inv.enqueue regular free List.not_mem_nil) fun r' member => ?_
      obtain ⟨regular', free'⟩ := fits r' member
      have rule : (enqueueHandleRound s r).rule r' =
          if r' = r then { s.rule r with ruleState := .startConditionWaiting } else s.rule r' :=
        State.rule_setRule
      have plain : ((enqueueHandleRound s r).rule r').indexed = (s.rule r').indexed := by
        rw [rule]
        split_ifs with here
        · rw [here]
        · rfl
      refine ⟨⟨regular'.stored, plain.trans regular'.plain⟩, ?_⟩
      rw [rule]
      split_ifs with here
      · exact free
      · exact free'
  refine rounds s.enqueueList s { inv with pending := ?_ } fun r member => ?_
  · exact fun _ member => absurd member List.not_mem_nil
  · exact ⟨(inv.pending r member).1, (inv.pending r member).2.2⟩

end Invariant

/-- A rule whose timer object has been taken away does not wait. -/
theorem RuleState.dequeued_waiting (failed : Bool) (state : RuleState) :
    ¬ (state.dequeued failed).waiting := by
  cases failed <;> cases state <;> decide

/-- **Every move of the daemon keeps the invariant.** -/
theorem Move.keeps {clock : Bool} {s s' : State} (move : Move clock s s') (inv : Invariant s) :
    Invariant s' := by
  cases move with
  | lookup ruleId => exact inv.lookup ruleId
  | params r optionalParams =>
    exact inv.retouch rfl rfl rfl rfl rfl rfl fun _ member _ _ => .inl member
  | ready r flag kind =>
    exact inv.retouch rfl rfl rfl rfl rfl rfl fun _ member _ _ => .inl member
  | enqueue r regular quiet free unlisted => exact inv.enqueue regular free unlisted
  | dequeue r failed there free =>
    exact inv.dequeue there (RuleState.dequeued_waiting failed (s.rule r).ruleState)
  | idle r free quiet =>
    exact inv.setState (fun _ => by decide) (fun start => by cases start)
      (fun waits => by cases waits) fun _ => rfl
  | stop r a p brutal points found => exact inv.halt points found brutal none
  | change a p p' found changes => exact inv.change found changes
  | fork a p pid found runme =>
    have forked : Invariant (s.setProc a { p with pid, state := .starting, tm := 3 }) := by
      refine inv.setProc found rfl fun r points => ?_
      obtain ⟨q, there, _, _, cookie⟩ := inv.attached r a points
      obtain rfl := Option.some.inj (found.symm.trans there)
      exact ⟨rfl, cookie⟩
    exact { forked with }
  | kill a p p' sig found changes positive => exact { inv.change found changes with }
  | signal a p sig found up user => exact { inv with }
  | disconnect r a points => exact inv.detach r
  | cleanup pid => exact { inv with }
  | remove a p free empty cookie => exact { inv.drop free with }
  | tick tickCounter => exact { inv with }
  | cache r i ruleId found names stored named => exact inv.cache names stored named
  | miss r start =>
    refine inv.setState (fun _ => by decide) (fun same => by cases same)
      (fun waits => by cases waits) fun isTemplate => ?_
    exact absurd (start.symm.trans (inv.templates r isTemplate).1) (by decide)
  | pass r start met =>
    have waits : (s.rule r).ruleState.waiting = true := by rw [start]; rfl
    refine inv.setState (fun member => absurd waits (inv.pending r member).2.1)
      (fun same => by cases same) (fun _ => inv.queued r waits) fun isTemplate => ?_
    exact absurd (start.symm.trans (inv.templates r isTemplate).1) (by decide)
  | launch r regular start free met =>
    have waits : (s.rule r).ruleState.waiting = true := by rw [start]; rfl
    refine (inv.spawn regular).setRule rfl rfl rfl rfl
      (fun member => absurd waits (inv.pending r member).2.1) (fun a points => ?_)
      (fun same => by cases same) (fun _ => inv.queued r waits)
      (fun isTemplate => absurd (start.symm.trans (inv.templates r isTemplate).1) (by decide))
      fun _ member _ _ => .inl member
    obtain rfl := Option.some.inj points
    exact ⟨processNew r, by rw [Assoc.find_cons, if_pos rfl], rfl, rfl, rfl⟩
  | endCondition r condition waits =>
    exact inv.retouch rfl rfl rfl rfl rfl rfl fun _ member _ _ => .inl member
  | complete i obj there waits => exact { inv.settle there (by decide) with }
  | giveUp i obj failed there waits =>
    exact inv.settle there (by cases failed <;> decide)
  | discard i obj there quiet => exact inv.mark there quiet
  | count i timeout less => exact inv.count i timeout
  | schedule r regular quiet free =>
    exact { inv with pending := List.forall_mem_cons.mpr ⟨⟨regular, quiet, free⟩, inv.pending⟩ }
  | sweep =>
    refine inv.setTimers (fun obj member => inv.timed obj (List.mem_of_mem_filter member))
      fun r waits => ?_
    obtain ⟨obj, member, rule, stays⟩ := inv.queued r waits
    exact ⟨obj, List.mem_filter.mpr ⟨member, by rw [stays]; rfl⟩, rule, stays⟩
  | enlist => exact inv.enlist

/-- **So does every move with a message.** -/
theorem Deliver.keeps {x y : Desk × State} (deliver : Deliver x y) (inv : Invariant x.2) :
    Invariant y.2 := by
  cases deliver with
  | receive message => exact { inv with }
  | respond sent msg retval ruleState => exact { inv with }
  | hold r a p brutal msg points found => exact inv.halt points found brutal (some msg)
  | settle sent a p msg free found kept answered => exact { inv.drop free with }
  | lose a p msg free holds kept quiet => exact { inv.drop free with }

theorem Step.keeps {clock : Bool} {x y : Desk × State} (step : Step clock x y)
    (inv : Invariant x.2) : Invariant y.2 := by
  cases step with
  | move move => exact move.keeps inv
  | deliver deliver => exact deliver.keeps inv

/-- **Every sequence of moves keeps the invariant.** -/
theorem Steps.keeps {clock : Bool} {x y : Desk × State} (steps : Steps clock x y)
    (inv : Invariant x.2) : Invariant y.2 := by
  induction steps with
  | refl => exact inv
  | tail _ step ih => exact step.keeps ih

theorem Moves.keeps {clock : Bool} {s s' : State} (moves : Moves clock s s') (inv : Invariant s) :
    Invariant s' := (moves.steps ⟨[], none⟩).keeps inv

end CyberPlatform.Pcd
