/-
**The daemon from its start on.**

* `Parsed`, `Configuration` — the rules as the parser gives them, and those with which the daemon
  runs as it is meant to.
* `activate_eq` — the start enqueues every active rule once, in the order of the database.
* `reached_run` — from there on the daemon goes wrong in no way, whatever the world does.
-/

import CyberPlatform.Pcd.Rounds

namespace CyberPlatform.Pcd

open Foundation

/-- The rules of a file are added to the database one after the other. -/
def load (rules : List Rule) : RulesDb := rules.foldl RulesDb.addRule .empty

/-- The daemon behind the parser -/
def loaded (rules : List Rule) : State := { State.initial with db := load rules }

/-- The daemon in front of its main loop. The counter is such that the first round goes through the
processes. -/
def started (rules : List Rule) : State :=
  { (activate (loaded rules)).2 with tickCounter := processTick }

@[simp] theorem rule_loaded (rules : List Rule) (r : RuleRef) :
    (loaded rules).rule r = (load rules).memory r := rfl

/-- Some rounds of the main loop -/
def run (tick : Nat) (rules : List Rule) (rounds : List Round) : Except Stop State :=
  rounds.foldlM (mainRound tick) (started rules)

/-- **The rules of a file** as the parser gives them. -/
structure Parsed (rules : List Rule) : Prop where
  free : ∀ rule ∈ rules, rule.proc = none
  commands : ∀ rule ∈ rules, rule.command ≠ none
  states : ∀ rule ∈ rules, rule.ruleState = .idle ∨ rule.ruleState = .active
  uncached : ∀ rule ∈ rules, ∀ entry ∈ rule.startCondition.caches, entry.rule = none

/-- **The rules of a file with which the daemon runs as it is meant to.** That no template is
active, and that no failure action names one, is up to the author of the file. -/
structure Configuration (rules : List Rule) : Prop extends Parsed rules where
  templates : ∀ rule ∈ rules, rule.indexed = true → rule.ruleState = .idle
  execs : ∀ rule ∈ rules, ∀ ruleId, rule.failureAction = .execRule ruleId →
    ∀ template ∈ rules, template.indexed = true → template.ruleId ≠ ruleId

/-- The messages of clients that use the interface as it is meant -/
structure Client (rules : List Rule) (message : Message) : Prop where
  magic : message.magic = true
  untemplated : ∀ ruleId params, message.request = .startProcess ruleId params →
    ∀ template ∈ rules, template.indexed = true → template.ruleId ≠ ruleId

/-! ### Loading -/

section Loading

variable {rules : List Rule}

/-- What a database has of the rules of a file. -/
structure Stored (rules : List Rule) (db : RulesDb) : Prop where
  wellFormed : db.WellFormed
  inside : ∀ r < db.size, db.memory r ∈ rules
  outside : ∀ r, db.size ≤ r → db.memory r = .zero

theorem Stored.addRule {db : RulesDb} (stored : Stored rules db) {rule : Rule}
    (member : rule ∈ rules) : Stored rules (db.addRule rule) := by
  have wellFormed := RulesDb.wellFormed_addRule stored.wellFormed rule
  by_cases taken : ∃ r < db.size, (db.memory r).ruleId = rule.ruleId
  · obtain ⟨r, old, same⟩ := taken
    rw [RulesDb.addRule_taken stored.wellFormed old same]
    exact stored
  push Not at taken
  obtain ⟨groups, added⟩ := RulesDb.addRule_fresh stored.wellFormed taken
  rw [added] at wellFormed ⊢
  refine ⟨wellFormed, fun r below => ?_, fun r above => ?_⟩
  · show Function.update db.memory db.size rule r ∈ rules
    rcases Nat.lt_succ_iff_lt_or_eq.mp below with old | rfl
    · rw [Function.update_of_ne old.ne]
      exact stored.inside r old
    · rw [Function.update_self]
      exact member
  · show Function.update db.memory db.size rule r = .zero
    have above : db.size < r := above
    rw [Function.update_of_ne above.ne']
    exact stored.outside r above.le

/-- **All rules of the database are rules of the file.** -/
theorem stored_load (rules : List Rule) : Stored rules (load rules) := by
  suffices all : ∀ (some : List Rule), some ⊆ rules → ∀ db, Stored rules db →
      Stored rules (some.foldl RulesDb.addRule db) from
    all rules (List.Subset.refl _) _
      ⟨RulesDb.wellFormed_empty, fun _ below => absurd below (Nat.not_lt_zero _), fun _ _ => rfl⟩
  intro some
  induction some with
  | nil => exact fun _ db stored => stored
  | cons rule rest ih =>
    intro members db stored
    obtain ⟨member, members⟩ := List.cons_subset.mp members
    exact ih members _ (stored.addRule member)

/-- A rule of the database, or what is behind them. -/
theorem Stored.cases {db : RulesDb} (stored : Stored rules db) (r : RuleRef) :
    db.memory r ∈ rules ∨ db.memory r = .zero := by
  rcases Nat.lt_or_ge r db.size with below | above
  · exact .inl (stored.inside r below)
  · exact .inr (stored.outside r above)

/-- A template of the database is one of the file. -/
theorem template_loaded {ruleId : RuleId} (template : Template (loaded rules) ruleId) :
    ∃ template ∈ rules, template.indexed = true ∧ template.ruleId = ruleId := by
  obtain ⟨t, stored, indexed, named⟩ := template
  exact ⟨_, (stored_load rules).inside t stored, indexed, named⟩

/-- Behind the parser no rule has a process. -/
theorem free_loaded (parsed : Parsed rules) (r : RuleRef) :
    ((loaded rules).rule r).proc = none := by
  rw [rule_loaded]
  exact ((stored_load rules).cases r).elim (parsed.free _) fun zero => zero ▸ rfl

/-- Behind the parser no rule waits. -/
theorem quiet_loaded (parsed : Parsed rules) (r : RuleRef) :
    ¬ ((loaded rules).rule r).ruleState.waiting := by
  rw [rule_loaded]
  rcases (stored_load rules).cases r with member | zero
  · rcases parsed.states _ member with idle | active
    · rw [idle]
      exact Bool.false_ne_true
    · rw [active]
      exact Bool.false_ne_true
  · rw [zero]
    exact Bool.false_ne_true

/-- **The invariant holds behind the parser.** -/
theorem invariant_loaded (config : Configuration rules) : Invariant (loaded rules) := by
  have stored := stored_load rules
  have free := free_loaded config.toParsed
  have quiet := quiet_loaded config.toParsed
  constructor
  case db => exact stored.wellFormed
  case keys => exact List.nodup_nil
  case fresh => exact fun _ absent => absurd absent List.not_mem_nil
  case owned => exact fun _ _ absent => by cases absent
  case timed => exact fun _ absent => absurd absent List.not_mem_nil
  case pending => exact fun _ absent => absurd absent List.not_mem_nil
  case attached =>
    exact fun r a points => absurd ((free r).symm.trans points) (Option.some_ne_none a).symm
  case unstarted => exact fun r _ => free r
  case queued => exact fun r waits => absurd waits (quiet r)
  case templates =>
    refine fun r indexed => ⟨?_, free r⟩
    rcases stored.cases r with member | zero
    · exact config.templates _ member indexed
    · rw [rule_loaded, zero]
      rfl
  case commands => exact fun r below => config.commands _ (stored.inside r below)
  case execs =>
    intro r below ruleId action template
    obtain ⟨template, member, indexed, named⟩ := template_loaded template
    exact config.execs _ (stored.inside r below) ruleId action template member indexed named
  case cached =>
    intro r below entry member found remembers
    have empty := config.uncached _ (stored.inside r below) entry member
    exact absurd (empty.symm.trans remembers) (Option.some_ne_none found).symm

end Loading

/-! ### The start -/

section Activating

/-- What the enqueuing of some rules does. -/
theorem enqueueHandleRound_all (todo : List RuleRef) : ∀ s : State,
    let s' := todo.foldl enqueueHandleRound s
    s'.timerObjs = s.timerObjs ++ todo.map (fun r => ⟨r, (s.rule r).timeout, false⟩) ∧
      (∀ r, s'.rule r = if r ∈ todo then { s.rule r with ruleState := .startConditionWaiting }
        else s.rule r) ∧
      s'.procList = s.procList ∧ s'.enqueueList = s.enqueueList ∧ s'.log = s.log := by
  induction todo with
  | nil => exact fun s => ⟨(List.append_nil _).symm, fun _ => rfl, rfl, rfl, rfl⟩
  | cons r rest ih =>
    intro s
    obtain ⟨timers, rules, procs, list, log⟩ := ih (enqueueHandleRound s r)
    have first : ∀ r', (enqueueHandleRound s r).rule r' =
        if r' = r then { s.rule r with ruleState := .startConditionWaiting } else s.rule r' :=
      fun r' => State.rule_setRule
    have timeout : ∀ r', ((enqueueHandleRound s r).rule r').timeout = (s.rule r').timeout :=
      State.kept_setRule Rule.timeout rfl
    refine ⟨?_, fun r' => ?_, procs, list, log⟩
    · refine timers.trans ?_
      have this : ((s.setState r .startConditionWaiting).rule r).timeout = (s.rule r).timeout :=
        timeout r
      simp only [timeout, List.map_cons]
      show (s.timerObjs ++ [(⟨r, ((s.setState r .startConditionWaiting).rule r).timeout, false⟩ :
        TimerObj)]) ++ _ = _
      rw [this, List.append_assoc, List.singleton_append]
    · refine (rules r').trans ?_
      rw [first]
      by_cases here : r' = r
      · rw [here, if_pos rfl, if_pos List.mem_cons_self]
        split_ifs <;> rfl
      · rw [if_neg here]
        simp only [List.mem_cons, here, false_or]

/-- The loop over the rules of the database. -/
theorem activateLoop_eq : ∀ (fuel : Nat) (cursor : Option RuleRef × RulesDb.Cursor) (s : State),
    (RulesDb.traverse fuel cursor).Nodup →
    (∀ r, ¬ (s.rule r).ruleState.waiting ∨ r ∉ RulesDb.traverse fuel cursor) →
    (∀ r, (s.rule r).proc = none) →
    activateLoop fuel cursor s = (.ok, ((RulesDb.traverse fuel cursor).filter
      fun r => (s.rule r).ruleState = .active).foldl enqueueHandleRound s)
  | 0, _, s, _, _, _ => rfl
  | _ + 1, (none, _), s, _, _, _ => rfl
  | fuel + 1, (some rule, cursor), s, nodup, quiet, free => by
    rw [RulesDb.traverse] at nodup quiet ⊢
    obtain ⟨apart, nodup⟩ := List.nodup_cons.mp nodup
    have quiet' : ∀ r, ¬ (s.rule r).ruleState.waiting ∨
        r ∉ RulesDb.traverse fuel (RulesDb.getNext cursor) := fun r =>
      (quiet r).imp id fun outside member => outside (List.mem_cons_of_mem rule member)
    rw [activateLoop]
    by_cases active : (s.rule rule).ruleState = .active
    · have still : ¬ (s.rule rule).ruleState.waiting := by
        rw [active]
        exact Bool.false_ne_true
      rw [if_pos active, enqueueRule_of still (free rule),
        List.filter_cons_of_pos (by simpa using active),
        List.foldl_cons]
      have rules : ∀ r, (enqueueHandleRound s rule).rule r =
          if r = rule then { s.rule rule with ruleState := .startConditionWaiting } else s.rule r :=
        fun r => State.rule_setRule
      have rest := activateLoop_eq fuel (RulesDb.getNext cursor) (enqueueHandleRound s rule) nodup
        (fun r => ?_) fun r => ?_
      · have same : (RulesDb.traverse fuel (RulesDb.getNext cursor)).filter
            (fun r => ((enqueueHandleRound s rule).rule r).ruleState = .active) =
            (RulesDb.traverse fuel (RulesDb.getNext cursor)).filter
              fun r => (s.rule r).ruleState = .active := by
          refine List.filter_congr fun r member => ?_
          have other : r ≠ rule := fun here => apart (here ▸ member)
          rw [rules, if_neg other]
        rw [same] at rest
        exact rest
      · by_cases here : r = rule
        · exact .inr (here ▸ apart)
        · rw [rules, if_neg here]
          exact quiet' r
      · rw [rules]
        split_ifs with here
        · exact free rule
        · exact free r
    · rw [if_neg active, List.filter_cons_of_neg (by simpa using active)]
      exact activateLoop_eq fuel (RulesDb.getNext cursor) s nodup quiet' free

/-- **The start enqueues every active rule of the database**, once, and in its order. -/
theorem activate_eq {rules : List Rule} (parsed : Parsed rules) :
    activate (loaded rules) = (.ok, ((load rules).refs.filter
      fun r => ((load rules).memory r).ruleState = .active).foldl enqueueHandleRound
        (loaded rules)) := by
  have wellFormed := (stored_load rules).wellFormed
  have walk := RulesDb.traverse_eq wellFormed (le_refl (load rules).size)
  have loop := activateLoop_eq (load rules).size (load rules).getFirst (loaded rules)
  rw [walk] at loop
  have nodup : (load rules).refs.Nodup := wellFormed.complete.nodup_iff.mpr List.nodup_range
  exact loop nodup (fun r => .inl (quiet_loaded parsed r)) (free_loaded parsed)

end Activating

/-! ### Runs -/

section Runs

variable {rules : List Rule}

/-- Rules that may be enqueued, are enqueued by moves. -/
theorem enqueueHandleRound_moves (todo : List RuleRef) : ∀ {s : State}, s.enqueueList = [] →
    todo.Nodup → (∀ r ∈ todo, Enqueueable s r) →
      Moves false s (todo.foldl enqueueHandleRound s) := by
  induction todo with
  | nil => exact fun _ _ _ => .refl
  | cons r rest ih =>
    intro s unlisted nodup fits
    obtain ⟨apart, nodup⟩ := List.nodup_cons.mp nodup
    obtain ⟨⟨regular, quiet, free⟩, fits⟩ := List.forall_mem_cons.mp fits
    refine .head (.enqueue r regular quiet free (unlisted ▸ List.not_mem_nil))
      (ih unlisted nodup fun r' member => ?_)
    have other : (enqueueHandleRound s r).rule r' = s.rule r' :=
      State.rule_setRule_of_ne fun same => apart (same ▸ member)
    obtain ⟨regular', quiet', free'⟩ := fits r' member
    refine ⟨⟨regular'.stored, (congrArg Rule.indexed other).trans regular'.plain⟩, ?_, ?_⟩
    · exact (congrArg Rule.ruleState other).symm ▸ quiet'
    · exact (congrArg Rule.proc other).trans free'

/-- **The start is made of moves.** -/
theorem started_made (config : Configuration rules) :
    Moves false (loaded rules) (started rules) := by
  have inv := invariant_loaded config
  have enqueued : Moves false (loaded rules) (activate (loaded rules)).2 := by
    rw [activate_eq config.toParsed]
    refine enqueueHandleRound_moves _ rfl ?_ fun r member => ?_
    · exact (inv.db.complete.nodup_iff.mpr List.nodup_range).filter _
    · obtain ⟨member, active⟩ := List.mem_filter.mp member
      have active : ((loaded rules).rule r).ruleState = .active := of_decide_eq_true active
      refine ⟨⟨inv.db.mem_refs.mp member, ?_⟩, ?_, ?_⟩
      · cases indexed : ((loaded rules).rule r).indexed with
        | false => exact indexed
        | true => exact absurd (active.symm.trans (inv.templates r indexed).1) (by decide)
      · rw [active]
        exact Bool.false_ne_true
      · exact free_loaded config.toParsed r
  exact enqueued.tail (.tick processTick)

/-- What is known of every state that the daemon reaches with the messages of an inbox. -/
structure Reached (rules : List Rule) (inbox : List Message) (s : State) : Prop where
  goes : Goes true [] (loaded rules) inbox s
  inv : Invariant s
  unlisted : s.enqueueList = []

theorem reached_started (config : Configuration rules) : Reached rules [] (started rules) where
  goes := (Moves.timed (started_made config) true).goes []
  inv := (started_made config).keeps (invariant_loaded config)
  unlisted := (started_made config).enqueueList

/-- The messages of clients are such as the daemon is meant to get. -/
theorem Reached.admitted {inbox : List Message} {s : State} (reached : Reached rules inbox s)
    (config : Configuration rules) {message : Message} (client : Client rules message) :
    Admitted s message := by
  obtain ⟨magic, untemplated⟩ := client
  have grows := reached.goes.grows (invariant_loaded config)
  refine ⟨magic, fun ruleId params request template => ?_⟩
  obtain ⟨t, there, indexed, named⟩ := template_loaded (grows.template template)
  exact untemplated ruleId params request t there indexed named

/-- A round of the main loop, from a state that the daemon has reached. -/
theorem Reached.round {inbox : List Message} {s : State} (reached : Reached rules inbox s)
    (config : Configuration rules) (tick : Nat) (round : Round)
    (clients : ∀ arrival ∈ round.arrivals, Client rules arrival.message) :
    Ensures (Reboots s) (mainRound tick s round) fun s' => RoundMade tick round inbox s s' ∧
      Reached rules (inbox ++ received round.arrivals) s' := by
  have admitted : ∀ arrival ∈ round.arrivals, Admitted s arrival.message := fun arrival member =>
    reached.admitted config (clients arrival member)
  refine (mainRound_made tick reached.inv reached.unlisted round admitted inbox).mono
    fun s' made => ?_
  exact ⟨made, reached.goes.trans made.goes, made.goes.keeps reached.inv, made.unlisted⟩

/-- The messages that are received in some rounds -/
def inboxOf (rounds : List Round) : List Message :=
  rounds.flatMap fun round => received round.arrivals

/-- **Every run of the daemon** reboots, or reaches a state of which all that is known. -/
theorem reached_run (config : Configuration rules) (tick : Nat) (rounds : List Round)
    (clients : ∀ round ∈ rounds, ∀ arrival ∈ round.arrivals, Client rules arrival.message) :
    Ensures (Reboots (loaded rules)) (run tick rules rounds) (Reached rules (inboxOf rounds)) := by
  refine Ensures.foldlM_from (I := fun done => Reached rules (inboxOf done))
    (fun done round rest split s reached => ?_) (reached_started config)
  have member : round ∈ rounds := by
    rw [split]
    exact List.mem_append_right _ List.mem_cons_self
  rw [inboxOf, List.flatMap_append, List.flatMap_singleton]
  exact (reached.goes.grows (invariant_loaded config)).since
    ((reached.round config tick round (clients round member)).mono fun s' => And.right)

end Runs

end CyberPlatform.Pcd
