/-
**No rule waits longer than its timeout.**

A rule that waits for the end condition of its process has a timer object, whose time is counted
down in every iteration. So the rule cannot wait for the same process over more rounds than its
timeout has ticks, whatever the clients and the processes do in the meantime.

* `Goes.up` — a rule that waits for a process has been waiting for it since it was started.
* `timerIterate_bound` — an iteration takes a tick off the time.
* `rounds_bound` — so do some rounds.
* `Steps.timely` — the time of an object is never more than the timeout of its rule.
-/

import CyberPlatform.Pcd.Order

namespace CyberPlatform.Pcd

open Foundation

/-- A rule waits for the end condition of its process. -/
structure Up (s : State) (r : RuleRef) (a : ProcRef) : Prop where
  waits : (s.rule r).ruleState = .endConditionWaiting
  proc : (s.rule r).proc = some a

/-- The time that a rule may still wait -/
def Bound (s : State) (r : RuleRef) (time : Nat) : Prop :=
  ∃ obj ∈ s.timerObjs, obj.rule = r ∧ obj.timeout ≤ time ∧ obj.dequeue = false

/-! ### Waiting for one process -/

section Waiting

variable {s s' : State} {r : RuleRef} {a : ProcRef}

theorem Kind.up (kind : Kind s s') (inv : Invariant s) (grows : Grows s s') (old : a < s.nextProc)
    (up : Up s' r a) : Up s r a := by
  have points : (s.rule r).proc = some a := grows.attached r a up.proc old
  refine ⟨?_, points⟩
  have waits := up.waits
  cases kind with
  | calm calm =>
    rcases calm.states r with same | ⟨_, other⟩
    · exact same.symm.trans waits
    · exact absurd waits other
  | pass q start met =>
    by_cases here : r = q
    · subst here
      exact absurd ((inv.unstarted r start).symm.trans points) (Option.some_ne_none a).symm
    · rwa [State.setState, State.rule_setRule_of_ne here] at waits
  | launch q regular free met grows =>
    by_cases here : r = q
    · subst here
      exact absurd (free.symm.trans points) (Option.some_ne_none a).symm
    · exact (congrArg Rule.ruleState (State.rule_setRule_of_ne here)).symm.trans waits
  | complete i obj there start =>
    by_cases here : r = obj.rule
    · rw [here]
      exact start
    · exact (congrArg Rule.ruleState (State.rule_setRule_of_ne here)).symm.trans waits
  | fork b p pid found runme => exact waits
  | kill b p sig found alive calm log =>
    rcases calm.states r with same | ⟨_, other⟩
    · exact same.symm.trans waits
    · exact absurd waits other

theorem Step.up {clock : Bool} {x y : Desk × State} (step : Step clock x y) (inv : Invariant x.2)
    (old : a < x.2.nextProc) (up : Up y.2 r a) : Up x.2 r a :=
  (step.kind inv).up inv (Steps.grows (.single step) inv) old up

/-- **A rule that waits for a process** has been waiting for it before. -/
theorem Steps.up {clock : Bool} {x y : Desk × State} (steps : Steps clock x y) (inv : Invariant x.2)
    (old : a < x.2.nextProc) (up : Up y.2 r a) : Up x.2 r a := by
  induction steps with
  | refl => exact up
  | tail steps step ih =>
    have old' := old.trans_le (Steps.grows steps inv).nextProc
    exact ih (step.up (Steps.keeps steps inv) old' up)

theorem Moves.up {clock : Bool} (moves : Moves clock s s') (inv : Invariant s)
    (old : a < s.nextProc) (up : Up s' r a) : Up s r a :=
  Steps.up (moves.steps ⟨[], none⟩) inv old up

theorem Goes.up {clock : Bool} {inbox inbox' : List Message} (goes : Goes clock inbox s inbox' s')
    (inv : Invariant s) (old : a < s.nextProc) (up : Up s' r a) : Up s r a :=
  Steps.up goes inv old up

/-- The process of a rule has been allocated. -/
theorem Up.old (up : Up s r a) (inv : Invariant s) : a < s.nextProc := by
  obtain ⟨p, found, _⟩ := inv.attached r a up.proc
  exact inv.fresh a (List.mem_map.mpr ⟨_, Assoc.mem_of_find found, rfl⟩)

end Waiting

/-! ### The time between two iterations -/

section Between

variable {s s' : State} {r : RuleRef} {a : ProcRef} {time : Nat}

/-- Only the timers count. -/
theorem Move.bound (move : Move false s s') (waits : (s'.rule r).ruleState.waiting)
    (bound : Bound s r time) : Bound s' r time := by
  obtain ⟨obj, member, rule, less, stays⟩ := bound
  cases move with
  | enqueue q regular quiet free unlisted =>
    exact ⟨obj, List.mem_append_left _ member, rule, less, stays⟩
  | dequeue q failed there free =>
    have differ : q ≠ r := by
      rintro rfl
      rw [State.setState, State.rule_setRule_self] at waits
      exact RuleState.dequeued_waiting failed _ waits
    have other : ¬ decide (obj.rule = q) := fun same =>
      differ ((of_decide_eq_true same).symm.trans rule)
    have kept := (List.mem_eraseP_of_neg (p := fun obj : TimerObj => obj.rule = q) other).mpr member
    exact ⟨obj, kept, rule, less, stays⟩
  | _ => exact ⟨obj, member, rule, less, stays⟩

/-- **Between two iterations** the time of a rule that waits for a process stays as it is. -/
theorem Steps.bound {x y : Desk × State} (steps : Steps false x y) (inv : Invariant x.2)
    (old : a < x.2.nextProc) (up : Up y.2 r a) (bound : Bound x.2 r time) : Bound y.2 r time := by
  induction steps with
  | refl => exact bound
  | tail steps step ih =>
    have inv' := Steps.keeps steps inv
    have before := ih (step.up inv' (old.trans_le (Steps.grows steps inv).nextProc) up)
    cases step with
    | move move => exact move.bound (by rw [up.waits]; rfl) before
    | deliver deliver => cases deliver <;> exact before

theorem Goes.bound {inbox inbox' : List Message} (goes : Goes false inbox s inbox' s')
    (inv : Invariant s) (old : a < s.nextProc) (up : Up s' r a) (bound : Bound s r time) :
    Bound s' r time :=
  Steps.bound goes inv old up bound

end Between

/-! ### The iterations -/

section Iterations

variable {s s' : State} {r : RuleRef} {a : ProcRef} {time tick : Nat}

/-- **An iteration takes a tick off the time** of a rule that goes on waiting for its process. -/
theorem timerIterate_bound {envs : Nat → Env} {flag : Bool} (inv : Invariant s)
    (ran : timerIterate tick envs s = .ok (flag, s')) (old : a < s.nextProc) (up : Up s' r a)
    (finite : time < forever) (bound : Bound s r time) :
    0 < time ∧ Bound s' r (time - tick) := by
  obtain ⟨obj, member, rule, less, stays⟩ := bound
  obtain ⟨k, there⟩ := List.mem_iff_getElem?.mp member
  subst rule
  -- the object is as it was in front of its visit, and counted down behind it
  have loop : Ensures (Reboots s)
      ((List.range s.timerObjs.length).foldlM (timerRound tick envs) (false, s)) fun out =>
      Moves true s out.2 ∧ (k ∉ List.range s.timerObjs.length →
        out.2.timerObjs[k]? = some obj) ∧ (k ∈ List.range s.timerObjs.length →
        Up out.2 obj.rule a → obj.timeout ≠ 0 ∧
          out.2.timerObjs[k]? = some { obj with timeout := countdown tick obj.timeout }) := by
    refine Ensures.foldlM_from (I := fun done (out : Bool × State) => Moves true s out.2 ∧
      (k ∉ done → out.2.timerObjs[k]? = some obj) ∧ (k ∈ done → Up out.2 obj.rule a →
        obj.timeout ≠ 0 ∧ out.2.timerObjs[k]? =
          some { obj with timeout := countdown tick obj.timeout })) ?_ ?_
    · intro done i rest split out kept
      obtain ⟨moves, before, behind⟩ := kept
      have inv' := Moves.keeps moves inv
      have old' := old.trans_le (Moves.grows moves inv).nextProc
      have grows : Grows s out.2 := Moves.grows moves inv
      refine grows.since ((timerRound_made tick envs i inv').mono fun out' made => ?_)
      obtain ⟨moves', others, visited⟩ := made
      refine ⟨Relation.ReflTransGen.trans moves moves', fun outside => ?_, fun inside up' => ?_⟩
      · obtain ⟨outside, differ⟩ := not_or.mp (List.mem_append.not.mp outside)
        rw [others k fun same => differ (List.mem_singleton.mpr same)]
        exact before outside
      · rcases List.mem_append.mp inside with done' | here
        · have nodup : (done ++ i :: rest).Nodup := split ▸ List.nodup_range
          have differ : k ≠ i := (List.nodup_append.mp nodup).2.2 k done' i List.mem_cons_self
          rw [others k differ]
          exact behind done' (Moves.up moves' inv' old' up')
        · obtain rfl := List.mem_singleton.mp here
          have nodup : (done ++ k :: rest).Nodup := split ▸ List.nodup_range
          have outside : k ∉ done := fun done' =>
            (List.nodup_append.mp nodup).2.2 k done' k List.mem_cons_self rfl
          obtain ⟨middle, first, second, counted⟩ := visited obj (before outside)
          have inv₁ := Moves.keeps first inv'
          have old₁ := old'.trans_le (Moves.grows first inv').nextProc
          cases counted (Moves.up second inv₁ old₁ up').waits with
          | endless endless => exact absurd endless (less.trans_lt finite).ne
          | counted more counted => exact ⟨more, counted⟩
          | left last left first' second' =>
            have inv₂ := Moves.keeps first' inv₁
            have old₂ := old₁.trans_le (Moves.grows first' inv₁).nextProc
            exact absurd (Moves.up second' inv₂ old₂ up').waits left
    · exact ⟨.refl, fun _ => there, fun absent => absurd absent List.not_mem_nil⟩
  unfold timerIterate at ran
  obtain ⟨⟨flag', last⟩, looped, handled⟩ := bind_eq_ok.mp ran
  obtain ⟨rfl, rfl⟩ := Prod.mk.inj (Except.ok.inj handled)
  obtain ⟨moves, _, behind⟩ := loop.of_ok looped
  have handles : Moves true last (enqueueHandle (dequeueHandle last)) :=
    Relation.ReflTransGen.tail (.single .sweep) .enlist
  have inv' := Moves.keeps moves inv
  have old' := old.trans_le (Moves.grows moves inv).nextProc
  have inside : k ∈ List.range s.timerObjs.length :=
    List.mem_range.mpr (List.getElem?_eq_some_iff.mp there).1
  obtain ⟨more, counted⟩ := behind inside (Moves.up handles inv' old' up)
  refine ⟨(Nat.pos_of_ne_zero more).trans_le less,
    { obj with timeout := countdown tick obj.timeout }, ?_, rfl, ?_, stays⟩
  · have swept : { obj with timeout := countdown tick obj.timeout } ∈
        (dequeueHandle last).timerObjs :=
      List.mem_filter.mpr ⟨List.mem_of_getElem? counted, by rw [stays]; rfl⟩
    have admitted := (enqueueHandleRound_all (dequeueHandle last).enqueueList
      (dequeueHandle last)).1
    show _ ∈ ((dequeueHandle last).enqueueList.foldl enqueueHandleRound
      (dequeueHandle last)).timerObjs
    rw [admitted]
    exact List.mem_append_left _ swept
  · unfold countdown
    dsimp only
    split_ifs <;> omega

/-- **So do some rounds.** -/
theorem rounds_bound {rules : List Rule} (config : Configuration rules) (rounds : List Round) :
    ∀ {inbox : List Message} {s : State} {time : Nat}, Reached rules inbox s →
      (∀ round ∈ rounds, ∀ arrival ∈ round.arrivals, Client rules arrival.message) →
      rounds.foldlM (mainRound tick) s = .ok s' → Up s r a → Up s' r a → time < forever →
      Bound s r time → ∀ n < rounds.length, n * tick < time := by
  induction rounds with
  | nil => exact fun _ _ _ _ _ _ _ n below => absurd below (Nat.not_lt_zero n)
  | cons round rest ih =>
    intro inbox s time reached clients ran upFirst upLast finite bound n below
    obtain ⟨clients, clientsRest⟩ := List.forall_mem_cons.mp clients
    rw [List.foldlM_cons] at ran
    obtain ⟨middle, first, ranRest⟩ := bind_eq_ok.mp ran
    obtain ⟨made, reached'⟩ := (reached.round config tick round clients).of_ok first
    obtain ⟨served, flag, second, goes₁, iterated, moves, goes₂⟩ := made.parts
    have old : a < s.nextProc := upFirst.old reached.inv
    have old' : a < middle.nextProc := old.trans_le (made.goes.grows reached.inv).nextProc
    -- the rule has been waiting in all states in between
    have upMiddle : Up middle r a := by
      have later : Ensures (fun _ => True) (rest.foldlM (mainRound tick) middle) fun last =>
          Up last r a → Up middle r a := by
        refine (Ensures.foldlM_from (I := fun done last => ∃ inbox', Reached rules inbox' last ∧
          (Up last r a → Up middle r a) ∧ a < last.nextProc)
          (fun done next behind split last kept =>
            ?_) ⟨_, reached', id, old'⟩).mono fun last kept => kept.choose_spec.2.1
        obtain ⟨inbox', there, back, oldLast⟩ := kept
        have member : next ∈ rest := by
          rw [split]
          exact List.mem_append_right _ List.mem_cons_self
        have made :=
          (there.round config tick next (clientsRest next member)).weaken fun _ _ => trivial
        refine made.mono fun last' made' => ?_
        refine ⟨_, made'.2, fun up => back (made'.1.goes.up there.inv oldLast up), ?_⟩
        exact oldLast.trans_le (made'.1.goes.grows there.inv).nextProc
      exact later.of_ok ranRest upLast
    have inv₁ := goes₁.keeps reached.inv
    have inv₂ := Moves.keeps moves inv₁
    have old₁ := old.trans_le (goes₁.grows reached.inv).nextProc
    have old₂ := old₁.trans_le (Moves.grows moves inv₁).nextProc
    have up₂ : Up second r a := goes₂.up inv₂ old₂ upMiddle
    have up₁ : Up served r a := Moves.up moves inv₁ old₁ up₂
    have bound₁ := goes₁.bound reached.inv old up₁ bound
    obtain ⟨more, bound₂⟩ := timerIterate_bound inv₁ iterated old₁ up₂ finite bound₁
    have bound' := goes₂.bound inv₂ old₂ upMiddle bound₂
    cases n with
    | zero => rw [Nat.zero_mul]; exact more
    | succ n =>
      have rest' := ih reached' clientsRest ranRest upMiddle upLast
        ((Nat.sub_le time tick).trans_lt finite) bound' n (Nat.lt_of_succ_lt_succ below)
      rw [Nat.succ_mul]
      omega

end Iterations

/-! ### Where the time begins -/

/-- No object has more time than the timeout of its rule. -/
def Timely (s : State) : Prop := ∀ obj ∈ s.timerObjs, obj.timeout ≤ (s.rule obj.rule).timeout

section Beginning

variable {s s' : State}

/-- The objects that have been there have no more time than before. -/
theorem Timely.of_grows (timely : Timely s) (inv : Invariant s) (grows : Grows s s')
    (objs : ∀ obj ∈ s'.timerObjs, ∃ obj' ∈ s.timerObjs, obj'.rule = obj.rule ∧
      obj.timeout ≤ obj'.timeout) : Timely s' := by
  intro obj member
  obtain ⟨obj', member', rule, less⟩ := objs obj member
  have stored := (inv.timed obj' member').stored
  rw [← rule, (grows.rules obj'.rule stored).timeout]
  exact less.trans (timely obj' member')

/-- A rule is enqueued with its timeout. -/
theorem Timely.enqueue (timely : Timely s) (r : RuleRef) :
    Timely (timerEnqueue r (s.setState r .startConditionWaiting)) := by
  have timeout : ∀ q, ((s.setState r .startConditionWaiting).rule q).timeout =
      (s.rule q).timeout := State.kept_setRule Rule.timeout rfl
  intro obj member
  rcases List.mem_append.mp member with old | new
  · exact (timely obj old).trans (timeout obj.rule).ge
  · rw [List.mem_singleton.mp new]
    exact le_rfl

/-- An object is marked. -/
theorem timely_marked {i : Nat} {objs : List TimerObj} {obj : TimerObj}
    (member : obj ∈ objs.modify i fun obj => { obj with dequeue := true }) :
    ∃ obj' ∈ objs, obj'.rule = obj.rule ∧ obj.timeout ≤ obj'.timeout := by
  obtain ⟨j, at'⟩ := List.mem_iff_getElem?.mp member
  rw [List.getElem?_modify] at at'
  obtain ⟨obj', at'', rfl⟩ := Option.map_eq_some_iff.mp at'
  refine ⟨obj', List.mem_of_getElem? at'', ?_⟩
  split_ifs
  · exact ⟨rfl, le_rfl⟩
  · exact ⟨rfl, le_rfl⟩

theorem Move.timely {clock : Bool} (move : Move clock s s') (inv : Invariant s)
    (timely : Timely s) : Timely s' := by
  have grows := move.grows inv
  have kept : ∀ obj ∈ s.timerObjs, ∃ obj' ∈ s.timerObjs, obj'.rule = obj.rule ∧
      obj.timeout ≤ obj'.timeout := fun obj member => ⟨obj, member, rfl, le_rfl⟩
  cases move with
  | enqueue r regular quiet free unlisted => exact timely.enqueue r
  | dequeue r failed there free =>
    exact timely.of_grows inv grows fun obj member => kept obj (List.mem_of_mem_eraseP member)
  | complete i obj there waits => exact timely.of_grows inv grows fun obj => timely_marked
  | giveUp i obj failed there waits => exact timely.of_grows inv grows fun obj => timely_marked
  | discard i obj there quiet => exact timely.of_grows inv grows fun obj => timely_marked
  | count i timeout less =>
    refine timely.of_grows inv grows fun obj member => ?_
    obtain ⟨j, at'⟩ := List.mem_iff_getElem?.mp member
    rw [List.getElem?_modify] at at'
    obtain ⟨obj', at'', rfl⟩ := Option.map_eq_some_iff.mp at'
    refine ⟨obj', List.mem_of_getElem? at'', ?_⟩
    split_ifs with here
    · exact ⟨rfl, less obj' (here ▸ at'')⟩
    · exact ⟨rfl, le_rfl⟩
  | sweep =>
    exact timely.of_grows inv grows fun obj member => kept obj (List.mem_of_mem_filter member)
  | enlist =>
    have rounds : ∀ (rules : List RuleRef) (s : State), Timely s →
        Timely (rules.foldl enqueueHandleRound s) := by
      intro rules
      induction rules with
      | nil => exact fun _ timely => timely
      | cons r rest ih => exact fun s timely => ih _ (timely.enqueue r)
    exact rounds s.enqueueList s timely
  | _ => exact timely.of_grows inv grows kept

/-- **The time of an object** is never more than the timeout of its rule. -/
theorem Steps.timely {clock : Bool} {x y : Desk × State} (steps : Steps clock x y)
    (inv : Invariant x.2) (timely : Timely x.2) : Timely y.2 := by
  induction steps with
  | refl => exact timely
  | tail steps step ih =>
    have inv' := Steps.keeps steps inv
    cases step with
    | move move => exact move.timely inv' ih
    | deliver deliver =>
      have grows := deliver.grows
      cases deliver <;>
        exact Timely.of_grows ih inv' grows fun obj member => ⟨obj, member, rfl, le_rfl⟩

end Beginning

/-- The time of a rule that waits, in a state that the daemon has reached. -/
theorem Reached.bound {rules : List Rule} {inbox : List Message} {s : State}
    (reached : Reached rules inbox s) (config : Configuration rules) {r : RuleRef}
    (waits : (s.rule r).ruleState.waiting) : Bound s r (s.rule r).timeout := by
  have timely : Timely s := Steps.timely reached.goes (invariant_loaded config)
    fun _ absent => absurd absent List.not_mem_nil
  obtain ⟨obj, member, rfl, stays⟩ := reached.inv.queued r waits
  exact ⟨obj, member, rfl, timely obj member, stays⟩

end CyberPlatform.Pcd
