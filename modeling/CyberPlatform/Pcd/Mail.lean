/-
**What becomes of a message.**

* `Move.cookies` — a process keeps the message of the client that waits for its end.
* `Mail` — where the messages are: every message that has been received is freed once, or held by
  one process, or lost with a process object that is freed without an answer.
* `Mail.steps` — every sequence of moves keeps account of them.
-/

import CyberPlatform.Pcd.Lasting

namespace CyberPlatform.Pcd

open Foundation

/-! ### Processes that hold a message -/

section Holding

variable {s : State} {a : ProcRef} {p p' : Proc} {b : ProcRef} {msg : Incoming}

/-- A process object that is rewritten with the message that it has. -/
theorem holds_setProc (found : Assoc.find a s.procList = some p) (cookie : p'.cookie = p.cookie) :
    Holds (s.setProc a p') b msg ↔ Holds s b msg := by
  unfold Holds
  rw [show Assoc.find b (s.setProc a p').procList = _ from Assoc.find_put]
  split_ifs with here
  · rw [here, found]
    constructor
    · rintro ⟨q, same, kept⟩
      obtain rfl := Option.some.inj same
      exact ⟨p, rfl, cookie.symm.trans kept⟩
    · rintro ⟨q, same, kept⟩
      obtain rfl := Option.some.inj same
      exact ⟨p', rfl, cookie.trans kept⟩
  · exact Iff.rfl

/-- A process that holds no message is freed. -/
theorem holds_drop (empty : ∀ p, Assoc.find a s.procList = some p → p.cookie = none) :
    Holds { s with procList := Assoc.drop a s.procList } b msg ↔ Holds s b msg := by
  unfold Holds
  rw [Assoc.find_drop]
  split_ifs with here
  · constructor
    · rintro ⟨q, absent, _⟩
      cases absent
    · rintro ⟨q, found, kept⟩
      exact absurd ((empty q (here ▸ found)).symm.trans kept) (Option.some_ne_none msg).symm
  · exact Iff.rfl

end Holding

/-- **A process keeps its message** in every move. -/
theorem Move.cookies {clock : Bool} {s s' : State} (move : Move clock s s') (inv : Invariant s)
    (b : ProcRef) (msg : Incoming) : Holds s' b msg ↔ Holds s b msg := by
  cases move with
  | stop r a p brutal points found =>
    obtain ⟨q, there, _, _, cookie⟩ := inv.attached r a points
    obtain rfl := Option.some.inj (found.symm.trans there)
    exact holds_setProc found cookie.symm
  | change a p p' found changes => exact holds_setProc found changes.cookie
  | fork a p pid found runme => exact holds_setProc found rfl
  | kill a p p' sig found changes positive => exact holds_setProc found changes.cookie
  | remove a p free empty cookie => exact holds_drop empty
  | launch r regular start free met =>
    unfold Holds
    rw [show Assoc.find b (launched r s).procList = _ from Assoc.find_cons _]
    split_ifs with here
    · constructor
      · rintro ⟨q, same, kept⟩
        obtain rfl := Option.some.inj same
        cases kept
      · rintro ⟨q, found, _⟩
        have old := inv.fresh b (List.mem_map.mpr ⟨_, Assoc.mem_of_find found, rfl⟩)
        exact absurd old here.le.not_gt
    · exact Iff.rfl
  | enlist =>
    have rounds : ∀ (rules : List RuleRef) (s : State),
        (rules.foldl enqueueHandleRound s).procList = s.procList := by
      intro rules
      induction rules with
      | nil => exact fun _ => rfl
      | cons r rest ih => exact fun s => ih (enqueueHandleRound s r)
    unfold Holds
    rw [show (enqueueHandle s).procList = s.procList from rounds s.enqueueList s]
  | _ => exact Iff.rfl

theorem Moves.cookies {clock : Bool} {s s' : State} (moves : Moves clock s s') (inv : Invariant s)
    (b : ProcRef) (msg : Incoming) : Holds s' b msg ↔ Holds s b msg := by
  induction moves with
  | refl => exact Iff.rfl
  | tail moves move ih => exact (move.cookies (Moves.keeps moves inv) b msg).trans ih

/-! ### What the log tells of the messages -/

/-- The message that a note frees -/
def Note.freed : Note → List Nat
  | .free msg => [msg]
  | _ => []

/-- The message whose reply has been sent, or could not be allocated or sent -/
def Note.handled : Note → List Nat
  | .reply msg _ _ _ => [msg]
  | .unanswered msg => [msg]
  | _ => []

/-- The message whose reply has been sent, with the id that is sent back -/
def Note.replied : Note → List (Nat × Nat)
  | .reply msg msgId _ _ => [(msg, msgId)]
  | _ => []

/-- The message that is lost: a process object is freed with it, and the client that waits for the
end of the process is not answered. -/
def Note.lost : Note → List Incoming
  | .release _ p => if p.answers then [] else p.cookie.toList
  | _ => []

/-- The messages that are gone: those that have been freed, and those that have been lost -/
def gone (log : List Note) : List Nat :=
  log.flatMap Note.freed ++ (log.flatMap Note.lost).map Incoming.ref

/-- **Two logs that tell the same** of the messages. -/
structure SameMail (log log' : List Note) : Prop where
  freed : log'.flatMap Note.freed = log.flatMap Note.freed
  handled : log'.flatMap Note.handled = log.flatMap Note.handled
  replied : log'.flatMap Note.replied = log.flatMap Note.replied
  lost : log'.flatMap Note.lost = log.flatMap Note.lost

namespace SameMail

theorem refl (log : List Note) : SameMail log log := ⟨rfl, rfl, rfl, rfl⟩

/-- A note that tells nothing of a message. -/
theorem append {log : List Note} {n : Note} (freed : n.freed = []) (handled : n.handled = [])
    (replied : n.replied = []) (lost : n.lost = []) : SameMail log (log ++ [n]) := by
  constructor <;> simp [List.flatMap_append, freed, handled, replied, lost]

theorem gone {log log' : List Note} (same : SameMail log log') : gone log' = gone log := by
  rw [Pcd.gone, Pcd.gone, same.freed, same.lost]

end SameMail

/-- **The moves without a message** tell nothing of one. -/
theorem Move.answers {clock : Bool} {s s' : State} (move : Move clock s s') :
    s'.nextMsg = s.nextMsg ∧ SameMail s.log s'.log := by
  cases move with
  | fork a p pid found runme => exact ⟨rfl, .append rfl rfl rfl rfl⟩
  | kill a p p' sig found changes positive => exact ⟨rfl, .append rfl rfl rfl rfl⟩
  | signal a p sig found up user => exact ⟨rfl, .append rfl rfl rfl rfl⟩
  | cleanup pid => exact ⟨rfl, .append rfl rfl rfl rfl⟩
  | remove a p free empty cookie =>
    refine ⟨rfl, .append rfl rfl rfl ?_⟩
    show (if p.answers then [] else p.cookie.toList) = []
    rw [cookie]
    exact ite_self _
  | complete i obj there waits => exact ⟨rfl, .append rfl rfl rfl rfl⟩
  | enlist =>
    have rounds : ∀ (rules : List RuleRef) (s : State),
        (rules.foldl enqueueHandleRound s).nextMsg = s.nextMsg ∧
          (rules.foldl enqueueHandleRound s).log = s.log := by
      intro rules
      induction rules with
      | nil => exact fun _ => ⟨rfl, rfl⟩
      | cons r rest ih => exact fun s => ih (enqueueHandleRound s r)
    obtain ⟨next, log⟩ := rounds s.enqueueList s
    refine ⟨next, ?_⟩
    rw [show (enqueueHandle s).log = s.log from log]
    exact .refl _
  | _ => exact ⟨rfl, .refl _⟩

section Answered

variable (sent : Bool) (msg : Incoming) (retval : Status) (ruleState : Option ApiRuleState)
  (s : State)

/-- **What an answer tells**: its message has been handled, and is freed. -/
theorem freed_answer : (answer sent msg retval ruleState s).log.flatMap Note.freed =
    s.log.flatMap Note.freed ++ [msg.ref] := by
  cases sent <;> simp [answer, State.note, replyNote, Note.freed]

theorem handled_answer : (answer sent msg retval ruleState s).log.flatMap Note.handled =
    s.log.flatMap Note.handled ++ [msg.ref] := by
  cases sent <;> simp [answer, State.note, replyNote, Note.handled]

theorem lost_answer : (answer sent msg retval ruleState s).log.flatMap Note.lost =
    s.log.flatMap Note.lost := by
  cases sent <;> simp [answer, State.note, replyNote, Note.lost]

theorem replied_answer : (answer sent msg retval ruleState s).log.flatMap Note.replied =
    s.log.flatMap Note.replied ++ if sent then [(msg.ref, msg.message.msgId)] else [] := by
  cases sent <;> simp [answer, State.note, replyNote, Note.replied]

/-- The messages that are gone behind an answer -/
theorem gone_answer : (gone (answer sent msg retval ruleState s).log).Perm
    (msg.ref :: gone s.log) := by
  rw [gone, freed_answer, lost_answer, List.append_assoc, List.singleton_append]
  exact List.perm_middle

end Answered

section Released

variable (a : ProcRef) (p : Proc) (s : State)

theorem freed_release :
    (release a p s).log.flatMap Note.freed = s.log.flatMap Note.freed := by
  simp [release, State.note, Note.freed]

theorem handled_release :
    (release a p s).log.flatMap Note.handled = s.log.flatMap Note.handled := by
  simp [release, State.note, Note.handled]

theorem replied_release :
    (release a p s).log.flatMap Note.replied = s.log.flatMap Note.replied := by
  simp [release, State.note, Note.replied]

/-- The message of a process object is lost with it, unless its client has been answered. -/
theorem lost_release : (release a p s).log.flatMap Note.lost =
    s.log.flatMap Note.lost ++ if p.answers then [] else p.cookie.toList := by
  simp [release, State.note, Note.lost]

end Released

/-! ### The account of the messages -/

/-- **Where the messages are**: every message has been freed or lost once, or is held by one
process, or is being handled. Those that have been freed have been answered, with the id of the
message, unless the reply could not be allocated or sent. -/
structure Mail (desk : Desk) (s : State) : Prop where
  count : desk.inbox.length = s.nextMsg
  once : (gone s.log).Nodup
  handled : s.log.flatMap Note.handled = s.log.flatMap Note.freed
  ids : ∀ k id, (k, id) ∈ s.log.flatMap Note.replied →
    (desk.inbox[k]?).map Message.msgId = some id
  freed : ∀ k ∈ s.log.flatMap Note.freed, k < desk.inbox.length
  lost : ∀ msg ∈ s.log.flatMap Note.lost, desk.inbox[msg.ref]? = some msg.message
  held : ∀ a msg, Holds s a msg →
    desk.inbox[msg.ref]? = some msg.message ∧ msg.ref ∉ gone s.log
  apart : ∀ a a' msg msg', Holds s a msg → Holds s a' msg' → msg.ref = msg'.ref → a = a'
  hand : ∀ msg, desk.hand = some msg → desk.inbox[msg.ref]? = some msg.message ∧
    msg.ref ∉ gone s.log ∧ ∀ a msg', Holds s a msg' → msg'.ref ≠ msg.ref
  every : ∀ k < desk.inbox.length, k ∈ gone s.log ∨
    (∃ msg, desk.hand = some msg ∧ msg.ref = k) ∨ ∃ a msg, Holds s a msg ∧ msg.ref = k

namespace Mail

variable {desk : Desk} {s s' : State}

/-- Moves that leave the messages where they are. -/
theorem congr (mail : Mail desk s) (nextMsg : s'.nextMsg = s.nextMsg)
    (same : SameMail s.log s'.log) (holds : ∀ a msg, Holds s' a msg ↔ Holds s a msg) :
    Mail desk s' := by
  have gone := same.gone
  refine ⟨mail.count.trans nextMsg.symm, gone ▸ mail.once, ?_, same.replied ▸ mail.ids,
    same.freed ▸ mail.freed, same.lost ▸ mail.lost, fun a msg here => ?_,
    fun a a' msg msg' here there => ?_, fun msg taken => ?_, fun k below => ?_⟩
  · rw [same.handled, same.freed]
    exact mail.handled
  · rw [gone]
    exact mail.held a msg ((holds a msg).mp here)
  · exact mail.apart a a' msg msg' ((holds a msg).mp here) ((holds a' msg').mp there)
  · rw [gone]
    obtain ⟨known, open', others⟩ := mail.hand msg taken
    exact ⟨known, open', fun a msg' here => others a msg' ((holds a msg').mp here)⟩
  · rw [gone]
    refine (mail.every k below).imp_right (Or.imp_right ?_)
    rintro ⟨a, msg, here, same⟩
    exact ⟨a, msg, (holds a msg).mpr here, same⟩

/-- A message is in the inbox. -/
theorem lt_of_known {inbox : List Message} {msg : Incoming}
    (known : inbox[msg.ref]? = some msg.message) : msg.ref < inbox.length :=
  (List.getElem?_eq_some_iff.mp known).1

/-- What is in the inbox stays there. -/
theorem known_append {inbox : List Message} {msg : Incoming} (message : Message)
    (known : inbox[msg.ref]? = some msg.message) :
    (inbox ++ [message])[msg.ref]? = some msg.message := by
  rw [List.getElem?_append_left (lt_of_known known)]
  exact known

/-- All messages that are gone are in the inbox. -/
theorem gone_lt (mail : Mail desk s) {k : Nat} (member : k ∈ gone s.log) :
    k < desk.inbox.length := by
  rcases List.mem_append.mp member with freed | lost
  · exact mail.freed k freed
  · obtain ⟨msg, inside, rfl⟩ := List.mem_map.mp lost
    exact lt_of_known (mail.lost msg inside)

/-- **A message is received.** -/
theorem receive {inbox : List Message} (mail : Mail ⟨inbox, none⟩ s) (message : Message) :
    Mail ⟨inbox ++ [message], some ⟨s.nextMsg, message⟩⟩ { s with nextMsg := s.nextMsg + 1 } := by
  have count : inbox.length = s.nextMsg := mail.count
  have longer : inbox.length < (inbox ++ [message]).length := by
    rw [List.length_append]
    exact Nat.lt_succ_self _
  refine ⟨by rw [List.length_append, count]; rfl, mail.once, mail.handled,
    fun k id member => ?_, fun k member => (mail.freed k member).trans longer,
    fun msg member => known_append message (mail.lost msg member), fun a msg here => ?_,
    mail.apart, fun msg taken => ?_, fun k below => ?_⟩
  · obtain ⟨message', known, named⟩ := Option.map_eq_some_iff.mp (mail.ids k id member)
    rw [List.getElem?_append_left (List.getElem?_eq_some_iff.mp known).1]
    exact mail.ids k id member
  · obtain ⟨known, open'⟩ := mail.held a msg here
    exact ⟨known_append message known, open'⟩
  · obtain rfl := Option.some.inj taken
    refine ⟨?_, fun gone => ?_, fun a msg' here same => ?_⟩
    · rw [← count]
      exact List.getElem?_concat_length
    · exact absurd (mail.gone_lt gone) (count ▸ lt_irrefl _)
    · have below := lt_of_known (mail.held a msg' here).1
      rw [same] at below
      exact absurd below (count ▸ lt_irrefl _)
  · rw [List.length_append] at below
    rcases Nat.lt_succ_iff_lt_or_eq.mp below with old | rfl
    · rcases mail.every k old with gone | ⟨msg, absent, _⟩ | held
      · exact .inl gone
      · cases absent
      · exact .inr (.inr held)
    · exact .inr (.inl ⟨_, rfl, count.symm⟩)

section Answering

variable (sent : Bool) {msg : Incoming} (retval : Status) (ruleState : Option ApiRuleState)

/-- **What is told of the messages behind an answer** to a message that is in the inbox. -/
theorem answer_keeps (mail : Mail desk s) (known : desk.inbox[msg.ref]? = some msg.message) :
    (answer sent msg retval ruleState s).log.flatMap Note.handled =
        (answer sent msg retval ruleState s).log.flatMap Note.freed ∧
      (∀ k id, (k, id) ∈ (answer sent msg retval ruleState s).log.flatMap Note.replied →
        (desk.inbox[k]?).map Message.msgId = some id) ∧
      (∀ k ∈ (answer sent msg retval ruleState s).log.flatMap Note.freed,
        k < desk.inbox.length) := by
  refine ⟨by rw [handled_answer, freed_answer, mail.handled], fun k id member => ?_,
    fun k member => ?_⟩
  · rw [replied_answer] at member
    rcases List.mem_append.mp member with old | new
    · exact mail.ids k id old
    · cases sent with
      | false => cases new
      | true =>
        obtain ⟨rfl, rfl⟩ := Prod.mk.inj (List.mem_singleton.mp new)
        exact congrArg (Option.map Message.msgId) known
  · rw [freed_answer] at member
    rcases List.mem_append.mp member with old | new
    · exact mail.freed k old
    · exact List.mem_singleton.mp new ▸ lt_of_known known

/-- **A message is answered.** -/
theorem respond {inbox : List Message} (mail : Mail ⟨inbox, some msg⟩ s) :
    Mail ⟨inbox, none⟩ (answer sent msg retval ruleState s) := by
  obtain ⟨known, open', others⟩ := mail.hand msg rfl
  obtain ⟨handled, ids, freed⟩ := mail.answer_keeps sent retval ruleState known
  have perm := gone_answer sent msg retval ruleState s
  refine ⟨mail.count, perm.nodup_iff.mpr (List.nodup_cons.mpr ⟨open', mail.once⟩), handled, ids,
    freed, lost_answer sent msg retval ruleState s ▸ mail.lost, fun a msg' here => ?_, mail.apart,
    fun _ absent => (by cases absent), fun k below => ?_⟩
  · obtain ⟨known', open''⟩ := mail.held a msg' here
    refine ⟨known', fun member => ?_⟩
    rcases List.mem_cons.mp (perm.mem_iff.mp member) with same | old
    · exact others a msg' here same
    · exact open'' old
  · rw [perm.mem_iff, List.mem_cons]
    rcases mail.every k below with old | ⟨msg', same, rfl⟩ | held
    · exact .inl (.inr old)
    · obtain rfl := Option.some.inj same
      exact .inl (.inl rfl)
    · exact .inr (.inr held)

end Answering

/-- **A message is kept** by a process that holds none. -/
theorem hold {inbox : List Message} {msg : Incoming}
    (mail : Mail ⟨inbox, some msg⟩ s) (inv : Invariant s) {r : RuleRef} {a : ProcRef}
    {p : Proc} (brutal : Bool) (points : (s.rule r).proc = some a)
    (found : Assoc.find a s.procList = some p) :
    Mail ⟨inbox, none⟩ (halted r a p brutal (some msg) s) := by
  obtain ⟨known, open', others⟩ := mail.hand msg rfl
  obtain ⟨q, there, _, _, cookie⟩ := inv.attached r a points
  obtain rfl := Option.some.inj (found.symm.trans there)
  have holds : ∀ b msg', Holds (halted r a p brutal (some msg) s) b msg' ↔
      b = a ∧ msg' = msg ∨ Holds s b msg' := by
    intro b msg'
    unfold Holds
    rw [show Assoc.find b (halted r a p brutal (some msg) s).procList = _ from Assoc.find_put]
    by_cases here : b = a
    · rw [if_pos here, found, here]
      constructor
      · rintro ⟨q, same, kept⟩
        obtain rfl := Option.some.inj same
        exact .inl ⟨rfl, (Option.some.inj kept).symm⟩
      · rintro (⟨_, rfl⟩ | ⟨q, same, kept⟩)
        · exact ⟨_, rfl, rfl⟩
        · obtain rfl := Option.some.inj (found.symm.trans same)
          exact absurd (cookie.symm.trans kept) (Option.some_ne_none msg').symm
    · rw [if_neg here]
      exact ⟨.inr, fun either => either.resolve_left fun both => here both.1⟩
  refine ⟨mail.count, mail.once, mail.handled, mail.ids, mail.freed, mail.lost,
    fun b msg' here => ?_, fun b b' msg₁ msg₂ here there same => ?_,
    fun _ absent => (by cases absent), fun k below => ?_⟩
  · rcases (holds b msg').mp here with ⟨_, rfl⟩ | old
    · exact ⟨known, open'⟩
    · exact mail.held b msg' old
  · rcases (holds b msg₁).mp here with ⟨rfl, rfl⟩ | old
    · rcases (holds b' msg₂).mp there with ⟨rfl, _⟩ | old'
      · rfl
      · exact absurd same.symm (others b' msg₂ old')
    · rcases (holds b' msg₂).mp there with ⟨rfl, rfl⟩ | old'
      · exact absurd same (others b msg₁ old)
      · exact mail.apart b b' msg₁ msg₂ old old' same
  · rcases mail.every k below with gone | ⟨msg', same, rfl⟩ | ⟨b, msg', here, same⟩
    · exact .inl gone
    · obtain rfl := Option.some.inj same
      exact .inr (.inr ⟨a, msg, (holds a msg).mpr (.inl ⟨rfl, rfl⟩), rfl⟩)
    · exact .inr (.inr ⟨b, msg', (holds b msg').mpr (.inr here), same⟩)

/-- **A process that holds a message is freed**, and the message goes with it: it has been freed, or
it is lost. -/
theorem part (mail : Mail desk s) {a : ProcRef} {msg : Incoming} (held : Holds s a msg)
    (nextMsg : s'.nextMsg = s.nextMsg) (procs : s'.procList = Assoc.drop a s.procList)
    (perm : (gone s'.log).Perm (msg.ref :: gone s.log))
    (handled : s'.log.flatMap Note.handled = s'.log.flatMap Note.freed)
    (ids : ∀ k id, (k, id) ∈ s'.log.flatMap Note.replied →
      (desk.inbox[k]?).map Message.msgId = some id)
    (freed : ∀ k ∈ s'.log.flatMap Note.freed, k < desk.inbox.length)
    (lost : ∀ msg ∈ s'.log.flatMap Note.lost, desk.inbox[msg.ref]? = some msg.message) :
    Mail desk s' := by
  obtain ⟨known, open'⟩ := mail.held a msg held
  have only : ∀ msg', Holds s a msg' → msg' = msg := by
    rintro msg' ⟨p, found, kept⟩
    obtain ⟨p', found', kept'⟩ := held
    obtain rfl := Option.some.inj (found.symm.trans found')
    exact Option.some.inj (kept.symm.trans kept')
  have holds : ∀ b msg', Holds s' b msg' ↔ b ≠ a ∧ Holds s b msg' := by
    intro b msg'
    unfold Holds
    rw [procs, Assoc.find_drop]
    split_ifs with here
    · refine ⟨?_, fun both => absurd here both.1⟩
      rintro ⟨_, absent, _⟩
      cases absent
    · exact ⟨fun holds => ⟨here, holds⟩, And.right⟩
  have member : ∀ k, k ∈ gone s'.log ↔ k = msg.ref ∨ k ∈ gone s.log := fun k => by
    rw [perm.mem_iff, List.mem_cons]
  refine ⟨mail.count.trans nextMsg.symm,
    perm.nodup_iff.mpr (List.nodup_cons.mpr ⟨open', mail.once⟩), handled, ids, freed, lost,
    fun b msg' here => ?_, fun b b' msg₁ msg₂ here there => ?_, fun msg' taken => ?_,
    fun k below => ?_⟩
  · obtain ⟨other, here⟩ := (holds b msg').mp here
    obtain ⟨known', open''⟩ := mail.held b msg' here
    refine ⟨known', fun inside => ?_⟩
    rcases (member _).mp inside with same | old
    · exact other (mail.apart b a msg' msg here held same)
    · exact open'' old
  · exact mail.apart b b' msg₁ msg₂ ((holds b msg₁).mp here).2 ((holds b' msg₂).mp there).2
  · obtain ⟨known', open'', others⟩ := mail.hand msg' taken
    refine ⟨known', fun inside => ?_, fun b msg'' here => ?_⟩
    · exact ((member _).mp inside).elim (fun same => others a msg held same.symm) open''
    · exact others b msg'' ((holds b msg'').mp here).2
  · rw [member]
    rcases mail.every k below with old | taken | ⟨b, msg', here, same⟩
    · exact .inl (.inr old)
    · exact .inr (.inl taken)
    · by_cases this : b = a
      · subst this
        exact .inl (.inl (same.symm.trans (congrArg Incoming.ref (only msg' here))))
      · exact .inr (.inr ⟨b, msg', (holds b msg').mpr ⟨this, here⟩, same⟩)

/-- **A client is answered**, and the object of the process that it waited for is freed. -/
theorem settle (mail : Mail desk s) (sent : Bool) {a : ProcRef} {p : Proc} {msg : Incoming}
    (found : Assoc.find a s.procList = some p) (kept : p.cookie = some msg)
    (answers : p.answers = true) : Mail desk (release a p (answer sent msg .ok none s)) := by
  obtain ⟨known, _⟩ := mail.held a msg ⟨p, found, kept⟩
  obtain ⟨handled, ids, freed⟩ := mail.answer_keeps sent .ok none known
  have lost : (release a p (answer sent msg .ok none s)).log.flatMap Note.lost =
      s.log.flatMap Note.lost := by
    rw [lost_release, answers, lost_answer]
    exact List.append_nil _
  refine mail.part ⟨p, found, kept⟩ rfl rfl ?_ ?_ ?_ ?_ (lost ▸ mail.lost)
  · refine (List.Perm.of_eq ?_).trans (gone_answer sent msg .ok none s)
    rw [gone, gone, freed_release, lost, lost_answer]
  · rw [handled_release, freed_release, handled]
  · rw [replied_release]
    exact ids
  · rw [freed_release]
    exact freed

/-- **A message is lost** with the object of the process that its client waits for. -/
theorem lose (mail : Mail desk s) {a : ProcRef} {p : Proc} {msg : Incoming}
    (held : Holds s a msg) (kept : p.cookie = some msg) (quiet : p.answers = false) :
    Mail desk (release a p s) := by
  obtain ⟨known, _⟩ := mail.held a msg held
  have lost : (release a p s).log.flatMap Note.lost = s.log.flatMap Note.lost ++ [msg] := by
    rw [lost_release, quiet, kept]
    rfl
  refine mail.part held rfl rfl ?_ ?_ ?_ ?_ fun msg' member => ?_
  · rw [gone, gone, freed_release, lost, List.map_append, ← List.append_assoc]
    exact List.perm_append_singleton _ _
  · rw [handled_release, freed_release, mail.handled]
  · rw [replied_release]
    exact mail.ids
  · rw [freed_release]
    exact mail.freed
  · rw [lost] at member
    rcases List.mem_append.mp member with old | new
    · exact mail.lost msg' old
    · rw [List.mem_singleton.mp new]
      exact known

/-- **Every step keeps account** of the messages. -/
theorem step {clock : Bool} {x y : Desk × State} (mail : Mail x.1 x.2) (inv : Invariant x.2)
    (step : Step clock x y) : Mail y.1 y.2 := by
  cases step with
  | move move =>
    obtain ⟨nextMsg, same⟩ := move.answers
    exact mail.congr nextMsg same (move.cookies inv)
  | deliver deliver =>
    cases deliver with
    | receive message => exact mail.receive message
    | respond sent msg retval ruleState => exact mail.respond sent retval ruleState
    | hold r a p brutal msg points found => exact mail.hold inv brutal points found
    | settle sent a p msg free found kept answers => exact mail.settle sent found kept answers
    | lose a p msg free held kept quiet => exact mail.lose held kept quiet

/-- **Every run keeps account** of the messages. -/
theorem steps {clock : Bool} {x y : Desk × State} (mail : Mail x.1 x.2) (inv : Invariant x.2)
    (steps : Steps clock x y) : Mail y.1 y.2 := by
  induction steps with
  | refl => exact mail
  | tail steps step ih => exact ih.step (Steps.keeps steps inv) step

end Mail

end CyberPlatform.Pcd
