/-
**What the parser accepts.**

* `updateParseStatus_eq` — a mandatory keyword is accepted in its place only.
* `Reading` — what a rule is, of which some mandatory keywords have been read.
* `handle_made` — every handler reads the next keyword, or is wrong without harm.
* `parse_reading` — whatever is in the files, all rules that are added to the database are complete.
* `parse_blocks` — a file that is accepted gives its mandatory keywords rule by rule, and in order.
-/

import CyberPlatform.Foundation.Ensures
import CyberPlatform.Pcd.Parser

namespace CyberPlatform.Pcd

open Foundation

/-! ### The status -/

/-- The mandatory keywords in their order -/
def Keyword.order : List Keyword := Keyword.all.filter Keyword.mandatory

/-- The status behind the first `k` mandatory keywords -/
def statusOf (k : Nat) : BitVec 32 := (1#32 <<< k) - 1#32

theorem statusOf_writable {k : Nat} (below : k ≤ 7) :
    statusOf k = writableParseStatus ↔ k = 7 := by
  interval_cases k <;> decide

/-- The flag of the next mandatory keyword. -/
theorem statusOf_next {k : Nat} (below : k ≤ 7) {keyword : Keyword}
    (there : Keyword.all[k]? = some keyword) (mandatory : keyword.mandatory) :
    k < 7 ∧ Keyword.order[k]? = some keyword ∧
      statusOf k ||| keyword.parseFlag = statusOf (k + 1) := by
  interval_cases k <;> obtain rfl := Option.some.inj there <;> revert mandatory <;> decide

section Status

variable {p : Parser} {k : Nat}

/-- **A mandatory keyword is accepted in its place only.** -/
theorem updateParseStatus_eq (below : k ≤ 7) (status : p.readParseStatus = statusOf k)
    {keyword : Keyword} (mandatory : keyword.mandatory) :
    p.updateParseStatus keyword = if Keyword.order[k]? = some keyword then
      .ok { p with readParseStatus := statusOf (k + 1) } else .error p := by
  have first : Keyword.all.find? (fun expected => statusOf k &&& expected.parseFlag = 0#32) =
      Keyword.all[k]? := by
    interval_cases k <;> decide
  unfold Parser.updateParseStatus
  rw [status, first]
  cases there : Keyword.all[k]? with
  | none =>
    have beyond : Keyword.order[k]? = none := by
      interval_cases k <;> cases there
    rw [beyond]
    rfl
  | some expected =>
    dsimp only
    by_cases same : expected = keyword
    · subst same
      obtain ⟨_, place, next⟩ := statusOf_next below there mandatory
      rw [if_pos rfl, if_pos place, next]
    · rw [if_neg same, if_neg fun place => same ?_]
      have there' : Keyword.all[k]? = some keyword := by
        interval_cases k <;> first | exact place | cases place
      exact Option.some.inj (there.symm.trans there')

theorem isParseStatusSet_rule (below : k ≤ 7) (status : p.readParseStatus = statusOf k) :
    p.isParseStatusSet .rule = true ↔ 0 < k := by
  unfold Parser.isParseStatusSet
  rw [status]
  interval_cases k <;> decide

/-- A complete rule is added. -/
theorem writeRuleToDb_of (status : p.readParseStatus = writableParseStatus) :
    p.writeRuleToDb =
      .ok { p with rules := p.rules ++ [p.rule], readParseStatus := statusOf 0 } := by
  unfold Parser.writeRuleToDb Parser.clearParseStatus
  rw [if_neg (not_not.mpr status)]
  dsimp only
  rw [status]
  rfl

theorem writeRuleToDb_of_ne (status : p.readParseStatus ≠ writableParseStatus) :
    p.writeRuleToDb = .error p := if_pos status

end Status

/-! ### What is read of a rule -/

/-- The names fit into their arrays. -/
structure RuleId.Fits (ruleId : RuleId) : Prop where
  groupName : ruleId.groupName.length < maxGroupNameSize
  ruleName : ruleId.ruleName.length < maxRuleNameSize
  whole : '_' ∉ ruleId.groupName

/-- The values of a start condition fit into their fields, and no rule is remembered. Only those of
`ENV_VAR` are copied without a terminator, so that a name which fills its field runs on into the
value. -/
def StartCond.Read : StartCond → Prop
  | .none => True
  | .file name => name.length < condMaxSize
  | .ruleCompleted ids => ids.length ≤ startCondMaxIds ∧
      ∀ entry ∈ ids, entry.rule = Option.none ∧ entry.ruleId.Fits
  | .netDevice name => name.length < ifNameSize
  | .ipcOwner owner => owner < 2 ^ 32
  | .envVar name value => value.length ≤ condMaxSize ∧ (name.length < condMaxSize ∨
      ∃ front, front.length = condMaxSize ∧ name = front ++ value)

/-- The values of an end condition fit into their fields, and it has not begun. -/
def EndCond.Fits : EndCond → Prop
  | .none => True
  | .file name => name.length < condMaxSize
  | .exit exitStatus => exitStatus < 2 ^ 32
  | .netDevice name => name.length < ifNameSize
  | .ipcOwner owner => owner < 2 ^ 32
  | .processReady ready => ready = false
  | .wait left delay => left = delay ∧ delay < 2 ^ 32

def FailureAction.Fits : FailureAction → Prop
  | .execRule ruleId => ruleId.Fits
  | _ => True

/-- A priority is in its range. -/
def SchedType.Fits : SchedType → Prop
  | .fifo value => 0 ≤ value ∧ value ≤ 99
  | .nice value => -20 ≤ value ∧ value ≤ 19

/-- **A rule of which the first `k` mandatory keywords have been read**; with `k = 7` it is
complete. -/
structure Reading (k : Nat) (rule : Rule) : Prop where
  ruleId : rule.ruleId.Fits
  plain : '$' ∉ rule.ruleId.ruleName
  startCondition : rule.startCondition.Read
  named : 2 ≤ k → rule.startCondition ≠ .ruleCompleted []
  command : 3 ≤ k → rule.command ≠ none
  endCondition : rule.endCondition.Fits
  timeout : rule.timeout < 2 ^ 32
  /-- a rule that waits for a delay has no timeout -/
  delays : 5 ≤ k → Parser.waits rule.endCondition → rule.timeout = forever
  failureAction : rule.failureAction.Fits
  sched : rule.sched.Fits
  uid : rule.uid < 2 ^ 32
  ruleState : rule.ruleState = .idle ∨ rule.ruleState = .active
  unused : rule.optionalParams = none ∧ rule.proc = none

theorem reading_zero : Reading 0 .zero := by
  constructor <;> simp [Rule.zero, StartCond.Read, EndCond.Fits, FailureAction.Fits, SchedType.Fits]
  constructor <;> simp [maxGroupNameSize, maxRuleNameSize]

theorem parseRuleId_fits {line : Text} {ruleId : RuleId} (parsed : parseRuleId line = some ruleId) :
    ruleId.Fits := by
  unfold parseRuleId at parsed
  split at parsed
  next => cases parsed
  next =>
    obtain rfl := Option.some.inj parsed
    refine ⟨?_, ?_, fun inside => ?_⟩
    · exact (List.length_take_le ..).trans_lt (by decide)
    · exact (List.length_take_le ..).trans_lt (by decide)
    · have chars := List.mem_takeWhile_imp (List.mem_of_mem_take inside)
      simp at chars

theorem parseRuleIds_fits (tokens : List Text) :
    (parseRuleIds tokens).2.length ≤ tokens.length ∧
      ∀ entry ∈ (parseRuleIds tokens).2, entry.rule = none ∧ entry.ruleId.Fits := by
  induction tokens with
  | nil => exact ⟨le_rfl, fun _ absent => absurd absent List.not_mem_nil⟩
  | cons token rest ih =>
    unfold parseRuleIds
    split
    next => exact ⟨Nat.zero_le _, fun _ absent => absurd absent List.not_mem_nil⟩
    next ruleId parsed =>
      refine ⟨Nat.succ_le_succ ih.1, fun entry member => ?_⟩
      rcases List.mem_cons.mp member with rfl | member
      · exact ⟨rfl, parseRuleId_fits parsed⟩
      · exact ih.2 entry member

theorem toU32_lt (z : Int) : toU32 z < 2 ^ 32 := by
  unfold toU32
  omega

/-- **The values of a start condition are cut to their fields.** -/
theorem parseStartCond_read {tokens : List Text} {good : Bool} {startCondition : StartCond}
    (parsed : parseStartCond tokens = some (good, startCondition)) :
    startCondition.Read ∧ (good = true → startCondition ≠ .ruleCompleted []) := by
  unfold parseStartCond at parsed
  cases tokens with
  | nil => cases parsed
  | cons token1 rest =>
    dsimp only at parsed
    split_ifs at parsed
    · obtain ⟨rfl, rfl⟩ := Prod.mk.inj (Option.some.inj parsed)
      exact ⟨trivial, fun _ => StartCond.noConfusion⟩
    · split at parsed <;> obtain ⟨rfl, rfl⟩ := Prod.mk.inj (Option.some.inj parsed)
      · exact ⟨(by decide : 0 < condMaxSize), fun _ => StartCond.noConfusion⟩
      · exact ⟨(List.length_take_le ..).trans_lt (by decide), fun _ => StartCond.noConfusion⟩
    · obtain ⟨rfl, rfl⟩ := Prod.mk.inj (Option.some.inj parsed)
      obtain ⟨length, ids⟩ := parseRuleIds_fits (rest.take startCondMaxIds)
      refine ⟨⟨length.trans (List.length_take_le ..), ids⟩, fun good empty => ?_⟩
      rw [StartCond.ruleCompleted.inj empty] at good
      simp at good
    · split at parsed <;> obtain ⟨rfl, rfl⟩ := Prod.mk.inj (Option.some.inj parsed)
      · exact ⟨(by decide : 0 < ifNameSize), fun _ => StartCond.noConfusion⟩
      · exact ⟨(List.length_take_le ..).trans_lt (by decide), fun _ => StartCond.noConfusion⟩
    · split at parsed <;> obtain ⟨rfl, rfl⟩ := Prod.mk.inj (Option.some.inj parsed)
      · exact ⟨(by decide : 0 < 2 ^ 32), fun _ => StartCond.noConfusion⟩
      · exact ⟨toU32_lt _, fun _ => StartCond.noConfusion⟩
    · split at parsed
      next token2 token3 rest =>
        obtain ⟨rfl, rfl⟩ := Prod.mk.inj (Option.some.inj parsed)
        have value : (token3.take condMaxSize).length ≤ condMaxSize := List.length_take_le ..
        refine ⟨⟨value, ?_⟩, fun _ => StartCond.noConfusion⟩
        split_ifs with short
        · exact .inl short
        · exact .inr ⟨_, List.length_take_of_le (Nat.le_of_not_lt short), rfl⟩
      next =>
        obtain ⟨rfl, rfl⟩ := Prod.mk.inj (Option.some.inj parsed)
        exact ⟨⟨by decide, .inl (by decide)⟩, fun _ => StartCond.noConfusion⟩

/-- **The values of an end condition are cut to their fields.** -/
theorem parseEndCond_fits {tokens : List Text} {good : Bool} {endCondition : EndCond}
    (parsed : parseEndCond tokens = some (good, endCondition)) : endCondition.Fits := by
  unfold parseEndCond at parsed
  cases tokens with
  | nil => cases parsed
  | cons token1 rest =>
    dsimp only at parsed
    split_ifs at parsed
    · obtain ⟨rfl, rfl⟩ := Prod.mk.inj (Option.some.inj parsed)
      trivial
    · split at parsed <;> obtain ⟨rfl, rfl⟩ := Prod.mk.inj (Option.some.inj parsed)
      · exact (by decide : 0 < condMaxSize)
      · exact (List.length_take_le ..).trans_lt (by decide)
    · split at parsed <;> obtain ⟨rfl, rfl⟩ := Prod.mk.inj (Option.some.inj parsed)
      · exact Nat.two_pow_pos 32
      · exact toU32_lt _
    · split at parsed <;> obtain ⟨rfl, rfl⟩ := Prod.mk.inj (Option.some.inj parsed)
      · exact (by decide : 0 < ifNameSize)
      · exact (List.length_take_le ..).trans_lt (by decide)
    · split at parsed <;> obtain ⟨rfl, rfl⟩ := Prod.mk.inj (Option.some.inj parsed)
      · exact Nat.two_pow_pos 32
      · exact toU32_lt _
    · obtain ⟨rfl, rfl⟩ := Prod.mk.inj (Option.some.inj parsed)
      exact rfl
    · split at parsed <;> obtain ⟨rfl, rfl⟩ := Prod.mk.inj (Option.some.inj parsed)
      · exact ⟨rfl, Nat.two_pow_pos 32⟩
      · exact ⟨rfl, toU32_lt _⟩

theorem fits_nil : RuleId.Fits ⟨[], []⟩ := ⟨by decide, by decide, List.not_mem_nil⟩

theorem parseFailureAction_fits {tokens : List Text} {good : Bool} {failureAction : FailureAction}
    (parsed : parseFailureAction tokens = some (good, failureAction)) : failureAction.Fits := by
  unfold parseFailureAction at parsed
  cases tokens with
  | nil => cases parsed
  | cons token1 rest =>
    dsimp only at parsed
    split_ifs at parsed
    · obtain ⟨rfl, rfl⟩ := Prod.mk.inj (Option.some.inj parsed)
      trivial
    · obtain ⟨rfl, rfl⟩ := Prod.mk.inj (Option.some.inj parsed)
      trivial
    · obtain ⟨rfl, rfl⟩ := Prod.mk.inj (Option.some.inj parsed)
      trivial
    · split at parsed
      next =>
        obtain ⟨rfl, rfl⟩ := Prod.mk.inj (Option.some.inj parsed)
        exact fits_nil
      next ruleId found =>
        obtain ⟨rfl, rfl⟩ := Prod.mk.inj (Option.some.inj parsed)
        obtain ⟨token2, _, parsed'⟩ := Option.bind_eq_some_iff.mp found
        exact parseRuleId_fits parsed'

theorem parseSched_fits {tokens : List Text} {sched : SchedType}
    (parsed : parseSched tokens = some sched) : sched.Fits := by
  unfold parseSched at parsed
  split at parsed
  next token1 token2 rest =>
    dsimp only at parsed
    split_ifs at parsed <;> obtain rfl := Option.some.inj parsed
    · exact ⟨by decide, by decide⟩
    · show _ ∧ _
      omega
    · exact ⟨by decide, by decide⟩
    · show _ ∧ _
      omega
  next => cases parsed

/-! ### The handlers -/

/-- **The parser in the middle of a rule**, behind its first `k` mandatory keywords. -/
structure Sound (k : Nat) (p : Parser) : Prop where
  below : k ≤ 7
  status : p.readParseStatus = statusOf k
  reading : Reading k p.rule
  rules : ∀ rule ∈ p.rules, Reading 7 rule

/-- The parser behind something wrong: what it may still add is complete. -/
structure Harmless (p : Parser) : Prop where
  rules : ∀ rule ∈ p.rules, Reading 7 rule
  whole : p.readParseStatus = writableParseStatus → Reading 7 p.rule

/-- How a keyword takes the parser further. -/
inductive Advance (k : Nat) (keyword : Keyword) (p p' : Parser) : Nat → Prop
  | next : Keyword.order[k]? = some keyword → p'.rules = p.rules → Advance k keyword p p' (k + 1)
  | again : keyword = .rule → k = 7 → p'.rules = p.rules ++ [p.rule] → Advance k keyword p p' 1
  | optional : keyword.mandatory = false → (keyword ≠ .includeFile → p'.rules = p.rules) →
      Advance k keyword p p' k

/-- **What a handler does**: it takes the parser further, or is wrong without harm. -/
def Handled (k : Nat) (keyword : Keyword) (p : Parser) (out : Except Parser Parser) : Prop :=
  Ensures Harmless out fun p' => ∃ k', Advance k keyword p p' k' ∧ Sound k' p'

section Handlers

variable {p : Parser} {k : Nat}

theorem Sound.harmless (sound : Sound k p) : Harmless p where
  rules := sound.rules
  whole status := by
    obtain rfl := (statusOf_writable sound.below).mp (sound.status.symm.trans status)
    exact sound.reading

theorem updateParseStatus_made (sound : Sound k p) {keyword : Keyword}
    (mandatory : keyword.mandatory) :
    Ensures Harmless (p.updateParseStatus keyword) fun q => k < 7 ∧
      Keyword.order[k]? = some keyword ∧ q = { p with readParseStatus := statusOf (k + 1) } := by
  rw [updateParseStatus_eq sound.below sound.status mandatory]
  split_ifs with place
  · exact ⟨(List.getElem?_eq_some_iff.mp place).1, place, rfl⟩
  · exact sound.harmless

/-- A keyword has one place. -/
theorem place_of (less : k < 7) {keyword : Keyword} (there : Keyword.order[k]? = some keyword) :
    k = Keyword.order.idxOf keyword := by
  interval_cases k <;> obtain rfl := Option.some.inj there <;> decide

/-- The next mandatory keyword is read. -/
theorem handled_next (sound : Sound k p) (less : k < 7) {keyword : Keyword}
    (place : Keyword.order[k]? = some keyword) {x : Rule} (reading : Reading (k + 1) x) :
    Handled k keyword p (.ok { p with rule := x, readParseStatus := statusOf (k + 1) }) :=
  ⟨k + 1, .next place rfl, less, rfl, reading, sound.rules⟩

/-- The value of the next mandatory keyword is wrong. -/
theorem handled_wrong (sound : Sound k p) (less : k + 1 < 7) {keyword : Keyword} {x : Rule} :
    Handled k keyword p (.error { p with rule := x, readParseStatus := statusOf (k + 1) }) :=
  ⟨sound.rules, fun whole => absurd ((statusOf_writable less.le).mp whole) less.ne⟩

/-- The rule of an optional keyword is written. -/
theorem handled_optional (sound : Sound k p) {keyword : Keyword}
    (optional : keyword.mandatory = false) {x : Rule} {fileVersion : Int} (reading : Reading k x) :
    Handled k keyword p (.ok { p with rule := x, fileVersion }) :=
  ⟨k, .optional optional fun _ => rfl, sound.below, sound.status, reading, sound.rules⟩

/-- The id of a rule that begins. -/
theorem reading_ruleId {ruleId : RuleId} {rule : Rule} (reading : Reading 0 rule)
    (fits : ruleId.Fits)
    (plain : '$' ∉ ruleId.ruleName) (indexed : Bool) : Reading 1 { rule with ruleId, indexed } :=
  { reading with
    ruleId := fits
    plain := plain
    named := fun later => absurd later (by decide)
    command := fun later => absurd later (by decide)
    delays := fun later => absurd later (by decide) }

/-- What `PCD_parser_handle_RULE` does behind the rule in front. -/
theorem beginRule_made (line : Text) (sound : Sound 0 p) :
    Ensures Harmless (p.updateParseStatus .rule >>= fun p =>
      match parseRuleId line with
      | none => .error { p with rule := { p.rule with ruleId := ⟨[], []⟩ } }
      | some ruleId =>
        if '$' ∈ ruleId.ruleName then
          .ok { p with rule := { p.rule with
            ruleId := { ruleId with ruleName := ruleId.ruleName.takeWhile (· ≠ '$') }
            indexed := true } }
        else .ok { p with rule := { p.rule with ruleId } }) fun p' =>
      p'.rules = p.rules ∧ Sound 1 p' := by
  refine (updateParseStatus_made sound rfl).bind fun q made => ?_
  obtain ⟨less, place, rfl⟩ := made
  cases parsed : parseRuleId line with
  | none =>
    exact ⟨sound.rules, fun whole => absurd ((statusOf_writable less).mp whole) (by decide)⟩
  | some ruleId =>
    have fits := parseRuleId_fits parsed
    dsimp only
    split_ifs with template
    · have shorter := (List.takeWhile_prefix (p := (· ≠ '$')) (l := ruleId.ruleName)).length_le
      have cut : RuleId.Fits { ruleId with ruleName := ruleId.ruleName.takeWhile (· ≠ '$') } :=
        ⟨fits.groupName, shorter.trans_lt fits.ruleName, fits.whole⟩
      have plain : '$' ∉ ruleId.ruleName.takeWhile (· ≠ '$') := fun inside => by
        have chars := List.mem_takeWhile_imp inside
        simp at chars
      exact ⟨rfl, less, rfl, reading_ruleId sound.reading cut plain true, sound.rules⟩
    · exact ⟨rfl, less, rfl, reading_ruleId sound.reading fits template p.rule.indexed, sound.rules⟩

theorem handleRule_made (line : Text) (sound : Sound k p) :
    Handled k .rule p (p.handleRule line) := by
  unfold Handled Parser.handleRule
  by_cases begun : p.isParseStatusSet .rule
  · rw [if_pos begun]
    by_cases whole : p.readParseStatus = writableParseStatus
    · obtain rfl := (statusOf_writable sound.below).mp (sound.status.symm.trans whole)
      rw [writeRuleToDb_of whole]
      have fresh : Sound 0 { p with
          rule := .zero, rules := p.rules ++ [p.rule], readParseStatus := statusOf 0 } :=
        ⟨Nat.zero_le 7, rfl, reading_zero, fun rule member => by
          rcases List.mem_append.mp member with old | new
          · exact sound.rules rule old
          · rw [List.mem_singleton.mp new]
            exact sound.reading⟩
      exact (beginRule_made line fresh).mono fun p' made => ⟨1, .again rfl rfl made.1, made.2⟩
    · rw [writeRuleToDb_of_ne whole]
      exact sound.harmless
  · rw [if_neg begun]
    obtain rfl : k = 0 := Nat.eq_zero_of_not_pos fun later =>
      begun ((isParseStatusSet_rule sound.below sound.status).mpr later)
    exact (beginRule_made line sound).mono fun p' made => ⟨1, .next rfl made.1, made.2⟩

theorem handleStartCond_made (line : Text) (sound : Sound k p) :
    Handled k .startCond p (p.handleStartCond line) := by
  unfold Handled Parser.handleStartCond
  refine (updateParseStatus_made sound rfl).bind fun q made => ?_
  obtain ⟨less, place, rfl⟩ := made
  obtain rfl : k = 1 := place_of less place
  cases parsed : parseStartCond (tokens delimiter line) with
  | none => exact handled_wrong sound (by decide)
  | some out =>
    obtain ⟨good, startCondition⟩ := out
    obtain ⟨fits, named⟩ := parseStartCond_read parsed
    cases good with
    | false => exact handled_wrong sound (by decide)
    | true =>
      exact handled_next sound less place { sound.reading with
        startCondition := fits
        named := fun _ => named rfl
        command := fun later => absurd later (by decide)
        delays := fun later => absurd later (by decide) }

theorem handleCommand_made (line : Text) (sound : Sound k p) :
    Handled k .command p (p.handleCommand line) := by
  unfold Handled Parser.handleCommand
  refine (updateParseStatus_made sound rfl).bind fun q made => ?_
  obtain ⟨less, place, rfl⟩ := made
  obtain rfl : k = 2 := place_of less place
  have reading : ∀ params, Reading 3 { p.rule with
      command := some (line.takeWhile (· ≠ ' ')), params } := fun params =>
    { sound.reading with
      named := fun _ => sound.reading.named le_rfl
      command := fun _ => Option.some_ne_none _
      delays := fun later => absurd later (by decide) }
  dsimp only
  split
  next => exact handled_next sound less place (reading p.rule.params)
  next _ params _ => exact handled_next sound less place (reading (some params))

theorem handleEndCond_made (line : Text) (sound : Sound k p) :
    Handled k .endCond p (p.handleEndCond line) := by
  unfold Handled Parser.handleEndCond
  refine (updateParseStatus_made sound rfl).bind fun q made => ?_
  obtain ⟨less, place, rfl⟩ := made
  obtain rfl : k = 3 := place_of less place
  cases parsed : parseEndCond (tokens delimiter line) with
  | none => exact handled_wrong sound (by decide)
  | some out =>
    obtain ⟨good, endCondition⟩ := out
    cases good with
    | false => exact handled_wrong sound (by decide)
    | true =>
      exact handled_next sound less place { sound.reading with
        endCondition := parseEndCond_fits parsed
        named := fun _ => sound.reading.named (by decide)
        command := fun _ => sound.reading.command le_rfl
        delays := fun later => absurd later (by decide) }

theorem handleEndCondTimeout_made (line : Text) (sound : Sound k p) :
    Handled k .endCondTimeout p (p.handleEndCondTimeout line) := by
  unfold Handled Parser.handleEndCondTimeout
  dsimp only
  refine (updateParseStatus_made sound rfl).bind fun q made => ?_
  obtain ⟨less, place, rfl⟩ := made
  obtain rfl : k = 4 := place_of less place
  have reading : ∀ timeout, timeout < 2 ^ 32 →
      (Parser.waits p.rule.endCondition → timeout = forever) →
      Reading 5 { p.rule with timeout } := fun timeout fits delays =>
    { sound.reading with
      timeout := fits
      delays := fun _ => delays
      named := fun _ => sound.reading.named (by decide)
      command := fun _ => sound.reading.command (by decide) }
  dsimp only
  split_ifs with endless
  · exact handled_next sound less place (reading forever (by decide) fun _ => rfl)
  · exact handled_next sound less place (reading _ (toU32_lt _) fun waits =>
      absurd (.inr waits) endless)

theorem handleFailureAction_made (line : Text) (sound : Sound k p) :
    Handled k .failureAction p (p.handleFailureAction line) := by
  unfold Handled Parser.handleFailureAction
  refine (updateParseStatus_made sound rfl).bind fun q made => ?_
  obtain ⟨less, place, rfl⟩ := made
  obtain rfl : k = 5 := place_of less place
  cases parsed : parseFailureAction (tokens delimiter line) with
  | none => exact handled_wrong sound (by decide)
  | some out =>
    obtain ⟨good, failureAction⟩ := out
    cases good with
    | false => exact handled_wrong sound (by decide)
    | true =>
      exact handled_next sound less place { sound.reading with
        failureAction := parseFailureAction_fits parsed
        named := fun _ => sound.reading.named (by decide)
        command := fun _ => sound.reading.command (by decide)
        delays := fun _ => sound.reading.delays le_rfl }

theorem handleActive_made (line : Text) (sound : Sound k p) :
    Handled k .active p (p.handleActive line) := by
  unfold Handled Parser.handleActive
  refine (updateParseStatus_made sound rfl).bind fun q made => ?_
  obtain ⟨less, place, rfl⟩ := made
  obtain rfl : k = 6 := place_of less place
  refine handled_next sound less place { sound.reading with
    ruleState := ?_
    named := fun _ => sound.reading.named (by decide)
    command := fun _ => sound.reading.command (by decide)
    delays := fun _ => sound.reading.delays (by decide) }
  dsimp only
  split_ifs
  · exact .inr rfl
  · exact .inl rfl

theorem handleSched_made (line : Text) (sound : Sound k p) :
    Handled k .sched p (p.handleSched line) := by
  unfold Parser.handleSched
  cases parsed : parseSched (tokens delimiter line) with
  | none => exact sound.harmless
  | some sched =>
    exact handled_optional sound rfl { sound.reading with sched := parseSched_fits parsed }

theorem handleUser_made (getpwnam : Text → Option UInt32) (line : Text) (sound : Sound k p) :
    Handled k .user p (p.handleUser getpwnam line) := by
  unfold Parser.handleUser
  split_ifs with number
  · exact handled_optional sound rfl { sound.reading with
      uid := Nat.mod_lt _ (Nat.two_pow_pos 32) }
  · cases getpwnam line with
    | none => exact sound.harmless
    | some uid => exact handled_optional sound rfl { sound.reading with uid := uid.toNat_lt }

/-- **Every handler takes the parser further, or is wrong without harm**, if the reading of an
included file adds complete rules only. -/
theorem handle_made (host : Host) {read : Text → Parser → Option (Bool × Parser)}
    (reads : ∀ filename q out, Sound 0 q → read filename q = some out →
      ∀ rule ∈ out.2.rules, Reading 7 rule)
    (sound : Sound k p) {keyword : Keyword} {line : Text} {out : Except Parser Parser}
    (handled : handle host read keyword line p = some out) : Handled k keyword p out := by
  cases keyword with
  | rule =>
    obtain rfl := Option.some.inj handled
    exact handleRule_made line sound
  | startCond =>
    obtain rfl := Option.some.inj handled
    exact handleStartCond_made line sound
  | command =>
    obtain rfl := Option.some.inj handled
    exact handleCommand_made line sound
  | endCond =>
    obtain rfl := Option.some.inj handled
    exact handleEndCond_made line sound
  | endCondTimeout =>
    obtain rfl := Option.some.inj handled
    exact handleEndCondTimeout_made line sound
  | failureAction =>
    obtain rfl := Option.some.inj handled
    exact handleFailureAction_made line sound
  | active =>
    obtain rfl := Option.some.inj handled
    exact handleActive_made line sound
  | sched =>
    obtain rfl := Option.some.inj handled
    exact handleSched_made line sound
  | daemon =>
    obtain rfl := Option.some.inj handled
    exact handled_optional sound rfl { sound.reading with }
  | user =>
    obtain rfl := Option.some.inj handled
    exact handleUser_made host.getpwnam line sound
  | version =>
    obtain rfl := Option.some.inj handled
    exact handled_optional sound rfl sound.reading
  | includeFile =>
    obtain ⟨p', included, rfl⟩ := Option.map_eq_some_iff.mp handled
    obtain ⟨⟨good, q⟩, ran, same⟩ := Option.bind_eq_some_iff.mp included
    obtain rfl := Option.some.inj same
    have inner : Sound 0 { p with rule := .zero, readParseStatus := 0#32 } :=
      ⟨Nat.zero_le 7, rfl, reading_zero, sound.rules⟩
    exact ⟨k, .optional rfl fun other => absurd rfl other, sound.below, sound.status, sound.reading,
      reads line _ _ inner ran⟩

end Handlers

/-! ### Reading files -/

/-- The mandatory keywords of what a file says -/
def mandatoryOf (said : List (Keyword × Text)) : List Keyword :=
  (said.map Prod.fst).filter Keyword.mandatory

/-- `n` rules as a whole, and the first `k` keywords of another one, behind the first `k₀` of the
rule in front -/
def Blocks (k₀ : Nat) (keywords : List Keyword) (n k : Nat) : Prop :=
  Keyword.order.take k₀ ++ keywords =
    (List.replicate n Keyword.order).flatten ++ Keyword.order.take k

section Reading

variable {host : Host} {read : Text → Parser → Option (Bool × Parser)} {p : Parser} {k : Nat}

/-- A keyword in front of others, by the way in which it takes the parser further. -/
theorem Advance.blocks {keyword : Keyword} {p' : Parser} {k' k'' n : Nat}
    (advance : Advance k keyword p p' k') (line : Text) {rest : List (Keyword × Text)}
    (blocks : Blocks k' (mandatoryOf rest) n k'') :
    ∃ n', Blocks k (mandatoryOf ((keyword, line) :: rest)) n' k'' ∧
      (keyword ≠ .includeFile → p'.rules.length + n = p.rules.length + n') := by
  have mandatory : keyword.mandatory →
      mandatoryOf ((keyword, line) :: rest) = keyword :: mandatoryOf rest := fun mandatory => by
    rw [mandatoryOf, List.map_cons, List.filter_cons_of_pos mandatory]
    rfl
  cases advance with
  | next place rules =>
    have yes : keyword.mandatory := (List.mem_filter.mp (List.mem_of_getElem? place)).2
    refine ⟨n, ?_, fun _ => by rw [rules]⟩
    rw [Blocks, mandatory yes, ← blocks, List.take_add_one, place, List.append_assoc]
    rfl
  | again begins whole rules =>
    subst begins whole
    refine ⟨n + 1, ?_, fun _ => by rw [rules, List.length_append, List.length_singleton]; omega⟩
    rw [Blocks, mandatory rfl, List.replicate_succ, List.flatten_cons, List.append_assoc, ← blocks]
    rfl
  | optional no rules =>
    have same : mandatoryOf ((keyword, line) :: rest) = mandatoryOf rest := by
      rw [mandatoryOf, List.map_cons,
        List.filter_cons_of_neg (by rw [no]; exact Bool.false_ne_true)]
      rfl
    refine ⟨n, ?_, fun other => by rw [rules other]⟩
    rw [Blocks, same]
    exact blocks

/-- **What a file says is read** rule by rule, or is wrong without harm. -/
theorem readEntries_made (reads : ∀ filename q out, Sound 0 q → read filename q = some out →
      ∀ rule ∈ out.2.rules, Reading 7 rule) (said : List (Keyword × Text)) :
    ∀ {p : Parser} {k : Nat} {out : Bool × Parser}, Sound k p →
      readEntries host read said p = some out → Harmless out.2 ∧ (out.1 = true → ∃ n k',
        Sound k' out.2 ∧ Blocks k (mandatoryOf said) n k' ∧
          ((∀ entry ∈ said, entry.1 ≠ .includeFile) → out.2.rules.length =
            p.rules.length + n)) := by
  induction said with
  | nil =>
    intro p k out sound ran
    obtain rfl := Option.some.inj ran
    exact ⟨sound.harmless, fun _ => ⟨0, k, sound, List.append_nil _, fun _ => rfl⟩⟩
  | cons entry rest ih =>
    intro p k out sound ran
    obtain ⟨keyword, line⟩ := entry
    rw [readEntries] at ran
    split at ran
    next => cases ran
    next p' handled =>
      obtain ⟨k', advance, sound'⟩ := handle_made host reads sound handled
      obtain ⟨harmless, good⟩ := ih sound' ran
      refine ⟨harmless, fun yes => ?_⟩
      obtain ⟨n, k'', sound'', blocks, count⟩ := good yes
      obtain ⟨n', blocks', same⟩ := advance.blocks line blocks
      refine ⟨n', k'', sound'', blocks', fun plain => ?_⟩
      obtain ⟨here, plain⟩ := List.forall_mem_cons.mp plain
      rw [count plain, same here]
    next p' handled =>
      obtain rfl := Option.some.inj ran
      exact ⟨handle_made host reads sound handled, fun no => by cases no⟩

/-- What the end of a file adds is complete. -/
theorem flush_reading (harmless : Harmless p) (good : Bool) :
    ∀ rule ∈ (flush (good, p)).2.rules, Reading 7 rule := by
  unfold flush
  dsimp only
  split_ifs
  · by_cases whole : p.readParseStatus = writableParseStatus
    · rw [writeRuleToDb_of whole]
      intro rule member
      rcases List.mem_append.mp member with old | new
      · exact harmless.rules rule old
      · rw [List.mem_singleton.mp new]
        exact harmless.whole whole
    · rw [writeRuleToDb_of_ne whole]
      exact harmless.rules
  · exact harmless.rules

theorem flush_true {good : Bool} (ended : (flush (good, p)).1 = true) : good = true := by
  unfold flush at ended
  dsimp only at ended
  split_ifs at ended
  · split at ended
    · exact ended
    · cases ended
  · exact ended

/-- A file that ends well ends behind a rule. -/
theorem flush_good (sound : Sound k p) {good : Bool} (ended : (flush (good, p)).1 = true) :
    k = 0 ∧ (flush (good, p)).2.rules = p.rules ∨
      k = 7 ∧ (flush (good, p)).2.rules = p.rules ++ [p.rule] := by
  unfold flush at ended ⊢
  dsimp only at ended ⊢
  by_cases begun : p.isParseStatusSet .rule
  · rw [if_pos begun] at ended ⊢
    by_cases whole : p.readParseStatus = writableParseStatus
    · rw [writeRuleToDb_of whole] at ended ⊢
      have last := (statusOf_writable sound.below).mp (sound.status.symm.trans whole)
      exact .inr ⟨last, rfl⟩
    · rw [writeRuleToDb_of_ne whole] at ended
      cases ended
  · rw [if_neg begun] at ended ⊢
    have first : k = 0 := Nat.eq_zero_of_not_pos fun later =>
      begun ((isParseStatusSet_rule sound.below sound.status).mpr later)
    exact .inl ⟨first, rfl⟩

theorem readConfig_reading (host : Host) : ∀ (depth : Nat) (filename : Text) {p : Parser}
    {out : Bool × Parser}, Sound 0 p → readConfig host depth filename p = some out →
      ∀ rule ∈ out.2.rules, Reading 7 rule
  | 0, _, _, _, _, ran => by cases ran
  | depth + 1, filename, p, out, sound, ran => by
    rw [readConfig] at ran
    split at ran
    next =>
      obtain rfl := Option.some.inj ran
      exact sound.rules
    next file opened =>
      obtain ⟨⟨good, q⟩, read, rfl⟩ := Option.map_eq_some_iff.mp ran
      exact flush_reading (readEntries_made (fun filename q out sound ran =>
        readConfig_reading host depth filename sound ran) _ sound read).1 good

theorem sound_initial : Sound 0 .initial :=
  ⟨Nat.zero_le 7, rfl, reading_zero, fun _ absent => absurd absent List.not_mem_nil⟩

end Reading

/-! ### What is accepted -/

section Accepted

variable {host : Host} {depth : Nat} {filename : Text} {good : Bool} {p : Parser}

/-- **Whatever is in the files, all rules that are added to the database are complete**: they have a
command, their values fit into their fields but for those of `ENV_VAR`, and they have no process. -/
theorem parse_reading (parsed : parse host depth filename = some (good, p)) :
    ∀ rule ∈ p.rules, Reading 7 rule :=
  readConfig_reading host depth filename sound_initial parsed

/-- A file with one rule -/
def ruleFile : Text :=
  ("RULE = SYSTEM_LOGGER\n  START_COND = NONE # at once\n  COMMAND = /usr/sbin/logger -d\n" ++
    "END_COND = NONE\nEND_COND_TIMEOUT = -1\nFAILURE_ACTION = RESTART\nACTIVE = YES\n").toList

/-- A host where a file includes that one, which has no name -/
def ruleHost : Host where
  fopen filename :=
    if filename = [] then some ruleFile
    else if filename = ['a'] then some ("VERSION = 1\nINCLUDE =\n".toList) else none
  getpwnam _ := none

theorem ruleFile_parsed :
    (parse ruleHost 1 []).map (fun out => (out.1, out.2.rules.length)) = some (true, 1) := by
  decide +kernel

theorem parse_reading_ruleFile : ∃ p, parse ruleHost 1 [] = some (true, p) ∧ p.rules.length = 1 ∧
    ∀ rule ∈ p.rules, Reading 7 rule := by
  obtain ⟨⟨good, p⟩, parsed, same⟩ := Option.map_eq_some_iff.mp ruleFile_parsed
  obtain ⟨rfl, one⟩ := Prod.mk.inj same
  exact ⟨p, parsed, one, parse_reading parsed⟩

/-- **A file that is accepted gives its mandatory keywords rule by rule**, and in their order. If it
includes no other file, every rule of the file is added to the database. -/
theorem parse_blocks (parsed : parse host depth filename = some (true, p)) :
    ∃ file n, host.fopen filename = some file ∧
      mandatoryOf (entries file) = (List.replicate n Keyword.order).flatten ∧
        ((∀ entry ∈ entries file, entry.1 ≠ .includeFile) → p.rules.length = n) := by
  unfold parse at parsed
  cases depth with
  | zero => cases parsed
  | succ depth =>
    rw [readConfig] at parsed
    split at parsed
    next => cases parsed
    next file opened =>
      obtain ⟨⟨good, q⟩, read, same⟩ := Option.map_eq_some_iff.mp parsed
      have made := (readEntries_made (fun filename q out sound ran =>
        readConfig_reading host depth filename sound ran) _ sound_initial read).2
      have ended : (flush (good, q)).1 = true := congrArg Prod.fst same
      have rules : (flush (good, q)).2.rules = p.rules := congrArg (fun out => out.2.rules) same
      obtain rfl : good = true := flush_true ended
      obtain ⟨n, k, sound, blocks, count⟩ := made rfl
      have blocks : mandatoryOf (entries file) =
          (List.replicate n Keyword.order).flatten ++ Keyword.order.take k := blocks
      obtain ⟨rfl, none⟩ | ⟨rfl, last⟩ := flush_good sound ended
      · refine ⟨file, n, opened, blocks.trans (List.append_nil _), fun plain => ?_⟩
        rw [← rules, none, count plain]
        exact Nat.zero_add n
      · refine ⟨file, n + 1, opened, blocks.trans ?_, fun plain => ?_⟩
        · rw [List.replicate_succ', List.flatten_append]
          rfl
        · rw [← rules, last, List.length_append, count plain]
          exact congrArg (· + 1) (Nat.zero_add n)

theorem parse_blocks_ruleFile : ∃ p n, parse ruleHost 1 [] = some (true, p) ∧
    mandatoryOf (entries ruleFile) = (List.replicate n Keyword.order).flatten ∧
      p.rules.length = n := by
  obtain ⟨⟨good, p⟩, parsed, same⟩ := Option.map_eq_some_iff.mp ruleFile_parsed
  obtain ⟨rfl, _⟩ := Prod.mk.inj same
  obtain ⟨file, n, opened, blocks, count⟩ := parse_blocks parsed
  obtain rfl : ruleFile = file := Option.some.inj opened
  exact ⟨p, n, parsed, blocks, count (by decide +kernel)⟩

end Accepted

/-! ### Included files -/

section Included

variable {host : Host} {read read' : Text → Parser → Option (Bool × Parser)}

/-- What is read where files may include each other, is read also where they may do so deeper. -/
theorem readEntries_deeper
    (deeper : ∀ filename q out, read filename q = some out → read' filename q = some out)
    (said : List (Keyword × Text)) : ∀ {p : Parser} {out : Bool × Parser},
      readEntries host read said p = some out → readEntries host read' said p = some out := by
  induction said with
  | nil => exact id
  | cons entry rest ih =>
    intro p out ran
    obtain ⟨keyword, line⟩ := entry
    have same : ∀ next, handle host read keyword line p = some next →
        handle host read' keyword line p = some next := by
      intro next handled
      cases keyword with
      | includeFile =>
        obtain ⟨q, included, rfl⟩ := Option.map_eq_some_iff.mp handled
        obtain ⟨out, ran, result⟩ := Option.bind_eq_some_iff.mp included
        refine Option.map_eq_some_iff.mpr ⟨q, ?_, rfl⟩
        exact Option.bind_eq_some_iff.mpr ⟨out, deeper _ _ _ ran, result⟩
      | _ => exact handled
    rw [readEntries] at ran ⊢
    split at ran
    next => cases ran
    next p' handled =>
      rw [same _ handled]
      exact ih ran
    next p' handled =>
      rw [same _ handled]
      exact ran

theorem readConfig_deeper (host : Host) : ∀ (depth : Nat) (filename : Text) (p : Parser)
    (out : Bool × Parser), readConfig host depth filename p = some out →
      readConfig host (depth + 1) filename p = some out
  | 0, _, _, _, ran => by cases ran
  | depth + 1, filename, p, out, ran => by
    rw [readConfig] at ran ⊢
    split at ran
    next => exact ran
    next =>
      obtain ⟨inner, read, rfl⟩ := Option.map_eq_some_iff.mp ran
      exact Option.map_eq_some_iff.mpr
        ⟨inner, readEntries_deeper (readConfig_deeper host depth) _ read, rfl⟩

/-- What a file says is read, if the files that it includes are. -/
theorem readEntries_returns (said : List (Keyword × Text))
    (reads : ∀ line, (.includeFile, line) ∈ said → ∀ q, (read line q).isSome) :
    ∀ p : Parser, (readEntries host read said p).isSome := by
  induction said with
  | nil => exact fun _ => rfl
  | cons entry rest ih =>
    intro p
    obtain ⟨keyword, line⟩ := entry
    have rest' := ih fun line member => reads line (List.mem_cons_of_mem _ member)
    have some' : (handle host read keyword line p).isSome := by
      cases keyword with
      | includeFile =>
        have there :=
          reads line List.mem_cons_self { p with rule := .zero, readParseStatus := 0#32 }
        obtain ⟨out, ran⟩ := Option.isSome_iff_exists.mp there
        rw [handle, handleInclude, ran]
        rfl
      | _ => rfl
    obtain ⟨out, handled⟩ := Option.isSome_iff_exists.mp some'
    rw [readEntries, handled]
    cases out with
    | ok p' => exact rest' p'
    | error p' => rfl

theorem readConfig_returns (host : Host) {rank : Text → Nat}
    (descends : ∀ filename file, host.fopen filename = some file →
      ∀ line, (.includeFile, line) ∈ entries file → rank line < rank filename) :
    ∀ (depth : Nat) (filename : Text) (p : Parser), rank filename < depth →
      (readConfig host depth filename p).isSome
  | 0, _, _, enough => absurd enough (Nat.not_lt_zero _)
  | depth + 1, filename, p, enough => by
    rw [readConfig]
    split
    next => rfl
    next file opened =>
      rw [Option.isSome_map]
      refine readEntries_returns _ (fun line member q => ?_) p
      have less := descends filename file opened line member
      exact readConfig_returns host descends depth line q (by omega)

end Included

end CyberPlatform.Pcd
