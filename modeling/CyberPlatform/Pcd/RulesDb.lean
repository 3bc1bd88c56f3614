/-
**The rules database.**

The rules are kept in groups, a group in a chain in the order of the rule names. A rule whose name
ended in `$` in the file is a template: a rule that is asked for and does not exist is made from the
template with the longest name that it begins with.

* `WellFormed` — what the database always is: `wellFormed_addRule`, `wellFormed_getRuleById`.
* `getRuleById_lookup` — what a search finds, makes, or does not find.
* `traverse_eq` — `get_first` and `get_next` give every rule once.
-/

import CyberPlatform.Foundation.SortedChain
import CyberPlatform.Pcd.Rule
import Mathlib.Data.List.Basic
import Mathlib.Data.List.Nodup
import Mathlib.Data.List.Range
import Mathlib.Logic.Function.Basic

namespace CyberPlatform.Pcd

open Foundation

/-- `ruleGroup_t`: a group and its chain from `firstRule` on -/
structure Group where
  groupName : Text
  rules : List RuleRef

/-- The groups, and the memory of the rules: rule `r` has been allocated if `r < size`. -/
structure RulesDb where
  groups : List Group
  memory : RuleRef → Rule
  size : Nat

namespace RulesDb

/-- The database in front of the first rule. -/
def empty : RulesDb := ⟨[], fun _ => .zero, 0⟩

/-- All rules, one group after the other. -/
def refs (db : RulesDb) : List RuleRef := db.groups.flatMap Group.rules

/-! ### Adding a rule -/

section Add

variable (memory : RuleRef → Rule) (newRule : RuleRef)

/-- `PCD_rulesdb_add_rule_to_group`: the chain of the group with the new rule, `none` where the name
is taken -/
def addRuleToGroup : List RuleRef → Option (List RuleRef)
  -- the source sets its local variable here, and not the chain of the group
  | [] => some []
  | ruleList :: rest =>
    let val := strcmp (memory newRule).ruleId.ruleName (memory ruleList).ruleId.ruleName
    if val = 0 then none
    else if 0 < val then
      match rest with
      | [] => some [ruleList, newRule]
      | next :: rest => (addRuleToGroup (next :: rest)).map (ruleList :: ·)
    else some (newRule :: ruleList :: rest)

/-- The walk of `PCD_rulesdb_add_rule` through the groups -/
def addToGroups : List Group → Option (List Group)
  | [] => some [⟨(memory newRule).ruleId.groupName, [newRule]⟩]
  | group :: rest =>
    if strcmp group.groupName (memory newRule).ruleId.groupName = 0 then
      (addRuleToGroup memory newRule group.rules).map fun rules => { group with rules } :: rest
    else (addToGroups rest).map (group :: ·)

end Add

/-- `PCD_rulesdb_add_rule`, where memory is granted. It returns `PCD_STATUS_OK` also where the rule
is ignored because its name is taken. -/
def addRule (db : RulesDb) (newrule : Rule) : RulesDb :=
  let memory := Function.update db.memory db.size newrule
  match addToGroups memory db.size db.groups with
  | some groups => ⟨groups, memory, db.size + 1⟩
  | none => db

/-! ### Looking for a rule -/

/-- The rule that is made from a template for a name -/
def instanceOf (template : Rule) (ruleName : Text) : Rule :=
  { template with
    indexed := false
    optionalParams := none
    ruleId := { template.ruleId with ruleName } }

/-- `PCD_rulesdb_get_rule_by_id`, where it calls itself less than `fuel` times -/
def getRuleByIdFuel : Nat → RulesDb → RuleId → Option RuleRef × RulesDb
  | 0, db, _ => (none, db)
  | fuel + 1, db, id =>
    match db.groups.find? fun group => strcmp id.groupName group.groupName = 0 with
    | none => (none, db)
    | some group =>
      let name (r : RuleRef) := (db.memory r).ruleId.ruleName
      let tmp := scan (fun r => strcmp (name r) id.ruleName = 0)
        (fun r => (db.memory r).indexed && strncmp (name r) id.ruleName (name r).length = 0)
        none group.rules
      match tmp with
      | .inr rule => (some rule, db)
      | .inl none => (none, db)
      | .inl (some tmpRule) =>
        getRuleByIdFuel fuel (db.addRule (instanceOf (db.memory tmpRule) id.ruleName)) id

/-- `PCD_rulesdb_get_rule_by_id`: a rule that has been made is found, so it calls itself at most
once (`getRuleByIdFuel_eq`) -/
def getRuleById (db : RulesDb) (id : RuleId) : Option RuleRef × RulesDb := getRuleByIdFuel 2 db id

/-! ### Walking through the rules -/

/-- `lastReturnedGroup` and `lastReturnedRule`: the chain from the rule on, and the groups behind
the group -/
structure Cursor where
  rules : List RuleRef
  groups : List Group

/-- `PCD_rulesdb_get_first` -/
def getFirst (db : RulesDb) : Option RuleRef × Cursor :=
  match db.groups with
  | [] => (none, ⟨[], []⟩)
  | group :: rest => (group.rules.head?, ⟨group.rules, rest⟩)

/-- `PCD_rulesdb_get_next` -/
def getNext : Cursor → Option RuleRef × Cursor
  | ⟨[], groups⟩ => (none, ⟨[], groups⟩)
  | ⟨_ :: rule :: rest, groups⟩ => (some rule, ⟨rule :: rest, groups⟩)
  | ⟨[_], []⟩ => (none, ⟨[], []⟩)
  | ⟨[_], group :: groups⟩ => (group.rules.head?, ⟨group.rules, groups⟩)

/-- The rules that `get_first` and the calls of `get_next` behind it return, up to the first null
pointer and `fuel` of them -/
def traverse : Nat → Option RuleRef × Cursor → List RuleRef
  | fuel + 1, (some rule, cursor) => rule :: traverse fuel (getNext cursor)
  | _, _ => []

/-! ### What the database always is -/

/-- **Groups in order**: no group is there twice or empty, and its chain ascends. -/
structure Grouped (memory : RuleRef → Rule) (groups : List Group) : Prop where
  names : (groups.map Group.groupName).Nodup
  nonempty : ∀ group ∈ groups, group.rules ≠ []
  sorted : ∀ group ∈ groups, Ascends (fun r => (memory r).ruleId.ruleName) group.rules
  named : ∀ group ∈ groups, ∀ r ∈ group.rules, (memory r).ruleId.groupName = group.groupName

/-- **What the database always is.** -/
structure WellFormed (db : RulesDb) : Prop where
  grouped : Grouped db.memory db.groups
  complete : db.refs.Perm (List.range db.size)

theorem WellFormed.mem_refs {db : RulesDb} (wellFormed : db.WellFormed) {r : RuleRef} :
    r ∈ db.refs ↔ r < db.size := by
  rw [wellFormed.complete.mem_iff, List.mem_range]

theorem wellFormed_empty : WellFormed empty where
  grouped := ⟨List.nodup_nil, by simp [empty], by simp [empty], by simp [empty]⟩
  complete := .refl _

/-- Only the ids of the rules count. -/
theorem Grouped.congr {memory memory' : RuleRef → Rule} {groups : List Group}
    (grouped : Grouped memory groups)
    (same : ∀ r ∈ groups.flatMap Group.rules, (memory' r).ruleId = (memory r).ruleId) :
    Grouped memory' groups where
  names := grouped.names
  nonempty := grouped.nonempty
  sorted group member := by
    refine (grouped.sorted group member).imp_of_mem fun {r r'} first second less => ?_
    show (memory' r).ruleId.ruleName < (memory' r').ruleId.ruleName
    rw [same r (List.mem_flatMap.mpr ⟨group, member, first⟩),
      same r' (List.mem_flatMap.mpr ⟨group, member, second⟩)]
    exact less
  named group member r inside := by
    rw [same r (List.mem_flatMap.mpr ⟨group, member, inside⟩)]
    exact grouped.named group member r inside

/-! ### What adding a rule does -/

section Adding

variable {memory : RuleRef → Rule} {newRule : RuleRef} {groups groups' : List Group}

/-- The walk through a chain that is not empty is an insertion. -/
theorem addRuleToGroup_eq : ∀ {chain : List RuleRef}, chain ≠ [] →
    addRuleToGroup memory newRule chain =
      insertNew (fun r => (memory r).ruleId.ruleName) newRule chain
  | [], nonempty => absurd rfl nonempty
  | [ruleList], _ => by
    simp only [addRuleToGroup, insertNew, strcmp_eq_zero, strcmp_pos, Option.map_some]
    congr
  | ruleList :: next :: rest, _ => by
    rw [addRuleToGroup, insertNew, addRuleToGroup_eq (List.cons_ne_nil next rest)]
    simp only [strcmp_eq_zero, strcmp_pos]
    congr

/-- **A rule is ignored exactly where its id is taken.** -/
theorem addToGroups_eq_none (grouped : Grouped memory groups) :
    addToGroups memory newRule groups = none ↔
      ∃ r ∈ groups.flatMap Group.rules, (memory r).ruleId = (memory newRule).ruleId := by
  have sameId : ∀ r r', (memory r).ruleId = (memory r').ruleId ↔
      (memory r).ruleId.groupName = (memory r').ruleId.groupName ∧
        (memory r).ruleId.ruleName = (memory r').ruleId.ruleName := fun r r' => by
    cases memory r
    cases memory r'
    exact RuleId.mk.injEq _ _ _ _ ▸ Iff.rfl
  induction groups with
  | nil => simp [addToGroups]
  | cons group rest ih =>
    obtain ⟨apart, names⟩ := List.nodup_cons.mp grouped.names
    obtain ⟨nonempty, nonemptyRest⟩ := List.forall_mem_cons.mp grouped.nonempty
    obtain ⟨sorted, sortedRest⟩ := List.forall_mem_cons.mp grouped.sorted
    obtain ⟨named, namedRest⟩ := List.forall_mem_cons.mp grouped.named
    rw [addToGroups, List.flatMap_cons]
    simp only [strcmp_eq_zero, List.mem_append]
    by_cases here : group.groupName = (memory newRule).ruleId.groupName
    · rw [if_pos here, Option.map_eq_none_iff, addRuleToGroup_eq nonempty,
        insertNew_eq_none sorted]
      constructor
      · rintro ⟨r, member, name⟩
        exact ⟨r, .inl member, (sameId r newRule).mpr ⟨(named r member).trans here, name⟩⟩
      · rintro ⟨r, member | member, same⟩
        · exact ⟨r, member, ((sameId r newRule).mp same).2⟩
        · obtain ⟨other, inRest, member⟩ := List.mem_flatMap.mp member
          have name := (namedRest other inRest r member).symm.trans ((sameId r newRule).mp same).1
          exact absurd (List.mem_map.mpr ⟨other, inRest, name.trans here.symm⟩) apart
    · have behind := ih ⟨names, nonemptyRest, sortedRest, namedRest⟩
      rw [if_neg here]
      refine Option.map_eq_none_iff.trans (behind.trans ?_)
      constructor
      · rintro ⟨r, member, same⟩
        exact ⟨r, .inr member, same⟩
      · rintro ⟨r, member | member, same⟩
        · exact absurd ((named r member).symm.trans ((sameId r newRule).mp same).1) here
        · exact ⟨r, member, same⟩

/-- The names of the groups behind the walk. -/
theorem addToGroups_names (added : addToGroups memory newRule groups = some groups') :
    groups'.map Group.groupName = groups.map Group.groupName ∨
      (memory newRule).ruleId.groupName ∉ groups.map Group.groupName ∧
        groups'.map Group.groupName =
          groups.map Group.groupName ++ [(memory newRule).ruleId.groupName] := by
  induction groups generalizing groups' with
  | nil =>
    obtain rfl := Option.some.inj added
    exact .inr ⟨List.not_mem_nil, rfl⟩
  | cons group rest ih =>
    rw [addToGroups] at added
    simp only [strcmp_eq_zero] at added
    split_ifs at added with here
    · obtain ⟨rules, _, rfl⟩ := Option.map_eq_some_iff.mp added
      exact .inl rfl
    · obtain ⟨tail, within, rfl⟩ := Option.map_eq_some_iff.mp added
      rcases ih within with same | ⟨fresh, more⟩
      · exact .inl (by rw [List.map_cons, same, List.map_cons])
      · refine .inr ⟨?_, by rw [List.map_cons, more, List.map_cons, List.cons_append]⟩
        rw [List.map_cons, List.mem_cons, not_or]
        exact ⟨fun same => here same.symm, fresh⟩

/-- **Adding a rule keeps the groups in order**, and adds the rule. -/
theorem addToGroups_grouped (grouped : Grouped memory groups)
    (added : addToGroups memory newRule groups = some groups') :
    Grouped memory groups' ∧
      (groups'.flatMap Group.rules).Perm (newRule :: groups.flatMap Group.rules) := by
  have names : (groups'.map Group.groupName).Nodup := by
    rcases addToGroups_names added with same | ⟨fresh, more⟩
    · rw [same]
      exact grouped.names
    · rw [more]
      refine List.nodup_append.mpr ⟨grouped.names, List.pairwise_singleton _ _,
        fun a member b single => ?_⟩
      rw [List.mem_singleton.mp single]
      exact fun same => fresh (same ▸ member)
  suffices parts : ((∀ group ∈ groups', group.rules ≠ []) ∧
      (∀ group ∈ groups', Ascends (fun r => (memory r).ruleId.ruleName) group.rules) ∧
      ∀ group ∈ groups', ∀ r ∈ group.rules, (memory r).ruleId.groupName = group.groupName) ∧
      (groups'.flatMap Group.rules).Perm (newRule :: groups.flatMap Group.rules) from
    ⟨⟨names, parts.1.1, parts.1.2.1, parts.1.2.2⟩, parts.2⟩
  clear names
  induction groups generalizing groups' with
  | nil =>
    obtain rfl := Option.some.inj added
    exact ⟨⟨by simp, by simp [Ascends], by simp⟩, .refl _⟩
  | cons group rest ih =>
    obtain ⟨_, names⟩ := List.nodup_cons.mp grouped.names
    obtain ⟨nonempty, nonemptyRest⟩ := List.forall_mem_cons.mp grouped.nonempty
    obtain ⟨sorted, sortedRest⟩ := List.forall_mem_cons.mp grouped.sorted
    obtain ⟨named, namedRest⟩ := List.forall_mem_cons.mp grouped.named
    rw [addToGroups] at added
    simp only [strcmp_eq_zero] at added
    split_ifs at added with here
    · obtain ⟨rules, inserted, rfl⟩ := Option.map_eq_some_iff.mp added
      rw [addRuleToGroup_eq nonempty] at inserted
      have perm := insertNew_perm inserted
      refine ⟨⟨List.forall_mem_cons.mpr ⟨?_, nonemptyRest⟩,
        List.forall_mem_cons.mpr ⟨insertNew_sorted sorted inserted, sortedRest⟩,
        List.forall_mem_cons.mpr ⟨fun r member => ?_, namedRest⟩⟩, ?_⟩
      · rintro rfl
        exact List.cons_ne_nil _ _ (List.nil_perm.mp perm)
      · rcases List.mem_cons.mp (perm.mem_iff.mp member) with rfl | member
        · exact here.symm
        · exact named r member
      · rw [List.flatMap_cons, List.flatMap_cons, ← List.cons_append]
        exact perm.append_right _
    · obtain ⟨tail, within, rfl⟩ := Option.map_eq_some_iff.mp added
      obtain ⟨⟨nonempty', sorted', named'⟩, perm⟩ :=
        ih ⟨names, nonemptyRest, sortedRest, namedRest⟩ within
      refine ⟨⟨List.forall_mem_cons.mpr ⟨nonempty, nonempty'⟩,
        List.forall_mem_cons.mpr ⟨sorted, sorted'⟩, List.forall_mem_cons.mpr ⟨named, named'⟩⟩, ?_⟩
      rw [List.flatMap_cons, List.flatMap_cons]
      exact (perm.append_left _).trans List.perm_middle

end Adding

section Stored

variable {db : RulesDb} (wellFormed : db.WellFormed)

include wellFormed

/-- The group in which a rule is. -/
theorem WellFormed.group_of {r : RuleRef} (stored : r < db.size) :
    ∃ group ∈ db.groups, r ∈ group.rules ∧ (db.memory r).ruleId.groupName = group.groupName := by
  obtain ⟨group, member, inside⟩ := List.mem_flatMap.mp (wellFormed.mem_refs.mpr stored)
  exact ⟨group, member, inside, wellFormed.grouped.named group member r inside⟩

/-- **No two rules have the same id.** -/
theorem WellFormed.unique {r r' : RuleRef} (stored : r < db.size) (stored' : r' < db.size)
    (same : (db.memory r).ruleId = (db.memory r').ruleId) : r = r' := by
  obtain ⟨group, member, inside, named⟩ := wellFormed.group_of stored
  obtain ⟨group', member', inside', named'⟩ := wellFormed.group_of stored'
  have sameGroup : group = group' := by
    refine List.inj_on_of_nodup_map wellFormed.grouped.names member member' ?_
    rw [← named, ← named', same]
  subst sameGroup
  exact (wellFormed.grouped.sorted group member).unique inside inside'
    (congrArg RuleId.ruleName same)

/-- The groups are in order also with a new rule in the memory. -/
theorem WellFormed.grouped_update (rule : Rule) :
    Grouped (Function.update db.memory db.size rule) db.groups := by
  refine wellFormed.grouped.congr fun r member => ?_
  rw [Function.update_of_ne (wellFormed.mem_refs.mp member).ne]

/-- A rule whose id is taken is ignored. -/
theorem addRule_taken {rule : Rule} {r : RuleRef} (stored : r < db.size)
    (same : (db.memory r).ruleId = rule.ruleId) : db.addRule rule = db := by
  have ignored : addToGroups (Function.update db.memory db.size rule) db.size db.groups = none := by
    refine (addToGroups_eq_none (wellFormed.grouped_update rule)).mpr
      ⟨r, wellFormed.mem_refs.mpr stored, ?_⟩
    rw [Function.update_of_ne stored.ne, Function.update_self, same]
  rw [addRule, ignored]

/-- **A rule with a new id is added** behind the memory of the others. -/
theorem addRule_fresh {rule : Rule} (fresh : ∀ r < db.size, (db.memory r).ruleId ≠ rule.ruleId) :
    ∃ groups, db.addRule rule =
      ⟨groups, Function.update db.memory db.size rule, db.size + 1⟩ := by
  cases added : addToGroups (Function.update db.memory db.size rule) db.size db.groups with
  | none =>
    obtain ⟨r, member, same⟩ :=
      (addToGroups_eq_none (wellFormed.grouped_update rule)).mp added
    have stored := wellFormed.mem_refs.mp member
    rw [Function.update_of_ne stored.ne, Function.update_self] at same
    exact absurd same (fresh r stored)
  | some groups =>
    exact ⟨groups, by rw [addRule, added]⟩

/-- **Adding a rule keeps the database as it is meant to be.** -/
theorem wellFormed_addRule (rule : Rule) : (db.addRule rule).WellFormed := by
  rw [addRule]
  cases added : addToGroups (Function.update db.memory db.size rule) db.size db.groups with
  | none => exact wellFormed
  | some groups =>
    obtain ⟨grouped, perm⟩ := addToGroups_grouped (wellFormed.grouped_update rule) added
    refine ⟨grouped, ?_⟩
    show (groups.flatMap Group.rules).Perm (List.range (db.size + 1))
    rw [List.range_succ]
    refine perm.trans ((wellFormed.complete.cons db.size).trans ?_)
    exact (List.perm_append_singleton _ _).symm

end Stored

/-! ### What a search does -/

/-- A template from which a rule of the id can be made. -/
structure Serves (db : RulesDb) (id : RuleId) (t : RuleRef) : Prop where
  stored : t < db.size
  indexed : (db.memory t).indexed
  group : (db.memory t).ruleId.groupName = id.groupName
  begins : (db.memory t).ruleId.ruleName <+: id.ruleName

/-- **What a search finds, makes, or does not find.** -/
inductive Lookup (db : RulesDb) (id : RuleId) : Option RuleRef → RulesDb → Prop
  | found (r : RuleRef) : r < db.size → (db.memory r).ruleId = id → Lookup db id (some r) db
  | made (t : RuleRef) (groups : List Group) : (∀ r < db.size, (db.memory r).ruleId ≠ id) →
      Serves db id t →
      (∀ t', Serves db id t' →
        (db.memory t').ruleId.ruleName.length ≤ (db.memory t).ruleId.ruleName.length) →
      Lookup db id (some db.size) ⟨groups,
        Function.update db.memory db.size (instanceOf (db.memory t) id.ruleName), db.size + 1⟩
  | missing : (∀ r < db.size, (db.memory r).ruleId ≠ id) → (∀ t, ¬ Serves db id t) →
      Lookup db id none db

section Search

variable {db : RulesDb} (wellFormed : db.WellFormed) {id : RuleId}

include wellFormed

/-- All rules of a group are in the chain that is searched. -/
theorem WellFormed.searched {group : Group}
    (found : db.groups.find? (fun g => strcmp id.groupName g.groupName = 0) = some group)
    {r : RuleRef} :
    r ∈ group.rules ↔ r < db.size ∧ (db.memory r).ruleId.groupName = id.groupName := by
  have member := List.mem_of_find?_eq_some found
  have name : id.groupName = group.groupName := by
    have hit := List.find?_some found
    exact strcmp_eq_zero.mp (of_decide_eq_true hit)
  constructor
  · intro inside
    exact ⟨wellFormed.mem_refs.mp (List.mem_flatMap.mpr ⟨group, member, inside⟩),
      (wellFormed.grouped.named group member r inside).trans name.symm⟩
  · rintro ⟨stored, named⟩
    obtain ⟨other, member', inside, named'⟩ := wellFormed.group_of stored
    have same : other = group := List.inj_on_of_nodup_map wellFormed.grouped.names member' member
      (named'.symm.trans (named.trans name))
    exact same ▸ inside

/-- A group that is not there has no rules. -/
theorem WellFormed.unsearched
    (missing : db.groups.find? (fun g => strcmp id.groupName g.groupName = 0) = none)
    {r : RuleRef} (stored : r < db.size) : (db.memory r).ruleId.groupName ≠ id.groupName := by
  intro named
  obtain ⟨group, member, _, named'⟩ := wellFormed.group_of stored
  have differ := List.find?_eq_none.mp missing group member
  exact differ (decide_eq_true (strcmp_eq_zero.mpr (named.symm.trans named')))

/-- A rule that is there is found. -/
theorem getRuleByIdFuel_stored (fuel : Nat) {r : RuleRef} (stored : r < db.size)
    (same : (db.memory r).ruleId = id) : getRuleByIdFuel (fuel + 1) db id = (some r, db) := by
  rw [getRuleByIdFuel]
  split
  next missing =>
    exact absurd (congrArg RuleId.groupName same) (wellFormed.unsearched missing stored)
  next group found =>
    have inside : r ∈ group.rules :=
      (wellFormed.searched found).mpr ⟨stored, congrArg RuleId.groupName same⟩
    dsimp only
    split
    next r' hit =>
      obtain ⟨member, named⟩ := scan_found hit
      obtain ⟨stored', sameGroup⟩ := (wellFormed.searched found).mp member
      have sameName := strcmp_eq_zero.mp (of_decide_eq_true named)
      have equal : r' = r := wellFormed.unique stored' stored (by
        rw [same]
        cases id
        exact congrArg₂ RuleId.mk sameGroup sameName)
      rw [equal]
    all_goals
      next missed =>
        have named := strcmp_eq_zero.mpr (congrArg RuleId.ruleName same)
        exact absurd (decide_eq_true named) (scan_missed missed r inside)

/-- **The template that is taken** is the one with the longest name. -/
theorem WellFormed.longest {group : Group}
    (found : db.groups.find? (fun g => strcmp id.groupName g.groupName = 0) = some group)
    {last : Option RuleRef}
    (missed : scan (fun r => strcmp (db.memory r).ruleId.ruleName id.ruleName = 0)
      (fun r => (db.memory r).indexed && strncmp (db.memory r).ruleId.ruleName id.ruleName
        (db.memory r).ruleId.ruleName.length = 0) none group.rules = .inl last) :
    (last = none → ∀ t, ¬ Serves db id t) ∧
      ∀ t, last = some t → Serves db id t ∧ ∀ t', Serves db id t' →
        (db.memory t').ruleId.ruleName.length ≤ (db.memory t).ruleId.ruleName.length := by
  have sorted := wellFormed.grouped.sorted group (List.mem_of_find?_eq_some found)
  rw [scan_last missed, Option.or_none]
  set also : RuleRef → Bool := fun r => (db.memory r).indexed &&
    strncmp (db.memory r).ruleId.ruleName id.ruleName (db.memory r).ruleId.ruleName.length = 0
    with alsoDef
  have serves : ∀ t, t ∈ group.rules.filter also ↔ Serves db id t := by
    intro t
    rw [List.mem_filter, wellFormed.searched found, alsoDef]
    simp only [Bool.and_eq_true, decide_eq_true_eq, strncmp_length]
    exact ⟨fun ⟨⟨stored, named⟩, indexed, begins⟩ => ⟨stored, indexed, named, begins⟩,
      fun ⟨stored, indexed, named, begins⟩ => ⟨⟨stored, named⟩, indexed, begins⟩⟩
  constructor
  · intro nobody t serving
    rw [List.getLast?_eq_none_iff] at nobody
    exact absurd ((serves t).mpr serving) (nobody ▸ List.not_mem_nil)
  · intro t last
    obtain ⟨front, whole⟩ := List.getLast?_eq_some_iff.mp last
    have taken : Serves db id t :=
      (serves t).mp (whole ▸ List.mem_append_right _ List.mem_cons_self)
    refine ⟨taken, fun t' other => ?_⟩
    have member := (serves t').mpr other
    rw [whole, List.mem_append, List.mem_singleton] at member
    rcases member with before | rfl
    · have ascends := sorted.filter also
      rw [whole, List.pairwise_append] at ascends
      have less := ascends.2.2 t' before t List.mem_cons_self
      exact ((IsPrefix.lt_iff_length other.begins taken.begins).mp less).le
    · exact le_rfl

variable (id)

/-- **A search**, for all numbers of calls that the function may make of itself. -/
theorem getRuleByIdFuel_spec : ∃ rule db', Lookup db id rule db' ∧ db'.WellFormed ∧
    ∀ fuel, getRuleByIdFuel (fuel + 2) db id = (rule, db') := by
  by_cases there : ∃ r < db.size, (db.memory r).ruleId = id
  · obtain ⟨r, stored, same⟩ := there
    exact ⟨some r, db, .found r stored same, wellFormed,
      fun fuel => getRuleByIdFuel_stored wellFormed (fuel + 1) stored same⟩
  push Not at there
  cases found : db.groups.find? fun group => strcmp id.groupName group.groupName = 0 with
  | none =>
    refine ⟨none, db, .missing there fun t serves => ?_, wellFormed, fun fuel => ?_⟩
    · exact wellFormed.unsearched found serves.stored serves.group
    · rw [getRuleByIdFuel, found]
  | some group =>
    cases walk : scan (fun r => strcmp (db.memory r).ruleId.ruleName id.ruleName = 0)
        (fun r => (db.memory r).indexed && strncmp (db.memory r).ruleId.ruleName id.ruleName
          (db.memory r).ruleId.ruleName.length = 0) none group.rules with
    | inr r =>
      obtain ⟨member, named⟩ := scan_found walk
      obtain ⟨stored, sameGroup⟩ := (wellFormed.searched found).mp member
      refine absurd ?_ (there r stored)
      cases id
      exact congrArg₂ RuleId.mk sameGroup (strcmp_eq_zero.mp (of_decide_eq_true named))
    | inl last =>
      obtain ⟨nobody, longest⟩ := wellFormed.longest found walk
      cases last with
      | none =>
        refine ⟨none, db, .missing there (nobody rfl), wellFormed, fun fuel => ?_⟩
        rw [getRuleByIdFuel, found]
        dsimp only
        rw [walk]
      | some t =>
        obtain ⟨serves, longest⟩ := longest t rfl
        have made : (instanceOf (db.memory t) id.ruleName).ruleId = id := by
          cases id
          exact congrArg₂ RuleId.mk serves.group rfl
        have wellFormed' := wellFormed_addRule wellFormed (instanceOf (db.memory t) id.ruleName)
        obtain ⟨groups, added⟩ := addRule_fresh wellFormed (made ▸ there)
        rw [added] at wellFormed'
        refine ⟨some db.size, _, .made t groups there serves longest, wellFormed', fun fuel => ?_⟩
        rw [getRuleByIdFuel, found]
        dsimp only
        rw [walk]
        dsimp only
        rw [added]
        exact getRuleByIdFuel_stored wellFormed' fuel (Nat.lt_succ_self _)
          ((congrArg Rule.ruleId (Function.update_self ..)).trans made)

/-- **What a search finds, makes, or does not find.** -/
theorem getRuleById_lookup : Lookup db id (db.getRuleById id).1 (db.getRuleById id).2 := by
  obtain ⟨rule, db', lookup, _, ran⟩ := getRuleByIdFuel_spec wellFormed id
  rw [getRuleById, ran 0]
  exact lookup

/-- **A search never calls itself twice.** -/
theorem getRuleByIdFuel_eq (fuel : Nat) : getRuleByIdFuel (fuel + 2) db id = db.getRuleById id := by
  obtain ⟨rule, db', _, _, ran⟩ := getRuleByIdFuel_spec wellFormed id
  rw [getRuleById, ran fuel, ran 0]

/-- **A search keeps the database as it is meant to be.** -/
theorem wellFormed_getRuleById : (db.getRuleById id).2.WellFormed := by
  obtain ⟨rule, db', _, wellFormed', ran⟩ := getRuleByIdFuel_spec wellFormed id
  rw [getRuleById, ran 0]
  exact wellFormed'

end Search

/-! ### Every rule once -/

/-- The walk from a rule on. -/
theorem traverse_from {groups : List Group} {fuel : Nat} {r : RuleRef} {rest : List RuleRef}
    (nonempty : ∀ group ∈ groups, group.rules ≠ [])
    (enough : (r :: rest ++ groups.flatMap Group.rules).length ≤ fuel) :
    traverse fuel (some r, ⟨r :: rest, groups⟩) = r :: rest ++ groups.flatMap Group.rules := by
  induction fuel generalizing r rest groups with
  | zero => simp at enough
  | succ fuel ih =>
    rw [traverse, List.cons_append]
    congr 1
    cases rest with
    | cons next rest => exact ih nonempty (by simpa using enough)
    | nil =>
      cases groups with
      | nil => cases fuel <;> rfl
      | cons group groups =>
        obtain ⟨nonempty, nonemptyRest⟩ := List.forall_mem_cons.mp nonempty
        obtain ⟨first, rest, chain⟩ := List.exists_cons_of_ne_nil nonempty
        rw [getNext, List.flatMap_cons, chain]
        exact ih nonemptyRest (by simpa [chain] using enough)

/-- **`get_first` and `get_next` give every rule once**, one group after the other. -/
theorem traverse_eq {db : RulesDb} (wellFormed : db.WellFormed) {fuel : Nat}
    (enough : db.size ≤ fuel) : traverse fuel db.getFirst = db.refs := by
  have size : db.refs.length = db.size := by
    rw [wellFormed.complete.length_eq, List.length_range]
  have nonempty := wellFormed.grouped.nonempty
  rw [← size] at enough
  unfold getFirst refs at *
  cases groups : db.groups with
  | nil => cases fuel <;> rfl
  | cons group rest =>
    rw [groups] at nonempty enough
    obtain ⟨nonempty, nonemptyRest⟩ := List.forall_mem_cons.mp nonempty
    obtain ⟨first, tail, chain⟩ := List.exists_cons_of_ne_nil nonempty
    simp only [chain, List.head?_cons, List.flatMap_cons] at enough ⊢
    exact traverse_from nonemptyRest enough

end RulesDb

end CyberPlatform.Pcd
