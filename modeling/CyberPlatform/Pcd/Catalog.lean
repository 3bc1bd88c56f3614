/-
**What the rules database is for.**

Whoever asks the database for a rule, sees a catalog: at most one rule under every id, and templates
from which the others are made. Groups, chains and pointers do not show.

* `Catalog` — the rules by their ids; `Catalog.enter` and `Catalog.Fetch` are its operations.
* `Catalog.Fetch.unique` — a search leaves no choice.
* `database_refines` — the database answers every sequence of requests as the catalog does.
* `traverse_ascends` — a walk gives every rule of the catalog once, and those of a group in order.
-/

import CyberPlatform.Pcd.RulesDb
import Mathlib.Data.List.Pairwise

namespace CyberPlatform.Pcd

open Foundation

/-- **The rules by their ids.** -/
abbrev Catalog := RuleId → Option Rule

namespace Catalog

/-- The catalog in front of the first rule. -/
def empty : Catalog := fun _ => none

/-- A rule is entered, unless its id is taken. -/
def enter (c : Catalog) (rule : Rule) : Catalog :=
  if (c rule.ruleId).isSome then c else Function.update c rule.ruleId (some rule)

/-- A template from which a rule of the id can be made. -/
structure Serves (c : Catalog) (id : RuleId) (t : Rule) : Prop where
  entered : c t.ruleId = some t
  indexed : t.indexed = true
  group : t.ruleId.groupName = id.groupName
  begins : t.ruleId.ruleName <+: id.ruleName

/-- **A search**: the rule of the id, or one that is made from the template with the longest name
and entered, or none. -/
inductive Fetch (c : Catalog) (id : RuleId) : Option Rule → Catalog → Prop
  | found (rule : Rule) : c id = some rule → Fetch c id (some rule) c
  | made (t : Rule) : c id = none → Serves c id t →
      (∀ t', Serves c id t' → t'.ruleId.ruleName.length ≤ t.ruleId.ruleName.length) →
      Fetch c id (some (RulesDb.instanceOf t id.ruleName))
        (enter c (RulesDb.instanceOf t id.ruleName))
  | missing : c id = none → (∀ t, ¬ Serves c id t) → Fetch c id none c

variable {c c' c'' : Catalog} {id : RuleId} {out out' : Option Rule}

/-- Two templates for an id whose names are of the same length are one. -/
theorem Serves.unique {t t' : Rule} (serves : Serves c id t) (serves' : Serves c id t')
    (length : t.ruleId.ruleName.length = t'.ruleId.ruleName.length) : t = t' := by
  have name : t.ruleId.ruleName = t'.ruleId.ruleName :=
    (List.prefix_of_prefix_length_le serves.begins serves'.begins length.le).eq_of_length length
  have same : t.ruleId = t'.ruleId := by
    cases id : t.ruleId
    cases id' : t'.ruleId
    rw [id, id'] at name
    have group := serves.group.trans serves'.group.symm
    rw [id, id'] at group
    exact congrArg₂ RuleId.mk group name
  exact Option.some.inj (serves.entered.symm.trans ((congrArg c same).trans serves'.entered))

/-- **A search leaves no choice.** -/
theorem Fetch.unique (fetch : Fetch c id out c') (fetch' : Fetch c id out' c'') :
    out = out' ∧ c' = c'' := by
  cases fetch with
  | found rule there =>
    cases fetch' with
    | found rule' there' => exact ⟨there.symm.trans there', rfl⟩
    | made t absent _ _ => exact absurd (there.symm.trans absent) (Option.some_ne_none rule)
    | missing absent _ => exact absurd (there.symm.trans absent) (Option.some_ne_none rule)
  | made t absent serves longest =>
    cases fetch' with
    | found rule there => exact absurd (there.symm.trans absent) (Option.some_ne_none rule)
    | made t' _ serves' longest' =>
      obtain rfl := serves.unique serves' (Nat.le_antisymm (longest' t serves) (longest t' serves'))
      exact ⟨rfl, rfl⟩
    | missing _ nobody => exact absurd serves (nobody t)
  | missing absent nobody =>
    cases fetch' with
    | found rule there => exact absurd (there.symm.trans absent) (Option.some_ne_none rule)
    | made t _ serves _ => exact absurd serves (nobody t)
    | missing _ _ => exact ⟨rfl, rfl⟩

end Catalog

/-! ### The catalog of a database -/

namespace RulesDb

variable {db : RulesDb} {id : RuleId} {rule : Rule}

/-- The catalog that a database shows -/
def catalog (db : RulesDb) : Catalog := fun id =>
  (db.refs.map db.memory).find? fun rule => rule.ruleId = id

/-- A rule that the catalog gives has the id. -/
theorem catalog_named (found : db.catalog id = some rule) : rule.ruleId = id :=
  of_decide_eq_true (List.find?_some (p := fun rule : Rule => rule.ruleId = id) found)

/-- A rule is in the catalog if it is in the memory of the database. -/
theorem WellFormed.catalog_eq_some (wellFormed : db.WellFormed) :
    db.catalog id = some rule ↔ ∃ r < db.size, db.memory r = rule ∧ rule.ruleId = id := by
  constructor
  · intro found
    obtain ⟨r, member, rfl⟩ := List.mem_map.mp (List.mem_of_find?_eq_some found)
    exact ⟨r, wellFormed.mem_refs.mp member, rfl, catalog_named found⟩
  · rintro ⟨r, stored, rfl, named⟩
    have member : db.memory r ∈ db.refs.map db.memory :=
      List.mem_map_of_mem (wellFormed.mem_refs.mpr stored)
    cases found : db.catalog id with
    | none => exact absurd (decide_eq_true named) (List.find?_eq_none.mp found _ member)
    | some rule' =>
      obtain ⟨r', member', rfl⟩ := List.mem_map.mp (List.mem_of_find?_eq_some found)
      have same := named.trans (catalog_named found).symm
      rw [wellFormed.unique stored (wellFormed.mem_refs.mp member') same]

theorem WellFormed.catalog_eq_none (wellFormed : db.WellFormed) :
    db.catalog id = none ↔ ∀ r < db.size, (db.memory r).ruleId ≠ id := by
  constructor
  · intro absent r stored named
    have there := wellFormed.catalog_eq_some.mpr ⟨r, stored, rfl, named⟩
    exact absurd (there.symm.trans absent) (Option.some_ne_none _)
  · intro differ
    rw [Option.eq_none_iff_forall_not_mem]
    intro rule there
    obtain ⟨r, stored, rfl, named⟩ := wellFormed.catalog_eq_some.mp there
    exact differ r stored named

/-- Two catalogs with the same rules are the same. -/
theorem catalog_ext {c c' : Catalog} (same : ∀ id rule, c id = some rule ↔ c' id = some rule) :
    c = c' := funext fun id => Option.ext fun rule => same id rule

/-- **The memory of a new rule** is a new entry of the catalog. -/
theorem catalog_concat {groups : List Group} (wellFormed : db.WellFormed)
    (wellFormed' : WellFormed ⟨groups, Function.update db.memory db.size rule, db.size + 1⟩)
    (fresh : ∀ r < db.size, (db.memory r).ruleId ≠ rule.ruleId) :
    catalog ⟨groups, Function.update db.memory db.size rule, db.size + 1⟩ =
      db.catalog.enter rule := by
  have absent := wellFormed.catalog_eq_none.mpr fresh
  have free : ¬ (db.catalog rule.ruleId).isSome := by rw [absent]; exact Bool.false_ne_true
  rw [Catalog.enter, if_neg free]
  refine catalog_ext fun id x => ?_
  rw [wellFormed'.catalog_eq_some, Function.update_apply]
  split_ifs with here
  · rw [here]
    constructor
    · rintro ⟨r, below, rfl, named⟩
      rcases Nat.lt_succ_iff_lt_or_eq.mp below with old | rfl
      · dsimp only at named
        rw [Function.update_of_ne old.ne] at named
        exact absurd named (fresh r old)
      · dsimp only
        rw [Function.update_self]
    · intro same
      obtain rfl := Option.some.inj same
      exact ⟨db.size, Nat.lt_succ_self _, Function.update_self .., rfl⟩
  · rw [wellFormed.catalog_eq_some]
    constructor
    · rintro ⟨r, below, rfl, named⟩
      rcases Nat.lt_succ_iff_lt_or_eq.mp below with old | rfl
      · exact ⟨r, old, (Function.update_of_ne old.ne ..).symm, named⟩
      · dsimp only at named
        rw [Function.update_self] at named
        exact absurd named.symm here
    · rintro ⟨r, old, rfl, named⟩
      exact ⟨r, old.trans (Nat.lt_succ_self _), Function.update_of_ne old.ne .., named⟩

/-- **A rule is added** to the database as it is entered into the catalog. -/
theorem catalog_addRule (wellFormed : db.WellFormed) (rule : Rule) :
    (db.addRule rule).catalog = db.catalog.enter rule := by
  by_cases taken : ∃ r < db.size, (db.memory r).ruleId = rule.ruleId
  · obtain ⟨r, stored, same⟩ := taken
    have there := wellFormed.catalog_eq_some.mpr ⟨r, stored, rfl, same⟩
    have full : (db.catalog rule.ruleId).isSome := by rw [there]; rfl
    rw [addRule_taken wellFormed stored same, Catalog.enter, if_pos full]
  · push Not at taken
    obtain ⟨groups, added⟩ := addRule_fresh wellFormed taken
    have wellFormed' := wellFormed_addRule wellFormed rule
    rw [added] at wellFormed' ⊢
    exact catalog_concat wellFormed wellFormed' taken

/-- The templates of a database are those of its catalog. -/
theorem serves_catalog (wellFormed : db.WellFormed) {t : Rule} :
    db.catalog.Serves id t ↔ ∃ r, db.Serves id r ∧ db.memory r = t := by
  constructor
  · rintro ⟨entered, indexed, group, begins⟩
    obtain ⟨r, stored, rfl, _⟩ := wellFormed.catalog_eq_some.mp entered
    exact ⟨r, ⟨stored, indexed, group, begins⟩, rfl⟩
  · rintro ⟨r, ⟨stored, indexed, group, begins⟩, rfl⟩
    exact ⟨wellFormed.catalog_eq_some.mpr ⟨r, stored, rfl, rfl⟩, indexed, group, begins⟩

/-- **A search in the database** is one in its catalog. -/
theorem fetch_getRuleById (wellFormed : db.WellFormed) (id : RuleId) :
    db.catalog.Fetch id ((db.getRuleById id).1.map (db.getRuleById id).2.memory)
      (db.getRuleById id).2.catalog := by
  have wellFormed' := wellFormed_getRuleById wellFormed id
  have lookup := getRuleById_lookup wellFormed id
  generalize db.getRuleById id = out at lookup wellFormed' ⊢
  obtain ⟨rule, db'⟩ := out
  cases lookup with
  | found r stored named =>
    exact .found _ (wellFormed.catalog_eq_some.mpr ⟨r, stored, rfl, named⟩)
  | made t groups fresh serves longest =>
    have name : (instanceOf (db.memory t) id.ruleName).ruleId = id := by
      cases id
      exact congrArg₂ RuleId.mk serves.group rfl
    have same := catalog_concat wellFormed wellFormed' (fun r stored => name ▸ fresh r stored)
    have made := Catalog.Fetch.made (db.memory t) (wellFormed.catalog_eq_none.mpr fresh)
      ((serves_catalog wellFormed).mpr ⟨t, serves, rfl⟩) fun t' serves' => by
        obtain ⟨r, there, rfl⟩ := (serves_catalog wellFormed).mp serves'
        exact longest r there
    rw [← same] at made
    simpa using made
  | missing fresh nobody =>
    refine .missing (wellFormed.catalog_eq_none.mpr fresh) fun t serves => ?_
    obtain ⟨r, serves, _⟩ := (serves_catalog wellFormed).mp serves
    exact nobody r serves

/-! ### Requests -/

/-- What is asked of the database: to add a rule, to give one, or to give one that is then written
to through the pointer -/
inductive Ask where
  | add (rule : Rule)
  | get (id : RuleId)
  | write (id : RuleId) (f : Rule → Rule) (keeps : ∀ x, (f x).ruleId = x.ruleId)

/-- The answer of the database, and what becomes of it -/
def serve (db : RulesDb) : Ask → Option Rule × RulesDb
  | .add rule => (none, db.addRule rule)
  | .get id =>
    let (rule, db) := db.getRuleById id
    (rule.map db.memory, db)
  | .write id f _ =>
    match db.getRuleById id with
    | (none, db) => (none, db)
    | (some r, db) =>
      let db := { db with memory := Function.update db.memory r (f (db.memory r)) }
      (some (db.memory r), db)

/-- The answers to some requests -/
def serveAll : List Ask → RulesDb → List (Option Rule) × RulesDb
  | [], db => ([], db)
  | ask :: asks, db =>
    let (out, db) := serve db ask
    let (outs, db) := serveAll asks db
    (out :: outs, db)

end RulesDb

namespace Catalog

/-- The answer of the catalog to a request -/
inductive Served (c : Catalog) : RulesDb.Ask → Option Rule → Catalog → Prop
  | add (rule : Rule) : Served c (.add rule) none (c.enter rule)
  | get {id : RuleId} {out : Option Rule} {c' : Catalog} : Fetch c id out c' →
      Served c (.get id) out c'
  | missed {id : RuleId} {f : Rule → Rule} {keeps : ∀ x, (f x).ruleId = x.ruleId} {c' : Catalog} :
      Fetch c id none c' → Served c (.write id f keeps) none c'
  | written {id : RuleId} {f : Rule → Rule} {keeps : ∀ x, (f x).ruleId = x.ruleId} {rule : Rule}
      {c' : Catalog} : Fetch c id (some rule) c' →
      Served c (.write id f keeps) (some (f rule)) (Function.update c' id (some (f rule)))

/-- The answers of the catalog to some requests -/
inductive ServedAll : Catalog → List RulesDb.Ask → List (Option Rule) → Catalog → Prop
  | nil {c : Catalog} : ServedAll c [] [] c
  | cons {c c' c'' : Catalog} {ask : RulesDb.Ask} {asks : List RulesDb.Ask} {out : Option Rule}
      {outs : List (Option Rule)} : Served c ask out c' → ServedAll c' asks outs c'' →
      ServedAll c (ask :: asks) (out :: outs) c''

variable {c c' c'' : Catalog} {out out' : Option Rule} {outs outs' : List (Option Rule)}

theorem Served.unique {ask : RulesDb.Ask} (served : Served c ask out c')
    (served' : Served c ask out' c'') : out = out' ∧ c' = c'' := by
  cases served with
  | add rule =>
    cases served'
    exact ⟨rfl, rfl⟩
  | get fetch =>
    cases served' with
    | get fetch' => exact fetch.unique fetch'
  | missed fetch =>
    cases served' with
    | missed fetch' => exact ⟨rfl, (fetch.unique fetch').2⟩
    | written fetch' => cases (fetch.unique fetch').1
  | written fetch =>
    cases served' with
    | missed fetch' => cases (fetch.unique fetch').1
    | written fetch' =>
      obtain ⟨same, rfl⟩ := fetch.unique fetch'
      obtain rfl := Option.some.inj same
      exact ⟨rfl, rfl⟩

/-- **The answers of the catalog leave no choice.** -/
theorem ServedAll.unique {asks : List RulesDb.Ask} (served : ServedAll c asks outs c')
    (served' : ServedAll c asks outs' c'') : outs = outs' ∧ c' = c'' := by
  induction served generalizing outs' with
  | nil =>
    cases served'
    exact ⟨rfl, rfl⟩
  | cons first rest ih =>
    cases served' with
    | cons first' rest' =>
      obtain ⟨rfl, rfl⟩ := first.unique first'
      obtain ⟨rfl, rfl⟩ := ih rest'
      exact ⟨rfl, rfl⟩

end Catalog

namespace RulesDb

variable {db : RulesDb} {id : RuleId} {rule : Rule}

/-- What a search gives is in the memory, under its id. -/
theorem getRuleById_some (wellFormed : db.WellFormed) {r : RuleRef} {db' : RulesDb}
    (got : db.getRuleById id = (some r, db')) : r < db'.size ∧ (db'.memory r).ruleId = id := by
  have lookup := getRuleById_lookup wellFormed id
  rw [got] at lookup
  dsimp only at lookup
  cases lookup with
  | found _ stored named => exact ⟨stored, named⟩
  | made t groups _ serves _ =>
    refine ⟨Nat.lt_succ_self _, ?_⟩
    dsimp only
    rw [Function.update_self]
    cases id
    exact congrArg₂ RuleId.mk serves.group rfl

/-- **A rule that is written to** is under its id as before. -/
theorem wellFormed_write (wellFormed : db.WellFormed) {r : RuleRef} {x : Rule}
    (same : x.ruleId = (db.memory r).ruleId) :
    WellFormed { db with memory := Function.update db.memory r x } := by
  refine ⟨wellFormed.grouped.congr fun r' member => ?_, wellFormed.complete⟩
  dsimp only
  rw [Function.update_apply]
  split_ifs with here
  · rw [here, same]
  · rfl

theorem catalog_write (wellFormed : db.WellFormed) {r : RuleRef} {x : Rule} (stored : r < db.size)
    (same : x.ruleId = (db.memory r).ruleId) :
    catalog { db with memory := Function.update db.memory r x } =
      Function.update db.catalog x.ruleId (some x) := by
  have wellFormed' := wellFormed_write wellFormed same
  refine catalog_ext fun id y => ?_
  rw [wellFormed'.catalog_eq_some, Function.update_apply]
  split_ifs with here
  · subst here
    constructor
    · rintro ⟨r', stored', rfl, named⟩
      dsimp only at named ⊢
      rw [Function.update_apply] at named ⊢
      split_ifs at named ⊢ with at'
      · rfl
      · exact absurd (wellFormed.unique stored' stored (named.trans same)) at'
    · intro same'
      obtain rfl := Option.some.inj same'
      exact ⟨r, stored, Function.update_self .., rfl⟩
  · rw [wellFormed.catalog_eq_some]
    have differ : ∀ r' < db.size, (db.memory r').ruleId = id → r' ≠ r := by
      rintro _ _ named rfl
      exact here (named.symm.trans same.symm)
    constructor
    · rintro ⟨r', stored', rfl, named⟩
      dsimp only at named ⊢
      rw [Function.update_apply] at named ⊢
      split_ifs at named ⊢ with at'
      · exact absurd named.symm here
      · exact ⟨r', stored', rfl, named⟩
    · rintro ⟨r', stored', rfl, named⟩
      exact ⟨r', stored', Function.update_of_ne (differ r' stored' named) .., named⟩

/-- **The database serves a request** as its catalog does. -/
theorem serve_refines (wellFormed : db.WellFormed) (ask : Ask) :
    (serve db ask).2.WellFormed ∧
      db.catalog.Served ask (serve db ask).1 (serve db ask).2.catalog := by
  cases ask with
  | add rule =>
    refine ⟨wellFormed_addRule wellFormed rule, ?_⟩
    rw [serve, catalog_addRule wellFormed]
    exact .add rule
  | get id => exact ⟨wellFormed_getRuleById wellFormed id, .get (fetch_getRuleById wellFormed id)⟩
  | write id f keeps =>
    have wellFormed' := wellFormed_getRuleById wellFormed id
    have fetch := fetch_getRuleById wellFormed id
    rw [serve]
    rcases got : db.getRuleById id with ⟨out, db'⟩
    rw [got] at wellFormed' fetch
    cases out with
    | none => exact ⟨wellFormed', .missed fetch⟩
    | some r =>
      obtain ⟨stored, named⟩ := getRuleById_some wellFormed got
      dsimp only at wellFormed' fetch ⊢
      refine ⟨wellFormed_write wellFormed' (keeps _), ?_⟩
      rw [catalog_write wellFormed' stored (keeps _), Function.update_self, keeps, named]
      exact .written fetch

/-- **The database answers every sequence of requests as the catalog does.** -/
theorem serveAll_refines (asks : List Ask) : ∀ {db : RulesDb}, db.WellFormed →
    (serveAll asks db).2.WellFormed ∧
      db.catalog.ServedAll asks (serveAll asks db).1 (serveAll asks db).2.catalog := by
  induction asks with
  | nil => exact fun wellFormed => ⟨wellFormed, .nil⟩
  | cons ask asks ih =>
    intro db wellFormed
    obtain ⟨wellFormed', first⟩ := serve_refines wellFormed ask
    obtain ⟨wellFormed'', rest⟩ := ih wellFormed'
    exact ⟨wellFormed'', .cons first rest⟩

/-- **The database is its catalog**, for whoever asks it: it answers every sequence of requests as
the catalog does, and in no other way could the catalog answer. -/
theorem database_refines (asks : List Ask) :
    Catalog.empty.ServedAll asks (serveAll asks .empty).1 (serveAll asks .empty).2.catalog ∧
      ∀ outs c, Catalog.empty.ServedAll asks outs c →
        outs = (serveAll asks .empty).1 ∧ c = (serveAll asks .empty).2.catalog := by
  have served := (serveAll_refines asks wellFormed_empty).2
  exact ⟨served, fun outs c other => other.unique served⟩

/-! ### Walks -/

/-- **A walk gives the rules of the catalog**, each once, and those of a group in the order of their
names. It ends by itself behind the last one. -/
theorem traverse_ascends (asks : List Ask) (more : Nat) :
    let db := (serveAll asks .empty).2
    let walk := (traverse (db.size + more) db.getFirst).map db.memory
    (∀ rule, rule ∈ walk ↔ db.catalog rule.ruleId = some rule) ∧
      walk.Pairwise fun x y => x.ruleId ≠ y.ruleId ∧
        (x.ruleId.groupName = y.ruleId.groupName →
          strcmp x.ruleId.ruleName y.ruleId.ruleName < 0) := by
  intro db walk
  have wellFormed : db.WellFormed := (serveAll_refines asks wellFormed_empty).1
  have all : walk = db.refs.map db.memory :=
    congrArg (List.map db.memory) (traverse_eq wellFormed (Nat.le_add_right _ more))
  rw [all]
  refine ⟨fun rule => ?_, ?_⟩
  · rw [wellFormed.catalog_eq_some, List.mem_map]
    simp only [wellFormed.mem_refs, and_true]
  · rw [List.pairwise_map, refs, List.pairwise_flatMap]
    refine ⟨fun group member => ?_, ?_⟩
    · refine (wellFormed.grouped.sorted group member).imp fun less => ?_
      exact ⟨fun same => less.ne (congrArg RuleId.ruleName same), fun _ => strcmp_neg.mpr less⟩
    · have apart := List.pairwise_map.mp wellFormed.grouped.names
      refine apart.imp_of_mem fun member member' differ r inside r' inside' => ?_
      have named := wellFormed.grouped.named _ member r inside
      have named' := wellFormed.grouped.named _ member' r' inside'
      have other : (db.memory r).ruleId.groupName ≠ (db.memory r').ruleId.groupName := by
        rw [named, named']
        exact differ
      exact ⟨fun same => other (congrArg RuleId.groupName same), fun same => absurd same other⟩

end RulesDb

end CyberPlatform.Pcd
