/-
**Loops whose body may leave the function.**

`loop body is st` is `for (…) { if ((ret = body(i)) != 0) return ret; }` followed by `return 0`: the
body runs on one index after the other as long as it returns 0, and its first other value ends the
loop.

* `loop_rule` — the rule for an invariant that depends on the indices that are done.
* `loop_sets` — a loop whose body sets something for each index.
* `loop_decode` — a loop that turns each index into a value, and adds the value to its state, adds
  the values in their order, if there are values for all indices.
* `loop_then`, `loop_flatMap` — loops behind each other, and loops of loops.
* `loop_guarded` — when a loop goes through, when it is left, and when it goes wrong, for a body
  whose behaviour depends on the indices that are done.
* `loop_reaches` — how far a loop gets.
-/

import CyberPlatform.Foundation.Trap
import Mathlib.Data.List.Basic

namespace Foundation

variable {ι κ σ : Type}

/-- The loop over a list of indices. -/
def loop (body : ι → σ → Except Trap (Int × σ)) : List ι → σ → Except Trap (Int × σ)
  | [], st => .ok (0, st)
  | i :: is, st => do
    let (ret, st) ← body i st
    if ret ≠ 0 then return (ret, st) else loop body is st

variable {body : ι → σ → Except Trap (Int × σ)}

theorem loop_cons (i : ι) (is : List ι) (st : σ) :
    loop body (i :: is) st =
      body i st >>= fun out => if out.1 ≠ 0 then .ok out else loop body is out.2 := rfl

/-- A body that returns 0 is followed by the rest. -/
theorem loop_cons_zero {i : ι} {st st' : σ} (first : body i st = .ok (0, st')) (is : List ι) :
    loop body (i :: is) st = loop body is st' := by
  rw [loop, first]
  rfl

/-- A body that returns another value ends the loop. -/
theorem loop_cons_leaves {i : ι} {st st' : σ} {ret : Int} (first : body i st = .ok (ret, st'))
    (leaves : ret ≠ 0) (is : List ι) : loop body (i :: is) st = .ok (ret, st') := by
  rw [loop, first]
  exact if_pos leaves

/-- A body that goes wrong takes the loop along. -/
theorem loop_cons_error {i : ι} {st : σ} {trap : Trap} (first : body i st = .error trap)
    (is : List ι) : loop body (i :: is) st = .error trap := by
  rw [loop, first]
  rfl

/-- A loop that returns, from its first round: it goes on, or is left with the value of the
round. -/
theorem loop_cons_ok {i : ι} {is : List ι} {st st' : σ} {ret : Int}
    (ran : loop body (i :: is) st = .ok (ret, st')) :
    (∃ middle, body i st = .ok (0, middle) ∧ loop body is middle = .ok (ret, st')) ∨
      ret ≠ 0 ∧ body i st = .ok (ret, st') := by
  obtain ⟨⟨code, middle⟩, first, _⟩ := bind_eq_ok.mp ran
  by_cases zero : code = 0
  · subst zero
    rw [loop_cons_zero first] at ran
    exact .inl ⟨middle, first, ran⟩
  · rw [loop_cons_leaves first zero] at ran
    cases ran
    exact .inr ⟨zero, first⟩

/-- A loop over images. -/
theorem loop_map (f : κ → ι) (ks : List κ) (st : σ) :
    loop body (ks.map f) st = loop (fun k => body (f k)) ks st := by
  induction ks generalizing st with
  | nil => rfl
  | cons k ks ih =>
    rw [List.map_cons, loop_cons, loop_cons]
    apply congrArg
    funext out
    rw [ih]

/-- A loop depends on what its body does with the indices of the loop. -/
theorem loop_congr {body' : ι → σ → Except Trap (Int × σ)} {is : List ι}
    (same : ∀ i ∈ is, ∀ st, body i st = body' i st) (st : σ) :
    loop body is st = loop body' is st := by
  induction is generalizing st with
  | nil => rfl
  | cons i is ih =>
    rw [List.forall_mem_cons] at same
    rw [loop_cons, loop_cons, same.1]
    apply congrArg
    funext out
    rw [ih same.2]

/-- The indices of a list are those of its elements. -/
theorem range_eq_zipIdx (xs : List κ) : List.range xs.length = xs.zipIdx.map Prod.snd := by
  rw [List.zipIdx_map_snd, List.range_eq_range']

/-- **A loop over the indices of a list** is one over its elements. -/
theorem loop_range {body : Nat → σ → Except Trap (Int × σ)} {body' : κ → σ → Except Trap (Int × σ)}
    {xs : List κ} (same : ∀ i x, xs[i]? = some x → ∀ st, body i st = body' x st) (st : σ) :
    loop body (List.range xs.length) st = loop body' xs st := by
  have images : loop (fun p : κ × Nat => body p.2) xs.zipIdx st =
      loop (fun p : κ × Nat => body' p.1) xs.zipIdx st := by
    apply loop_congr
    intro p member st
    exact same p.2 p.1 (List.mem_zipIdx_iff_getElem?.mp member) st
  rw [range_eq_zipIdx, loop_map, images, ← loop_map, List.zipIdx_map_fst]

/-- **One loop behind the other.** -/
theorem loop_append (xs ys : List ι) (st : σ) :
    loop body (xs ++ ys) st =
      loop body xs st >>= fun out => if out.1 ≠ 0 then .ok out else loop body ys out.2 := by
  induction xs generalizing st with
  | nil => rfl
  | cons x xs ih =>
    rw [List.cons_append, loop_cons, loop_cons]
    cases body x st with
    | error trap => rfl
    | ok out =>
      rw [ok_bind, ok_bind]
      by_cases leaves : out.1 ≠ 0
      · rw [if_pos leaves, if_pos leaves, ok_bind, if_pos leaves]
      · rw [if_neg leaves, if_neg leaves, ih]

/-- **A loop of loops** is one loop. -/
theorem loop_flatMap (f : κ → List ι) (ks : List κ) (st : σ) :
    loop body (ks.flatMap f) st = loop (fun k => loop body (f k)) ks st := by
  induction ks generalizing st with
  | nil => rfl
  | cons k ks ih =>
    rw [List.flatMap_cons, loop_append, loop_cons]
    apply congrArg
    funext out
    rw [ih]

/-- A body that returns 0 or -1 only. -/
def Codes (body : ι → σ → Except Trap (Int × σ)) : Prop :=
  ∀ i st ret st', body i st = .ok (ret, st') → ret = 0 ∨ ret = -1

/-- A loop over such a body returns 0 or -1 only. -/
theorem loop_codes (codes : Codes body) : Codes (loop body) := by
  intro is
  induction is with
  | nil =>
    intro st ret st' ran
    cases ran
    exact .inl rfl
  | cons i is ih =>
    intro st ret st' ran
    rcases loop_cons_ok ran with ⟨middle, _, rest⟩ | ⟨_, first⟩
    · exact ih middle ret st' rest
    · exact codes i st ret st' first

/-- **A call that loops** and is left with -1 where it fails, before the rest of a loop. -/
theorem loop_then (codes : Codes body) (xs ys : List ι) (st : σ) :
    (loop body xs st >>= fun out => if out.1 ≠ 0 then .ok (-1, out.2) else loop body ys out.2) =
      loop body (xs ++ ys) st := by
  rw [loop_append]
  cases ran : loop body xs st with
  | error trap => rfl
  | ok out =>
    rw [ok_bind, ok_bind]
    rcases loop_codes codes xs st out.1 out.2 ran with zero | refused
    · rw [if_neg (not_not.mpr zero), if_neg (not_not.mpr zero)]
    · have leaves : out.1 ≠ 0 := refused ▸ by decide
      rw [if_pos leaves, if_pos leaves, ← refused]

/-- The rule for a loop, from anywhere. -/
theorem loop_rule_from {P : List ι → σ → Prop} {all : List ι}
    (one : ∀ done i rest st ret st', all = done ++ i :: rest → P done st →
      body i st = .ok (ret, st') → ret = 0 ∧ P (done ++ [i]) st' ∨ ret = -1) :
    ∀ (is done : List ι) {st st' : σ} {ret : Int}, all = done ++ is → P done st →
      loop body is st = .ok (ret, st') → ret = 0 ∧ P all st' ∨ ret = -1 := by
  intro is
  induction is with
  | nil =>
    intro done st st' ret split holds ran
    cases ran
    rw [List.append_nil] at split
    exact .inl ⟨rfl, split ▸ holds⟩
  | cons i is ih =>
    intro done st st' ret split holds ran
    obtain ⟨⟨code, middle⟩, first, _⟩ := bind_eq_ok.mp ran
    rcases one done i is st code middle split holds first with ⟨rfl, after⟩ | rfl
    · rw [loop_cons_zero first] at ran
      exact ih (done ++ [i]) (by rw [split, List.append_assoc]; rfl) after ran
    · rw [loop_cons_leaves first (by decide)] at ran
      cases ran
      exact .inr rfl

/-- **The rule for a loop that returns**, and returns -1 where it refuses. `P done st` holds between
two rounds. -/
theorem loop_rule {P : List ι → σ → Prop} {is : List ι}
    (one : ∀ done i rest st ret st', is = done ++ i :: rest → P done st →
      body i st = .ok (ret, st') → ret = 0 ∧ P (done ++ [i]) st' ∨ ret = -1)
    {st st' : σ} {ret : Int} (start : P [] st) (ran : loop body is st = .ok (ret, st')) :
    ret = 0 ∧ P is st' ∨ ret = -1 :=
  loop_rule_from one is [] rfl start ran

/-- What every round that returns keeps, a loop that returns keeps. -/
theorem loop_keeps {P : σ → Prop}
    (keeps : ∀ i st ret st', body i st = .ok (ret, st') → P st → P st') :
    ∀ (is : List ι) {st st' : σ} {ret : Int}, loop body is st = .ok (ret, st') → P st → P st' := by
  intro is
  induction is with
  | nil =>
    intro st st' ret ran holds
    cases ran
    exact holds
  | cons i is ih =>
    intro st st' ret ran holds
    rcases loop_cons_ok ran with ⟨middle, first, rest⟩ | ⟨_, first⟩
    · exact ih rest (keeps i st 0 middle first holds)
    · exact keeps i st ret st' first holds

/-- **A loop that sets** something for each index: what it leaves behind when it goes through. -/
theorem loop_sets {fine : ι → Prop} {set : ι → σ → σ}
    (one : ∀ i st ret st', body i st = .ok (ret, st') →
      ret = 0 ∧ fine i ∧ st' = set i st ∨ ret = -1)
    {is : List ι} {st st' : σ} {ret : Int} (ran : loop body is st = .ok (ret, st')) :
    ret = 0 ∧ (∀ i ∈ is, fine i) ∧ st' = is.foldl (fun st i => set i st) st ∨ ret = -1 := by
  have step : ∀ done i rest v code v', is = done ++ i :: rest →
      ((∀ j ∈ done, fine j) ∧ v = done.foldl (fun st i => set i st) st) →
      body i v = .ok (code, v') →
      code = 0 ∧ ((∀ j ∈ done ++ [i], fine j) ∧
        v' = (done ++ [i]).foldl (fun st i => set i st) st) ∨ code = -1 := by
    rintro done i rest v code v' _ ⟨before, rfl⟩ first
    rcases one i _ code v' first with ⟨zero, here, rfl⟩ | refused
    · rw [List.forall_mem_append, List.forall_mem_singleton, List.foldl_append]
      exact .inl ⟨zero, ⟨before, here⟩, rfl⟩
    · exact .inr refused
  exact loop_rule step ⟨fun _ none => absurd none List.not_mem_nil, rfl⟩ ran

/-- **A loop that decodes** its indices and adds the values to its state, whatever that is. It goes
wrong if one of the indices has no value. -/
theorem loop_decode {p : ι → Prop} [DecidablePred p] {f : ι → κ} {add : σ → κ → σ} {trap : Trap}
    (one : ∀ i st, body i st = if p i then .ok (0, add st (f i)) else .error trap) :
    ∀ (is : List ι) (st : σ), loop body is st =
      if ∀ i ∈ is, p i then .ok (0, (is.map f).foldl add st) else .error trap := by
  intro is
  induction is with
  | nil => exact fun st => (if_pos fun _ member => absurd member List.not_mem_nil).symm
  | cons i is ih =>
    intro st
    by_cases value : p i
    · rw [loop_cons_zero ((one i st).trans (if_pos value)), ih]
      simp only [List.forall_mem_cons, value, true_and, List.map_cons, List.foldl_cons]
    · rw [loop_cons_error ((one i st).trans (if_neg value)),
        if_neg fun all => value (all i List.mem_cons_self)]

/-! ### Checks -/

/-- **A check** `if (p) return -1;` before the rest of a function that returns. -/
theorem check_eq_ok {p : Prop} [Decidable p] {old st : σ} {rest : Except Trap (Int × σ)} {ret : Int}
    (ran : (if p then .ok (-1, old) else rest) = .ok (ret, st)) :
    ret = -1 ∨ ¬ p ∧ rest = .ok (ret, st) := by
  by_cases refused : p
  · rw [if_pos refused] at ran
    cases ran
    exact .inl rfl
  · rw [if_neg refused] at ran
    exact .inr ⟨refused, ran⟩

/-- A check in front of a function that sets something. -/
theorem check_set {p : Prop} [Decidable p] {old new st : σ} {ret : Int}
    (ran : (if p then .ok (-1, old) else .ok (0, new)) = (.ok (ret, st) : Except Trap (Int × σ))) :
    ret = 0 ∧ st = new ∨ ret = -1 := by
  rcases check_eq_ok ran with refused | ⟨_, set⟩
  · exact .inr refused
  · cases set
    exact .inl ⟨rfl, rfl⟩

/-- An index of a range is the number of those before it. -/
theorem range_split {n i : Nat} {done rest : List Nat} (split : List.range n = done ++ i :: rest) :
    i = done.length ∧ done.length < n := by
  have inside : done.length < (List.range n).length := by
    rw [split, List.length_append, List.length_cons]
    omega
  have here : (List.range n)[done.length] = i := by
    simp only [split, List.getElem_append_right le_rfl, Nat.sub_self, List.getElem_cons_zero]
  rw [List.getElem_range] at here
  rw [List.length_range] at inside
  exact ⟨here.symm, inside⟩

/-- **A call** `if ((err = call()) != 0) return -1;` before the rest of a function that returns. -/
theorem call_eq_ok {τ : Type} {call : Except Trap (Int × τ)}
    {f rest : Int × τ → Except Trap (Int × σ)} {old : Int × τ → σ} {st : σ} {ret : Int}
    (ran : (call >>= f) = .ok (ret, st))
    (shape : ∀ out, f out = if out.1 ≠ 0 then .ok (-1, old out) else rest out) :
    ret = -1 ∨ ∃ x, call = .ok (0, x) ∧ rest (0, x) = .ok (ret, st) := by
  obtain ⟨⟨err, x⟩, called, ran⟩ := bind_eq_ok.mp ran
  rw [shape] at ran
  rcases check_eq_ok ran with refused | ⟨zero, ran⟩
  · exact .inl refused
  · obtain rfl : err = 0 := not_not.mp zero
    exact .inr ⟨x, called, ran⟩

/-! ### What a loop reaches -/

section Reach

variable (goes safe : List ι → ι → Prop)

/-- Every index lets the loop go on, behind those that are done. -/
def Passes : List ι → List ι → Prop
  | _, [] => True
  | done, i :: is => goes done i ∧ Passes (done ++ [i]) is

/-- Every index that the loop reaches is safe. -/
def Guarded : List ι → List ι → Prop
  | _, [] => True
  | done, i :: is => safe done i ∧ (goes done i → Guarded (done ++ [i]) is)

variable {goes safe}

/-- A loop whose indices are all safe reaches safe ones only. -/
theorem guarded_of_forall {all : List ι}
    (each : ∀ done i rest, all = done ++ i :: rest → safe done i) :
    ∀ is done : List ι, all = done ++ is → Guarded goes safe done is := by
  intro is
  induction is with
  | nil => exact fun _ _ => trivial
  | cons i is ih =>
    intro done split
    exact ⟨each done i is split, fun _ => ih (done ++ [i]) (by rw [split, List.append_assoc]; rfl)⟩

/-- A loop passes when each index lets it go on. -/
theorem passes_iff {each : ι → Prop} :
    ∀ is done : List ι, Passes (fun _ => each) done is ↔ ∀ i ∈ is, each i := by
  intro is
  induction is with
  | nil => exact fun _ => ⟨fun _ _ member => absurd member List.not_mem_nil, fun _ => trivial⟩
  | cons i is ih =>
    intro done
    rw [Passes, ih, List.forall_mem_cons]

/-- A loop is guarded when each index that it may come to is safe. -/
theorem guarded_iff {each : ι → Prop} : ∀ is done : List ι,
    Guarded (fun _ => each) safe done is ↔
      ∀ front i back, is = front ++ i :: back → (∀ j ∈ front, each j) → safe (done ++ front) i := by
  intro is
  induction is with
  | nil => exact fun _ => ⟨fun _ front i back split => absurd split (by simp), fun _ => trivial⟩
  | cons first is ih =>
    intro done
    rw [Guarded, ih]
    constructor
    · rintro ⟨fine, rest⟩ front i back split goes
      cases front with
      | nil =>
        cases split
        rwa [List.append_nil]
      | cons head front =>
        cases split
        rw [List.forall_mem_cons] at goes
        rw [List.append_cons]
        exact rest goes.1 front i back rfl goes.2
    · intro all
      refine ⟨?_, fun on front i back split goes => ?_⟩
      · have here := all [] first is rfl fun _ member => absurd member List.not_mem_nil
        rwa [List.append_nil] at here
      · have here := all (first :: front) i back (congrArg (first :: ·) split)
          (List.forall_mem_cons.mpr ⟨on, goes⟩)
        rwa [List.append_cons] at here

/-- Whether a loop over images is guarded depends on the images. -/
theorem guarded_map {f : κ → ι} {g s : ι → Prop} : ∀ (ks : List κ) (done : List ι) (done' : List κ),
    Guarded (fun _ => g) (fun _ => s) done (ks.map f) ↔
      Guarded (fun _ k => g (f k)) (fun _ k => s (f k)) done' ks := by
  intro ks
  induction ks with
  | nil => exact fun _ _ => Iff.rfl
  | cons k ks ih =>
    intro done done'
    rw [List.map_cons, Guarded, Guarded, ih (done ++ [f k]) (done' ++ [k])]

variable (goes safe) {R : List ι → σ → Prop} {Q : Int → σ → Prop} {T : Trap → Prop}

/-- **The three ways of a loop**, from those of its body: it goes through, it is left, or it goes
wrong, and the last one exactly when it reaches an index that is not safe. -/
theorem loop_guarded (body : ι → σ → Except Trap (Int × σ)) {all : List ι}
    (one : ∀ done i rest st, all = done ++ i :: rest → R done st →
      (safe done i ∧ goes done i ∧ ∃ st', body i st = .ok (0, st') ∧ R (done ++ [i]) st') ∨
      (safe done i ∧ ¬ goes done i ∧
        ∃ ret st', body i st = .ok (ret, st') ∧ ret ≠ 0 ∧ Q ret st') ∨
      ¬ safe done i ∧ ∃ trap, body i st = .error trap ∧ T trap) :
    ∀ (is done : List ι) {st : σ}, all = done ++ is → R done st →
      (Guarded goes safe done is ∧ Passes goes done is ∧
        ∃ st', loop body is st = .ok (0, st') ∧ R all st') ∨
      (Guarded goes safe done is ∧ ¬ Passes goes done is ∧
        ∃ ret st', loop body is st = .ok (ret, st') ∧ ret ≠ 0 ∧ Q ret st') ∨
      ¬ Guarded goes safe done is ∧ ∃ trap, loop body is st = .error trap ∧ T trap := by
  intro is
  induction is with
  | nil =>
    intro done st split related
    rw [List.append_nil] at split
    exact .inl ⟨trivial, trivial, st, rfl, split ▸ related⟩
  | cons i is ih =>
    intro done st split related
    rcases one done i is st split related with ⟨fine, on, st', first, related'⟩ |
      ⟨fine, off, ret, st', first, leaves, left⟩ | ⟨danger, trap, first, wrong⟩
    · rw [loop_cons_zero first]
      have split' : all = done ++ [i] ++ is := by rw [split, List.append_assoc]; rfl
      rcases ih (done ++ [i]) split' related' with
        ⟨guarded, passes, rest⟩ | ⟨guarded, stops, rest⟩ | ⟨reaches, rest⟩
      · exact .inl ⟨⟨fine, fun _ => guarded⟩, ⟨on, passes⟩, rest⟩
      · exact .inr (.inl ⟨⟨fine, fun _ => guarded⟩, fun all => stops all.2, rest⟩)
      · exact .inr (.inr ⟨fun all => reaches (all.2 on), rest⟩)
    · rw [loop_cons_leaves first leaves]
      exact .inr (.inl ⟨⟨fine, fun on => absurd on off⟩, fun all => off all.1, ret, st', rfl,
        leaves, left⟩)
    · rw [loop_cons_error first]
      exact .inr (.inr ⟨fun all => danger all.1, trap, rfl, wrong⟩)

/-- **How far a loop gets.** If all that it reaches is safe it goes through where it passes; and it
is left at the first index that is not. What it does where it does not go on is not asked for. -/
theorem loop_reaches (body : ι → σ → Except Trap (Int × σ)) {all : List ι}
    (one : ∀ done i rest st, all = done ++ i :: rest → R done st →
      (safe done i → goes done i → ∃ st', body i st = .ok (0, st') ∧ R (done ++ [i]) st') ∧
      (¬ safe done i → ∃ ret st', body i st = .ok (ret, st') ∧ ret ≠ 0 ∧ Q ret st')) :
    ∀ (is done : List ι) {st : σ}, all = done ++ is → R done st →
      (Guarded goes safe done is → Passes goes done is →
        ∃ st', loop body is st = .ok (0, st') ∧ R all st') ∧
      (¬ Guarded goes safe done is →
        ∃ ret st', loop body is st = .ok (ret, st') ∧ ret ≠ 0 ∧ Q ret st') := by
  intro is
  induction is with
  | nil =>
    intro done st split related
    rw [List.append_nil] at split
    exact ⟨fun _ _ => ⟨st, rfl, split ▸ related⟩, fun danger => absurd trivial danger⟩
  | cons i is ih =>
    intro done st split related
    obtain ⟨on, off⟩ := one done i is st split related
    have split' : all = done ++ [i] ++ is := by rw [split, List.append_assoc]; rfl
    refine ⟨fun guarded passes => ?_, fun danger => ?_⟩
    · obtain ⟨st', first, related'⟩ := on guarded.1 passes.1
      rw [loop_cons_zero first]
      exact (ih (done ++ [i]) split' related').1 (guarded.2 passes.1) passes.2
    · by_cases fine : safe done i
      · have further : goes done i ∧ ¬ Guarded goes safe (done ++ [i]) is := by
          by_contra stays
          exact danger ⟨fine, fun going => by_contra fun reached => stays ⟨going, reached⟩⟩
        obtain ⟨st', first, related'⟩ := on fine further.1
        rw [loop_cons_zero first]
        exact (ih (done ++ [i]) split' related').2 further.2
      · obtain ⟨ret, st', first, leaves, left⟩ := off fine
        rw [loop_cons_leaves first leaves]
        exact ⟨ret, st', rfl, leaves, left⟩

end Reach

end Foundation
