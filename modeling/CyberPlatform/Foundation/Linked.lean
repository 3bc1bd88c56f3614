/-
**Doubly linked chains in a flat memory.**

A memory of link cells is a pair of functions `next prev : α → Option α`; `none` is the null
pointer. `Chain next prev before s after` says that the cells of `s` are linked both ways in the
order of `s`, that the first one points back to `before` and the last one on to `after`. A
null-terminated list is `Chain next prev none s none`.

* `chain_append` — a chain over `s ++ t` is a chain over `s` and one over `t`, with the two ends of
  the seam pointing at each other. Every edit below is made at a seam.
* `Chain.relink` — a chain survives any change of memory that leaves its inner links alone; its two
  outer links become whatever the new memory says.
* `Chain.insert`, `Chain.erase` — linking a cell in and out, as conditions on the new memory
  alone, so that they apply to any order in which a program writes the four links.
* `Chain.follows_next`, `Chain.follows_prev` — what a program sees that walks the chain.
* `Leads.within`, `Follows.leads_iff` — what a walk can come to, whether it ends or not.
* `leads_linked`, `leads_unchanged` — what it can come to once a cell has been linked in.
-/

import Mathlib.Data.List.Nodup
import Mathlib.Data.List.Induction
import Mathlib.Data.List.Chain

namespace Foundation.Linked

variable {α : Type*}

/-! ### Walking a memory -/

/-- Following `step` from the pointer `start` visits exactly `s` and ends in the null pointer. -/
inductive Follows (step : α → Option α) : Option α → List α → Prop
  | null : Follows step none []
  | cell {a : α} {s : List α} : Follows step (step a) s → Follows step (some a) (a :: s)

/-- A walk reads `step` only at the cells it visits. -/
theorem Follows.congr {step step' : α → Option α} {start : Option α} {s : List α}
    (walk : Follows step start s) (agree : ∀ x ∈ s, step' x = step x) :
    Follows step' start s := by
  induction walk with
  | null => exact .null
  | @cell a s _ ih =>
    refine .cell ?_
    rw [agree a List.mem_cons_self]
    exact ih fun x inside => agree x (List.mem_cons_of_mem _ inside)

/-- Following `step` from a pointer comes to the cell `a`. -/
inductive Leads (step : α → Option α) (a : α) : Option α → Prop
  | here : Leads step a (some a)
  | further {b : α} : Leads step a (step b) → Leads step a (some b)

theorem not_leads_null {step : α → Option α} {a : α} : ¬ Leads step a none := by
  intro leads
  cases leads

/-- A pointer leads to the cell that it points to. -/
theorem leads_of_eq {step : α → Option α} {start : Option α} {a : α} (points : start = some a) :
    Leads step a start := points ▸ .here

/-- **What a walk comes to** is in every collection that has its first cell and is closed under
`step`. -/
theorem Leads.within {step : α → Option α} {P : α → Prop} {start : Option α} {a : α}
    (leads : Leads step a start) (first : ∀ b, start = some b → P b)
    (closed : ∀ b, P b → ∀ c, step b = some c → P c) : P a := by
  induction leads with
  | here => exact first a rfl
  | @further b _ ih => exact ih fun c link => closed b (first b rfl) c link

/-- A walk goes on from whatever it comes to. -/
theorem Leads.next {step : α → Option α} {start : Option α} {a b : α} (leads : Leads step a start)
    (link : step a = some b) : Leads step b start := by
  induction leads with
  | here => exact .further (link ▸ .here)
  | further _ ih => exact .further ih

/-- More links lead to more cells. -/
theorem Leads.mono {step step' : α → Option α} {start : Option α} {a : α}
    (more : ∀ b c, step b = some c → step' b = some c) (leads : Leads step a start) :
    Leads step' a start := by
  refine leads.within (P := fun a => Leads step' a start) (fun b first => ?_)
    fun b reached c link => reached.next (more b c link)
  rw [first]
  exact .here

section Growth

variable {step step' : α → Option α} {start start' : Option α} {x : α}

/-- **A cell is linked in**: the walk comes to it at most, besides what it came to before. It may be
the new first cell, and other cells may lead to it; from it, the walk ends or goes on as before. -/
theorem leads_linked (first : start' = start ∨ start' = some x)
    (new : step' x = none ∨ step' x = start)
    (others : ∀ b, b ≠ x → step' b = step b ∨ step' b = some x) {a : α}
    (leads : Leads step' a start') : a = x ∨ Leads step a start := by
  refine leads.within (P := fun a => a = x ∨ Leads step a start) (fun b is_first => ?_)
    fun b reached c link => ?_
  · rcases first with old | new
    · exact .inr (leads_of_eq (old ▸ is_first))
    · exact .inl (Option.some.inj (is_first.symm.trans new))
  · by_cases same : b = x
    · rw [same] at link
      rcases new with ends | begins
      · cases ends.symm.trans link
      · exact .inr (leads_of_eq (begins ▸ link))
    · rcases others b same with kept | moved
      · exact .inr ((reached.resolve_left same).next (kept ▸ link))
      · exact .inl (Option.some.inj (link.symm.trans moved))

/-- **A cell is linked in behind the back of the walk**: it comes to what it came to before. -/
theorem leads_unchanged (fresh : ¬ Leads step x start) (first : start' = start)
    (others : ∀ b, b ≠ x → step' b = step b) {a : α} (leads : Leads step' a start') :
    Leads step a start := by
  refine leads.within (P := fun a => Leads step a start) (fun b is_first => ?_)
    fun b reached c link => ?_
  · rw [← first, is_first]
    exact .here
  · have other : b ≠ x := fun same => fresh (same ▸ reached)
    exact reached.next (others b other ▸ link)

end Growth

/-- A walk that ends comes to the cells that it visits. -/
theorem Follows.leads_iff {step : α → Option α} {start : Option α} {s : List α}
    (walk : Follows step start s) {a : α} : Leads step a start ↔ a ∈ s := by
  induction walk with
  | null => exact iff_of_false not_leads_null List.not_mem_nil
  | @cell b s _ ih =>
    rw [List.mem_cons, ← ih]
    constructor
    · intro leads
      cases leads with
      | here => exact .inl rfl
      | further leads => exact .inr leads
    · rintro (rfl | leads)
      · exact .here
      · exact .further leads

/-! ### Chains -/

/-- The cells of `s` are linked both ways in this order, between `before` and `after`. -/
def Chain (next prev : α → Option α) : Option α → List α → Option α → Prop
  | _, [], _ => True
  | before, a :: s, after =>
    prev a = before ∧ next a = s.head?.or after ∧ Chain next prev (some a) s after

section Chain

variable {next prev next' prev' : α → Option α} {before after : Option α} {s t : List α}

@[simp] theorem chain_nil : Chain next prev before [] after := trivial

theorem chain_cons {a : α} :
    Chain next prev before (a :: s) after ↔
      prev a = before ∧ next a = s.head?.or after ∧ Chain next prev (some a) s after :=
  Iff.rfl

/-- **The seam of two chains.** -/
theorem chain_append :
    Chain next prev before (s ++ t) after ↔
      Chain next prev before s (t.head?.or after) ∧
        Chain next prev (s.getLast?.or before) t after := by
  induction s generalizing before with
  | nil => simp
  | cons a s ih =>
    rw [List.cons_append, chain_cons, chain_cons, ih]
    have seam : (s ++ t).head?.or after = s.head?.or (t.head?.or after) := by
      rw [List.head?_append, Option.or_assoc]
    have last : (a :: s).getLast?.or before = s.getLast?.or (some a) := by
      cases s <;> simp [List.getLast?_cons]
    rw [seam, last]
    tauto

/-- A cell of a chain: what it points to is what stands beside it. -/
theorem Chain.at {a : α} (chain : Chain next prev before (s ++ a :: t) after) :
    prev a = s.getLast?.or before ∧ next a = t.head?.or after := by
  rw [chain_append, chain_cons] at chain
  exact ⟨chain.2.1, chain.2.2.1⟩

/-- **A chain survives a change of memory outside its inner links.** The first cell may be given
another predecessor and the last one another successor. -/
theorem Chain.relink {before' after' : Option α} (chain : Chain next prev before s after)
    (nodup : s.Nodup)
    (nextInner : ∀ x ∈ s, s.getLast? ≠ some x → next' x = next x)
    (prevInner : ∀ x ∈ s, s.head? ≠ some x → prev' x = prev x)
    (nextLast : ∀ x, s.getLast? = some x → next' x = after')
    (prevHead : ∀ x, s.head? = some x → prev' x = before') :
    Chain next' prev' before' s after' := by
  induction s generalizing before before' with
  | nil => trivial
  | cons a s ih =>
    obtain ⟨_, link, rest⟩ := chain
    obtain ⟨fresh, nodup⟩ := List.nodup_cons.mp nodup
    refine ⟨prevHead a rfl, ?_, ih rest nodup ?_ ?_ ?_ ?_⟩
    · cases s with
      | nil => simpa using nextLast a rfl
      | cons b s =>
        have inner : (a :: b :: s).getLast? ≠ some a := by
          rw [List.getLast?_cons_cons]
          exact fun last => fresh (List.mem_of_getLast? last)
        rw [nextInner a List.mem_cons_self inner, link]
        simp
    · intro x inside inner
      refine nextInner x (List.mem_cons_of_mem _ inside) ?_
      cases s with
      | nil => cases inside
      | cons b s => rwa [List.getLast?_cons_cons]
    · intro x inside _
      refine prevInner x (List.mem_cons_of_mem _ inside) ?_
      intro first
      simp only [List.head?_cons, Option.some.injEq] at first
      exact fresh (first ▸ inside)
    · intro x last
      refine nextLast x ?_
      cases s with
      | nil => cases last
      | cons b s => rwa [List.getLast?_cons_cons]
    · intro x first
      have inside : x ∈ s := List.mem_of_mem_head? first
      have kept : prev' x = prev x := by
        refine prevInner x (List.mem_cons_of_mem _ inside) fun same => ?_
        simp only [List.head?_cons, Option.some.injEq] at same
        exact fresh (same ▸ inside)
      rw [kept]
      cases s with
      | nil => cases first
      | cons b s =>
        cases first
        exact rest.1

/-- A chain reads only the links of its own cells. -/
theorem Chain.congr (chain : Chain next prev before s after)
    (agree : ∀ x ∈ s, next' x = next x ∧ prev' x = prev x) :
    Chain next' prev' before s after := by
  induction s generalizing before with
  | nil => trivial
  | cons a s ih =>
    obtain ⟨back, link, rest⟩ := chain
    have here := agree a List.mem_cons_self
    exact ⟨here.2.trans back, here.1.trans link,
      ih rest fun x inside => agree x (List.mem_cons_of_mem _ inside)⟩

/-- No cell of a duplicate-free chain is its own predecessor. -/
theorem Chain.prev_ne_self (chain : Chain next prev none s after) (nodup : s.Nodup) {x : α}
    (inside : x ∈ s) : prev x ≠ some x := by
  obtain ⟨front, back, rfl⟩ := List.append_of_mem inside
  rw [chain.at.1, Option.or_none]
  intro last
  have twice := List.mem_of_getLast? last
  rw [List.nodup_append] at nodup
  exact nodup.2.2 x twice x List.mem_cons_self rfl

/-! ### Linking a cell in and out -/

/-- **Linking a cell in.** The new cell points to its two neighbours, they point to it, and every
other link is as before. -/
theorem Chain.insert {a : α} (chain : Chain next prev before (s ++ t) after)
    (nodup : (s ++ t).Nodup) (fresh : a ∉ s ++ t)
    (prevNew : prev' a = s.getLast?.or before) (nextNew : next' a = t.head?.or after)
    (nextLeft : ∀ x, s.getLast? = some x → next' x = some a)
    (prevRight : ∀ x, t.head? = some x → prev' x = some a)
    (nextFrame : ∀ x, x ≠ a → s.getLast? ≠ some x → next' x = next x)
    (prevFrame : ∀ x, x ≠ a → t.head? ≠ some x → prev' x = prev x) :
    Chain next' prev' before (s ++ a :: t) after := by
  rw [chain_append] at chain
  rw [List.nodup_append] at nodup
  rw [List.mem_append, not_or] at fresh
  rw [chain_append, chain_cons]
  have other : ∀ x ∈ s, t.head? ≠ some x := fun x inside first =>
    nodup.2.2 x inside x (List.mem_of_mem_head? first) rfl
  have otherRight : ∀ x ∈ t, s.getLast? ≠ some x := fun x inside last =>
    nodup.2.2 x (List.mem_of_getLast? last) x inside rfl
  have neLeft : ∀ x ∈ s, x ≠ a := fun x inside same => fresh.1 (same ▸ inside)
  have neRight : ∀ x ∈ t, x ≠ a := fun x inside same => fresh.2 (same ▸ inside)
  refine ⟨?_, prevNew, nextNew, ?_⟩
  · refine chain.1.relink nodup.1 ?_ ?_ ?_ ?_
    · exact fun x inside inner => nextFrame x (neLeft x inside) inner
    · exact fun x inside _ => prevFrame x (neLeft x inside) (other x inside)
    · exact fun x last => by simpa using nextLeft x last
    · intro x first
      have inside := List.mem_of_mem_head? first
      rw [prevFrame x (neLeft x inside) (other x inside)]
      obtain ⟨rest, rfl⟩ := List.head?_eq_some_iff.mp first
      exact chain.1.1
  · refine chain.2.relink nodup.2.1 ?_ ?_ ?_ ?_
    · exact fun x inside _ => nextFrame x (neRight x inside) (otherRight x inside)
    · exact fun x inside inner => prevFrame x (neRight x inside) inner
    · intro x last
      have inside := List.mem_of_getLast? last
      rw [nextFrame x (neRight x inside) (otherRight x inside)]
      obtain ⟨rest, rfl⟩ := List.getLast?_eq_some_iff.mp last
      simpa using chain.2.at.2
    · exact prevRight

/-- **Linking a cell out.** Its two neighbours point to each other and every link of the other
cells is as before. -/
theorem Chain.erase {a : α} (chain : Chain next prev none (s ++ a :: t) none)
    (nodup : (s ++ a :: t).Nodup)
    (nextLeft : ∀ x, s.getLast? = some x → next' x = t.head?)
    (prevRight : ∀ x, t.head? = some x → prev' x = s.getLast?)
    (nextFrame : ∀ x, x ≠ a → s.getLast? ≠ some x → next' x = next x)
    (prevFrame : ∀ x, x ≠ a → t.head? ≠ some x → prev' x = prev x) :
    Chain next' prev' none (s ++ t) none := by
  rw [chain_append, chain_cons] at chain
  obtain ⟨left, _, _, right⟩ := chain
  rw [List.nodup_append, List.nodup_cons] at nodup
  obtain ⟨nodupLeft, ⟨freshRight, nodupRight⟩, apart⟩ := nodup
  have neLeft : ∀ x ∈ s, x ≠ a := fun x inside => apart x inside a List.mem_cons_self
  have neRight : ∀ x ∈ t, x ≠ a := fun x inside same => freshRight (same ▸ inside)
  have other : ∀ x ∈ s, t.head? ≠ some x := fun x inside first =>
    apart x inside x (List.mem_cons_of_mem _ (List.mem_of_mem_head? first)) rfl
  have otherRight : ∀ x ∈ t, s.getLast? ≠ some x := fun x inside last =>
    apart x (List.mem_of_getLast? last) x (List.mem_cons_of_mem _ inside) rfl
  rw [chain_append]
  constructor
  · refine left.relink nodupLeft ?_ ?_ ?_ ?_
    · exact fun x inside inner => nextFrame x (neLeft x inside) inner
    · exact fun x inside _ => prevFrame x (neLeft x inside) (other x inside)
    · exact fun x last => by simpa using nextLeft x last
    · intro x first
      have inside := List.mem_of_mem_head? first
      rw [prevFrame x (neLeft x inside) (other x inside)]
      obtain ⟨rest, rfl⟩ := List.head?_eq_some_iff.mp first
      exact left.1
  · refine right.relink nodupRight ?_ ?_ ?_ ?_
    · exact fun x inside _ => nextFrame x (neRight x inside) (otherRight x inside)
    · exact fun x inside inner => prevFrame x (neRight x inside) inner
    · intro x last
      have inside := List.mem_of_getLast? last
      rw [nextFrame x (neRight x inside) (otherRight x inside)]
      obtain ⟨rest, rfl⟩ := List.getLast?_eq_some_iff.mp last
      simpa using right.at.2
    · exact fun x first => by simpa using prevRight x first

/-! ### What a walk over a chain sees -/

/-- **Forward**: following `next` from the first cell visits the chain. -/
theorem Chain.follows_next (chain : Chain next prev before s none) :
    Follows next s.head? s := by
  induction s generalizing before with
  | nil => exact .null
  | cons a s ih =>
    obtain ⟨_, link, rest⟩ := chain
    rw [Option.or_none] at link
    rw [List.head?_cons]
    refine .cell ?_
    rw [link]
    exact ih rest

/-- **Backward**: following `prev` from the last cell visits the chain in reverse. -/
theorem Chain.follows_prev (chain : Chain next prev none s after) :
    Follows prev s.getLast? s.reverse := by
  induction s using List.reverseRecOn generalizing after with
  | nil => exact .null
  | append_singleton s a ih =>
    rw [chain_append, chain_cons, Option.or_none] at chain
    rw [List.getLast?_concat, List.reverse_concat]
    refine .cell ?_
    rw [chain.2.1]
    exact ih chain.1

/-- **The backward links** of a chain lead through it in reverse. -/
theorem Chain.backward (chain : Chain next prev before s after) :
    s.reverse.IsChain fun y x => prev y = some x := by
  rw [List.isChain_reverse]
  induction s generalizing before with
  | nil => exact .nil
  | cons a s ih =>
    obtain ⟨_, _, rest⟩ := chain
    cases s with
    | nil => exact .singleton a
    | cons b s => exact .cons_cons rest.1 (ih rest)

end Chain

end Foundation.Linked
