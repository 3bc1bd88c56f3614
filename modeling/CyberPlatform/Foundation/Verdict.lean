/-
**Functions that accept, refuse, or go wrong.**

`Verdict safe goes x` says of a call `x` that it returns 0 where `goes` holds and -1 where it does
not, and that it goes wrong exactly where `safe` does not hold.

* `Verdict.check`, `Verdict.call` — a check, and a call that is left with -1, before the rest of a
  function.
* `Verdict.loop` — a loop goes wrong exactly where it comes to an index that is not safe.
-/

import CyberPlatform.Foundation.Loop

namespace Foundation

section Verdict

variable {ι σ τ : Type} {safe goes safe' goes' : Prop}

/-- **The verdict of a call.** -/
inductive Verdict (safe goes : Prop) : Except Trap (Int × σ) → Prop
  | accepts (st : σ) : safe → goes → Verdict safe goes (.ok (0, st))
  | refuses (st : σ) : safe → ¬ goes → Verdict safe goes (.ok (-1, st))
  | wrong (trap : Trap) : ¬ safe → Verdict safe goes (.error trap)

theorem Verdict.congr {x : Except Trap (Int × σ)} (verdict : Verdict safe goes x)
    (sameSafe : safe ↔ safe') (sameGoes : safe → (goes ↔ goes')) : Verdict safe' goes' x := by
  cases verdict with
  | accepts st fine on => exact .accepts st (sameSafe.mp fine) ((sameGoes fine).mp on)
  | refuses st fine off => exact .refuses st (sameSafe.mp fine) (off ∘ (sameGoes fine).mpr)
  | wrong trap danger => exact .wrong trap (danger ∘ sameSafe.mpr)

/-- A call that returns. -/
theorem Verdict.of_ok {ret : Int} {st : σ} (verdict : Verdict safe goes (.ok (ret, st))) :
    safe ∧ (ret = 0 ∧ goes ∨ ret = -1 ∧ ¬ goes) := by
  cases verdict with
  | accepts _ fine on => exact ⟨fine, .inl ⟨rfl, on⟩⟩
  | refuses _ fine off => exact ⟨fine, .inr ⟨rfl, off⟩⟩

/-- A check in front of the rest. -/
theorem Verdict.check {p : Prop} [Decidable p] {old : σ} {rest : Except Trap (Int × σ)}
    (behind : ¬ p → Verdict safe goes rest) :
    Verdict (¬ p → safe) (¬ p ∧ goes) (if p then .ok (-1, old) else rest) := by
  by_cases refused : p
  · rw [if_pos refused]
    exact .refuses old (fun other => absurd refused other) fun both => both.1 refused
  · rw [if_neg refused]
    exact (behind refused).congr ⟨fun fine _ => fine, fun fine => fine refused⟩
      fun _ => ⟨fun on => ⟨refused, on⟩, And.right⟩

/-- A check in front of a rest that does not go wrong. -/
theorem Verdict.check_safe {p : Prop} [Decidable p] {old : σ} {rest : Except Trap (Int × σ)}
    (behind : ¬ p → Verdict True goes rest) :
    Verdict True (¬ p ∧ goes) (if p then .ok (-1, old) else rest) :=
  (Verdict.check behind).congr ⟨fun _ => trivial, fun _ _ => trivial⟩ fun _ => Iff.rfl

/-- A call in front of the rest. -/
theorem Verdict.call {call : Except Trap (Int × τ)} {f rest : Int × τ → Except Trap (Int × σ)}
    {old : Int × τ → σ} (first : Verdict safe goes call)
    (shape : ∀ out, f out = if out.1 ≠ 0 then .ok (-1, old out) else rest out)
    (behind : ∀ x, goes → Verdict safe' goes' (rest (0, x))) :
    Verdict (safe ∧ (goes → safe')) (goes ∧ goes') (call >>= f) := by
  cases first with
  | accepts x fine on =>
    rw [ok_bind, shape, if_neg (not_not.mpr rfl)]
    exact (behind x on).congr ⟨fun fine' => ⟨fine, fun _ => fine'⟩, fun both => both.2 on⟩
      fun _ => ⟨fun on' => ⟨on, on'⟩, And.right⟩
  | refuses x fine off =>
    rw [ok_bind, shape]
    exact .refuses (old (-1, x)) ⟨fine, fun on => absurd on off⟩ fun both => off both.1
  | wrong trap danger => exact .wrong trap fun both => danger both.1

/-- A call at the end of a function. -/
theorem Verdict.call_last {call : Except Trap (Int × τ)} (old new : Int × τ → σ)
    (first : Verdict safe goes call) :
    Verdict safe goes
      (call >>= fun out => if out.1 ≠ 0 then .ok (-1, old out) else .ok (0, new out)) := by
  cases first with
  | accepts x fine on => exact .accepts (new (0, x)) fine on
  | refuses x fine off => exact .refuses (old (-1, x)) fine off
  | wrong trap danger => exact .wrong trap danger

/-- A call whose state is looked at. -/
theorem Verdict.map {call : Except Trap (Int × τ)} (first : Verdict safe goes call) (f : τ → σ) :
    Verdict safe goes (call >>= fun out => .ok (out.1, f out.2)) := by
  cases first with
  | accepts x fine on => exact .accepts (f x) fine on
  | refuses x fine off => exact .refuses (f x) fine off
  | wrong trap danger => exact .wrong trap danger

variable {body : ι → σ → Except Trap (Int × σ)}

/-- A round in front of the others. -/
theorem Verdict.cons {i : ι} {is : List ι} {st : σ} (first : Verdict safe goes (body i st))
    (behind : ∀ st, Verdict safe' goes' (loop body is st)) :
    Verdict (safe ∧ (goes → safe')) (goes ∧ goes') (loop body (i :: is) st) := by
  rw [loop_cons]
  generalize body i st = round at first ⊢
  cases first with
  | accepts middle fine on =>
    exact (behind middle).congr ⟨fun fine' => ⟨fine, fun _ => fine'⟩, fun both => both.2 on⟩
      fun _ => ⟨fun on' => ⟨on, on'⟩, And.right⟩
  | refuses middle fine off =>
    exact .refuses middle ⟨fine, fun on => absurd on off⟩ fun both => off both.1
  | wrong trap danger => exact .wrong trap fun both => danger both.1

/-- **The verdict of a loop**: it goes on where all its rounds do, and goes wrong where it comes to
a round that does. -/
theorem Verdict.loop {safe goes : ι → Prop} {is : List ι}
    (one : ∀ i ∈ is, ∀ st, Verdict (safe i) (goes i) (body i st)) (done : List ι) (st : σ) :
    Verdict (Guarded (fun _ => goes) (fun _ => safe) done is) (∀ i ∈ is, goes i)
      (loop body is st) := by
  induction is generalizing done st with
  | nil => exact .accepts st trivial fun _ member => absurd member List.not_mem_nil
  | cons i is ih =>
    rw [List.forall_mem_cons] at one
    refine (Verdict.cons (one.1 st) (ih one.2 (done ++ [i]))).congr Iff.rfl fun _ => ?_
    rw [List.forall_mem_cons]

/-- A loop none of whose rounds goes wrong. -/
theorem Verdict.loop_safe {goes : ι → Prop} {is : List ι}
    (one : ∀ i ∈ is, ∀ st, Verdict True (goes i) (body i st)) (st : σ) :
    Verdict True (∀ i ∈ is, goes i) (Foundation.loop body is st) := by
  refine (Verdict.loop one [] st).congr (iff_of_true ?_ trivial) fun _ => Iff.rfl
  exact guarded_of_forall (fun _ _ _ _ => trivial) is [] rfl

end Verdict

end Foundation
