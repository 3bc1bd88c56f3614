/-
**A program whose atomic operations interleave with the steps of others.**

A program is the tree of the operations that it can still perform: what it does next depends on what
the operation replies. An operation is one atomic step on a state that is shared; between two of
them, the others take any number of steps of their own (`others`). Nothing bounds how many, so what
is known of the state after an operation is what the others keep (`Kept`).

* `run_bind`, `run_forM` — the program on its own, a function into `Except Trap`.
* `wp_bind`, `wp_forM` — the weakest precondition of a sequence and of a loop.
* `wp_reaches` — **soundness**: what the weakest precondition promises holds in every interleaving.
* `reaches_of_run`, `run_of_wp` — the program on its own is one of the interleavings, and returns.
* `Run.ends` — **termination**: in every interleaving that always comes back to the program until
  it has ended, it ends.
-/

import CyberPlatform.Foundation.Trap
import Mathlib.Data.Nat.Find
import Mathlib.Logic.Function.Iterate
import Mathlib.Logic.Relation

namespace Foundation

/-- A program over atomic operations. -/
inductive Program (Op : Type) (Reply : Op → Type) (α : Type) : Type where
  | done (a : α)
  | fail (trap : Trap)
  | call (op : Op) (next : Reply op → Program Op Reply α)

namespace Program

variable {Op σ ι α β : Type} {Reply : Op → Type}

/-- One program after the other. -/
def andThen : Program Op Reply α → (α → Program Op Reply β) → Program Op Reply β
  | done a, f => f a
  | fail trap, _ => fail trap
  | call op next, f => call op fun reply => (next reply).andThen f

instance : Monad (Program Op Reply) where
  pure := done
  bind := andThen

/-- A program that performs one operation and returns what it replies. -/
def perform (op : Op) : Program Op Reply (Reply op) := call op done

/-- A program that performs no operation. -/
def ofExcept : Except Trap α → Program Op Reply α
  | .ok a => done a
  | .error trap => fail trap

theorem map_id (p : Program Op Reply α) : id <$> p = p := by
  induction p with
  | done a => rfl
  | fail trap => rfl
  | call op next ih => exact congrArg (call op) (funext ih)

theorem andThen_assoc {γ : Type} (p : Program Op Reply α) (f : α → Program Op Reply β)
    (g : β → Program Op Reply γ) : p >>= f >>= g = p >>= fun a => f a >>= g := by
  induction p with
  | done a => rfl
  | fail trap => rfl
  | call op next ih => exact congrArg (call op) (funext ih)

instance : LawfulMonad (Program Op Reply) :=
  LawfulMonad.mk' _ map_id (fun _ _ => rfl) andThen_assoc

/-- A loop over the indices of a list is one over its elements. -/
theorem forM_range {body : Nat → Program Op Reply PUnit} {body' : ι → Program Op Reply PUnit}
    {xs : List ι} (same : ∀ i x, xs[i]? = some x → body i = body' x) :
    forM (List.range xs.length) body = forM xs body' := by
  induction xs generalizing body with
  | nil => rfl
  | cons x xs ih =>
    rw [List.length_cons, List.range_succ_eq_map, List.forM_cons, List.forM_map, List.forM_cons,
      same 0 x rfl, ih fun i y entry => same (i + 1) y entry]

/-! ### The program on its own -/

section Alone

variable (exec : (op : Op) → σ → Reply op × σ)

/-- The program when no other step comes in between. -/
def run : Program Op Reply α → σ → Except Trap (α × σ)
  | done a, s => .ok (a, s)
  | fail trap, _ => .error trap
  | call op next, s => (next (exec op s).1).run (exec op s).2

theorem run_bind (p : Program Op Reply α) (f : α → Program Op Reply β) (s : σ) :
    (p >>= f).run exec s = p.run exec s >>= fun out => (f out.1).run exec out.2 := by
  induction p generalizing s with
  | done a => rfl
  | fail trap => rfl
  | call op next ih => exact ih (exec op s).1 (exec op s).2

@[simp] theorem run_ofExcept (x : Except Trap α) (s : σ) :
    (ofExcept x : Program Op Reply α).run exec s = x.map fun a => (a, s) := by
  cases x with
  | error trap => rfl
  | ok a => rfl

/-- What every operation keeps, the program keeps. -/
theorem run_keeps {P : σ → Prop} (kept : ∀ op s, P s → P (exec op s).2) {p : Program Op Reply α}
    {a : α} {s s' : σ} (ran : p.run exec s = .ok (a, s')) (holds : P s) : P s' := by
  induction p generalizing s with
  | done b =>
    cases ran
    exact holds
  | fail trap => cases ran
  | call op next ih => exact ih _ ran (kept op s holds)

/-- **A part of the state** that determines the replies and what becomes of itself. -/
theorem run_part {τ : Type} (part : σ → τ) {exec' : (op : Op) → τ → Reply op × τ}
    (same : ∀ op s, exec' op (part s) = ((exec op s).1, part (exec op s).2))
    (p : Program Op Reply α) (s : σ) :
    p.run exec' (part s) = (p.run exec s).map fun out => (out.1, part out.2) := by
  induction p generalizing s with
  | done a => rfl
  | fail trap => rfl
  | call op next ih =>
    show (next (exec' op (part s)).1).run exec' (exec' op (part s)).2 = _
    rw [same]
    exact ih (exec op s).1 (exec op s).2

/-- A loop of programs is a fold over the state. -/
theorem run_forM {body : ι → Program Op Reply PUnit} {step : σ → ι → Except Trap σ}
    (one : ∀ i s, (body i).run exec s = (step s i).map fun s' => (⟨⟩, s')) (is : List ι) (s : σ) :
    (forM is body).run exec s = (is.foldlM step s).map fun s' => (⟨⟩, s') := by
  induction is generalizing s with
  | nil => rfl
  | cons i is ih =>
    rw [List.forM_cons, run_bind, one, List.foldlM_cons]
    cases step s i with
    | error trap => rfl
    | ok s' => exact ih s'

end Alone

/-! ### The program among others -/

section Among

variable (exec : (op : Op) → σ → Reply op × σ) (others : σ → σ → Prop)

/-- Whose step it is. -/
inductive Mover where
  | self
  | other
  deriving DecidableEq

/-- **One step of an interleaving**: an operation of the program, or a step of the others. -/
inductive Step : Mover → Program Op Reply α × σ → Program Op Reply α × σ → Prop where
  | self (op : Op) (next : Reply op → Program Op Reply α) (s : σ) :
      Step .self (call op next, s) (next (exec op s).1, (exec op s).2)
  | other (p : Program Op Reply α) {s s' : σ} (moved : others s s') : Step .other (p, s) (p, s')

/-- What the program and the state can come to, in any order of the steps. -/
def Reaches : Program Op Reply α × σ → Program Op Reply α × σ → Prop :=
  Relation.ReflTransGen fun c c' => ∃ mover, Step exec others mover c c'

/-- What a step of the others does not destroy. -/
def Kept (P : σ → Prop) : Prop := ∀ s s', others s s' → P s → P s'

/-- **The weakest precondition** of a postcondition that is to hold whenever the program has
returned, however the others have moved before each operation and at the end. -/
def wp (Q : α → σ → Prop) : Program Op Reply α → σ → Prop
  | done a, s => ∀ s', Relation.ReflTransGen others s s' → Q a s'
  | fail _, _ => False
  | call op next, s => ∀ s', Relation.ReflTransGen others s s' →
      (next (exec op s').1).wp Q (exec op s').2

variable {exec others} {P : σ → Prop} {Q R : α → σ → Prop} {s : σ}

theorem Kept.and {P' : σ → Prop} (first : Kept others P) (second : Kept others P') :
    Kept others fun s => P s ∧ P' s :=
  fun s s' moved holds => ⟨first s s' moved holds.1, second s s' moved holds.2⟩

theorem Kept.exists {P : ι → σ → Prop} (each : ∀ i, Kept others (P i)) :
    Kept others fun s => ∃ i, P i s := by
  rintro s s' moved ⟨i, holds⟩
  exact ⟨i, each i s s' moved holds⟩

theorem Kept.const (p : Prop) : Kept others fun _ => p := fun _ _ _ holds => holds

/-- What one step of the others keeps, any number of steps keeps. -/
theorem Kept.star (kept : Kept others P) (holds : P s) {s' : σ}
    (moved : Relation.ReflTransGen others s s') : P s' := by
  induction moved with
  | refl => exact holds
  | tail _ last ih => exact kept _ _ last ih

/-- **A return**: what the others keep gives the postcondition. -/
theorem wp_done {a : α} (kept : Kept others P) (holds : P s) (post : ∀ s', P s' → Q a s') :
    (done a : Program Op Reply α).wp exec others Q s :=
  fun s' moved => post s' (kept.star holds moved)

/-- **An operation**: it is performed on a state of which only what the others keep is known. -/
theorem wp_call {op : Op} {next : Reply op → Program Op Reply α} (kept : Kept others P)
    (holds : P s)
    (onwards : ∀ s', P s' → (next (exec op s').1).wp exec others Q (exec op s').2) :
    (call op next).wp exec others Q s :=
  fun s' moved => onwards s' (kept.star holds moved)

theorem wp_mono (weaker : ∀ a s, Q a s → R a s) {p : Program Op Reply α}
    (holds : p.wp exec others Q s) : p.wp exec others R s := by
  induction p generalizing s with
  | done a => exact fun s' moved => weaker a s' (holds s' moved)
  | fail trap => exact holds
  | call op next ih => exact fun s' moved => ih _ (holds s' moved)

/-- **A sequence.** -/
theorem wp_bind {p : Program Op Reply α} {f : α → Program Op Reply β} {T : β → σ → Prop}
    (first : p.wp exec others (fun a s => (f a).wp exec others T s) s) :
    (p >>= f).wp exec others T s := by
  induction p generalizing s with
  | done a => exact first s .refl
  | fail trap => exact first
  | call op next ih => exact fun s' moved => ih _ (first s' moved)

/-- **A loop**, by an invariant of what is still to come. -/
theorem wp_forM {body : ι → Program Op Reply PUnit} {I : List ι → σ → Prop}
    (kept : Kept others (I []))
    (one : ∀ i is s, I (i :: is) s → (body i).wp exec others (fun _ => I is) s) (is : List ι)
    (start : I is s) : (forM is body).wp exec others (fun _ => I []) s := by
  induction is generalizing s with
  | nil => exact wp_done kept start fun _ last => last
  | cons i is ih =>
    rw [List.forM_cons]
    exact wp_bind (wp_mono (fun _ _ middle => ih middle) (one i is s start))

/-- The others may move before the first operation. -/
theorem wp_moved {p : Program Op Reply α} {s' : σ} (holds : p.wp exec others Q s)
    (moved : others s s') : p.wp exec others Q s' := by
  cases p with
  | done a => exact fun last further => holds last (.head moved further)
  | fail trap => exact holds
  | call op next => exact fun last further => holds last (.head moved further)

/-- **Soundness**: the weakest precondition holds of whatever the program and the state come to. -/
theorem wp_reaches {p p' : Program Op Reply α} {s' : σ}
    (reach : Reaches exec others (p, s) (p', s')) (holds : p.wp exec others Q s) :
    p'.wp exec others Q s' := by
  suffices along : ∀ c, Reaches exec others (p, s) c → c.1.wp exec others Q c.2 from
    along (p', s') reach
  intro c reach
  induction reach with
  | refl => exact holds
  | tail _ last ih =>
    obtain ⟨mover, step⟩ := last
    cases step with
    | self op next s => exact ih s .refl
    | other p moved => exact wp_moved ih moved

/-- When it has returned, the postcondition holds. -/
theorem wp_returned {p : Program Op Reply α} {a : α} {s' : σ}
    (reach : Reaches exec others (p, s) (done a, s')) (holds : p.wp exec others Q s) : Q a s' :=
  wp_reaches reach holds s' .refl

/-- It never goes wrong. -/
theorem wp_not_fail {p : Program Op Reply α} {trap : Trap} {s' : σ}
    (holds : p.wp exec others Q s) : ¬ Reaches exec others (p, s) (fail trap, s') :=
  fun reach => wp_reaches reach holds

/-- The program on its own is one of the interleavings. -/
theorem reaches_of_run {p : Program Op Reply α} {a : α} {s' : σ}
    (ran : p.run exec s = .ok (a, s')) : Reaches exec others (p, s) (done a, s') := by
  induction p generalizing s with
  | done b =>
    cases ran
    exact .refl
  | fail trap => cases ran
  | call op next ih => exact .head ⟨.self, .self op next s⟩ (ih _ ran)

/-- **On its own**, a program whose weakest precondition holds returns. -/
theorem run_of_wp {p : Program Op Reply α} (holds : p.wp exec others Q s) :
    ∃ a s', p.run exec s = .ok (a, s') ∧ Q a s' := by
  induction p generalizing s with
  | done a => exact ⟨a, s, rfl, holds s .refl⟩
  | fail trap => exact holds.elim
  | call op next ih => exact ih _ (holds s .refl)

/-! ### Termination -/

/-- The program has no operation left. -/
def Ended : Program Op Reply α → Prop
  | done _ => True
  | fail _ => True
  | call _ _ => False

variable (exec others) in
/-- **A run**: an interleaving without end, that always comes back to the program until the program
has ended. -/
structure Run (p : Program Op Reply α) (s : σ) where
  config : Nat → Program Op Reply α × σ
  mover : Nat → Mover
  start : config 0 = (p, s)
  step : ∀ n, Step exec others (mover n) (config n) (config (n + 1))
  fair : ∀ n, ∃ m ≥ n, mover m = .self ∨ (config m).1.Ended

variable {p : Program Op Reply α}

/-- The program moves as long as it can, then the others do. -/
def advance (exec : (op : Op) → σ → Reply op × σ) (next : σ → σ) :
    Program Op Reply α × σ → Mover × Program Op Reply α × σ
  | (call op onwards, s) => (.self, onwards (exec op s).1, (exec op s).2)
  | (done a, s) => (.other, done a, next s)
  | (fail trap, s) => (.other, fail trap, next s)

/-- **There are runs**, when the others can always move. -/
theorem Run.exists {next : σ → σ} (always : ∀ s, others s (next s)) (p : Program Op Reply α)
    (s : σ) : Nonempty (Run exec others p s) := by
  let config (n : Nat) : Program Op Reply α × σ := (fun c => (advance exec next c).2)^[n] (p, s)
  refine ⟨config, fun n => (advance exec next (config n)).1, rfl, fun n => ?_, fun n => ?_⟩
  · have one : config (n + 1) = (advance exec next (config n)).2 :=
      Function.iterate_succ_apply' _ n (p, s)
    rw [one]
    rcases config n with ⟨_ | _ | _, s⟩
    · exact .other _ (always s)
    · exact .other _ (always s)
    · exact .self _ _ s
  · refine ⟨n, le_rfl, ?_⟩
    rcases config n with ⟨_ | _ | _, s⟩
    · exact .inr trivial
    · exact .inr trivial
    · exact .inl rfl

/-- A run reaches its configurations. -/
theorem Run.reaches (run : Run exec others p s) (n : Nat) :
    Reaches exec others (p, s) (run.config n) := by
  induction n with
  | zero =>
    rw [run.start]
    exact .refl
  | succ n ih => exact .tail ih ⟨_, run.step n⟩

/-- While the program does not move, it is what it was. -/
theorem Run.waits (run : Run exec others p s) {n : Nat} : ∀ k,
    (∀ m, n ≤ m → m < n + k → run.mover m ≠ .self) →
    (run.config (n + k)).1 = (run.config n).1 := by
  intro k
  induction k with
  | zero => exact fun _ => rfl
  | succ k ih =>
    intro quiet
    have before := ih fun m low high => quiet m low (by omega)
    have silent := quiet (n + k) (by omega) (by omega)
    have step := run.step (n + k)
    rw [← before]
    generalize run.mover (n + k) = mover, run.config (n + k) = c,
      run.config (n + (k + 1)) = c' at step silent
    cases step with
    | self => exact absurd rfl silent
    | other p moved => rfl

/-- **Termination**: an interleaving that always comes back to the program ends it. -/
theorem Run.ends (run : Run exec others p s) : ∃ n, (run.config n).1.Ended := by
  suffices onwards : ∀ (q : Program Op Reply α) (n : Nat), (run.config n).1 = q →
      ∃ m, (run.config m).1.Ended from onwards _ 0 rfl
  intro q
  induction q with
  | done a => exact fun n here => ⟨n, here ▸ trivial⟩
  | fail trap => exact fun n here => ⟨n, here ▸ trivial⟩
  | call op next ih =>
    intro n here
    classical
    obtain ⟨m, later, comes⟩ := run.fair n
    rcases comes with moves | ended
    · -- the first step of the program from `n` on is the operation
      have some : ∃ k, run.mover (n + k) = .self := ⟨m - n, by rwa [Nat.add_sub_cancel' later]⟩
      have quiet : ∀ m, n ≤ m → m < n + Nat.find some → run.mover m ≠ .self := by
        intro m low high
        have early := Nat.find_min some (show m - n < Nat.find some by omega)
        rwa [Nat.add_sub_cancel' low] at early
      have still := (run.waits _ quiet).trans here
      have moves := Nat.find_spec some
      have step := run.step (n + Nat.find some)
      refine ih (exec op (run.config (n + Nat.find some)).2).1 (n + Nat.find some + 1) ?_
      generalize run.mover (n + Nat.find some) = mover, run.config (n + Nat.find some) = c,
        run.config (n + Nat.find some + 1) = c' at step still moves
      cases step with
      | self op' next' s =>
        cases still
        rfl
      | other p moved => cases moves
    · exact ⟨m, ended⟩

/-- **Total correctness**: a run of a program whose weakest precondition holds returns. -/
theorem Run.returns (run : Run exec others p s) (holds : p.wp exec others Q s) :
    ∃ n a s', run.config n = (done a, s') ∧ Q a s' := by
  obtain ⟨n, ended⟩ := run.ends
  have reach := run.reaches n
  generalize at_n : run.config n = c at reach ended
  obtain ⟨last, s'⟩ := c
  cases last with
  | done a => exact ⟨n, a, s', at_n, wp_returned reach holds⟩
  | fail trap => exact absurd reach (wp_not_fail holds)
  | call op next => exact ended.elim

end Among

end Program

end Foundation
