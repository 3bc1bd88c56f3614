/-
**What a function that may end the program ensures.**

`Ensures ends x Q` says of a call `x` that it returns something in `Q`, or ends the program in a way
that `ends` allows.

* `Ensures.bind`, `Ensures.mono` — the rules of sequence and consequence.
* `Ensures.foldlM` — the rule of a loop over a list, for an invariant that knows which rounds are
  done.
-/

import CyberPlatform.Foundation.Trap
import Mathlib.Data.List.Basic

namespace Foundation

section Ensures

universe u v

variable {ε : Type u} {α β : Type v} {ends : ε → Prop}

/-- **The call returns something in `Q`**, or ends the program in an allowed way. -/
def Ensures (ends : ε → Prop) (x : Except ε α) (Q : α → Prop) : Prop :=
  match x with
  | .ok a => Q a
  | .error e => ends e

instance (x : Except ε α) (Q : α → Prop) [DecidablePred ends] [DecidablePred Q] :
    Decidable (Ensures ends x Q) :=
  match x with
  | .ok a => inferInstanceAs (Decidable (Q a))
  | .error e => inferInstanceAs (Decidable (ends e))

@[simp] theorem ensures_ok {a : α} {Q : α → Prop} : Ensures ends (.ok a) Q ↔ Q a := Iff.rfl

@[simp] theorem ensures_error {e : ε} {Q : α → Prop} :
    Ensures ends (.error e : Except ε α) Q ↔ ends e := Iff.rfl

/-- The rule of consequence. -/
theorem Ensures.mono {x : Except ε α} {P Q : α → Prop} (holds : Ensures ends x P)
    (weaker : ∀ a, P a → Q a) : Ensures ends x Q := by
  cases x with
  | ok a => exact weaker a holds
  | error e => exact holds

/-- The program may end in more ways. -/
theorem Ensures.weaken {ends' : ε → Prop} {x : Except ε α} {Q : α → Prop} (holds : Ensures ends x Q)
    (more : ∀ e, ends e → ends' e) : Ensures ends' x Q := by
  cases x with
  | ok a => exact holds
  | error e => exact more e holds

/-- The rule of conjunction. -/
theorem Ensures.and {ends' : ε → Prop} {x : Except ε α} {P Q : α → Prop} (first : Ensures ends x P)
    (second : Ensures ends' x Q) : Ensures ends' x fun a => P a ∧ Q a := by
  cases x with
  | ok a => exact ⟨first, second⟩
  | error e => exact second

/-- The rule of sequence, where what the first call has returned is remembered. -/
theorem Ensures.bind_ran {x : Except ε α} {f : α → Except ε β} {P : α → Prop} {Q : β → Prop}
    (first : Ensures ends x P) (rest : ∀ a, x = .ok a → P a → Ensures ends (f a) Q) :
    Ensures ends (x >>= f) Q := by
  cases x with
  | ok a => exact rest a rfl first
  | error e => exact first

/-- The rule of sequence. -/
theorem Ensures.bind {x : Except ε α} {f : α → Except ε β} {P : α → Prop} {Q : β → Prop}
    (first : Ensures ends x P) (rest : ∀ a, P a → Ensures ends (f a) Q) :
    Ensures ends (x >>= f) Q :=
  first.bind_ran fun a _ => rest a

/-- A call that has returned. -/
theorem Ensures.of_ok {x : Except ε α} {a : α} {Q : α → Prop} (holds : Ensures ends x Q)
    (ran : x = .ok a) : Q a := by
  rw [ran] at holds
  exact holds

end Ensures

section Loops

variable {ε ι σ : Type} {ends : ε → Prop} {body : σ → ι → Except ε σ}

/-- **The rule of a loop** over a list, for an invariant of the rounds that are done. -/
theorem Ensures.foldlM_from {I : List ι → σ → Prop} {is : List ι}
    (one : ∀ done i rest, is = done ++ i :: rest → ∀ s, I done s →
      Ensures ends (body s i) (I (done ++ [i]))) {s : σ} (holds : I [] s) :
    Ensures ends (is.foldlM body s) (I is) := by
  suffices rounds : ∀ (rest done : List ι) (s : σ), is = done ++ rest → I done s →
      Ensures ends (rest.foldlM body s) (I is) from rounds is [] s rfl holds
  intro rest
  induction rest with
  | nil =>
    intro done s split holds
    rw [split, List.append_nil]
    exact holds
  | cons i rest ih =>
    intro done s split holds
    rw [List.foldlM_cons]
    refine (one done i rest split s holds).bind fun middle kept => ?_
    exact ih (done ++ [i]) middle (by rw [split, List.append_cons]) kept

/-- A loop whose every round keeps an invariant. -/
theorem Ensures.foldlM_mem {I : σ → Prop} {is : List ι}
    (one : ∀ i ∈ is, ∀ s, I s → Ensures ends (body s i) I) {s : σ} (holds : I s) :
    Ensures ends (is.foldlM body s) I := by
  refine Ensures.foldlM_from (I := fun _ => I) (fun done i rest split => one i ?_) holds
  rw [split]
  exact List.mem_append_right _ List.mem_cons_self

/-- A loop whose rounds keep an invariant for all elements. -/
theorem Ensures.foldlM {I : σ → Prop} (one : ∀ s i, I s → Ensures ends (body s i) I)
    (is : List ι) {s : σ} (holds : I s) : Ensures ends (is.foldlM body s) I :=
  Ensures.foldlM_mem (fun i _ s => one s i) holds

end Loops

end Foundation
