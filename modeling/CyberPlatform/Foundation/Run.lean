/-
**Runs of a machine, and the simulation rule.**

An abstract machine takes inputs `ι`; some inputs are admitted only in some of its states
(`admits`). `Admitted admits step t is` says that each input of `is` is admitted in the state in
which it is taken. A concrete machine whose every admitted step re-establishes a relation `R` with
the abstract one does so over every admitted run: `foldl_simulates` for a machine that always
returns, `foldlM_simulates` for one that may go wrong or loop, and then does neither.

`Always next P s is` says that a property holds in every state that a run reaches; `always_iff` and
`admitted_congr` turn that into a condition on its steps.
-/

import CyberPlatform.Foundation.Trap
import Mathlib.Data.List.Basic

namespace Foundation

section Runs

variable {σ τ ι : Type} (admits : τ → ι → Prop) (step : τ → ι → τ)

/-- Every input of the run is admitted in the state in which it is taken. -/
def Admitted : τ → List ι → Prop
  | _, [] => True
  | t, i :: is => admits t i ∧ Admitted (step t i) is

/-- Whether a run is admitted can be computed from what is admitted. -/
instance Admitted.decidable [∀ t i, Decidable (admits t i)] :
    ∀ (t : τ) (is : List ι), Decidable (Admitted admits step t is)
  | _, [] => inferInstanceAs (Decidable True)
  | t, i :: is =>
    have := Admitted.decidable (step t i) is
    inferInstanceAs (Decidable (admits t i ∧ Admitted admits step (step t i) is))

variable {admits step} {R : σ → τ → Prop}

/-- A run admitted under one rule is admitted under every weaker one. -/
theorem Admitted.mono {weaker : τ → ι → Prop} (weak : ∀ t i, admits t i → weaker t i) :
    ∀ {is : List ι} {t : τ}, Admitted admits step t is → Admitted weaker step t is
  | [], _, _ => trivial
  | _ :: _, _, run => ⟨weak _ _ run.1, run.2.mono weak⟩

/-- A rule about the inputs alone may be put into the rule of the run. -/
theorem Admitted.and {P : ι → Prop} : ∀ {is : List ι} {t : τ}, Admitted admits step t is →
    (∀ i ∈ is, P i) → Admitted (fun t i => admits t i ∧ P i) step t is
  | [], _, _, _ => trivial
  | i :: _, _, run, all => ⟨⟨run.1, all i List.mem_cons_self⟩,
    run.2.and fun j member => all j (List.mem_cons_of_mem i member)⟩

/-- A run is admitted when its beginning is, and the rest in the state that this leaves. -/
theorem admitted_append {front back : List ι} : ∀ {t : τ},
    Admitted admits step t (front ++ back) ↔
      Admitted admits step t front ∧ Admitted admits step (front.foldl step t) back := by
  induction front with
  | nil => exact fun {t} => ⟨fun run => ⟨trivial, run⟩, And.right⟩
  | cons i front ih =>
    intro t
    show admits t i ∧ Admitted admits step (step t i) (front ++ back) ↔ _
    rw [ih, ← and_assoc]
    rfl

/-- **Two rules that agree where an invariant holds** admit the same runs, if the steps that they
admit keep the invariant. -/
theorem admitted_congr {admits' : τ → ι → Prop} {I : τ → Prop}
    (same : ∀ t i, I t → (admits t i ↔ admits' t i))
    (keeps : ∀ t i, I t → admits t i → I (step t i)) :
    ∀ {is : List ι} {t : τ}, I t → (Admitted admits step t is ↔ Admitted admits' step t is) := by
  intro is
  induction is with
  | nil => exact fun _ => Iff.rfl
  | cons i is ih =>
    intro t holds
    refine (and_congr_right fun admitted => ?_).trans (and_congr_left' (same t i holds))
    exact ih (keeps t i holds admitted)

/-- **The simulation rule** for a machine that always returns. -/
theorem foldl_simulates {next : σ → ι → σ}
    (one : ∀ s t i, R s t → admits t i → R (next s i) (step t i)) :
    ∀ (is : List ι) {s : σ} {t : τ}, R s t → Admitted admits step t is →
      R (is.foldl next s) (is.foldl step t) := by
  intro is
  induction is with
  | nil => exact fun related _ => related
  | cons i is ih => exact fun related run => ih (one _ _ i related run.1) run.2

/-- **The simulation rule** for a machine that may go wrong: over an admitted run it does not. -/
theorem foldlM_simulates {ε : Type} {next : σ → ι → Except ε σ}
    (one : ∀ s t i, R s t → admits t i → ∃ s', next s i = .ok s' ∧ R s' (step t i)) :
    ∀ (is : List ι) {s : σ} {t : τ}, R s t → Admitted admits step t is →
      ∃ s', is.foldlM next s = .ok s' ∧ R s' (is.foldl step t) := by
  intro is
  induction is with
  | nil => exact fun {s t} related _ => ⟨s, rfl, related⟩
  | cons i is ih =>
    intro s t related run
    obtain ⟨middle, first, related⟩ := one s t i related run.1
    obtain ⟨last, rest, related⟩ := ih related run.2
    refine ⟨last, ?_, related⟩
    rw [List.foldlM_cons, first]
    exact rest

/-- What relates the machine to the abstract one as long as it returns, relates their states behind
a run that has returned. -/
theorem foldlM_tracks {ε : Type} {next : σ → ι → Except ε σ}
    (one : ∀ s t i s', R s t → admits t i → next s i = .ok s' → R s' (step t i)) :
    ∀ (is : List ι) {s s' : σ} {t : τ}, R s t → Admitted admits step t is →
      is.foldlM next s = .ok s' → R s' (is.foldl step t) := by
  intro is
  induction is with
  | nil =>
    intro s s' t related _ ran
    obtain rfl := Except.ok.inj ran
    exact related
  | cons i is ih =>
    intro s s' t related run ran
    rw [List.foldlM_cons] at ran
    obtain ⟨middle, first, rest⟩ := bind_eq_ok.mp ran
    exact ih (one s t i middle related run.1 first) run.2 rest

end Runs

/-! ### Every state of a run -/

section States

variable {σ ι ε : Type} (admits : σ → ι → Prop) (next : σ → ι → Except ε σ)

/-- Every input is admitted in the state in which the machine takes it. -/
def AdmittedM : σ → List ι → Prop
  | _, [] => True
  | s, i :: is => admits s i ∧ ∀ s', next s i = .ok s' → AdmittedM s' is

/-- The machine returns, and `P` holds in every state that it reaches. -/
def Always (P : σ → Prop) (s : σ) (is : List ι) : Prop :=
  ∀ done, done <+: is → ∃ s', done.foldlM next s = .ok s' ∧ P s'

variable {admits next} {P I : σ → Prop}

theorem always_nil {s : σ} : Always next P s [] ↔ P s := by
  constructor
  · intro always
    obtain ⟨s', ran, holds⟩ := always [] List.prefix_rfl
    obtain rfl := Except.ok.inj ran
    exact holds
  · intro holds done front
    rw [List.prefix_nil.mp front]
    exact ⟨s, rfl, holds⟩

theorem always_cons {s : σ} {i : ι} {is : List ι} :
    Always next P s (i :: is) ↔ P s ∧ ∃ s', next s i = .ok s' ∧ Always next P s' is := by
  constructor
  · intro always
    obtain ⟨s', ran, holds⟩ := always [] List.nil_prefix
    obtain rfl := Except.ok.inj ran
    obtain ⟨s', ran, _⟩ := always [i] ⟨is, rfl⟩
    rw [List.foldlM_cons] at ran
    obtain ⟨middle, first, _⟩ := bind_eq_ok.mp ran
    refine ⟨holds, middle, first, fun done front => ?_⟩
    obtain ⟨s', ran, holds⟩ := always (i :: done) (List.cons_prefix_cons.mpr ⟨rfl, front⟩)
    rw [List.foldlM_cons, first] at ran
    exact ⟨s', ran, holds⟩
  · rintro ⟨holds, middle, first, always⟩ done front
    cases done with
    | nil => exact ⟨s, rfl, holds⟩
    | cons j done =>
      obtain ⟨rfl, within⟩ := List.cons_prefix_cons.mp front
      obtain ⟨s', ran, holds⟩ := always done within
      refine ⟨s', ?_, holds⟩
      rw [List.foldlM_cons, first]
      exact ran

/-- **When a property holds throughout a run** of inputs in `Q`: if the admitted steps keep an
invariant that has the property, and every other step breaks the property, then it is exactly when
every step is admitted. -/
theorem always_iff {Q : ι → Prop} (good : ∀ s, I s → P s)
    (one : ∀ s i, Q i → I s → admits s i → ∃ s', next s i = .ok s' ∧ I s')
    (bad : ∀ s i s', Q i → I s → ¬ admits s i → next s i = .ok s' → ¬ P s') :
    ∀ {is : List ι} {s : σ}, (∀ i ∈ is, Q i) → I s →
      (Always next P s is ↔ AdmittedM admits next s is) := by
  intro is
  induction is with
  | nil => exact fun {s} _ holds => always_nil.trans (iff_true_intro (good s holds))
  | cons i is ih =>
    intro s inputs holds
    have input := inputs i List.mem_cons_self
    have inputs : ∀ j ∈ is, Q j := fun j member => inputs j (List.mem_cons_of_mem i member)
    rw [always_cons]
    constructor
    · rintro ⟨_, s', first, always⟩
      have admitted : admits s i := by
        by_contra refused
        obtain ⟨s'', ran, kept⟩ := always [] List.nil_prefix
        obtain rfl := Except.ok.inj ran
        exact bad s i s' input holds refused first kept
      obtain ⟨middle, same, holds⟩ := one s i input holds admitted
      obtain rfl := Except.ok.inj (first.symm.trans same)
      refine ⟨admitted, fun other ran => ?_⟩
      obtain rfl := Except.ok.inj (first.symm.trans ran)
      exact (ih inputs holds).mp always
    · rintro ⟨admitted, rest⟩
      obtain ⟨middle, first, kept⟩ := one s i input holds admitted
      exact ⟨good s holds, middle, first, (ih inputs kept).mpr (rest middle first)⟩

end States

section Folds

variable {σ ι : Type} {next : σ → ι → σ}

/-- What every step keeps, the whole fold keeps. -/
theorem foldl_keeps {P : σ → Prop} (keeps : ∀ s i, P s → P (next s i)) :
    ∀ (is : List ι) {s : σ}, P s → P (is.foldl next s) := by
  intro is
  induction is with
  | nil => exact id
  | cons i is ih => exact fun holds => ih (keeps _ i holds)

/-- What every returning step of a machine that may go wrong keeps, a returning run keeps. -/
theorem foldlM_keeps {ε : Type} {next : σ → ι → Except ε σ} {P : σ → Prop}
    (keeps : ∀ s i s', next s i = .ok s' → P s → P s') :
    ∀ (is : List ι) {s s' : σ}, is.foldlM next s = .ok s' → P s → P s' := by
  intro is
  induction is with
  | nil =>
    intro s s' ran holds
    obtain rfl := Except.ok.inj ran
    exact holds
  | cons i is ih =>
    intro s s' ran holds
    rw [List.foldlM_cons] at ran
    obtain ⟨middle, first, rest⟩ := bind_eq_ok.mp ran
    exact ih rest (keeps s i middle first holds)

/-- What the step on `i` sets and every other step keeps holds after a fold over a list with `i`. -/
theorem foldl_establishes {P : ι → σ → Prop} (sets : ∀ s i, P i (next s i))
    (keeps : ∀ s i j, P i s → P i (next s j)) (is : List ι) (s : σ) {i : ι} (member : i ∈ is) :
    P i (is.foldl next s) := by
  obtain ⟨front, back, rfl⟩ := List.append_of_mem member
  rw [List.foldl_append, List.foldl_cons]
  exact foldl_keeps (fun s j holds => keeps s i j holds) back (sets _ i)

end Folds

end Foundation
