/-
**Loops whose rounds write a journal.**

`Made writes is es` says that the entries `es` are those of the indices `is`, one index after the
other, where `writes i seg` says which entries an index may write.

* `loop_writes` — the journal of a loop: that of all its indices, or of those before the one at
  which it is left, and of that one.
* `loop_entry` — the indices that a loop has gone through before an entry.
* `Made.at_index`, `Made.at_entry` — what stands before and behind an index, or an entry.
* `Made.foldl` — a fold over the journal as one over the indices.
-/

import CyberPlatform.Foundation.Loop

namespace Foundation

section Journal

variable {ι ε σ : Type} {writes : ι → List ε → Prop}

/-- **The journal of some indices.** -/
inductive Made (writes : ι → List ε → Prop) : List ι → List ε → Prop
  | nil : Made writes [] []
  | cons {i : ι} {is : List ι} {seg es : List ε} : writes i seg → Made writes is es →
      Made writes (i :: is) (seg ++ es)

/-- A part of the indices and the rest. -/
theorem Made.split {xs ys : List ι} {es : List ε} (made : Made writes (xs ++ ys) es) :
    ∃ front back, Made writes xs front ∧ Made writes ys back ∧ es = front ++ back := by
  induction xs generalizing es with
  | nil => exact ⟨[], es, .nil, made, rfl⟩
  | cons x xs ih =>
    cases made with
    | cons written rest =>
      obtain ⟨front, back, made, made', rfl⟩ := ih rest
      exact ⟨_, back, .cons written made, made', (List.append_assoc _ _ _).symm⟩

/-- What stands before and behind an index. -/
theorem Made.at_index {xs ys : List ι} {i : ι} {es : List ε}
    (made : Made writes (xs ++ i :: ys) es) :
    ∃ front seg back, Made writes xs front ∧ writes i seg ∧ Made writes ys back ∧
      es = front ++ (seg ++ back) := by
  obtain ⟨front, _, before, rest, rfl⟩ := made.split
  cases rest with
  | cons written behind => exact ⟨front, _, _, before, written, behind, rfl⟩

/-- **What stands before and behind an entry.** -/
theorem Made.at_entry {is : List ι} {before after : List ε} {e : ε}
    (made : Made writes is (before ++ e :: after)) :
    ∃ front i back es seg seg' fs, is = front ++ i :: back ∧ Made writes front es ∧
      writes i (seg ++ e :: seg') ∧ Made writes back fs ∧ before = es ++ seg ∧
      after = seg' ++ fs := by
  generalize all : before ++ e :: after = journal at made
  induction made generalizing before with
  | nil => simp at all
  | @cons i is seg es written rest ih =>
    rcases List.append_eq_append_iff.mp all.symm with ⟨tail, rfl, inside⟩ | ⟨tail, here, behind⟩
    · -- behind the first index
      obtain ⟨front, j, back, es', segj, segj', fs, rfl, made, writtenj, made', rfl, rfl⟩ :=
        ih inside.symm
      exact ⟨i :: front, j, back, seg ++ es', segj, segj', fs, rfl, .cons written made, writtenj,
        made', (List.append_assoc _ _ _).symm, rfl⟩
    · cases tail with
      | nil =>
        rw [List.append_nil] at here
        obtain ⟨front, j, back, es', segj, segj', fs, rfl, made, writtenj, made', empty, rfl⟩ :=
          ih (show [] ++ e :: after = es from behind)
        refine ⟨i :: front, j, back, seg ++ es', segj, segj', fs, rfl, .cons written made, writtenj,
          made', ?_, rfl⟩
        rw [List.append_assoc, ← empty, List.append_nil, here]
      | cons first tail =>
        cases behind
        exact ⟨[], i, is, [], before, tail, es, rfl, .nil, here ▸ written, rest, rfl, rfl⟩

/-- An entry is written by one of the indices. -/
theorem Made.written {is : List ι} {es : List ε} (made : Made writes is es) {e : ε}
    (member : e ∈ es) : ∃ i ∈ is, ∃ seg, writes i seg ∧ e ∈ seg := by
  induction made with
  | nil => exact absurd member List.not_mem_nil
  | cons written _ ih =>
    rcases List.mem_append.mp member with here | behind
    · exact ⟨_, List.mem_cons_self, _, written, here⟩
    · obtain ⟨i, inside, found⟩ := ih behind
      exact ⟨i, List.mem_cons_of_mem _ inside, found⟩

/-- The entries of an index are in the journal. -/
theorem Made.covers {is : List ι} {es : List ε} (made : Made writes is es) {i : ι}
    (member : i ∈ is) : ∃ seg, writes i seg ∧ seg ⊆ es := by
  obtain ⟨front, back, rfl⟩ := List.append_of_mem member
  obtain ⟨_, seg, _, _, written, _, rfl⟩ := made.at_index
  refine ⟨seg, written, fun e inside => ?_⟩
  exact List.mem_append_right _ (List.mem_append_left _ inside)

/-- **A fold over a journal** is one over its indices, if an index says what its entries do. -/
theorem Made.foldl {τ : Type} {f : τ → ε → τ} {g : τ → ι → τ}
    (one : ∀ i seg, writes i seg → ∀ t, seg.foldl f t = g t i) {is : List ι} {es : List ε}
    (made : Made writes is es) (t : τ) : es.foldl f t = is.foldl g t := by
  induction made generalizing t with
  | nil => rfl
  | cons written _ ih => rw [List.foldl_append, one _ _ written, ih, List.foldl_cons]

/-- The first part of a list, in front of something that is not in it. -/
theorem front_of_not_mem {xs ys front behind : List ι} {x : ι} (notIn : x ∉ xs)
    (split : xs ++ ys = front ++ x :: behind) :
    ∃ tail, front = xs ++ tail ∧ ys = tail ++ x :: behind := by
  rcases List.append_eq_append_iff.mp split with ⟨tail, rfl, inside⟩ | ⟨tail, rfl, inside⟩
  · exact ⟨tail, rfl, inside⟩
  · cases tail with
    | nil => exact ⟨[], by simp, inside.symm⟩
    | cons first tail =>
      cases inside
      exact absurd (List.mem_append_right _ List.mem_cons_self) notIn

variable {body : ι → σ → Except Trap (Int × σ)} {journal : σ → List ε}
  {stops : ι → List ε → Prop}

/-- **The journal of a loop.** -/
theorem loop_writes
    (one : ∀ i st ret st', body i st = .ok (ret, st') → ∃ seg, journal st' = journal st ++ seg ∧
      (ret = 0 ∧ writes i seg ∨ ret ≠ 0 ∧ stops i seg)) :
    ∀ (is : List ι) {st st' : σ} {ret : Int}, loop body is st = .ok (ret, st') →
      (ret = 0 ∧ ∃ es, Made writes is es ∧ journal st' = journal st ++ es) ∨
      (ret ≠ 0 ∧ ∃ done i rest es seg, is = done ++ i :: rest ∧ Made writes done es ∧
        stops i seg ∧ journal st' = journal st ++ (es ++ seg)) := by
  intro is
  induction is with
  | nil =>
    intro st st' ret ran
    cases ran
    exact .inl ⟨rfl, [], .nil, (List.append_nil _).symm⟩
  | cons i is ih =>
    intro st st' ret ran
    rcases loop_cons_ok ran with ⟨middle, first, rest⟩ | ⟨leaves, first⟩
    · obtain ⟨seg, wrote, ⟨_, written⟩ | ⟨leaves, _⟩⟩ := one i st 0 middle first
      · rcases ih rest with ⟨zero, es, made, wrote'⟩ | ⟨leaves, done, j, back, es, segj, rfl, made,
          stopped, wrote'⟩
        · refine .inl ⟨zero, seg ++ es, .cons written made, ?_⟩
          rw [wrote', wrote, List.append_assoc]
        · refine .inr ⟨leaves, i :: done, j, back, seg ++ es, segj, rfl, .cons written made,
            stopped, ?_⟩
          rw [wrote', wrote, List.append_assoc, List.append_assoc]
      · exact absurd rfl leaves
    · obtain ⟨seg, wrote, ⟨zero, _⟩ | ⟨_, stopped⟩⟩ := one i st ret st' first
      · exact absurd zero leaves
      · exact .inr ⟨leaves, [], i, is, [], seg, rfl, .nil, stopped, wrote⟩

/-- **An entry in the journal of a loop**: all the indices before its own have been gone through. -/
theorem loop_entry
    (one : ∀ i st ret st', body i st = .ok (ret, st') → ∃ seg, journal st' = journal st ++ seg ∧
      (ret = 0 ∧ writes i seg ∨ ret ≠ 0 ∧ stops i seg))
    {is : List ι} {st st' : σ} {ret : Int} (ran : loop body is st = .ok (ret, st'))
    (clear : journal st = []) {before after : List ε} {e : ε}
    (split : journal st' = before ++ e :: after) :
    ∃ front i back es seg seg', is = front ++ i :: back ∧ Made writes front es ∧
      (writes i (seg ++ e :: seg') ∨ stops i (seg ++ e :: seg')) ∧ before = es ++ seg := by
  rcases loop_writes one is ran with ⟨_, all, made, wrote⟩ |
    ⟨_, done, i, rest, all, last, rfl, made, stopped, wrote⟩
  · rw [clear, List.nil_append] at wrote
    rw [← wrote, split] at made
    obtain ⟨front, i, back, es, seg, seg', _, same, made', written, _, rfl, _⟩ := made.at_entry
    exact ⟨front, i, back, es, seg, seg', same, made', .inl written, rfl⟩
  · rw [clear, List.nil_append, split] at wrote
    rcases List.append_eq_append_iff.mp wrote with ⟨tail, rfl, inside⟩ | ⟨tail, rfl, inside⟩
    · cases tail with
      | nil =>
        rw [List.append_nil] at made
        obtain rfl : last = e :: after := inside.symm
        exact ⟨done, i, rest, before, [], after, rfl, made, .inr stopped, (List.append_nil _).symm⟩
      | cons first tail =>
        cases inside
        obtain ⟨front, j, back, es, seg, seg', _, rfl, made', written, _, rfl, _⟩ := made.at_entry
        exact ⟨front, j, back ++ i :: rest, es, seg, seg', by simp, made', .inl written, rfl⟩
    · exact ⟨done, i, rest, all, tail, after, rfl, made, .inr (inside ▸ stopped), rfl⟩

end Journal

end Foundation
