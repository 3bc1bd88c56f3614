/-
**Cutting C texts.**

* `lines` — the pieces in which `fgets` reads a file, and `lines_cons` for a line that fits.
* `tokens` — the tokens that `strtok` gives, and `tokens_unwords` for words with a blank between
  them.
-/

import CyberPlatform.Foundation.CString
import Mathlib.Data.List.DropRight

namespace Foundation

/-! ### Lines -/

/-- `fgets` with a buffer of `size` bytes, `room` of which are left behind the current piece -/
def linesFrom (size : Nat) : Nat → Text → Text → List Text
  | _, current, [] => if current = [] then [] else [current]
  | room, current, c :: rest =>
    if c = '\n' ∨ room ≤ 1 then (current ++ [c]) :: linesFrom size (size - 1) [] rest
    else linesFrom size (room - 1) (current ++ [c]) rest

/-- The pieces in which `fgets` reads a file -/
def lines (size : Nat) (file : Text) : List Text := linesFrom size (size - 1) [] file

/-- **A line that fits** is read in one piece. -/
theorem lines_cons {size : Nat} {line rest : Text} (whole : '\n' ∉ line)
    (fits : line.length + 2 ≤ size) :
    lines size (line ++ '\n' :: rest) = (line ++ ['\n']) :: lines size rest := by
  suffices all : ∀ (line current : Text) (room : Nat), '\n' ∉ line → line.length + 1 ≤ room →
      linesFrom size room current (line ++ '\n' :: rest) =
        (current ++ line ++ ['\n']) :: lines size rest from
    all line [] (size - 1) whole (by omega)
  intro line
  induction line with
  | nil =>
    intro current room _ _
    rw [List.nil_append, linesFrom, if_pos (.inl rfl), List.append_nil]
    rfl
  | cons c line ih =>
    intro current room whole fits
    obtain ⟨differ, whole⟩ := not_or.mp (List.mem_cons.not.mp whole)
    rw [List.length_cons] at fits
    have inner : ¬ (c = '\n' ∨ room ≤ 1) := not_or.mpr ⟨Ne.symm differ, by omega⟩
    rw [List.cons_append, linesFrom, if_neg inner, ih _ _ whole (by omega),
      List.append_cons current c line]

/-! ### Tokens -/

/-- The tokens that `strtok` gives, first with a text and then with null pointers -/
def tokens (delimiter : Char → Bool) (t : Text) : List Text :=
  (t.splitOnP delimiter).filter (· ≠ [])

section Tokens

variable {delimiter : Char → Bool} {word rest : Text}

/-- A word that is alone. -/
theorem tokens_word (nonempty : word ≠ []) (whole : ∀ c ∈ word, delimiter c = false) :
    tokens delimiter word = [word] := by
  rw [tokens, List.splitOnP_eq_singleton whole]
  exact List.filter_cons_of_pos (decide_eq_true nonempty)

/-- A word in front of others. -/
theorem tokens_cons (nonempty : word ≠ []) (whole : ∀ c ∈ word, delimiter c = false) {c : Char}
    (between : delimiter c) :
    tokens delimiter (word ++ c :: rest) = word :: tokens delimiter rest := by
  rw [tokens, List.splitOnP_append_cons_of_forall_mem whole c between]
  exact List.filter_cons_of_pos (decide_eq_true nonempty)

/-- Words with a blank between them -/
def unwords (words : List Text) : Text := [' '].intercalate words

theorem unwords_singleton (word : Text) : unwords [word] = word := List.intercalate_singleton

theorem unwords_cons (word next : Text) (words : List Text) :
    unwords (word :: next :: words) = word ++ ' ' :: unwords (next :: words) := by
  rw [unwords, List.intercalate_cons_cons, List.append_assoc, List.singleton_append]
  rfl

/-- **Words are read back** from a text with a blank between them. -/
theorem tokens_unwords {words : List Text} (blank : delimiter ' ')
    (good : ∀ word ∈ words, word ≠ [] ∧ ∀ c ∈ word, delimiter c = false) :
    tokens delimiter (unwords words) = words := by
  induction words with
  | nil => rfl
  | cons word words ih =>
    obtain ⟨⟨nonempty, whole⟩, good⟩ := List.forall_mem_cons.mp good
    cases words with
    | nil => rw [unwords_singleton, tokens_word nonempty whole]
    | cons next words => rw [unwords_cons, tokens_cons nonempty whole blank, ih good]

/-- The characters of some words are those of the words, and blanks. -/
theorem mem_unwords {words : List Text} {c : Char} (member : c ∈ unwords words) :
    c = ' ' ∨ ∃ word ∈ words, c ∈ word := by
  induction words with
  | nil => exact absurd member List.not_mem_nil
  | cons word words ih =>
    cases words with
    | nil =>
      rw [unwords_singleton] at member
      exact .inr ⟨word, List.mem_cons_self, member⟩
    | cons next words =>
      rw [unwords_cons] at member
      rcases List.mem_append.mp member with here | there
      · exact .inr ⟨word, List.mem_cons_self, here⟩
      · rcases List.mem_cons.mp there with rfl | there
        · exact .inl rfl
        · exact (ih there).imp_right fun ⟨word, inside, here⟩ =>
            ⟨word, List.mem_cons_of_mem _ inside, here⟩

end Tokens

end Foundation
