/-
**`_parse_elements`: a configuration file, from `fopen` to `_json_parse`.**

Both applications have the function, word for word; they differ in their `_json_parse`. What the C
library does is a `Files`: whether the file can be opened, where its end is, what `malloc` returns,
and how much each `fread` delivers.

* `readFile_exit` — the loop that reads the file comes to its end only with a file that is at least
  as long as it takes it to be.
* `loads_iff` — when a configuration file is loaded as it should be.
-/

import CyberPlatform.Foundation.Trap
import Mathlib.Tactic.SplitIfs

namespace CyberPlatform.ConfFile

open Foundation

/-! ### The C library -/

/-- What is behind a pointer that `malloc` returned. -/
structure Block where
  size : Nat
  bytes : Nat → UInt8

/-- A `char*` -/
inductive Pointer where
  | uninitialised
  | null
  | block (buffer : Block)

/-- The calls that are made with the buffer and the file, the latter null if it is not open. -/
inductive Call where
  | jsonParse (buffer : Block) (ret : Int)
  | fclose (opened : Bool)
  | free (buffer : Pointer)

def Call.isFclose : Call → Bool
  | .fclose _ => true
  | _ => false

/-- `free` of a block, and not of a null pointer. -/
def Call.isFreeBlock : Call → Bool
  | .free (.block _) => true
  | _ => false

/-- **What the C library does.** -/
structure Files where
  content : List UInt8
  opened : Bool
  /-- what `ftell` returns at the end of the file -/
  position : Int
  /-- what is in the block that `malloc` returns, if it returns one -/
  malloc : Option (Nat → UInt8)
  /-- how much each `fread` is ready to deliver -/
  offered : Nat → Nat

/-- A `size_t` -/
def sizeT (x : Int) : Nat := (x % 2 ^ 64).toNat

/-- Bytes that are written to where the buffer starts. -/
def Block.write (buffer : Block) (xs : List UInt8) : Block :=
  { buffer with bytes := fun i => xs.getD i (buffer.bytes i) }

section Code

variable (files : Files)

/-- The bytes of the `k`-th `fread(buffer, 1, n, fd)`. -/
def fread (k n : Nat) (unread : List UInt8) : List UInt8 := unread.take (min (files.offered k) n)

/-! ### The code -/

/-- The loop of `_parse_elements`, before its `k`-th `fread`. -/
def readFile (filesize : Int) :
    Nat → Nat → Int → List UInt8 → Block → Except Trap (Int × Block)
  | 0, _, _, _, _ => .error .endless
  | fuel + 1, k, read, unread, buffer =>
    if read < filesize then
      let bytes := fread files k (sizeT (filesize - read)) unread
      let buffer := buffer.write bytes
      let unread := unread.drop bytes.length
      let read := int32 (read + bytes.length)
      if read < 0 then .ok (-1, buffer)
      else readFile filesize fuel (k + 1) read unread buffer
    else .ok (0, buffer)

variable {σ : Type} (jsonParse : Block → σ → Except Trap (Int × σ))

/-- `_parse_elements`, with the calls it makes. Behind its label `error` both resources are given
back, whether they have been acquired or not. -/
def parseElements (fuel : Nat) (conf : σ) : Except Trap (Int × σ × List Call) := do
  let error (ret : Int) (conf : σ) (buffer : Pointer) (calls : List Call) :=
    (ret, conf, calls ++ [.fclose files.opened, .free buffer])
  /- read the file -/
  if files.opened = false then return error (-1) conf .uninitialised []
  let filesize := int32 files.position
  /- alloc a buffer -/
  match files.malloc with
  | none => return error (-1) conf .null []
  | some bytes =>
  /- read the file -/
  let (ret, buffer) ← readFile files filesize fuel 0 0 files.content ⟨sizeT filesize, bytes⟩
  if ret ≠ 0 then return error (-1) conf (.block buffer) []
  let (ret, conf) ← jsonParse buffer conf
  if ret ≠ 0 then return error (-1) conf (.block buffer) [.jsonParse buffer ret]
  return error 0 conf (.block buffer) [.jsonParse buffer ret]

end Code

/-! ### The loop -/

section Loop

theorem fread_length (files : Files) (k n : Nat) (unread : List UInt8) :
    (fread files k n unread).length ≤ n ∧ (fread files k n unread).length ≤ unread.length := by
  simp only [fread, List.length_take]
  omega

variable {files : Files} {filesize : Int}

/-- **A file that is read to its end** has at least the size that was asked for. -/
theorem readFile_exit (small : filesize < 2 ^ 31) {fuel k : Nat} {read ret : Int}
    {unread : List UInt8} {buffer buffer' : Block} (start : 0 ≤ read) (inside : read ≤ filesize)
    (ran : readFile files filesize fuel k read unread buffer = .ok (ret, buffer')) :
    ret = 0 ∧ buffer'.size = buffer.size ∧ filesize ≤ read + unread.length := by
  induction fuel generalizing k read unread buffer with
  | zero => simp [readFile] at ran
  | succ fuel ih =>
    rw [readFile] at ran
    by_cases more : read < filesize
    · obtain ⟨asked, left⟩ := fread_length files k (sizeT (filesize - read)) unread
      have size : (sizeT (filesize - read) : Int) = filesize - read := by
        rw [sizeT]
        omega
      generalize fread files k (sizeT (filesize - read)) unread = bytes at ran asked left
      have value : int32 (read + bytes.length) = read + bytes.length :=
        int32_of_range (by omega) (by omega)
      have onwards : ¬ read + (bytes.length : Int) < 0 := by omega
      simp only [if_pos more, value, if_neg onwards] at ran
      obtain ⟨zero, same, enough⟩ := ih (by omega) (by omega) ran
      rw [List.length_drop] at enough
      exact ⟨zero, same, by omega⟩
    · simp only [if_neg more, Except.ok.injEq, Prod.mk.injEq] at ran
      obtain ⟨rfl, rfl⟩ := ran
      exact ⟨rfl, rfl, by omega⟩

/-- Nothing is read of a file that is taken to have a negative size. -/
theorem readFile_negative (negative : filesize < 0) (fuel : Nat) (unread : List UInt8)
    (buffer : Block) :
    readFile files filesize (fuel + 1) 0 0 unread buffer = .ok (0, buffer) := by
  rw [readFile, if_neg (by omega)]

end Loop

/-! ### Loading a file -/

/-- The buffer holds the bytes of the file, and a null character behind them. -/
structure Holds (content : List UInt8) (buffer : Block) : Prop where
  room : content.length < buffer.size
  bytes : ∀ i (inside : i < content.length), buffer.bytes i = content[i]
  terminator : buffer.bytes content.length = 0

/-- **How `_parse_elements` should be left.** -/
structure CleanExit (files : Files) (ret : Int) (calls : List Call) : Prop where
  closed : calls.countP Call.isFclose = if files.opened then 1 else 0
  freed : calls.countP Call.isFreeBlock = if files.opened ∧ files.malloc.isSome then 1 else 0
  initialised : .free .uninitialised ∉ calls
  passed : ∀ buffer code, .jsonParse buffer code ∈ calls → Holds files.content buffer
  failed : ret = -1 ∨ ret = 0 ∧ ∃ buffer, .jsonParse buffer 0 ∈ calls

section Loads

variable (files : Files) {σ : Type} (jsonParse : Block → σ → Except Trap (Int × σ)) (conf : σ)

/-- `_parse_elements` returns, and is left as it should be. -/
def Loads : Prop :=
  ∃ fuel ret conf' calls, parseElements files jsonParse fuel conf = .ok (ret, conf', calls) ∧
    CleanExit files ret calls

variable {files jsonParse conf}

/-- A file that cannot be opened: what is freed has never been set. -/
theorem parseElements_closed (closed : files.opened = false) (fuel : Nat) :
    parseElements files jsonParse fuel conf =
      .ok (-1, conf, [.fclose files.opened, .free .uninitialised]) := by
  rw [parseElements, if_pos closed]
  rfl

/-- No buffer: the file is closed, and nothing is freed. -/
theorem parseElements_unallocated (opened : files.opened = true) (none : files.malloc = none)
    (fuel : Nat) :
    parseElements files jsonParse fuel conf =
      .ok (-1, conf, [.fclose files.opened, .free .null]) := by
  simp only [parseElements, opened, none]
  rfl

/-- A buffer that is given to the parser. -/
theorem parseElements_parsed (opened : files.opened = true) {bytes : Nat → UInt8}
    (allocated : files.malloc = some bytes) {fuel : Nat} {buffer : Block}
    (filled : readFile files (int32 files.position) fuel 0 0 files.content
      ⟨sizeT (int32 files.position), bytes⟩ = .ok (0, buffer)) :
    parseElements files jsonParse fuel conf = jsonParse buffer conf >>= fun out =>
      .ok (if out.1 = 0 then 0 else -1, out.2,
        [.jsonParse buffer out.1, .fclose files.opened, .free (.block buffer)]) := by
  simp only [parseElements, opened, allocated, filled]
  show (jsonParse buffer conf >>= _) = _
  congr 1
  funext out
  by_cases zero : out.1 = 0
  · simp only [zero]
    rfl
  · simp only [if_pos zero, if_neg zero]
    rfl

/-- **What a clean exit tells** of a buffer that has been allocated: it has been filled, and if
nothing has gone wrong, it holds the file and is parsed. -/
theorem filled_of_clean (opened : files.opened = true) {bytes : Nat → UInt8}
    (allocated : files.malloc = some bytes) {fuel : Nat} {ret : Int} {conf' : σ} {calls : List Call}
    (ran : parseElements files jsonParse fuel conf = .ok (ret, conf', calls))
    (clean : CleanExit files ret calls) :
    ∃ code buffer, readFile files (int32 files.position) fuel 0 0 files.content
        ⟨sizeT (int32 files.position), bytes⟩ = .ok (code, buffer) ∧
      (code = 0 → Holds files.content buffer ∧ ∃ out, jsonParse buffer conf = .ok out) := by
  obtain ⟨⟨code, buffer⟩, filled⟩ : ∃ out, readFile files (int32 files.position) fuel 0 0
      files.content ⟨sizeT (int32 files.position), bytes⟩ = .ok out := by
    simp only [parseElements, opened, allocated] at ran
    obtain ⟨out, filled, _⟩ := bind_eq_ok.mp ran
    exact ⟨out, filled⟩
  refine ⟨code, buffer, filled, ?_⟩
  rintro rfl
  rw [parseElements_parsed opened allocated filled] at ran
  obtain ⟨out, parsed, same⟩ := bind_eq_ok.mp ran
  simp only [Except.ok.injEq, Prod.mk.injEq] at same
  obtain ⟨_, _, rfl⟩ := same
  exact ⟨clean.passed buffer out.1 (by simp), out, parsed⟩

/-- A buffer that has been filled has no byte more than the file. -/
theorem not_holds_of_filled (positive : 0 ≤ int32 files.position) {bytes : Nat → UInt8}
    {fuel : Nat} {code : Int} {buffer : Block}
    (filled : readFile files (int32 files.position) fuel 0 0 files.content
      ⟨sizeT (int32 files.position), bytes⟩ = .ok (code, buffer)) :
    code = 0 ∧ ¬ Holds files.content buffer := by
  have small := int32_lt files.position
  obtain ⟨zero, size, enough⟩ := readFile_exit small (Int.le_refl 0) positive filled
  refine ⟨zero, fun holds => ?_⟩
  have room : files.content.length < sizeT (int32 files.position) := by
    simpa only [size] using holds.room
  have value : (sizeT (int32 files.position) : Int) = int32 files.position := by
    rw [sizeT]
    omega
  omega

/-- No buffer, and a clean exit. -/
theorem cleanExit_unallocated (opened : files.opened = true) (none : files.malloc = none) :
    CleanExit files (-1) [.fclose files.opened, .free .null] where
  closed := by
    rw [opened]
    rfl
  freed := by
    rw [opened, none]
    rfl
  initialised := by simp
  passed := by simp
  failed := .inl rfl

/-- A buffer that holds the file and is parsed, and a clean exit. -/
theorem cleanExit_parsed (opened : files.opened = true) {bytes : Nat → UInt8}
    (allocated : files.malloc = some bytes) {buffer : Block} (holds : Holds files.content buffer)
    (ret : Int) : CleanExit files (if ret = 0 then 0 else -1)
      [.jsonParse buffer ret, .fclose files.opened, .free (.block buffer)] where
  closed := by
    rw [opened]
    rfl
  freed := by
    rw [opened, allocated]
    rfl
  initialised := by simp
  passed := by
    simp only [List.mem_cons, Call.jsonParse.injEq, reduceCtorEq, List.not_mem_nil, or_false]
    rintro buffer' code ⟨rfl, _⟩
    exact holds
  failed := by
    by_cases zero : ret = 0
    · subst zero
      exact .inr ⟨rfl, _, List.mem_cons_self⟩
    · exact .inl (if_neg zero)

variable (files jsonParse conf)

/-- **A configuration file is loaded as it should be exactly when** it is opened, and either no
buffer is allocated for it, or it is taken to have a negative size and what happens to be in the
buffer is the file with a null character behind it. -/
theorem loads_iff :
    Loads files jsonParse conf ↔ files.opened = true ∧
      (files.malloc = none ∨ ∃ bytes, files.malloc = some bytes ∧ int32 files.position < 0 ∧
        let buffer : Block := ⟨sizeT (int32 files.position), bytes⟩
        Holds files.content buffer ∧ ∃ out, jsonParse buffer conf = .ok out) := by
  constructor
  · rintro ⟨fuel, ret, conf', calls, ran, clean⟩
    by_cases opened : files.opened = true
    · refine ⟨opened, ?_⟩
      by_cases none : files.malloc = none
      · exact .inl none
      obtain ⟨bytes, allocated⟩ := Option.ne_none_iff_exists'.mp none
      obtain ⟨code, buffer, filled, handed⟩ := filled_of_clean opened allocated ran clean
      by_cases negative : int32 files.position < 0
      · cases fuel with
        | zero => cases filled
        | succ fuel =>
          rw [readFile_negative negative] at filled
          cases filled
          exact .inr ⟨bytes, allocated, negative, handed rfl⟩
      · obtain ⟨zero, unterminated⟩ := not_holds_of_filled (Int.not_lt.mp negative) filled
        exact absurd (handed zero).1 unterminated
    · -- `fclose` and `free` are called all the same
      rw [parseElements_closed (Bool.eq_false_iff.mpr opened)] at ran
      simp only [Except.ok.injEq, Prod.mk.injEq] at ran
      obtain ⟨_, _, rfl⟩ := ran
      exact absurd clean.initialised (by simp)
  · rintro ⟨opened, none | ⟨bytes, allocated, negative, holds, ⟨ret, conf'⟩, parsed⟩⟩
    · exact ⟨0, _, _, _, parseElements_unallocated opened none 0,
        cleanExit_unallocated opened none⟩
    · have ran : parseElements files jsonParse 1 conf = _ :=
        parseElements_parsed opened allocated (readFile_negative negative 0 _ _)
      rw [parsed, ok_bind] at ran
      exact ⟨1, _, _, _, ran, cleanExit_parsed opened allocated holds ret⟩

/-- A file that is not there. -/
def missing : Files where
  content := []
  opened := false
  position := -1
  malloc := none
  offered _ := 0

/-- A null file is closed, and a pointer is freed that has never been set. -/
theorem loads_fails_missing : ¬ Loads missing (fun _ conf => .ok (0, conf)) () := by
  rintro ⟨fuel, ret, conf', calls, ran, clean⟩
  rw [parseElements_closed rfl] at ran
  simp only [Except.ok.injEq, Prod.mk.injEq] at ran
  obtain ⟨_, _, rfl⟩ := ran
  exact absurd clean.closed (by decide)

end Loads

end CyberPlatform.ConfFile
