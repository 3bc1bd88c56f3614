/-
**Rules that are written to a file are read back.**

The parser has no counterpart in the daemon: `fileText` is the text that an author writes for some
rules, in the form of the files that come with the daemon.

* `Writable` — a rule that a file can say.
* `entries_fileText` — what the file says is what was written.
* `parse_fileText` — the parser reads the rules back.
-/

import CyberPlatform.Pcd.Grammar

namespace CyberPlatform.Pcd

open Foundation

/-- What is said of the characters of a text is decided over the text, not over all characters. -/
local instance (priority := 2000) decidableForallText {P : Char → Prop} [DecidablePred P]
    (line : Text) : Decidable (∀ c ∈ line, P c) :=
  List.decidableBAll P line

local instance (priority := 2000) decidableForallChar {P : Char → Prop} [DecidablePred P]
    (char : Option Char) : Decidable (∀ c ∈ char, P c) :=
  Option.decidableForallMem char

/-! ### The text of a file -/

/-- The text of an id -/
def idText (ruleId : RuleId) : Text := ruleId.groupName ++ '_' :: ruleId.ruleName

def startCondWords : StartCond → List Text
  | .none => ["NONE".toList]
  | .file name => ["FILE".toList, name]
  | .ruleCompleted ids => "RULE_COMPLETED".toList :: ids.map fun entry => idText entry.ruleId
  | .netDevice name => ["NETDEVICE".toList, name]
  | .ipcOwner owner => ["IPC_OWNER".toList, natText owner]
  | .envVar name value => ["ENV_VAR".toList, name, value]

def endCondWords : EndCond → List Text
  | .none => ["NONE".toList]
  | .file name => ["FILE".toList, name]
  | .exit exitStatus => ["EXIT".toList, natText exitStatus]
  | .netDevice name => ["NETDEVICE".toList, name]
  | .ipcOwner owner => ["IPC_OWNER".toList, natText owner]
  | .processReady _ => ["PROCESS_READY".toList]
  | .wait _ delay => ["WAIT".toList, natText delay]

def failureActionWords : FailureAction → List Text
  | .none => ["NONE".toList]
  | .reboot => ["REBOOT".toList]
  | .restart => ["RESTART".toList]
  | .execRule ruleId => ["EXEC_RULE".toList, idText ruleId]

def schedWords : SchedType → List Text
  | .fifo value => ["FIFO".toList, intText value]
  | .nice value => ["NICE".toList, intText value]

def commandText (command : Text) : Option Text → Text
  | none => command
  | some params => command ++ ' ' :: params

def timeoutText (timeout : Nat) : Text :=
  if timeout = forever then intText (-1) else natText timeout

def yesNo (yes : Bool) : Text := if yes then "YES".toList else "NO".toList

/-- What a file says of a rule -/
def Rule.values (rule : Rule) : List (Keyword × Text) :=
  [(.rule, idText rule.ruleId ++ if rule.indexed then ['$'] else []),
    (.startCond, unwords (startCondWords rule.startCondition)),
    (.command, commandText (rule.command.getD []) rule.params),
    (.endCond, unwords (endCondWords rule.endCondition)),
    (.endCondTimeout, timeoutText rule.timeout),
    (.failureAction, unwords (failureActionWords rule.failureAction)),
    (.active, yesNo (rule.ruleState = .active)),
    (.sched, unwords (schedWords rule.sched)),
    (.daemon, yesNo rule.daemon),
    (.user, natText rule.uid)]

/-- The line of a keyword -/
def lineText (entry : Keyword × Text) : Text := entry.1.name ++ " = ".toList ++ entry.2

/-- The file of some rules -/
def fileText (rules : List Rule) : Text :=
  (rules.flatMap Rule.values).flatMap fun entry => lineText entry ++ ['\n']

/-! ### Lines that are read back -/

/-- A value that is read back from its line: the line ends behind it. -/
structure Value (line : Text) : Prop where
  chars : ∀ c ∈ line, c ≠ '\x00' ∧ c ≠ '\n' ∧ c ≠ '#'
  first : ∀ c ∈ line.head?, assigns c = false
  last : ∀ c ∈ line.getLast?, isspace c = false

section Lines

variable {entry : Keyword × Text} {line : Text} {keyword : Keyword}

/-- The name of a keyword has neither blanks nor comments. -/
theorem name_plain (keyword : Keyword) :
    keyword.name ≠ [] ∧ ∀ c ∈ keyword.name, assigns c = false ∧ blank c = false ∧
      c ≠ '\x00' ∧ c ≠ '\n' ∧ c ≠ '#' := by
  cases keyword <;> decide

theorem keywordOf_name (keyword : Keyword) : keywordOf keyword.name = some keyword := by
  cases keyword <;> decide

/-- **A line is split where it was put together.** -/
theorem splitLine_lineText (value : Value line) :
    splitLine (lineText (keyword, line) ++ ['\n']) = some (keyword.name, line) := by
  obtain ⟨nonempty, name⟩ := name_plain keyword
  have between : ∀ c ∈ " = ".toList, c ≠ '\x00' ∧ c ≠ '\n' ∧ c ≠ '#' := by decide
  have kept : (lineText (keyword, line) ++ ['\n']).takeWhile
      (fun c => c ≠ '\x00' ∧ c ≠ '\n' ∧ c ≠ '#') = lineText (keyword, line) := by
    rw [List.takeWhile_append_of_pos]
    · simp
    · intro c member
      refine decide_eq_true ?_
      rcases List.mem_append.mp member with front | value'
      · rcases List.mem_append.mp front with inside | inside
        · exact (name c inside).2.2
        · exact between c inside
      · exact value.chars c value'
  have token : (lineText (keyword, line)).dropWhile blank = lineText (keyword, line) := by
    obtain ⟨c, rest, shape⟩ := List.exists_cons_of_ne_nil nonempty
    have plain := (name c (shape ▸ List.mem_cons_self)).2.1
    rw [lineText, shape, List.cons_append, List.cons_append,
      List.dropWhile_cons_of_neg (by rw [plain]; exact Bool.false_ne_true)]
  have inside : ∀ c ∈ keyword.name, (!assigns c) = true := fun c member => by
    rw [(name c member).1]
    rfl
  have rest : lineText (keyword, line) = keyword.name ++ ' ' :: '=' :: ' ' :: line := by
    rw [lineText, List.append_assoc]
    rfl
  have trimmed : (('=' :: ' ' :: line).dropWhile assigns).rdropWhile isspace = line := by
    have first : ('=' :: ' ' :: line).dropWhile assigns = line := by
      rw [List.dropWhile_cons_of_pos (by decide), List.dropWhile_cons_of_pos (by decide)]
      cases shape : line with
      | nil => rfl
      | cons c rest =>
        have plain := value.first c (by rw [shape]; rfl)
        exact List.dropWhile_cons_of_neg (by rw [plain]; exact Bool.false_ne_true)
    rw [first, List.rdropWhile_eq_self_iff]
    intro nonempty
    rw [value.last _ (List.getLast_mem_getLast? nonempty)]
    exact Bool.false_ne_true
  unfold splitLine
  dsimp only
  rw [kept, token, rest, List.dropWhile_append_of_pos inside, List.takeWhile_append_of_pos inside,
    List.dropWhile_cons_of_neg (by decide), List.takeWhile_cons_of_neg (by decide), List.append_nil]
  exact congrArg (fun line => some (keyword.name, line)) trimmed

/-- A value whose line fits into the buffer -/
structure Sayable (entry : Keyword × Text) : Prop where
  value : Value entry.2
  fits : (lineText entry).length + 2 ≤ maxLineSize

/-- **What a file says is what was written.** -/
theorem entries_lines {said : List (Keyword × Text)} (sayable : ∀ entry ∈ said, Sayable entry) :
    entries (said.flatMap fun entry => lineText entry ++ ['\n']) = said := by
  induction said with
  | nil => rfl
  | cons entry rest ih =>
    obtain ⟨keyword, line⟩ := entry
    obtain ⟨⟨value, fits⟩, others⟩ := List.forall_mem_cons.mp sayable
    have whole : '\n' ∉ lineText (keyword, line) := by
      intro member
      rcases List.mem_append.mp member with front | inside
      · rcases List.mem_append.mp front with name | between
        · exact ((name_plain keyword).2 _ name).2.2.2.1 rfl
        · revert between
          decide
      · exact (value.chars _ inside).2.1 rfl
    have said : entryOf (lineText (keyword, line) ++ ['\n']) = some (keyword, line) := by
      rw [entryOf, splitLine_lineText value, Option.bind_some]
      show (keywordOf keyword.name).map _ = _
      rw [keywordOf_name]
      rfl
    rw [List.flatMap_cons, List.append_assoc, List.singleton_append, entries, lines_cons whole fits,
      List.filterMap_cons_some said]
    exact congrArg _ (ih others)

end Lines

/-! ### Rules that can be written -/

/-- A character of a word -/
def Plain (c : Char) : Prop := isspace c = false ∧ c ≠ '\x00' ∧ c ≠ '#' ∧ c ≠ ','

/-- A word is read back as one token. -/
structure Word (word : Text) : Prop where
  nonempty : word ≠ []
  chars : ∀ c ∈ word, Plain c

def StartCond.Writable : StartCond → Prop
  | .none => True
  | .file name => Word name ∧ name.length < condMaxSize
  | .ruleCompleted ids => ids ≠ [] ∧ ids.length ≤ startCondMaxIds ∧
      ∀ entry ∈ ids, entry.rule = Option.none ∧ entry.ruleId.Fits ∧ Word (idText entry.ruleId)
  | .netDevice name => Word name ∧ name.length < ifNameSize
  | .ipcOwner owner => owner < 2 ^ 31
  | .envVar name value =>
    Word name ∧ name.length < condMaxSize ∧ Word value ∧ value.length ≤ condMaxSize

def EndCond.Writable : EndCond → Prop
  | .none => True
  | .file name => Word name ∧ name.length < condMaxSize
  | .exit exitStatus => exitStatus < 2 ^ 31
  | .netDevice name => Word name ∧ name.length < ifNameSize
  | .ipcOwner owner => owner < 2 ^ 31
  | .processReady ready => ready = false
  | .wait left delay => left = delay ∧ delay < 2 ^ 31

def FailureAction.Writable : FailureAction → Prop
  | .execRule ruleId => ruleId.Fits ∧ Word (idText ruleId)
  | _ => True

/-- A command with its parameters, which begin behind the first blank -/
structure CommandLine (command : Text) (params : Option Text) : Prop where
  nonempty : command ≠ []
  chars : ∀ c ∈ command, isspace c = false ∧ c ≠ '\x00' ∧ c ≠ '#'
  first : ∀ c ∈ command.head?, c ≠ '='
  params : ∀ text ∈ params, text ≠ [] ∧ (∀ c ∈ text, c ≠ '\x00' ∧ c ≠ '\n' ∧ c ≠ '#') ∧
    ∀ c ∈ text.getLast?, isspace c = false

/-- **A rule that a file can say.** -/
structure Writable (rule : Rule) : Prop where
  ruleId : rule.ruleId.Fits ∧ Word (idText rule.ruleId)
  first : ∀ c ∈ rule.ruleId.groupName.head?, c ≠ '='
  plain : '$' ∉ rule.ruleId.ruleName
  /-- the name of a template has room for its mark -/
  template : rule.indexed = true → rule.ruleId.ruleName.length + 1 < maxRuleNameSize
  startCondition : rule.startCondition.Writable
  command : ∃ command, rule.command = some command ∧ CommandLine command rule.params
  endCondition : rule.endCondition.Writable
  timeout : rule.timeout = forever ∨
    rule.timeout < 2 ^ 31 ∧ Parser.waits rule.endCondition = false
  failureAction : rule.failureAction.Writable
  sched : rule.sched.Fits
  ruleState : rule.ruleState = .idle ∨ rule.ruleState = .active
  uid : rule.uid < 2 ^ 32
  unused : rule.optionalParams = none ∧ rule.proc = none
  /-- the lines fit into the buffer of the parser -/
  lines : ∀ entry ∈ rule.values, (lineText entry).length + 2 ≤ maxLineSize

section Words

variable {word : Text} {words : List Text}

theorem Plain.delimiter {c : Char} (plain : Plain c) : Pcd.delimiter c = false := by
  obtain ⟨blank, _, _, comma⟩ := plain
  simp only [isspace, Bool.or_eq_false_iff, decide_eq_false_iff_not] at blank
  simp [Pcd.delimiter, comma, blank]

theorem Plain.newline {c : Char} (plain : Plain c) : c ≠ '\n' := by
  rintro rfl
  exact absurd plain.1 (by decide)

/-- **Words are read back** as the tokens of their line. -/
theorem tokens_words (all : ∀ word ∈ words, Word word) :
    tokens delimiter (unwords words) = words :=
  tokens_unwords rfl fun word member =>
    ⟨(all word member).nonempty, fun c inside => ((all word member).chars c inside).delimiter⟩

/-- A line of words ends with the last one. -/
theorem last_unwords (all : ∀ word ∈ words, Word word) :
    ∀ c ∈ (unwords words).getLast?, isspace c = false := by
  induction words with
  | nil => exact fun c absent => by cases absent
  | cons word words ih =>
    obtain ⟨first, others⟩ := List.forall_mem_cons.mp all
    cases words with
    | nil =>
      rw [unwords_singleton]
      exact fun c last => (first.chars c (List.mem_of_mem_getLast? last)).1
    | cons next words =>
      have more : unwords (next :: words) ≠ [] := by
        have nonempty := (others next List.mem_cons_self).nonempty
        cases words with
        | nil => rwa [unwords_singleton]
        | cons _ _ =>
          rw [unwords_cons]
          exact List.append_ne_nil_of_left_ne_nil nonempty _
      rw [unwords_cons, List.getLast?_append_of_ne_nil _ (List.cons_ne_nil _ _),
        List.getLast?_cons_of_ne_nil more]
      exact ih others

/-- **A line of words is a value**, if it does not begin with an equals sign. -/
theorem value_unwords (all : ∀ word ∈ words, Word word)
    (first : ∀ word ∈ words.head?, ∀ c ∈ word.head?, c ≠ '=') : Value (unwords words) := by
  have chars : ∀ c ∈ unwords words, c ≠ '\x00' ∧ c ≠ '\n' ∧ c ≠ '#' := by
    intro c member
    rcases mem_unwords member with rfl | ⟨word, inside, here⟩
    · decide
    · have plain := (all word inside).chars c here
      exact ⟨plain.2.1, plain.newline, plain.2.2.1⟩
  refine ⟨chars, fun c head => ?_, last_unwords all⟩
  -- a word begins with none of its delimiters
  cases words with
  | nil => cases head
  | cons word words =>
    have begins : c ∈ word.head? := by
      cases words with
      | nil => rwa [unwords_singleton] at head
      | cons next words =>
        rw [unwords_cons,
          List.head?_append_of_ne_nil _ (all word List.mem_cons_self).nonempty] at head
        exact head
    have plain := (all word List.mem_cons_self).chars c (List.mem_of_mem_head? begins)
    have blank := plain.1
    simp only [isspace, Bool.or_eq_false_iff, decide_eq_false_iff_not] at blank
    simp [assigns, blank, first word rfl c begins]

theorem value_word (whole : Word word) (first : ∀ c ∈ word.head?, c ≠ '=') : Value word := by
  have value : Value (unwords [word]) := value_unwords (List.forall_mem_singleton.mpr whole)
    fun _ same => Option.mem_some_iff.mp same ▸ first
  rwa [unwords_singleton] at value

/-- The text of a number is a word. -/
theorem word_natText (n : Nat) : Word (natText n) := by
  refine ⟨natText_ne_nil, fun c member => ?_⟩
  obtain ⟨d, digit, rfl⟩ := mem_natText c member
  have all : ∀ d < 10, isspace d.digitChar = false ∧ d.digitChar ≠ '\x00' ∧ d.digitChar ≠ '#' ∧
      d.digitChar ≠ ',' := by decide
  exact all d digit

theorem word_intText (z : Int) : Word (intText z) := by
  rw [intText]
  split_ifs
  · refine ⟨List.cons_ne_nil _ _, fun c member => ?_⟩
    rcases List.mem_cons.mp member with rfl | digits
    · exact ⟨rfl, by decide, by decide, by decide⟩
    · exact (word_natText _).chars c digits
  · exact word_natText _

end Words

/-! ### Values that are read back -/

instance decidablePlain : DecidablePred Plain := fun c =>
  inferInstanceAs (Decidable (isspace c = false ∧ c ≠ '\x00' ∧ c ≠ '#' ∧ c ≠ ','))

section Values

/-- An id is split at its first underscore. -/
theorem parseRuleId_eq {groupName ruleName : Text} (whole : '_' ∉ groupName)
    (group : groupName.length < maxGroupNameSize) (rule : ruleName.length < maxRuleNameSize) :
    parseRuleId (groupName ++ '_' :: ruleName) = some ⟨groupName, ruleName⟩ := by
  have inside : ∀ c ∈ groupName, decide (c ≠ '_') = true := fun c member =>
    decide_eq_true fun same => whole (same ▸ member)
  unfold parseRuleId
  rw [List.dropWhile_append_of_pos inside, List.dropWhile_cons_of_neg (by decide),
    List.takeWhile_append_of_pos inside, List.takeWhile_cons_of_neg (by decide), List.append_nil]
  dsimp only
  rw [List.take_of_length_le (by omega), List.take_of_length_le (by omega)]

theorem parseRuleId_idText {ruleId : RuleId} (fits : ruleId.Fits) :
    parseRuleId (idText ruleId) = some ruleId :=
  parseRuleId_eq fits.whole fits.groupName fits.ruleName

theorem parseRuleIds_idText {ids : List RuleCache}
    (fits : ∀ entry ∈ ids, entry.rule = none ∧ entry.ruleId.Fits) :
    parseRuleIds (ids.map fun entry => idText entry.ruleId) = (true, ids) := by
  induction ids with
  | nil => rfl
  | cons entry ids ih =>
    obtain ⟨rule, ruleId⟩ := entry
    obtain ⟨⟨rfl, here⟩, others⟩ := List.forall_mem_cons.mp fits
    have here : ruleId.Fits := here
    have whole : (idText ruleId).length ≤ maxGroupNameSize + maxRuleNameSize + 1 := by
      have group := here.groupName
      have name := here.ruleName
      rw [idText, List.length_append, List.length_cons]
      omega
    rw [List.map_cons, parseRuleIds, List.take_of_length_le whole,
      parseRuleId_idText here, ih others]

/-- **A start condition is read back.** -/
theorem parseStartCond_words {cond : StartCond} (writable : cond.Writable) :
    parseStartCond (startCondWords cond) = some (true, cond) := by
  cases cond with
  | none => rfl
  | file name =>
    show some (true, StartCond.file (name.take (condMaxSize - 1))) = _
    rw [List.take_of_length_le (Nat.le_sub_one_of_lt writable.2)]
  | ruleCompleted ids =>
    obtain ⟨nonempty, few, all⟩ := writable
    have fits := parseRuleIds_idText fun entry member =>
      ⟨(all entry member).1, (all entry member).2.1⟩
    have taken : (ids.map fun entry => idText entry.ruleId).take startCondMaxIds =
        ids.map fun entry => idText entry.ruleId :=
      List.take_of_length_le (by rwa [List.length_map])
    show some _ = _
    rw [taken, fits]
    cases ids with
    | nil => exact absurd rfl nonempty
    | cons _ _ => rfl
  | netDevice name =>
    show some (true, StartCond.netDevice (name.take (ifNameSize - 1))) = _
    rw [List.take_of_length_le (Nat.le_sub_one_of_lt writable.2)]
  | ipcOwner owner =>
    show some (true, StartCond.ipcOwner (toU32 (atoi (natText owner)))) = _
    rw [toU32_atoi_natText writable]
  | envVar name value =>
    obtain ⟨_, short, _, fits⟩ := writable
    show some (true, StartCond.envVar (if name.length < condMaxSize then name else
      name.take condMaxSize ++ value.take condMaxSize) (value.take condMaxSize)) = _
    rw [if_pos short, List.take_of_length_le fits]

/-- **An end condition is read back.** -/
theorem parseEndCond_words {cond : EndCond} (writable : cond.Writable) :
    parseEndCond (endCondWords cond) = some (true, cond) := by
  cases cond with
  | none => rfl
  | file name =>
    show some (true, EndCond.file (name.take (condMaxSize - 1))) = _
    rw [List.take_of_length_le (Nat.le_sub_one_of_lt writable.2)]
  | exit exitStatus =>
    show some (true, EndCond.exit (toU32 (atoi (natText exitStatus)))) = _
    rw [toU32_atoi_natText writable]
  | netDevice name =>
    show some (true, EndCond.netDevice (name.take (ifNameSize - 1))) = _
    rw [List.take_of_length_le (Nat.le_sub_one_of_lt writable.2)]
  | ipcOwner owner =>
    show some (true, EndCond.ipcOwner (toU32 (atoi (natText owner)))) = _
    rw [toU32_atoi_natText writable]
  | processReady ready =>
    obtain rfl : ready = false := writable
    rfl
  | wait left delay =>
    obtain ⟨rfl, below⟩ := writable
    show some (true, EndCond.wait (toU32 (atoi (natText left))) (toU32 (atoi (natText left)))) = _
    rw [toU32_atoi_natText below]

/-- **A failure action is read back.** -/
theorem parseFailureAction_words {action : FailureAction} (writable : action.Writable) :
    parseFailureAction (failureActionWords action) = some (true, action) := by
  cases action with
  | execRule ruleId =>
    have read : [idText ruleId].head?.bind parseRuleId = some ruleId :=
      parseRuleId_idText writable.1
    rw [failureActionWords, parseFailureAction, if_neg (by decide), if_neg (by decide),
      if_neg (by decide), if_pos rfl, read]
  | _ => rfl

/-- **A scheduling is read back**, since its priority is in its range. -/
theorem parseSched_words {sched : SchedType} (fits : sched.Fits) :
    parseSched (schedWords sched) = some sched := by
  cases sched with
  | fifo value =>
    obtain ⟨above, below⟩ := fits
    show some (SchedType.fifo (if atoi (intText value) > 99 ∨ atoi (intText value) < 0 then 0 else
      atoi (intText value))) = _
    rw [atoi_intText (by omega) (by omega), if_neg (by omega)]
  | nice value =>
    obtain ⟨above, below⟩ := fits
    show some (SchedType.nice (if atoi (intText value) > 19 ∨ atoi (intText value) < -20 then 0 else
      atoi (intText value))) = _
    rw [atoi_intText (by omega) (by omega), if_neg (by omega)]

end Values

/-! ### The words of a rule -/

section RuleWords

/-- A word, and other words behind it -/
theorem words_cons {word : Text} {words : List Text} (first : Word word)
    (others : ∀ word ∈ words, Word word) : ∀ next ∈ word :: words, Word next :=
  List.forall_mem_cons.mpr ⟨first, others⟩

theorem words_nil : ∀ word ∈ ([] : List Text), Word word := fun _ absent =>
  absurd absent List.not_mem_nil

theorem word_startCond {cond : StartCond} (writable : cond.Writable) :
    ∀ word ∈ startCondWords cond, Word word := by
  cases cond with
  | none => exact words_cons ⟨by decide, by decide⟩ words_nil
  | file name => exact words_cons ⟨by decide, by decide⟩ (words_cons writable.1 words_nil)
  | ruleCompleted ids =>
    refine words_cons ⟨by decide, by decide⟩ fun word member => ?_
    obtain ⟨entry, inside, rfl⟩ := List.mem_map.mp member
    exact (writable.2.2 entry inside).2.2
  | netDevice name => exact words_cons ⟨by decide, by decide⟩ (words_cons writable.1 words_nil)
  | ipcOwner owner =>
    exact words_cons ⟨by decide, by decide⟩ (words_cons (word_natText _) words_nil)
  | envVar name value =>
    exact words_cons ⟨by decide, by decide⟩
      (words_cons writable.1 (words_cons writable.2.2.1 words_nil))

theorem word_endCond {cond : EndCond} (writable : cond.Writable) :
    ∀ word ∈ endCondWords cond, Word word := by
  cases cond with
  | none => exact words_cons ⟨by decide, by decide⟩ words_nil
  | file name => exact words_cons ⟨by decide, by decide⟩ (words_cons writable.1 words_nil)
  | exit _ => exact words_cons ⟨by decide, by decide⟩ (words_cons (word_natText _) words_nil)
  | netDevice name => exact words_cons ⟨by decide, by decide⟩ (words_cons writable.1 words_nil)
  | ipcOwner _ => exact words_cons ⟨by decide, by decide⟩ (words_cons (word_natText _) words_nil)
  | processReady _ => exact words_cons ⟨by decide, by decide⟩ words_nil
  | wait _ _ => exact words_cons ⟨by decide, by decide⟩ (words_cons (word_natText _) words_nil)

theorem word_failureAction {action : FailureAction} (writable : action.Writable) :
    ∀ word ∈ failureActionWords action, Word word := by
  cases action with
  | none => exact words_cons ⟨by decide, by decide⟩ words_nil
  | reboot => exact words_cons ⟨by decide, by decide⟩ words_nil
  | restart => exact words_cons ⟨by decide, by decide⟩ words_nil
  | execRule ruleId => exact words_cons ⟨by decide, by decide⟩ (words_cons writable.2 words_nil)

theorem word_sched (sched : SchedType) : ∀ word ∈ schedWords sched, Word word := by
  cases sched with
  | fifo _ => exact words_cons ⟨by decide, by decide⟩ (words_cons (word_intText _) words_nil)
  | nice _ => exact words_cons ⟨by decide, by decide⟩ (words_cons (word_intText _) words_nil)

theorem value_natText (n : Nat) : Value (natText n) := by
  refine value_word (word_natText n) fun c head => ?_
  obtain ⟨d, digit, rfl⟩ := mem_natText c (List.mem_of_mem_head? head)
  have all : ∀ d < 10, d.digitChar ≠ '=' := by decide
  exact all d digit

theorem value_timeout (timeout : Nat) : Value (timeoutText timeout) := by
  unfold timeoutText
  split_ifs
  · exact ⟨by decide, by decide, by decide⟩
  · exact value_natText _

theorem value_yesNo (yes : Bool) : Value (yesNo yes) := by
  cases yes <;> exact ⟨by decide, by decide, by decide⟩

theorem value_id {rule : Rule} (writable : Writable rule) :
    Value (idText rule.ruleId ++ if rule.indexed then ['$'] else []) := by
  have whole := writable.ruleId.2
  refine value_word ⟨List.append_ne_nil_of_left_ne_nil whole.nonempty _, fun c member => ?_⟩ ?_
  · rcases List.mem_append.mp member with inside | mark
    · exact whole.chars c inside
    · split_ifs at mark
      · rw [List.mem_singleton.mp mark]
        decide
      · exact absurd mark List.not_mem_nil
  · intro c head
    rw [List.head?_append_of_ne_nil _ whole.nonempty, idText] at head
    cases shape : rule.ruleId.groupName with
    | nil =>
      rw [shape] at head
      obtain rfl := Option.mem_some_iff.mp head
      decide
    | cons first rest =>
      refine writable.first c ?_
      rw [shape] at head ⊢
      exact head

theorem value_command {command : Text} {params : Option Text} (line : CommandLine command params) :
    Value (commandText command params) := by
  have plain : ∀ c ∈ command, c ≠ '\x00' ∧ c ≠ '\n' ∧ c ≠ '#' := by
    intro c member
    obtain ⟨blank, zero, comment⟩ := line.chars c member
    refine ⟨zero, ?_, comment⟩
    rintro rfl
    exact absurd blank (by decide)
  have first : ∀ c ∈ command.head?, assigns c = false := by
    intro c head
    have blank := (line.chars c (List.mem_of_mem_head? head)).1
    simp only [isspace, Bool.or_eq_false_iff, decide_eq_false_iff_not] at blank
    simp [assigns, blank, line.first c head]
  cases shape : params with
  | none =>
    exact ⟨plain, first, fun c last => (line.chars c (List.mem_of_mem_getLast? last)).1⟩
  | some text =>
    obtain ⟨nonempty, chars, last⟩ := line.params text shape
    refine ⟨fun c member => ?_, ?_, ?_⟩
    · rcases List.mem_append.mp member with front | back
      · exact plain c front
      · rcases List.mem_cons.mp back with rfl | inside
        · decide
        · exact chars c inside
    · rw [commandText, List.head?_append_of_ne_nil _ line.nonempty]
      exact first
    · rw [commandText, List.getLast?_append_of_ne_nil _ (List.cons_ne_nil _ _),
        List.getLast?_cons_of_ne_nil nonempty]
      exact last

/-- **What a file says of a rule can be said.** -/
theorem sayable_values {rule : Rule} (writable : Writable rule) :
    ∀ entry ∈ rule.values, Sayable entry := by
  have fits := writable.lines
  obtain ⟨command, same, line⟩ := writable.command
  have values : ∀ entry ∈ rule.values, Value entry.2 := by
    unfold Rule.values
    simp only [List.forall_mem_cons]
    refine ⟨value_id writable, value_unwords (word_startCond writable.startCondition) ?_, ?_,
      value_unwords (word_endCond writable.endCondition) ?_, value_timeout _,
      value_unwords (word_failureAction writable.failureAction) ?_, value_yesNo _,
      value_unwords (word_sched _) ?_, value_yesNo _, value_natText _,
      fun _ absent => absurd absent List.not_mem_nil⟩
    · cases rule.startCondition <;> rintro word ⟨⟩ c ⟨⟩ <;> decide
    · rw [same]
      exact value_command line
    · cases rule.endCondition <;> rintro word ⟨⟩ c ⟨⟩ <;> decide
    · cases rule.failureAction <;> rintro word ⟨⟩ c ⟨⟩ <;> decide
    · cases rule.sched <;> rintro word ⟨⟩ c ⟨⟩ <;> decide
  exact fun entry member => ⟨values entry member, fits entry member⟩

end RuleWords

/-! ### Rules that are read back -/

section Rules

variable {p : Parser} {k : Nat} {rule x : Rule} {fileVersion : Int} {added : List Rule}

/-- The next mandatory keyword is accepted. -/
theorem updateParseStatus_next (less : k < 7) {keyword : Keyword}
    (place : Keyword.order[k]? = some keyword) :
    Parser.updateParseStatus ⟨x, fileVersion, statusOf k, added⟩ keyword =
      .ok ⟨x, fileVersion, statusOf (k + 1), added⟩ := by
  have mandatory : keyword.mandatory :=
    (List.mem_filter.mp (List.mem_of_getElem? place)).2
  rw [updateParseStatus_eq less.le rfl mandatory, if_pos place]

/-- **The parser between two rules**: what it has read has been added, up to a complete rule. -/
inductive Boundary (p : Parser) (added : List Rule) : Prop
  | first : p.readParseStatus = statusOf 0 → p.rule = .zero → p.rules = added → Boundary p added
  | behind : p.readParseStatus = statusOf 7 → p.rules ++ [p.rule] = added → Boundary p added

/-- The rule in front is added. -/
theorem handleRule_boundary (boundary : Boundary p added) (line : Text) :
    p.handleRule line = Parser.handleRule line ⟨.zero, p.fileVersion, statusOf 0, added⟩ := by
  cases boundary with
  | first status rule rules =>
    obtain ⟨_, _, _, _⟩ := p
    obtain rfl := status
    obtain rfl := rule
    obtain rfl := rules
    rfl
  | behind status rules =>
    have begun := (isParseStatusSet_rule le_rfl status).mpr (by decide)
    have fresh : ¬ (⟨.zero, p.fileVersion, statusOf 0, added⟩ : Parser).isParseStatusSet .rule :=
      fun later => absurd ((isParseStatusSet_rule (Nat.zero_le 7) rfl).mp later) (by decide)
    unfold Parser.handleRule
    rw [if_pos begun, if_neg fresh, writeRuleToDb_of (status.trans rfl), rules]
    rfl

/-- An id begins a rule. -/
theorem handleRule_id (writable : Writable rule) (boundary : Boundary p added) :
    p.handleRule (idText rule.ruleId ++ if rule.indexed then ['$'] else []) =
      .ok ⟨{ Rule.zero with ruleId := rule.ruleId, indexed := rule.indexed }, p.fileVersion,
        statusOf 1, added⟩ := by
  have fresh : ¬ (⟨.zero, p.fileVersion, statusOf 0, added⟩ : Parser).isParseStatusSet .rule :=
    fun later => absurd ((isParseStatusSet_rule (Nat.zero_le 7) rfl).mp later) (by decide)
  obtain ⟨fits, _⟩ := writable.ruleId
  rw [handleRule_boundary boundary, Parser.handleRule, if_neg fresh]
  show (Parser.updateParseStatus ⟨.zero, p.fileVersion, statusOf 0, added⟩ .rule >>= fun p => _) = _
  rw [updateParseStatus_next (by decide) rfl]
  cases mark : rule.indexed with
  | false =>
    rw [if_neg Bool.false_ne_true, List.append_nil, parseRuleId_idText fits]
    show (if '$' ∈ rule.ruleId.ruleName then _ else _) = _
    rw [if_neg writable.plain]
    rfl
  | true =>
    have shorter := writable.template mark
    have parsed : parseRuleId (idText rule.ruleId ++ ['$']) =
        some ⟨rule.ruleId.groupName, rule.ruleId.ruleName ++ ['$']⟩ := by
      rw [idText, List.append_assoc, List.cons_append]
      refine parseRuleId_eq fits.whole fits.groupName ?_
      rwa [List.length_append]
    have inside : ∀ c ∈ rule.ruleId.ruleName, decide (c ≠ '$') = true := fun c member =>
      decide_eq_true fun same => writable.plain (same ▸ member)
    have cut : (rule.ruleId.ruleName ++ ['$']).takeWhile (· ≠ '$') = rule.ruleId.ruleName := by
      rw [List.takeWhile_append_of_pos inside, List.takeWhile_cons_of_neg (by decide),
        List.append_nil]
    rw [if_pos rfl, parsed]
    show (if '$' ∈ rule.ruleId.ruleName ++ ['$'] then _ else _) = _
    rw [if_pos (List.mem_append_right _ (List.mem_singleton_self _)), cut]
    rfl

theorem handleStartCond_words {cond : StartCond} (writable : cond.Writable) :
    Parser.handleStartCond (unwords (startCondWords cond)) ⟨x, fileVersion, statusOf 1, added⟩ =
      .ok ⟨{ x with startCondition := cond }, fileVersion, statusOf 2, added⟩ := by
  unfold Parser.handleStartCond
  rw [updateParseStatus_next (by decide) rfl, tokens_words (word_startCond writable),
    parseStartCond_words writable]
  rfl

theorem handleCommand_text {command : Text} {params : Option Text}
    (line : CommandLine command params) (unset : x.params = none) :
    Parser.handleCommand (commandText command params) ⟨x, fileVersion, statusOf 2, added⟩ =
      .ok ⟨{ x with command, params }, fileVersion, statusOf 3, added⟩ := by
  have inside : ∀ c ∈ command, decide (c ≠ ' ') = true := by
    intro c member
    refine decide_eq_true ?_
    rintro rfl
    exact absurd (line.chars ' ' member).1 (by decide)
  unfold Parser.handleCommand
  rw [updateParseStatus_next (by decide) rfl]
  cases params with
  | none =>
    have whole : command.takeWhile (· ≠ ' ') = command := List.takeWhile_eq_self_iff.mpr inside
    have nothing : command.dropWhile (· ≠ ' ') = [] := List.dropWhile_eq_nil_iff.mpr inside
    rw [commandText, whole, nothing]
    obtain ⟨_, _, _, _, _, _, _, _, _, _, _, _, _, _⟩ := x
    obtain rfl := unset
    rfl
  | some text =>
    have front : (command ++ ' ' :: text).takeWhile (· ≠ ' ') = command := by
      rw [List.takeWhile_append_of_pos inside, List.takeWhile_cons_of_neg (by decide),
        List.append_nil]
    have back : (command ++ ' ' :: text).dropWhile (· ≠ ' ') = ' ' :: text := by
      rw [List.dropWhile_append_of_pos inside, List.dropWhile_cons_of_neg (by decide)]
    rw [commandText, front, back]
    rfl

theorem handleEndCond_words {cond : EndCond} (writable : cond.Writable) :
    Parser.handleEndCond (unwords (endCondWords cond)) ⟨x, fileVersion, statusOf 3, added⟩ =
      .ok ⟨{ x with endCondition := cond }, fileVersion, statusOf 4, added⟩ := by
  unfold Parser.handleEndCond
  rw [updateParseStatus_next (by decide) rfl, tokens_words (word_endCond writable),
    parseEndCond_words writable]
  rfl

theorem handleEndCondTimeout_text {timeout : Nat} {cond : EndCond} (same : x.endCondition = cond)
    (fits : timeout = forever ∨ timeout < 2 ^ 31 ∧ Parser.waits cond = false) :
    Parser.handleEndCondTimeout (timeoutText timeout) ⟨x, fileVersion, statusOf 4, added⟩ =
      .ok ⟨{ x with timeout }, fileVersion, statusOf 5, added⟩ := by
  subst same
  unfold Parser.handleEndCondTimeout
  dsimp only
  rw [updateParseStatus_next (by decide) rfl]
  by_cases endless : timeout = forever
  · have minus : atoi (timeoutText timeout) = -1 := by
      rw [timeoutText, if_pos endless]
      exact atoi_intText (by decide) (by decide)
    rw [minus, endless]
    rfl
  · obtain ⟨below, waits⟩ := fits.resolve_left endless
    have same : timeoutText timeout = intText timeout := by
      rw [timeoutText, if_neg endless]
      rfl
    have number : atoi (intText timeout) = timeout := atoi_intText (by omega) (by omega)
    have stored : toU32 timeout = timeout := by
      unfold toU32
      omega
    rw [same, number]
    show (if (timeout : Int) = -1 ∨ Parser.waits x.endCondition = true then _ else _) = _
    rw [if_neg (not_or.mpr ⟨by omega, Bool.eq_false_iff.mp waits⟩), stored]
    rfl

theorem handleFailureAction_words {action : FailureAction} (writable : action.Writable) :
    Parser.handleFailureAction (unwords (failureActionWords action))
        ⟨x, fileVersion, statusOf 5, added⟩ =
      .ok ⟨{ x with failureAction := action }, fileVersion, statusOf 6, added⟩ := by
  unfold Parser.handleFailureAction
  rw [updateParseStatus_next (by decide) rfl, tokens_words (word_failureAction writable),
    parseFailureAction_words writable]
  rfl

theorem handleActive_yesNo {ruleState : RuleState}
    (stable : ruleState = .idle ∨ ruleState = .active) :
    Parser.handleActive (yesNo (ruleState = .active)) ⟨x, fileVersion, statusOf 6, added⟩ =
      .ok ⟨{ x with ruleState }, fileVersion, statusOf 7, added⟩ := by
  unfold Parser.handleActive
  rw [updateParseStatus_next (by decide) rfl]
  obtain rfl | rfl := stable <;> rfl

theorem handleSched_words {sched : SchedType} (fits : sched.Fits) :
    Parser.handleSched (unwords (schedWords sched)) ⟨x, fileVersion, statusOf 7, added⟩ =
      .ok ⟨{ x with sched }, fileVersion, statusOf 7, added⟩ := by
  unfold Parser.handleSched
  rw [tokens_words (word_sched sched), parseSched_words fits]

theorem handleDaemon_yesNo (daemon : Bool) :
    Parser.handleDaemon (yesNo daemon) ⟨x, fileVersion, statusOf 7, added⟩ =
      .ok ⟨{ x with daemon }, fileVersion, statusOf 7, added⟩ := by
  cases daemon <;> rfl

theorem handleUser_natText (getpwnam : Text → Option UInt32) {uid : Nat} (below : uid < 2 ^ 32) :
    Parser.handleUser getpwnam (natText uid) ⟨x, fileVersion, statusOf 7, added⟩ =
      .ok ⟨{ x with uid }, fileVersion, statusOf 7, added⟩ := by
  have letters : (natText uid).all (fun c => !c.isAlpha) = true := by
    refine List.all_eq_true.mpr fun c member => ?_
    obtain ⟨d, digit, rfl⟩ := mem_natText c member
    have all : ∀ d < 10, (!d.digitChar.isAlpha) = true := by decide
    exact all d digit
  unfold Parser.handleUser
  rw [if_pos letters, strtoul_natText (by omega), Nat.mod_eq_of_lt below]

variable {host : Host} {read : Text → Parser → Option (Bool × Parser)}

theorem readEntries_cons (keyword : Keyword) {line : Text} {rest : List (Keyword × Text)}
    {p' : Parser} (handled : handle host read keyword line p = some (.ok p')) :
    readEntries host read ((keyword, line) :: rest) p = readEntries host read rest p' := by
  rw [readEntries, handled]

/-- **A rule is read back.** -/
theorem readEntries_values (writable : Writable rule) (boundary : Boundary p added)
    (rest : List (Keyword × Text)) :
    readEntries host read (rule.values ++ rest) p =
      readEntries host read rest ⟨rule, p.fileVersion, statusOf 7, added⟩ := by
  obtain ⟨command, same, line⟩ := writable.command
  obtain ⟨optionalParams, proc⟩ := writable.unused
  have text : commandText (rule.command.getD []) rule.params = commandText command rule.params := by
    rw [same]
    rfl
  unfold Rule.values
  rw [text]
  simp only [List.cons_append, List.nil_append]
  refine (readEntries_cons .rule (congrArg some (handleRule_id writable boundary))).trans ?_
  refine (readEntries_cons .startCond (congrArg some
    (handleStartCond_words writable.startCondition))).trans ?_
  refine (readEntries_cons .command (congrArg some (handleCommand_text line rfl))).trans ?_
  refine (readEntries_cons .endCond (congrArg some
    (handleEndCond_words writable.endCondition))).trans ?_
  refine (readEntries_cons .endCondTimeout (congrArg some
    (handleEndCondTimeout_text ?same writable.timeout))).trans ?_
  case same => rfl
  refine (readEntries_cons .failureAction (congrArg some
    (handleFailureAction_words writable.failureAction))).trans ?_
  refine (readEntries_cons .active (congrArg some
    (handleActive_yesNo writable.ruleState))).trans ?_
  refine (readEntries_cons .sched (congrArg some (handleSched_words writable.sched))).trans ?_
  refine (readEntries_cons .daemon (congrArg some (handleDaemon_yesNo rule.daemon))).trans ?_
  refine (readEntries_cons .user (congrArg some
    (handleUser_natText host.getpwnam writable.uid))).trans ?_
  obtain ⟨ruleId, startCondition, endCondition, timeout, _, params, _, failureAction, sched,
    daemon, uid,
    ruleState, indexed, _⟩ := rule
  obtain rfl := same
  obtain rfl := optionalParams
  obtain rfl := proc
  rfl

/-- **Rules are read back** one behind the other. -/
theorem readEntries_rules {rules : List Rule} (writable : ∀ rule ∈ rules, Writable rule) :
    ∀ {p : Parser} {added : List Rule}, Boundary p added →
      ∃ p', readEntries host read (rules.flatMap Rule.values) p = some (true, p') ∧
        Boundary p' (added ++ rules) := by
  induction rules with
  | nil =>
    intro p added boundary
    exact ⟨p, rfl, (List.append_nil added).symm ▸ boundary⟩
  | cons rule rules ih =>
    intro p added boundary
    obtain ⟨here, others⟩ := List.forall_mem_cons.mp writable
    have behind : Boundary ⟨rule, p.fileVersion, statusOf 7, added⟩ (added ++ [rule]) :=
      .behind rfl rfl
    obtain ⟨p', ran, boundary'⟩ := ih others behind
    refine ⟨p', ?_, ?_⟩
    · rw [List.flatMap_cons, readEntries_values here boundary]
      exact ran
    · rwa [List.append_cons added rule rules]

/-- The last rule is added at the end of the file. -/
theorem flush_boundary (boundary : Boundary p added) :
    ∃ p', flush (true, p) = (true, p') ∧ p'.rules = added := by
  unfold flush
  dsimp only
  cases boundary with
  | first status _ rules =>
    have fresh : ¬ p.isParseStatusSet .rule := fun later =>
      absurd ((isParseStatusSet_rule (Nat.zero_le 7) status).mp later) (by decide)
    rw [if_neg fresh]
    exact ⟨p, rfl, rules⟩
  | behind status rules =>
    have begun := (isParseStatusSet_rule le_rfl status).mpr (by decide)
    rw [if_pos begun, writeRuleToDb_of (status.trans rfl)]
    exact ⟨_, rfl, rules⟩

end Rules

/-- **What is in the file of some rules** is what it says of them. -/
theorem entries_fileText {rules : List Rule} (writable : ∀ rule ∈ rules, Writable rule) :
    entries (fileText rules) = rules.flatMap Rule.values := by
  refine entries_lines fun entry member => ?_
  obtain ⟨rule, inside, here⟩ := List.mem_flatMap.mp member
  exact sayable_values (writable rule inside) entry here

/-- **Rules that are written to a file are read back**, all of them and in their order. -/
theorem parse_fileText {rules : List Rule} (writable : ∀ rule ∈ rules, Writable rule) {host : Host}
    {filename : Text} (opened : host.fopen filename = some (fileText rules)) (depth : Nat) :
    ∃ p, parse host (depth + 1) filename = some (true, p) ∧ p.rules = rules := by
  have start : Boundary .initial [] := .first rfl rfl rfl
  obtain ⟨p, ran, boundary⟩ : ∃ p, readEntries host (readConfig host depth)
      (rules.flatMap Rule.values) .initial = some (true, p) ∧ Boundary p ([] ++ rules) :=
    readEntries_rules writable start
  obtain ⟨p', flushed, same⟩ := flush_boundary boundary
  refine ⟨p', ?_, same⟩
  rw [parse, readConfig, opened]
  show (readEntries host (readConfig host depth) (entries (fileText rules)) .initial).map flush = _
  rw [entries_fileText writable, ran]
  exact congrArg some flushed

/-- The manager of the applications -/
def appManagerRule : Rule := { Rule.zero with
  ruleId := ⟨"SYSTEM".toList, "APPMANAGER".toList⟩
  endCondition := .wait 5000 5000
  timeout := forever
  command := some "app_manager".toList
  params := some "--config-file ressources.json".toList
  failureAction := .restart
  sched := .nice (-5)
  daemon := true
  ruleState := .active }

/-- The dispatchers that may run behind it -/
def dispatcherRule : Rule := { Rule.zero with
  ruleId := ⟨"SYSTEM".toList, "DISPATCHER".toList⟩
  indexed := true
  startCondition := .ruleCompleted [⟨none, appManagerRule.ruleId⟩]
  endCondition := .processReady false
  timeout := 3000
  command := some "dispatcher".toList
  failureAction := .execRule appManagerRule.ruleId
  uid := 1000 }

theorem writable_appManagerRule : Writable appManagerRule where
  ruleId := ⟨⟨by decide, by decide, by decide⟩, by decide, by decide⟩
  first := by decide
  plain := by decide
  template := by decide
  startCondition := trivial
  command := ⟨_, rfl, by decide, by decide, by decide, fun _ same =>
    Option.some.inj same ▸ ⟨by decide, by decide, by decide⟩⟩
  endCondition := ⟨rfl, by decide⟩
  timeout := .inl rfl
  failureAction := trivial
  sched := ⟨by decide, by decide⟩
  ruleState := .inr rfl
  uid := by decide
  unused := ⟨rfl, rfl⟩
  lines := by decide +kernel

theorem writable_dispatcherRule : Writable dispatcherRule where
  ruleId := ⟨⟨by decide, by decide, by decide⟩, by decide, by decide⟩
  first := by decide
  plain := by decide
  template := by decide
  startCondition := ⟨by decide, by decide, List.forall_mem_singleton.mpr
    ⟨rfl, writable_appManagerRule.ruleId⟩⟩
  command := ⟨_, rfl, by decide, by decide, by decide, fun _ absent => by cases absent⟩
  endCondition := rfl
  timeout := .inr ⟨by decide, rfl⟩
  failureAction := writable_appManagerRule.ruleId
  sched := ⟨by decide, by decide⟩
  ruleState := .inl rfl
  uid := by decide
  unused := ⟨rfl, rfl⟩
  lines := by decide +kernel

theorem parse_fileText_rules : ∃ p,
    parse ⟨fun _ => some (fileText [appManagerRule, dispatcherRule]), fun _ => none⟩ 1 [] =
      some (true, p) ∧ p.rules = [appManagerRule, dispatcherRule] :=
  parse_fileText (List.forall_mem_cons.mpr ⟨writable_appManagerRule,
    List.forall_mem_singleton.mpr writable_dispatcherRule⟩) rfl 0

end CyberPlatform.Pcd
