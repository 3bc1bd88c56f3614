/-
**The parser of the rule files.**

A file is read line by line. A line gives a keyword and a value, and the handler of the keyword
writes the value to the rule that is being read. The mandatory keywords of a rule have to come in
their order; with the next `RULE`, or at the end of the file, the rule is added to the database.

* `entryOf` — what a line says.
* `handle` — the handlers of the keywords.
* `readConfig`, `parse` — the reading of a file, and of those that it includes.
-/

import CyberPlatform.Foundation.Fields
import CyberPlatform.Foundation.Number
import CyberPlatform.Pcd.Rule

namespace CyberPlatform.Pcd

open Foundation

/-! ### Keywords -/

/-- `parserKeywords_e` -/
inductive Keyword where
  | rule
  | startCond
  | command
  | endCond
  | endCondTimeout
  | failureAction
  | active
  | sched
  | daemon
  | user
  | version
  | includeFile
  deriving DecidableEq, Repr

/-- `keywordHandlersList` -/
def Keyword.all : List Keyword :=
  [.rule, .startCond, .command, .endCond, .endCondTimeout, .failureAction, .active, .sched, .daemon,
    .user, .version, .includeFile]

def Keyword.name : Keyword → Text
  | .rule => "RULE".toList
  | .startCond => "START_COND".toList
  | .command => "COMMAND".toList
  | .endCond => "END_COND".toList
  | .endCondTimeout => "END_COND_TIMEOUT".toList
  | .failureAction => "FAILURE_ACTION".toList
  | .active => "ACTIVE".toList
  | .sched => "SCHED".toList
  | .daemon => "DAEMON".toList
  | .user => "USER".toList
  | .version => "VERSION".toList
  | .includeFile => "INCLUDE".toList

/-- `mandatory_flag` -/
def Keyword.mandatory : Keyword → Bool
  | .rule | .startCond | .command | .endCond | .endCondTimeout | .failureAction | .active => true
  | .sched | .daemon | .user | .version | .includeFile => false

/-- `parse_flag`, as `PCD_parser_init_kwHandlersList` sets it -/
def Keyword.parseFlag (keyword : Keyword) : BitVec 32 :=
  if keyword.mandatory then 1#32 <<< Keyword.all.idxOf keyword else 0#32

/-- `writableParseStatus`: the flags of a rule that has been read as a whole -/
def writableParseStatus : BitVec 32 :=
  Keyword.all.foldl (fun status keyword => status ||| keyword.parseFlag) 0#32

/-- `strcasecmp( token, name ) == 0`, for the keyword whose name it is -/
def keywordOf (token : Text) : Option Keyword :=
  Keyword.all.find? fun keyword => token.map Char.toLower = keyword.name.map Char.toLower

/-! ### Sizes -/

/-- `PCD_PARSER_MAX_LINE_SIZE` -/
def maxLineSize : Nat := 256
/-- `PCD_RULEID_MAX_GROUP_NAME_SIZE` -/
def maxGroupNameSize : Nat := 16
/-- `PCD_RULEID_MAX_RULE_NAME_SIZE` -/
def maxRuleNameSize : Nat := 16
/-- `PCD_COND_MAX_SIZE` -/
def condMaxSize : Nat := 32
/-- `IF_NAMESIZE` -/
def ifNameSize : Nat := 16

/-! ### Lines -/

/-- `PCD_PARSER_DELIMITERS` -/
def delimiter (c : Char) : Bool := c = ',' || c = ' ' || c = '\t'

def blank (c : Char) : Bool := c = ' ' || c = '\t'

/-- What is between a keyword and its value -/
def assigns (c : Char) : Bool := c = ' ' || c = '\t' || c = '='

/-- The keyword in a buffer, and its value; `none` for a line without a value -/
def splitLine (buffer : Text) : Option (Text × Text) :=
  let buffer := buffer.takeWhile fun c => c ≠ '\x00' ∧ c ≠ '\n' ∧ c ≠ '#'
  let token := buffer.dropWhile blank
  match token.dropWhile fun c => !assigns c with
  | [] => none
  | _ :: line => some (token.takeWhile fun c => !assigns c,
      (line.dropWhile assigns).rdropWhile isspace)

/-- What a line says: lines with other keywords are ignored -/
def entryOf (buffer : Text) : Option (Keyword × Text) :=
  (splitLine buffer).bind fun (token, line) => (keywordOf token).map fun keyword => (keyword, line)

/-- What a file says -/
def entries (file : Text) : List (Keyword × Text) := (lines maxLineSize file).filterMap entryOf

/-! ### The state of the parser -/

/-- **The state of the parser**: the rule that is being read, and those that have been added to the
database. -/
structure Parser where
  rule : Rule
  fileVersion : Int
  readParseStatus : BitVec 32
  rules : List Rule
  deriving DecidableEq

namespace Parser

/-- The parser in front of a file -/
def initial : Parser := ⟨.zero, -1, 0#32, []⟩

variable (p : Parser)

/-- `PCD_parser_is_parse_status_set` -/
def isParseStatusSet (keyword : Keyword) : Bool := p.readParseStatus &&& keyword.parseFlag ≠ 0#32

/-- `PCD_parser_update_parse_status`: the keyword has to be the first one whose flag is not set. -/
def updateParseStatus (keyword : Keyword) : Except Parser Parser :=
  match Keyword.all.find? fun expected => p.readParseStatus &&& expected.parseFlag = 0#32 with
  | none => .error p
  | some expected =>
    if expected = keyword then
      .ok { p with readParseStatus := p.readParseStatus ||| keyword.parseFlag }
    else .error p

/-- `PCD_parser_clear_parse_status`, from a keyword on -/
def clearParseStatus (keyword : Keyword) : Parser :=
  let cleared := (Keyword.all.drop (Keyword.all.idxOf keyword)).foldl
    (fun status keyword => status &&& ~~~ keyword.parseFlag) p.readParseStatus
  { p with readParseStatus := cleared }

/-- `PCD_parser_write_rule_to_db`, where memory is granted -/
def writeRuleToDb : Except Parser Parser :=
  if p.readParseStatus ≠ writableParseStatus then .error p
  else .ok ({ p with rules := p.rules ++ [p.rule] }.clearParseStatus .rule)

end Parser

/-! ### Values -/

/-- `PCD_parser_parse_rule_id` -/
def parseRuleId (line : Text) : Option RuleId :=
  match line.dropWhile (· ≠ '_') with
  | [] => none
  | _ :: token2 => some
    { groupName := (line.takeWhile (· ≠ '_')).take (maxGroupNameSize - 1)
      ruleName := token2.take (maxRuleNameSize - 1) }

/-- The ids of a start condition up to the first one that is wrong: `false` if there is one -/
def parseRuleIds : List Text → Bool × List RuleCache
  | [] => (true, [])
  | token :: rest =>
    -- the copy of the token has room for two names
    match parseRuleId (token.take (maxGroupNameSize + maxRuleNameSize + 1)) with
    | none => (false, [])
    | some ruleId =>
      let (good, ids) := parseRuleIds rest
      (good, ⟨none, ruleId⟩ :: ids)

/-- The start condition that some tokens give: `false` where they are wrong -/
def parseStartCond : List Text → Option (Bool × StartCond)
  | [] => none
  | token1 :: rest =>
    if token1 = "NONE".toList then some (true, .none)
    else if token1 = "FILE".toList then
      match rest with
      | [] => some (false, .file [])
      | token2 :: _ => some (true, .file (token2.take (condMaxSize - 1)))
    else if token1 = "RULE_COMPLETED".toList then
      let (good, ids) := parseRuleIds (rest.take startCondMaxIds)
      some (good && !ids.isEmpty, .ruleCompleted ids)
    else if token1 = "NETDEVICE".toList then
      match rest with
      | [] => some (false, .netDevice [])
      | token2 :: _ => some (true, .netDevice (token2.take (ifNameSize - 1)))
    else if token1 = "IPC_OWNER".toList then
      match rest with
      | [] => some (false, .ipcOwner 0)
      | token2 :: _ => some (true, .ipcOwner (toU32 (atoi token2)))
    else if token1 = "ENV_VAR".toList then
      match rest with
      | token2 :: token3 :: _ =>
        let value := token3.take condMaxSize
        -- a name that fills its array is not terminated, and goes on with the value
        let name := if token2.length < condMaxSize then token2 else token2.take condMaxSize ++ value
        some (true, .envVar name value)
      | _ => some (false, .envVar [] [])
    else none

/-- The end condition that some tokens give: `false` where they are wrong -/
def parseEndCond : List Text → Option (Bool × EndCond)
  | [] => none
  | token1 :: rest =>
    if token1 = "NONE".toList then some (true, .none)
    else if token1 = "FILE".toList then
      match rest with
      | [] => some (false, .file [])
      | token2 :: _ => some (true, .file (token2.take (condMaxSize - 1)))
    else if token1 = "EXIT".toList then
      match rest with
      | [] => some (false, .exit 0)
      | token2 :: _ => some (true, .exit (toU32 (atoi token2)))
    else if token1 = "NETDEVICE".toList then
      match rest with
      | [] => some (false, .netDevice [])
      | token2 :: _ => some (true, .netDevice (token2.take (ifNameSize - 1)))
    else if token1 = "IPC_OWNER".toList then
      match rest with
      | [] => some (false, .ipcOwner 0)
      | token2 :: _ => some (true, .ipcOwner (toU32 (atoi token2)))
    else if token1 = "PROCESS_READY".toList then some (true, .processReady false)
    else if token1 = "WAIT".toList then
      match rest with
      | [] => some (false, .wait 0 0)
      | token2 :: _ =>
        let delay := toU32 (atoi token2)
        some (true, .wait delay delay)
    else none

/-- The failure action that some tokens give: `false` where they are wrong -/
def parseFailureAction : List Text → Option (Bool × FailureAction)
  | [] => none
  | token1 :: rest =>
    if token1 = "NONE".toList then some (true, .none)
    else if token1 = "REBOOT".toList then some (true, .reboot)
    else if token1 = "RESTART".toList then some (true, .restart)
    else if token1 = "EXEC_RULE".toList then
      match rest.head?.bind parseRuleId with
      | none => some (false, .execRule ⟨[], []⟩)
      | some ruleId => some (true, .execRule ruleId)
    else none

/-- The scheduling that some tokens give: a priority out of its range is `0`. -/
def parseSched : List Text → Option SchedType
  | token1 :: token2 :: _ =>
    let value := atoi token2
    if token1 = "NICE".toList then some (.nice (if value > 19 ∨ value < -20 then 0 else value))
    else if token1 = "FIFO".toList then some (.fifo (if value > 99 ∨ value < 0 then 0 else value))
    else none
  | _ => none

/-! ### The handlers -/

namespace Parser

/-- A value that has been written to the rule, or that is wrong -/
def written (p : Parser) (good : Bool) : Except Parser Parser := if good then .ok p else .error p

/-- `PCD_parser_handle_RULE` -/
def handleRule (line : Text) (p : Parser) : Except Parser Parser := do
  let p ← if p.isParseStatusSet .rule then do
      let p ← p.writeRuleToDb
      pure { p with rule := .zero }
    else pure p
  let p ← p.updateParseStatus .rule
  match parseRuleId line with
  | none => .error { p with rule := { p.rule with ruleId := ⟨[], []⟩ } }
  | some ruleId =>
    if '$' ∈ ruleId.ruleName then
      let ruleId := { ruleId with ruleName := ruleId.ruleName.takeWhile (· ≠ '$') }
      return { p with rule := { p.rule with ruleId, indexed := true } }
    else return { p with rule := { p.rule with ruleId } }

/-- `PCD_parser_handle_START_COND` -/
def handleStartCond (line : Text) (p : Parser) : Except Parser Parser := do
  let p ← p.updateParseStatus .startCond
  match parseStartCond (tokens delimiter line) with
  | none => .error p
  | some (good, startCondition) => written { p with rule := { p.rule with startCondition } } good

/-- `PCD_parser_handle_COMMAND`, where memory is granted -/
def handleCommand (line : Text) (p : Parser) : Except Parser Parser := do
  let p ← p.updateParseStatus .command
  let command := line.takeWhile (· ≠ ' ')
  match line.dropWhile (· ≠ ' ') with
  | [] => return { p with rule := { p.rule with command } }
  | _ :: params => return { p with rule := { p.rule with command, params } }

/-- `PCD_parser_handle_END_COND` -/
def handleEndCond (line : Text) (p : Parser) : Except Parser Parser := do
  let p ← p.updateParseStatus .endCond
  match parseEndCond (tokens delimiter line) with
  | none => .error p
  | some (good, endCondition) => written { p with rule := { p.rule with endCondition } } good

/-- Whether a condition is a delay -/
def waits : EndCond → Bool
  | .wait _ _ => true
  | _ => false

/-- `PCD_parser_handle_END_COND_TIMEOUT` -/
def handleEndCondTimeout (line : Text) (p : Parser) : Except Parser Parser := do
  let i := atoi line
  let p ← p.updateParseStatus .endCondTimeout
  if i = -1 ∨ waits p.rule.endCondition then
    return { p with rule := { p.rule with timeout := forever } }
  else return { p with rule := { p.rule with timeout := toU32 i } }

/-- `PCD_parser_handle_FAILURE_ACTION` -/
def handleFailureAction (line : Text) (p : Parser) : Except Parser Parser := do
  let p ← p.updateParseStatus .failureAction
  match parseFailureAction (tokens delimiter line) with
  | none => .error p
  | some (good, failureAction) => written { p with rule := { p.rule with failureAction } } good

/-- `PCD_parser_handle_ACTIVE` -/
def handleActive (line : Text) (p : Parser) : Except Parser Parser := do
  let p ← p.updateParseStatus .active
  let ruleState := if line = "YES".toList then .active else .idle
  return { p with rule := { p.rule with ruleState } }

/-- `PCD_parser_handle_SCHED` -/
def handleSched (line : Text) (p : Parser) : Except Parser Parser :=
  match parseSched (tokens delimiter line) with
  | none => .error p
  | some sched => .ok { p with rule := { p.rule with sched } }

/-- `PCD_parser_handle_DAEMON` -/
def handleDaemon (line : Text) (p : Parser) : Except Parser Parser :=
  .ok { p with rule := { p.rule with daemon := line = "YES".toList } }

/-- `PCD_parser_handle_USER`, for the users that `getpwnam` knows -/
def handleUser (getpwnam : Text → Option UInt32) (line : Text) (p : Parser) :
    Except Parser Parser :=
  if line.all fun c => !c.isAlpha then
    .ok { p with rule := { p.rule with uid := strtoul line % 2 ^ 32 } }
  else
    match getpwnam line with
    | none => .error p
    | some uid => .ok { p with rule := { p.rule with uid := uid.toNat } }

/-- `PCD_parser_handle_VERSION` -/
def handleVersion (line : Text) (p : Parser) : Except Parser Parser :=
  .ok { p with fileVersion := atoi line }

end Parser

/-! ### Reading files -/

/-- The world of the parser: the files that can be opened, and the users -/
structure Host where
  fopen : Text → Option Text
  getpwnam : Text → Option UInt32

section Reading

variable (host : Host)

/-- `PCD_parser_handle_INCLUDE`, for a function `read` that reads the file: what it returns is
ignored, and the rule that is being read is put aside. -/
def handleInclude (read : Text → Parser → Option (Bool × Parser)) (line : Text) (p : Parser) :
    Option Parser := do
  let (_, q) ← read line { p with rule := .zero, readParseStatus := 0#32 }
  return { q with rule := p.rule, readParseStatus := p.readParseStatus }

/-- The handler of a keyword -/
def handle (read : Text → Parser → Option (Bool × Parser)) (keyword : Keyword) (line : Text)
    (p : Parser) : Option (Except Parser Parser) :=
  match keyword with
  | .rule => some (p.handleRule line)
  | .startCond => some (p.handleStartCond line)
  | .command => some (p.handleCommand line)
  | .endCond => some (p.handleEndCond line)
  | .endCondTimeout => some (p.handleEndCondTimeout line)
  | .failureAction => some (p.handleFailureAction line)
  | .active => some (p.handleActive line)
  | .sched => some (p.handleSched line)
  | .daemon => some (p.handleDaemon line)
  | .user => some (p.handleUser host.getpwnam line)
  | .version => some (p.handleVersion line)
  | .includeFile => (handleInclude read line p).map .ok

/-- The loop of `PCD_parser_read_config` over what a file says -/
def readEntries (read : Text → Parser → Option (Bool × Parser)) :
    List (Keyword × Text) → Parser → Option (Bool × Parser)
  | [], p => some (true, p)
  | (keyword, line) :: rest, p =>
    match handle host read keyword line p with
    | none => none
    | some (.ok p) => readEntries read rest p
    | some (.error p) => some (false, p)

/-- The end of `PCD_parser_read_config`: the rule that is being read is added. -/
def flush (out : Bool × Parser) : Bool × Parser :=
  let (good, p) := out
  if p.isParseStatusSet .rule then
    match p.writeRuleToDb with
    | .ok p => (good, p)
    | .error p => (false, p)
  else (good, p)

/-- `PCD_parser_read_config`, where files include each other less than `depth` deep: `true` where it
returns `0`. -/
def readConfig : Nat → Text → Parser → Option (Bool × Parser)
  | 0, _, _ => none
  | depth + 1, filename, p =>
    match host.fopen filename with
    | none => some (false, p)
    | some file => (readEntries host (readConfig depth) (entries file) p).map flush

/-- `PCD_parser_parse` -/
def parse (depth : Nat) (filename : Text) : Option (Bool × Parser) :=
  readConfig host depth filename .initial

end Reading

end CyberPlatform.Pcd
