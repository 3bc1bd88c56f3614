/-
**`common/log`: the two streams of the logger.**

`LOG_init` opens one stream for information and one for errors, and registers each of them as soon
as `fopen` has returned. `LOG_print` writes to one of the two, by the level of the message. A
`Logger` holds what is registered, and the calls of the C library so far; what `fopen` and
`vfprintf` return is left open.

* `isOpen` — which streams are open behind a trace of calls.
* `StepSafe` — what is expected of a call of the logger.
* `Registered.step`, `StepSafe.harmless` — which calls meet that, as long as every registered stream
  is open.
* `logger_safe_iff` — when all calls of a run do.
-/

import CyberPlatform.Foundation.Run

namespace CyberPlatform.Log

open Foundation

/-! ### The C library -/

/-- The address of a `FILE`. It may be used again for another stream. -/
abbrev Stream := Nat

/-- A call of the C library, with what it returned. -/
inductive Call where
  | fopen (fname mode : String) (file : Option Stream)
  | fclose (file : Stream)
  | vfprintf (file : Stream) (text : String) (ret : Int)
  | fflush (file : Stream)
  deriving DecidableEq

/-- What a call makes of a stream that is open, or is not. -/
def Call.leaves (f : Stream) (opened : Bool) : Call → Bool
  | fopen _ _ (some g) => opened || g == f
  | fopen _ _ none => opened
  | fclose g => opened && g != f
  | vfprintf _ _ _ => opened
  | fflush _ => opened

/-- The stream is open behind these calls. -/
def isOpen (trace : List Call) (f : Stream) : Bool := trace.foldl (Call.leaves f) false

/-- A call on a stream is made while it is open. -/
def Call.Allowed (before : List Call) : Call → Prop
  | fopen _ _ _ => True
  | fclose f | vfprintf f _ _ | fflush f => isOpen before f = true

/-! ### The code -/

/-- The globals of `log.c`, and the calls of the C library so far. -/
structure Logger where
  fLogInfo : Option Stream
  fLogError : Option Stream
  trace : List Call

namespace Logger

/-- The logger before its first call. -/
def start : Logger := ⟨none, none, []⟩

def call (log : Logger) (call : Call) : Logger := { log with trace := log.trace ++ [call] }

/-- `if (file) fclose(file);` -/
def close (log : Logger) : Option Stream → Logger
  | none => log
  | some file => log.call (.fclose file)

end Logger

/-- `LOG_INFO` -/
def logInfo : Int := 0

/-- `LOG_DEBUG` -/
def logDebug : Int := 1

/-- `LOG_NOTICE` -/
def logNotice : Int := 2

/-- `LOG_MAX_LEVEL` -/
def logMaxLevel : Int := 6

/-- `local_level` -/
def localLevel : Int := logMaxLevel

/-- The label `error` of `LOG_init`. -/
def initError (log : Logger) : Int × Logger :=
  let log := log.close log.fLogInfo
  let log := log.close log.fLogError
  (-1, log)

/-- `LOG_init`; `info` and `error` are what `fopen` returns. -/
def logInit (logPath : String) (info error : Option Stream) (log : Logger) : Int × Logger :=
  /- Open info file -/
  let log := log.call (.fopen (logPath ++ "/cyber_info.log") "a+" info)
  let log := { log with fLogInfo := info }
  if info = none then initError log
  else
    /- Open error file -/
    let log := log.call (.fopen (logPath ++ "/cyber_error.log") "a+" error)
    let log := { log with fLogError := error }
    if error = none then initError log
    else (0, log)

/-- The stream that `_vlog` chooses for a level. -/
def streamOf (level : Int) (log : Logger) : Option Stream :=
  if level = logInfo ∨ level = logDebug ∨ level = logNotice then log.fLogInfo else log.fLogError

/-- `_vlog`; `text` is the formatted message, and `ret` what `vfprintf` returns. -/
def vlog (level : Int) (text : String) (ret : Int) (log : Logger) : Int × Logger :=
  if level > localLevel then (0, log)
  else
    match streamOf level log with
    | none => (-1, log)
    | some f =>
      let log := log.call (.vfprintf f text ret)
      let log := log.call (.fflush f)
      (ret, log)

/-- `LOG_print` -/
def logPrint (level : Int) (text : String) (ret : Int) (log : Logger) : Int × Logger :=
  vlog level text ret log

/-- A call of the logger, with what the C library returns in it. -/
inductive Op where
  | init (logPath : String) (info error : Option Stream)
  | print (level : Int) (text : String) (ret : Int)

def Op.run (log : Logger) : Op → Int × Logger
  | init logPath info error => logInit logPath info error log
  | print level text ret => logPrint level text ret log

/-- The logger behind the call. -/
def Op.step (log : Logger) (op : Op) : Logger := (op.run log).2

/-! ### What is expected -/

/-- A registered stream is one that the logger would write to or close. -/
def Logger.Holds (log : Logger) (f : Stream) : Prop :=
  log.fLogInfo = some f ∨ log.fLogError = some f

/-- The stream for a level is there to be written to. -/
def Available (level : Int) (log : Logger) : Prop :=
  ∃ f, streamOf level log = some f ∧ isOpen log.trace f = true

/-- What is expected behind a call: once `LOG_init` has failed, no registered stream is closed, and
`LOG_print` returns -1 if there is no stream for the message. A message above `LOG_MAX_LEVEL` is for
none. -/
def Expected (log : Logger) : Op → Prop
  | .init logPath info error =>
    (logInit logPath info error log).1 ≠ 0 →
      ∀ f, (logInit logPath info error log).2.Holds f →
        isOpen (logInit logPath info error log).2.trace f = true
  | .print level text ret =>
    level ≤ logMaxLevel → ¬ Available level log → (logPrint level text ret log).1 = -1

/-- **What is expected of a call**: it writes to and closes open streams only. -/
structure StepSafe (log : Logger) (op : Op) : Prop where
  allowed : ∃ calls, (op.step log).trace = log.trace ++ calls ∧
    ∀ before c after, calls = before ++ c :: after → c.Allowed (log.trace ++ before)
  expected : Expected log op

/-- The calls that keep every registered stream open: `LOG_init` succeeds, or it fails to open the
first file while no error log is registered. -/
def Harmless (log : Logger) : Op → Prop
  | .init _ info error =>
    info ≠ none ∧ error ≠ none ∨ info = none ∧ log.fLogError = none
  | .print _ _ _ => True

instance (log : Logger) : ∀ op, Decidable (Harmless log op)
  | .init _ info error =>
    inferInstanceAs (Decidable (info ≠ none ∧ error ≠ none ∨ info = none ∧ log.fLogError = none))
  | .print _ _ _ => .isTrue trivial

/-! ### One call -/

/-- Every registered stream is open. -/
def Registered (log : Logger) : Prop := ∀ f, log.Holds f → isOpen log.trace f = true

section Calls

variable {log : Logger}

theorem isOpen_append (trace : List Call) (c : Call) (f : Stream) :
    isOpen (trace ++ [c]) f = c.leaves f (isOpen trace f) := by
  unfold isOpen
  rw [List.foldl_append]
  rfl

/-- A stream is open once `fopen` has returned it. -/
theorem isOpen_fopen (trace : List Call) (fname mode : String) (f : Stream) :
    isOpen (trace ++ [.fopen fname mode (some f)]) f = true := by
  rw [isOpen_append]
  simp [Call.leaves]

/-- `fopen` closes no stream. -/
theorem isOpen_fopen_of_open {trace : List Call} {f : Stream} (opened : isOpen trace f = true)
    (fname mode : String) (file : Option Stream) :
    isOpen (trace ++ [.fopen fname mode file]) f = true := by
  rw [isOpen_append]
  cases file <;> simp [Call.leaves, opened]

/-- A stream is not open behind `fclose`. -/
theorem isOpen_fclose (trace : List Call) (f : Stream) :
    isOpen (trace ++ [.fclose f]) f = false := by
  rw [isOpen_append]
  simp [Call.leaves]

/-- **`LOG_init` that succeeds** has opened and registered its two streams. -/
theorem logInit_succeeds (logPath : String) (i e : Stream) (log : Logger) :
    logInit logPath (some i) (some e) log =
      (0, ⟨some i, some e, log.trace ++ [.fopen (logPath ++ "/cyber_info.log") "a+" (some i)] ++
        [.fopen (logPath ++ "/cyber_error.log") "a+" (some e)]⟩) := rfl

/-- **`LOG_init` that cannot open the first file** closes the error log, and leaves it
registered. -/
theorem logInit_fails_info (logPath : String) (error : Option Stream) (log : Logger) :
    logInit logPath none error log =
      (-1, (⟨none, log.fLogError,
        log.trace ++ [.fopen (logPath ++ "/cyber_info.log") "a+" none]⟩ : Logger).close
          log.fLogError) := rfl

/-- **`LOG_init` that cannot open the second file** closes the first one, and leaves it
registered. -/
theorem logInit_fails_error (logPath : String) (i : Stream) (log : Logger) :
    logInit logPath (some i) none log =
      (-1, ⟨some i, none, log.trace ++ [.fopen (logPath ++ "/cyber_info.log") "a+" (some i)] ++
        [.fopen (logPath ++ "/cyber_error.log") "a+" none] ++ [.fclose i]⟩) := rfl

/-- `LOG_print` of a message for a registered stream. -/
theorem logPrint_writes {level : Int} (low : level ≤ localLevel) {f : Stream}
    (chosen : streamOf level log = some f) (text : String) (ret : Int) :
    logPrint level text ret log =
      (ret, ⟨log.fLogInfo, log.fLogError,
        log.trace ++ [.vfprintf f text ret] ++ [.fflush f]⟩) := by
  unfold logPrint vlog
  rw [if_neg (Int.not_lt.mpr low), chosen]
  rfl

/-- `LOG_print` of a message above all levels is discarded. -/
theorem logPrint_above {level : Int} (high : localLevel < level) (text : String) (ret : Int) :
    logPrint level text ret log = (0, log) := by
  unfold logPrint vlog
  rw [if_pos high]

/-- `LOG_print` of a message without a registered stream fails. -/
theorem logPrint_missing {level : Int} (low : level ≤ localLevel)
    (missing : streamOf level log = none) (text : String) (ret : Int) :
    logPrint level text ret log = (-1, log) := by
  unfold logPrint vlog
  rw [if_neg (Int.not_lt.mpr low), missing]

/-- The stream of a message is a registered one. -/
theorem holds_of_streamOf {level : Int} {f : Stream} (chosen : streamOf level log = some f) :
    log.Holds f := by
  unfold streamOf at chosen
  split_ifs at chosen
  · exact .inl chosen
  · exact .inr chosen

/-- Calls of `fopen` alone are allowed. -/
theorem allowed_fopen {trace : List Call} {calls : List Call}
    (opens : ∀ c ∈ calls, ∃ fname mode file, c = .fopen fname mode file) :
    ∀ before c after, calls = before ++ c :: after → c.Allowed (trace ++ before) := by
  intro before c after split
  obtain ⟨fname, mode, file, rfl⟩ := opens c (split ▸ List.mem_append_right _ List.mem_cons_self)
  trivial

/-- A message for an open stream is written to it. -/
theorem allowed_print {trace : List Call} {f : Stream} (opened : isOpen trace f = true)
    (text : String) (ret : Int) :
    ∀ before c after, [Call.vfprintf f text ret, .fflush f] = before ++ c :: after →
      c.Allowed (trace ++ before) := by
  intro before c after split
  cases before with
  | nil =>
    cases split
    rw [List.append_nil]
    exact opened
  | cons first before =>
    cases before with
    | nil =>
      cases split
      exact (isOpen_append trace _ f).trans opened
    | cons second before => simp at split

/-- A call that does nothing is safe, if that is what is expected. -/
theorem stepSafe_silent {op : Op} (same : op.step log = log) (expected : Expected log op) :
    StepSafe log op where
  allowed := by
    refine ⟨[], ?_, fun before c after split => ?_⟩
    · rw [same, List.append_nil]
    · exact absurd split.symm (List.append_ne_nil_of_right_ne_nil _ (List.cons_ne_nil _ _))
  expected := expected

/-- `LOG_init` that succeeds is safe, and has registered two open streams. -/
theorem init_succeeds_safe (logPath : String) (i e : Stream) (log : Logger) :
    StepSafe log (.init logPath (some i) (some e)) ∧
      Registered ((Op.init logPath (some i) (some e)).step log) := by
  have stepped : (Op.init logPath (some i) (some e)).step log = _ :=
    congrArg Prod.snd (logInit_succeeds logPath i e log)
  refine ⟨⟨⟨_, (congrArg Logger.trace stepped).trans (List.append_assoc ..), allowed_fopen ?_⟩,
    fun failed => absurd rfl failed⟩, ?_⟩
  · simp
  · rw [stepped]
    rintro f (same | same)
    · cases same
      exact isOpen_fopen_of_open (isOpen_fopen _ _ _ _) _ _ _
    · cases same
      exact isOpen_fopen _ _ _ _

/-- `LOG_init` that cannot open the first file is safe while no error log is registered: nothing is
registered behind it. -/
theorem init_fails_safe (logPath : String) (error : Option Stream)
    (unregistered : log.fLogError = none) :
    StepSafe log (.init logPath none error) ∧
      Registered ((Op.init logPath none error).step log) := by
  have stepped : (Op.init logPath none error).step log =
      ⟨none, none, log.trace ++ [.fopen (logPath ++ "/cyber_info.log") "a+" none]⟩ := by
    refine (congrArg Prod.snd (logInit_fails_info logPath error log)).trans ?_
    rw [unregistered]
    rfl
  have nothing : ∀ f, ¬ ((Op.init logPath none error).step log).Holds f := by
    rw [stepped]
    rintro f (same | same) <;> cases same
  refine ⟨⟨⟨_, congrArg Logger.trace stepped, allowed_fopen ?_⟩,
    fun _ f holds => absurd holds (nothing f)⟩, fun f holds => absurd holds (nothing f)⟩
  simp

/-- `LOG_print` is safe while every registered stream is open, and leaves them open. -/
theorem Registered.print (registered : Registered log) (level : Int) (text : String) (ret : Int) :
    StepSafe log (.print level text ret) ∧
      Registered ((Op.print level text ret).step log) := by
  by_cases high : localLevel < level
  · have same : (Op.print level text ret).step log = log :=
      congrArg Prod.snd (logPrint_above high text ret)
    refine ⟨stepSafe_silent same fun low => absurd high (Int.not_lt.mpr low), ?_⟩
    rwa [same]
  · have low := Int.not_lt.mp high
    cases chosen : streamOf level log with
    | none =>
      have missing := logPrint_missing low chosen text ret
      have same : (Op.print level text ret).step log = log := congrArg Prod.snd missing
      refine ⟨stepSafe_silent same fun _ _ => congrArg Prod.fst missing, ?_⟩
      rwa [same]
    | some f =>
      have opened := registered f (holds_of_streamOf chosen)
      have stepped : (Op.print level text ret).step log = _ :=
        congrArg Prod.snd (logPrint_writes low chosen text ret)
      refine ⟨⟨⟨_, (congrArg Logger.trace stepped).trans (List.append_assoc ..),
        allowed_print opened text ret⟩, fun _ missing => absurd ⟨f, chosen, opened⟩ missing⟩, ?_⟩
      rw [stepped]
      intro g held
      show isOpen (log.trace ++ [.vfprintf f text ret] ++ [.fflush f]) g = true
      rw [isOpen_append, isOpen_append]
      exact registered g held

/-- **A harmless call** is safe, and keeps every registered stream open. -/
theorem Registered.step (registered : Registered log) {op : Op} (harmless : Harmless log op) :
    StepSafe log op ∧ Registered (op.step log) := by
  cases op with
  | init logPath info error =>
    rcases harmless with ⟨opens, opens'⟩ | ⟨rfl, unregistered⟩
    · obtain ⟨i, rfl⟩ := Option.ne_none_iff_exists'.mp opens
      obtain ⟨e, rfl⟩ := Option.ne_none_iff_exists'.mp opens'
      exact init_succeeds_safe logPath i e log
    · exact init_fails_safe logPath error unregistered
  | print level text ret => exact registered.print level text ret

/-- **A safe call** is harmless: any other one leaves a stream registered that it has closed. -/
theorem StepSafe.harmless {op : Op} (safe : StepSafe log op) : Harmless log op := by
  cases op with
  | print level text ret => trivial
  | init logPath info error =>
    have expected := safe.expected
    have failed : (-1 : Int) ≠ 0 := by decide
    cases info with
    | none =>
      refine .inr ⟨rfl, ?_⟩
      by_contra registered
      obtain ⟨e, held⟩ := Option.ne_none_iff_exists'.mp registered
      have opened := expected (by rwa [logInit_fails_info]) e (.inr ?_)
      · rw [logInit_fails_info, held] at opened
        exact absurd opened (Bool.eq_false_iff.mp (isOpen_fclose _ e))
      · rw [logInit_fails_info, held]
        rfl
    | some i =>
      cases error with
      | none =>
        rw [Expected, logInit_fails_error] at expected
        have opened := expected failed i (.inl rfl)
        exact absurd opened (Bool.eq_false_iff.mp (isOpen_fclose _ i))
      | some e => exact .inl ⟨Option.some_ne_none i, Option.some_ne_none e⟩

end Calls

/-! ### Runs -/

/-- **Every call of a run is safe exactly when** each `LOG_init` of the run succeeds, or fails to
open the first file before any error log has been registered. -/
theorem logger_safe_iff (ops : List Op) :
    Admitted StepSafe Op.step .start ops ↔ Admitted Harmless Op.step .start ops := by
  have start : Registered .start := by
    rintro f (held | held) <;> cases held
  refine admitted_congr (I := Registered) ?_ ?_ start
  · exact fun log op registered =>
      ⟨StepSafe.harmless, fun harmless => (registered.step harmless).1⟩
  · exact fun log op registered safe => (registered.step safe.harmless).2

/-- The second file cannot be opened: the first one is closed, and the next message is written to
it. -/
theorem logger_fails_second :
    ¬ Admitted StepSafe Op.step .start [.init "/var/log/" (some 1) none, .print logInfo "start" 5]
      := by
  rintro ⟨safe, _⟩
  exact absurd safe.harmless (by decide)

end CyberPlatform.Log
