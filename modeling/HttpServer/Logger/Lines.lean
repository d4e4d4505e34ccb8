import HttpServer.Lib.Runs
import HttpServer.Logger

/-! What a run of calls leaves on the console and in the log files.

The logger keeps a level and an open file. What it has written can be said without them, by
looking back at the calls: which level was set last, and which file was opened last
(`run_lines`). -/
namespace HttpServer.Logger
open Lib.Runs

inductive Level where
  | trace | debug | info | warning | error | critical
  deriving DecidableEq, Repr

namespace Level

/-- The value of the enumeration. -/
def value : Level → Nat
  | trace => 0
  | debug => 1
  | info => 2
  | warning => 3
  | error => 4
  | critical => 5

/-- `level_str`. -/
def tag : Level → Bytes
  | trace => text "[TRACE] "
  | debug => text "[DEBUG] "
  | info => text "[INFO] "
  | warning => text "[WARNING] "
  | error => text "[ERROR] "
  | critical => text "[CRITICAL] "

end Level

/-- A call of the logger, with what the outside answers. -/
inductive Call where
  | setLevel (level : Level)
  /-- `enableFileLogging(filepath)`, with `./http-server.log` where no path is given, and whether
  the file could be opened. -/
  | enableFileLogging (filepath : Bytes) (opened : Bool)
  | disableFileLogging
  /-- `trace` to `critical`, at what `formatTime` makes of the clock. -/
  | log (level : Level) (timestamp fmt : Bytes) (args : List Bytes)

structure State where
  currentLevel : Level := .info
  fileLoggingEnabled : Bool := false
  /-- The path of the file that is open. -/
  logFile : Option Bytes := none
  logFilePath : Bytes := []
  console : Bytes := []
  /-- What was written to the file opened under each path. -/
  files : Bytes → Bytes := fun _ => []

/-- `full_message`. -/
def fullMessage (level : Level) (timestamp fmt : Bytes) (args : List Bytes) : Bytes :=
  timestamp ++ level.tag ++ format fmt args ++ text "\n"

/-- `log`, which the calls reach with their level at the current one or above. -/
def State.log (s : State) (message : Bytes) : State :=
  let s := {s with console := s.console ++ message}
  match s.fileLoggingEnabled, s.logFile with
  | true, some path =>
    {s with files := fun other => if other = path then s.files path ++ message else s.files other}
  | _, _ => s

def step (s : State) : Call → State
  | .setLevel level => {s with currentLevel := level}
  | .enableFileLogging filepath opened =>
    let logFile := if opened then some filepath else none
    {s with logFilePath := filepath, logFile := logFile, fileLoggingEnabled := logFile.isSome}
  | .disableFileLogging => {s with fileLoggingEnabled := false, logFile := none}
  | .log level timestamp fmt args =>
    if s.currentLevel.value ≤ level.value then s.log (fullMessage level timestamp fmt args) else s

/-! ### Looking back -/

def Call.level? : Call → Option Level
  | setLevel level => some level
  | _ => none

/-- The file that a call leaves open, if it changes files. -/
def Call.file? : Call → Option (Option Bytes)
  | enableFileLogging filepath true => some (some filepath)
  | enableFileLogging _ false => some none
  | disableFileLogging => some none
  | _ => none

/-- The level set last. -/
def levelAfter (past : List Call) : Level := (past.reverse.findSome? Call.level?).getD .info

/-- The file opened last, if it could be opened and was not closed since. -/
def fileAfter (past : List Call) : Option Bytes := (past.reverse.findSome? Call.file?).join

/-- The line of a call, and the file it goes to. -/
def line (past : List Call) : Call → Option (Option Bytes × Bytes)
  | .log level timestamp fmt args =>
    if (levelAfter past).value ≤ level.value then
      some (fileAfter past, fullMessage level timestamp fmt args)
    else none
  | _ => none

/-- The lines of the calls, with what came before them. -/
def lines (past : List Call) : List Call → List (Option Bytes × Bytes)
  | [] => []
  | call :: rest => (line past call).toList ++ lines (past ++ [call]) rest

/-- The lines that go to a file. -/
def linesTo (path : Bytes) (written : List (Option Bytes × Bytes)) : List (Option Bytes × Bytes) :=
  written.filter fun l => l.1 = some path

theorem levelAfter_concat (past : List Call) (call : Call) :
    levelAfter (past ++ [call]) = call.level?.getD (levelAfter past) := by
  rw [levelAfter, List.reverse_append, List.reverse_singleton, List.singleton_append,
    List.findSome?_cons]
  cases call.level? <;> rfl

theorem fileAfter_concat (past : List Call) (call : Call) :
    fileAfter (past ++ [call]) = call.file?.getD (fileAfter past) := by
  rw [fileAfter, List.reverse_append, List.reverse_singleton, List.singleton_append,
    List.findSome?_cons]
  cases call.file? <;> rfl

theorem lines_concat (before past : List Call) (call : Call) :
    lines before (past ++ [call]) = lines before past ++ (line (before ++ past) call).toList := by
  induction past generalizing before with
  | nil => rw [List.nil_append, lines, lines, List.append_nil, lines, List.append_nil,
      List.nil_append]
  | cons c past ih => rw [List.cons_append, lines, ih, lines, List.append_assoc, List.append_assoc,
      List.singleton_append]

/-! ### One call -/

/-- The state after some calls, as they say it. -/
structure Tells (past : List Call) (s : State) : Prop where
  level : s.currentLevel = levelAfter past
  file : s.logFile = fileAfter past
  enabled : s.fileLoggingEnabled = s.logFile.isSome
  console : s.console = (lines [] past).flatMap Prod.snd
  files : ∀ path, s.files path = (linesTo path (lines [] past)).flatMap Prod.snd

theorem Tells.quiet {past : List Call} {s s' : State} {call : Call} (h : Tells past s)
    (hlevel : s'.currentLevel = call.level?.getD s.currentLevel)
    (hfile : s'.logFile = call.file?.getD s.logFile)
    (henabled : s'.fileLoggingEnabled = s'.logFile.isSome) (hline : line past call = none)
    (hconsole : s'.console = s.console) (hfiles : s'.files = s.files) :
    Tells (past ++ [call]) s' where
  level := by rw [hlevel, h.level, levelAfter_concat]
  file := by rw [hfile, h.file, fileAfter_concat]
  enabled := henabled
  console := by
    rw [hconsole, h.console, lines_concat, List.nil_append, hline, Option.toList_none,
      List.append_nil]
  files path := by
    rw [hfiles, h.files, lines_concat, List.nil_append, hline, Option.toList_none,
      List.append_nil]

/-- A line goes to the console and to the file that is open. -/
theorem State.log_fields (s : State) (message : Bytes)
    (henabled : s.fileLoggingEnabled = s.logFile.isSome) :
    (s.log message).console = s.console ++ message ∧
      ∀ path, (s.log message).files path =
        s.files path ++ if s.logFile = some path then message else [] := by
  unfold State.log
  rw [henabled]
  cases hfile : s.logFile with
  | none =>
    refine ⟨rfl, fun path => ?_⟩
    rw [if_neg (Option.some_ne_none path).symm, List.append_nil]
    rfl
  | some current =>
    refine ⟨rfl, fun path => ?_⟩
    by_cases heq : path = current
    · rw [heq, if_pos rfl]
      exact if_pos rfl
    · rw [if_neg (fun h => heq (Option.some.inj h).symm), List.append_nil]
      exact if_neg heq

theorem State.log_frame (s : State) (message : Bytes) :
    (s.log message).currentLevel = s.currentLevel ∧ (s.log message).logFile = s.logFile ∧
      (s.log message).fileLoggingEnabled = s.fileLoggingEnabled ∧
      (s.log message).logFilePath = s.logFilePath := by
  unfold State.log
  simp only
  split <;> exact ⟨rfl, rfl, rfl, rfl⟩

theorem tells_step (past : List Call) (s : State) (call : Call) (h : Tells past s) :
    Tells (past ++ [call]) (step s call) := by
  cases call with
  | setLevel level => exact h.quiet rfl rfl h.enabled rfl rfl rfl
  | enableFileLogging filepath opened =>
    cases opened <;> exact h.quiet rfl rfl rfl rfl rfl rfl
  | disableFileLogging => exact h.quiet rfl rfl rfl rfl rfl rfl
  | log level timestamp fmt args =>
    by_cases hshown : s.currentLevel.value ≤ level.value
    · obtain ⟨hconsole, hfiles⟩ := s.log_fields (fullMessage level timestamp fmt args) h.enabled
      obtain ⟨hlevel, hfile, henabled, _⟩ := s.log_frame (fullMessage level timestamp fmt args)
      have hline : line past (.log level timestamp fmt args) =
          some (fileAfter past, fullMessage level timestamp fmt args) :=
        if_pos (h.level ▸ hshown)
      rw [step, if_pos hshown]
      refine ⟨?_, ?_, ?_, ?_, fun path => ?_⟩
      · rw [hlevel, h.level, levelAfter_concat]
        rfl
      · rw [hfile, h.file, fileAfter_concat]
        rfl
      · rw [henabled, hfile, h.enabled]
      · rw [hconsole, h.console, lines_concat, List.nil_append, hline, List.flatMap_append]
        simp
      · rw [hfiles, h.files, h.file, lines_concat, List.nil_append, hline, linesTo, linesTo,
          List.filter_append, List.flatMap_append]
        congr 1
        by_cases hpath : fileAfter past = some path <;> simp [hpath]
    · rw [step, if_neg hshown]
      exact h.quiet rfl rfl h.enabled (if_neg (h.level ▸ hshown)) rfl rfl

/-- **What a run of calls writes**: the console has the line of each call whose level is not below
the one set last before it, in order, and a file has those among them that came while it was the
file opened last, whatever was closed and opened in between. -/
theorem run_lines (calls : List Call) :
    (run step {} calls).console = (lines [] calls).flatMap Prod.snd ∧
      (∀ path, (run step {} calls).files path =
        (linesTo path (lines [] calls)).flatMap Prod.snd) ∧
      (run step {} calls).fileLoggingEnabled = (fileAfter calls).isSome := by
  have hstart : Tells [] {} := ⟨rfl, rfl, rfl, rfl, fun _ => rfl⟩
  have htells := history_run (fun past s call h _ => tells_step past s call h) hstart
    (@Along.of_forall _ _ step (fun _ => True) {} calls fun _ _ => trivial)
  rw [List.nil_append] at htells
  exact ⟨htells.console, htells.files, htells.enabled.trans (congrArg _ htells.file)⟩

end HttpServer.Logger
