import MidiScore.Command.Formats
import MidiScore.Event.Writing
import MidiScore.Midi.File

/-!
# The command

`run` carries out the command on a host and gives the status with which the command ends.  It goes
step by step, and a step that fails ends the task with a `Failure`: what could not be done, and
what caused it.

A task also ends where its result or an issue cannot be printed.  Log lines, and the report of a
failure, are printed if they can be.

A compiled file is written only after everything else has succeeded but the line about it.  So a
task that fails leaves all files as they were.
-/

namespace MidiScore.Command

/-! ## Failures -/

/-- What could not be done, and what caused it, the nearest cause first. -/
structure Failure where
  summary : String
  causes : List String := []
  deriving DecidableEq, Repr

namespace Failure

/-- A text with its lines after the first one set in. -/
def indent (width : Nat) (text : String) : String :=
  let margin := List.replicate width ' '
  String.ofList (text.toList.flatMap fun c => if c = '\n' then c :: margin else [c])

/-- A numbered cause. -/
def numbered (index : Nat) (cause : String) : String :=
  let number := toString index
  let padding := String.ofList (List.replicate (5 - number.length) ' ')
  padding ++ number ++ ": " ++ indent 7 cause ++ "\n"

/-- The causes; a single one has no number. -/
def causesText : List String → String
  | [] => ""
  | [cause] => "\nCaused by:\n    " ++ indent 4 cause ++ "\n"
  | causes =>
    "\nCaused by:\n" ++ String.join (causes.zipIdx.map fun (cause, index) => numbered index cause)

/-- The report to the user. -/
def report (failure : Failure) : String :=
  "Error: " ++ failure.summary ++ "\n" ++ causesText failure.causes

/-- A file that could not be loaded. -/
def ofLoad (summary : String) (error : LoadError) : Failure :=
  ⟨summary, [error.message, error.detail]⟩

/-- A score that could not be compiled. -/
def ofCompile (summary : String) (error : CompileError) : Failure :=
  ⟨summary, [error.message, error.cause.message]⟩

end Failure

/-! ## Steps -/

/-- Why a task ends early. -/
inductive Halt where
  | failed (failure : Failure)
  /-- Something cannot be printed. -/
  | unprinted (error : SystemError)
  deriving DecidableEq, Repr

/-- A step of the command. -/
abbrev Step (m : Type → Type) := ExceptT Halt m

/-- What the command knows besides its arguments. -/
structure Environment where
  /-- The directory for settings of all programs, if there is one. -/
  configHome : Option String
  /-- The log filter that the user has set. -/
  logFilter : Option String := none
  deriving Repr

section Steps

variable {m : Type → Type} [Monad m] (host : Host m)

/-- Prints a line, or ends the task. -/
def printLine (outlet : Outlet) (text : String) : Step m Unit := do
  match ← host.print outlet (text ++ "\n") with
  | .ok () => pure ()
  | .error error => throw (.unprinted error)

/-- Prints a line to the output. -/
def say (text : String) : Step m Unit := printLine host .out text

/-- Prints lines to the error output. -/
def complain (lines : List String) : Step m Unit := lines.forM (printLine host .err)

/-- Prints log records as far as the filter shows them and the system lets it. -/
def log (filter : Log.Filter) (records : List Log.Record) : Step m Unit :=
  (records.filter filter.shows).forM fun record => do
    let _ ← host.print .err record.line

/-- Goes on with a result, or fails. -/
def orFail {ε α : Type} (failure : ε → Failure) : Except ε α → Step m α
  | .ok value => pure value
  | .error error => throw (.failed (failure error))

/-- The path of the settings file. -/
def settingsPath (environment : Environment) : Except Failure String :=
  match environment.configHome with
  | some directory => .ok (Path.join directory "scorec/config.toml")
  | none => .error ⟨"Configuration error: Could not determine config directory", []⟩

/-- The settings.  A file that was asked for must be there; otherwise the user's own settings
hold, if they can be loaded. -/
def loadSettings (toml : DocumentReader) (environment : Environment) :
    Option String → Step m Settings
  | some path => do
    let result ← host.load (Settings.ofToml toml) path
    orFail (Failure.ofLoad s!"Failed to load config {path}") result
  | none =>
    match settingsPath environment with
    | .error _ => pure {}
    | .ok path => do
      match ← host.load (Settings.ofToml toml) path with
      | .ok settings => pure settings
      | .error _ => pure {}

/-- The score of a file. -/
def loadScore (toml : DocumentReader) (filter : Log.Filter) (file : String) : Step m Score := do
  let result ← host.load (Score.ofToml toml) file
  let score ← orFail (Failure.ofLoad s!"Failed to load {file}") result
  log host filter [Log.loaded score file]
  return score

/-- Prints all issues of a score, and fails if there is an error among them. -/
def validate (filter : Log.Filter) (file : String) (score : Score) : Step m Unit := do
  let report := score.validate
  log host filter [Log.validated score report]
  complain host (report.issues.map (·.text))
  if report.isOk then pure ()
  else throw (.failed ⟨s!"{file} has {report.errors.length} errors", []⟩)

/-- Compiles a score. -/
def compile (filter : Log.Filter) (settings : Settings) (parallel : Bool) (score : Score) :
    Step m CompiledScore := do
  log host filter (Log.scoreRecords score settings.defaults parallel)
  let result :=
    if parallel then score.compileParallel settings.defaults
    else score.compile settings.defaults
  let compiled ← orFail (Failure.ofCompile s!"Failed to compile '{score.name}'") result
  log host filter [Log.compiled compiled]
  return compiled

/-- Creates the directory of a file. -/
def prepareDirectory (path : String) : Step m Unit :=
  match Path.parent? path with
  | none => pure ()
  | some parent =>
    if parent.isEmpty then pure ()
    else do
      let result ← host.createDirectories parent
      orFail (fun error => ⟨s!"Failed to create {parent}", [error.message]⟩) result

/-- Writes a compiled score. -/
def writeMidi (filter : Log.Filter) (settings : Settings) (path : String)
    (compiled : CompiledScore) : Step m Unit := do
  let summary := s!"Failed to write {path}"
  let bytes ← orFail (fun error => ⟨summary, [error.message]⟩)
    (compiled.toMidi settings.trackNames)
  log host filter [Log.encoded compiled bytes]
  let result ← host.write path bytes
  orFail (fun error => ⟨summary, [s!"I/O error: {error.message}", error.message]⟩) result
  log host filter [Log.wrote path]

/-! ## Tasks -/

variable (formats : Formats)

/-- Compiles a score file into a MIDI file. -/
def compileFile (environment : Environment) (filter : Log.Filter) (config : Option String)
    (file : String) (output : Option String) (validated parallel : Bool) : Step m Unit := do
  let settings ← loadSettings host formats.toml environment config
  let score ← loadScore host formats.toml filter file
  if validated then validate host filter file score
  let compiled ← compile host filter settings parallel score
  let path := output.getD (settings.outputPath file)
  prepareDirectory host path
  writeMidi host filter settings path compiled
  say host s!"{file} -> {path} ({compiled.tracks.length} tracks)"

/-- Checks a score file. -/
def checkFile (filter : Log.Filter) (file : String) : Step m Unit := do
  let score ← loadScore host formats.toml filter file
  validate host filter file score
  say host s!"{file}: ok"

/-- Prints the event streams of a score file. -/
def printEvents (environment : Environment) (filter : Log.Filter) (config : Option String)
    (file : String) (pretty : Bool) : Step m Unit := do
  let settings ← loadSettings host formats.toml environment config
  let score ← loadScore host formats.toml filter file
  let compiled ← compile host filter settings false score
  let json := if pretty then formats.prettyJson else formats.compactJson
  say host (json compiled.toValue)

/-- Writes the settings file that a user starts from. -/
def createSettings (environment : Environment) : Step m Unit := do
  let path ← orFail id (settingsPath environment)
  let refused : SystemError → Failure := fun error =>
    ⟨(LoadError.system error).message, [error.message]⟩
  let created ← host.createDirectories ((Path.parent? path).getD "")
  orFail refused created
  let written ← host.write path Settings.initialFile.toUTF8.data.toList
  orFail refused written
  say host s!"Created default config at: {path}"

/-- Carries out a task with a log filter. -/
def performTask (environment : Environment) (filter : Log.Filter) (config : Option String) :
    Arguments.Task → Step m Unit
  | .compile file output validated parallel =>
    compileFile host formats environment filter config file output validated parallel
  | .check file => checkFile host formats filter file
  | .events file pretty => printEvents host formats environment filter config file pretty
  | .init => createSettings host environment
  | .configPath => do
    let path ← orFail id (settingsPath environment)
    say host path

/-- Carries out a task, after the warnings about the log filter. -/
def perform (environment : Environment) (invocation : Arguments.Invocation) : Step m Unit := do
  let level := if invocation.verbose then "debug" else "info"
  let (filter, warnings) := formats.filter (environment.logFilter.getD level)
  complain host warnings
  performTask host formats environment filter invocation.config invocation.task

/-! ## Running -/

/-- Ends a run in which a task was carried out.  A failure is reported. -/
def finish : Except Halt Unit → m Nat
  | .ok () => pure 0
  | .error (.failed failure) => do
    let _ ← host.print .err failure.report
    return 1
  | .error (.unprinted _) => pure 101

/-- Ends a run without a task. -/
def stop : Arguments.Stop → m Nat
  | .usage => do
    let _ ← host.print .err Arguments.usageText
    return 2
  | .version => do
    let _ ← host.print .out Arguments.versionText
    return 0
  | .help => do
    let _ ← host.print .out Arguments.usageText
    return 0

/-- Runs the command, and gives the status with which it ends. -/
def run (environment : Environment) (arguments : List String) : m Nat :=
  match formats.arguments arguments with
  | .error reason => stop host reason
  | .ok invocation => do
    let result ← (perform host formats environment invocation).run
    finish host result

end Steps

end MidiScore.Command
