import MidiScore.Command.Host
import MidiScore.Command.Settings
import MidiScore.Score.Reading

/-!
# Loading files

Scores and settings are kept in TOML files.  A file cannot be loaded if the system refuses it,
if its text is no TOML, or if the document does not say what is expected.

What is TOML and what is not is left to a reader that is given, a `DocumentReader`.
-/

namespace MidiScore

/-- Reads the value of a document, or says why the text is none. -/
abbrev DocumentReader := String → Except String Value

/-- Why a file could not be loaded. -/
inductive LoadError where
  | system (error : SystemError)
  /-- The text is no TOML document. -/
  | malformed (reason : String)
  | reading (error : ReadError)
  deriving DecidableEq, Repr

namespace LoadError

/-- What lies behind the error. -/
def detail : LoadError → String
  | .system error => error.message
  | .malformed reason => reason
  | .reading error => error.message

/-- What is said about the error. -/
def message : LoadError → String
  | .system error => s!"IO error: {error.message}"
  | .malformed reason => s!"TOML parse error: {reason}"
  | .reading error => s!"TOML parse error: {error.message}"

end LoadError

/-- Reads a TOML text. -/
def readToml {α : Type} (toml : DocumentReader) (read : Value → Reading α) (text : String) :
    Except LoadError α :=
  match toml text with
  | .error reason => .error (.malformed reason)
  | .ok value => (read value).mapError .reading

/-- The score of a TOML text. -/
def Score.ofToml (toml : DocumentReader) (text : String) : Except LoadError Score :=
  readToml toml (Score.ofValue .toml) text

/-- The settings of a TOML text. -/
def Settings.ofToml (toml : DocumentReader) (text : String) : Except LoadError Settings :=
  readToml toml (Settings.ofValue .toml) text

/-- Loads a file of a host. -/
def Host.load {m : Type → Type} [Monad m] {α : Type} (host : Host m)
    (parse : String → Except LoadError α) (path : String) : m (Except LoadError α) := do
  let text ← host.readText path
  return (text.mapError LoadError.system).bind parse

end MidiScore
