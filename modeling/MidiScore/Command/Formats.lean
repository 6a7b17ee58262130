import MidiScore.Command.Arguments
import MidiScore.Command.Loading
import MidiScore.Command.Log

/-!
# Formats

The command reads arguments, TOML documents and log filters, and writes JSON.  How these are
written is no matter of the command.  It is given a reader or a printer for each of them, and
whatever is known of the command holds for all of them.
-/

namespace MidiScore.Command

/-- What texts mean to the command, and which texts it gives. -/
structure Formats where
  /-- What the arguments ask for, or why nothing is carried out. -/
  arguments : List String → Except Arguments.Stop Arguments.Invocation
  /-- The value of a TOML document. -/
  toml : DocumentReader
  /-- A log filter, with a line for each part that is left out. -/
  filter : String → Log.Filter × List String
  /-- A value as JSON on one line. -/
  compactJson : Value → String
  /-- A value as JSON over several lines. -/
  prettyJson : Value → String

end MidiScore.Command
