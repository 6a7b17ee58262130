import MidiScore.Command.Formats
import MidiScore.Command.Log.Directives
import MidiScore.Json.Writer
import MidiScore.Toml.Reader

/-!
# The usual formats

The readers and printers that the command comes with.
-/

namespace MidiScore

/-- Reads a TOML document.  A text that is none is refused without details. -/
def Toml.document : DocumentReader := fun text =>
  match Toml.read? text with
  | some value => .ok value
  | none => .error "the text is not a TOML document"

/-- The formats that users write. -/
def Command.Formats.standard : Formats where
  arguments := Arguments.parse
  toml := Toml.document
  filter text :=
    let (directives, warnings) := Log.Directives.parse text
    (directives.filter, warnings.map (·.line))
  compactJson := Json.compact
  prettyJson := Json.pretty

end MidiScore
