import MidiScore.Command.Path
import MidiScore.Cue.Basic
import MidiScore.Value.Reading

/-!
# Settings

The settings file gives fallbacks for notes whose score declares no defaults, the directory
for compiled files, and whether the names of tracks are written.  Everything in it may be
left out.
-/

namespace MidiScore

/-- What a user can choose once for all scores. -/
structure Settings where
  /-- Octave and note value where the score has no defaults. -/
  defaults : Defaults := {}
  /-- The directory for compiled files; without one they go beside the score. -/
  destination : Option String := none
  /-- Whether every track starts with its name. -/
  trackNames : Bool := true
  deriving DecidableEq

namespace Settings

open Value

/-- The fallbacks of the settings. -/
def defaultsOfValue (dialect : Dialect) (value : Value) : Reading Defaults := do
  let fields ← value.readFields dialect ["octave", "note_type"]
  let octave ← defaulted fields "octave" ({} : Defaults).octave readOctave
  let noteValue ← defaulted fields "note_type" ({} : Defaults).value readNoteValue
  return ⟨octave, noteValue⟩

/-- The destination and whether names are written. -/
def outputOfValue (dialect : Dialect) (value : Value) : Reading (Option String × Bool) := do
  let fields ← value.readFields dialect ["destination", "track_names"]
  let destination ← optional fields "destination" readText
  let trackNames ← defaulted fields "track_names" true readBool
  return (destination, trackNames)

/-- Reads settings. -/
def ofValue (dialect : Dialect) (value : Value) : Reading Settings := do
  let fields ← value.readFields dialect ["defaults", "output"]
  let defaults ← defaulted fields "defaults" {} (defaultsOfValue dialect)
  let output ← defaulted fields "output" (none, true) (outputOfValue dialect)
  return ⟨defaults, output.1, output.2⟩

/-- The settings file that a user starts from; it says what holds without it. -/
def initialFile : String :=
"# scorec configuration file

[defaults]
# Octave for notes without one, when the music declares no default (-1 to 9)
octave = 5

# Note type for notes without one, when the music declares no default
# e.g. \"quarter\", \"eighth_dotted\", \"half_triplet\"
note_type = \"quarter\"

[output]
# Directory for compiled .mid files (default: next to the input file)
# destination = \"out\"

# Write a track name meta event at the start of every track
track_names = true
"

/-- The name of the compiled file for a score file. -/
def outputName (input : String) : String :=
  match Path.fileName? input with
  | some name => String.ofList (Path.withExtension (Path.stem name) ['m', 'i', 'd'])
  | none => "out.mid"

/-- Where the compiled file for a score file goes. -/
def outputPath (settings : Settings) (input : String) : String :=
  match settings.destination with
  | some directory => Path.join directory (outputName input)
  | none => Path.withFileName input (outputName input)

end Settings

end MidiScore
