import MidiScore.Score.Basic
import MidiScore.Value.Reading

/-!
# Reading scores

`Score.ofValue` reads a score from a structured value.  Entries and pattern notes are records
with a `kind`.  An instrument is the name `drums`, or an object whose one field `program`
gives the program number.
-/

namespace MidiScore

open Value

/-- A pitch by letter or syllable. -/
def PitchClass.ofValue (dialect : Dialect) : Value → Reading PitchClass :=
  readName dialect PitchClass.parse? "a pitch"

/-- A drum by its code. -/
def Drum.ofValue (dialect : Dialect) : Value → Reading Drum :=
  readName dialect Drum.parse? "a drum"

/-- A note without its kind. -/
def Note.ofValue (value : Value) : Reading Note := do
  let fields ← value.readFields .tagged
    ["pitch", "octave", "note_type", "velocity", "delay", "pause"]
  let pitch ← required fields "pitch" (PitchClass.ofValue .tagged)
  let octave ← optional fields "octave" readOctave
  let noteValue ← optional fields "note_type" readNoteValue
  let velocity ← defaulted fields "velocity" 100 readByte
  let delay ← defaulted fields "delay" [] readNoteValues
  let pause ← defaulted fields "pause" [] readNoteValues
  return ⟨pitch, octave, noteValue, velocity, delay, pause⟩

/-- A hit without its kind. -/
def Hit.ofValue (value : Value) : Reading Hit := do
  let fields ← value.readFields .tagged ["element", "velocity", "delay", "pause"]
  let drum ← required fields "element" (Drum.ofValue .tagged)
  let velocity ← defaulted fields "velocity" 100 readByte
  let delay ← defaulted fields "delay" [] readNoteValues
  let pause ← defaulted fields "pause" [] readNoteValues
  return ⟨drum, velocity, delay, pause⟩

/-- The use of a pattern without its kind. -/
def PatternUse.ofValue (value : Value) : Reading PatternUse := do
  let fields ← value.readFields .tagged ["pattern", "repeat_count", "pause"]
  let pattern ← required fields "pattern" readText
  let count ← defaulted fields "repeat_count" 1 readCount
  let pause ← defaulted fields "pause" [] readNoteValues
  return ⟨pattern, count, pause⟩

/-- A meter without its kind. -/
def Meter.ofValue (value : Value) : Reading Meter := do
  let fields ← value.readFields .tagged ["numerator", "denominator"]
  let numerator ← required fields "numerator" readByte
  let denominator ← required fields "denominator" readByte
  return ⟨numerator, denominator⟩

/-- A bend without its kind. -/
def Bend.ofValue (value : Value) : Reading Bend := do
  let fields ← value.readFields .tagged ["bend", "duration", "delay"]
  let amount ← required fields "bend" readSingle
  let length ← required fields "duration" readNoteValues
  let delay ← defaulted fields "delay" [] readNoteValues
  return ⟨amount, length, delay⟩

/-- An entry of a track. -/
def Entry.ofValue (value : Value) : Reading Entry := do
  let (kind, content) ← value.readKind
  match kind with
  | "note" => (Note.ofValue content).map .note
  | "drum" => (Hit.ofValue content).map .hit
  | "pattern" => (PatternUse.ofValue content).map .pattern
  | "time_signature" => (Meter.ofValue content).map .meter
  | "tempo" => do
    let fields ← content.readFields .tagged ["bpm"]
    return .tempo (← required fields "bpm" readDouble)
  | "pitch_bend" => (Bend.ofValue content).map .bend
  | _ => .error (.shape "a kind of entry")

/-- A note of a pattern. -/
def PatternNote.ofValue (value : Value) : Reading PatternNote := do
  let (kind, content) ← value.readKind
  match kind with
  | "note" => (Note.ofValue content).map .note
  | "drum" => (Hit.ofValue content).map .hit
  | _ => .error (.shape "a kind of note")

/-- A pattern. -/
def Pattern.ofValue (dialect : Dialect) (value : Value) : Reading Pattern := do
  let fields ← value.readFields dialect ["name", "notes"]
  let name ← required fields "name" readText
  let notes ← required fields "notes" (readList PatternNote.ofValue)
  return ⟨name, notes⟩

/-- An instrument. -/
def Instrument.ofValue (dialect : Dialect) : Value → Reading Instrument
  | .object [("program", number)] => number.readByte.map .program
  | value =>
    value.readName dialect (fun name => if name = "drums" then some .drums else none)
      "an instrument"

/-- A track. -/
def Track.ofValue (dialect : Dialect) (value : Value) : Reading Track := do
  let fields ← value.readFields dialect ["name", "instrument", "entries"]
  let name ← required fields "name" readText
  let instrument ← required fields "instrument" (Instrument.ofValue dialect)
  let entries ← defaulted fields "entries" [] (readList Entry.ofValue)
  return ⟨name, instrument, entries⟩

/-- A score. -/
def Score.ofValue (dialect : Dialect) (value : Value) : Reading Score := do
  let fields ← value.readFields dialect
    ["name", "tempo", "numerator", "denominator", "resolution", "default_octave",
      "default_note_type", "patterns", "tracks"]
  let name ← required fields "name" readText
  let tempo ← required fields "tempo" readDouble
  let numerator ← required fields "numerator" readByte
  let denominator ← required fields "denominator" readByte
  let resolution ← required fields "resolution" readResolution
  let octave ← optional fields "default_octave" readOctave
  let noteValue ← optional fields "default_note_type" readNoteValue
  let patterns ← defaulted fields "patterns" [] (readList (Pattern.ofValue dialect))
  let tracks ← defaulted fields "tracks" [] (readList (Track.ofValue dialect))
  return ⟨name, tempo, ⟨numerator, denominator⟩, resolution, octave, noteValue, patterns, tracks⟩

end MidiScore
