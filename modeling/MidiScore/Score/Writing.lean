import MidiScore.Score.Basic
import MidiScore.Value

/-!
# Writing scores

`Score.toValue` writes a score as a structured value.  Every field is written; an absent
octave or note value is null, and a pitch is written as its letter.
-/

namespace MidiScore

namespace Value

/-- An optional value; null if absent. -/
def ofOption {α : Type} (write : α → Value) : Option α → Value
  | none => .null
  | some x => write x

/-- A note value. -/
def ofNoteValue (value : NoteValue) : Value := .text value.text

/-- Note values in a list. -/
def ofNoteValues (values : List NoteValue) : Value := .list (values.map ofNoteValue)

/-- An unsigned byte. -/
def ofByte (n : UInt8) : Value := .int n.toNat

/-- An octave number. -/
def ofOctave (n : Int8) : Value := .int n.toInt

end Value

open Value

/-- The fields of a note. -/
def Note.fields (note : Note) : List (String × Value) :=
  [("pitch", .text note.pitch.letter), ("octave", ofOption ofOctave note.octave),
    ("note_type", ofOption ofNoteValue note.value), ("velocity", ofByte note.velocity),
    ("delay", ofNoteValues note.delay), ("pause", ofNoteValues note.pause)]

/-- The fields of a hit. -/
def Hit.fields (hit : Hit) : List (String × Value) :=
  [("element", .text hit.drum.code), ("velocity", ofByte hit.velocity),
    ("delay", ofNoteValues hit.delay), ("pause", ofNoteValues hit.pause)]

/-- The fields of the use of a pattern. -/
def PatternUse.fields (use : PatternUse) : List (String × Value) :=
  [("pattern", .text use.pattern), ("repeat_count", .int use.count.toInt),
    ("pause", ofNoteValues use.pause)]

/-- The fields of a meter. -/
def Meter.fields (meter : Meter) : List (String × Value) :=
  [("numerator", ofByte meter.numerator), ("denominator", ofByte meter.denominator)]

/-- The fields of a bend. -/
def Bend.fields (bend : Bend) : List (String × Value) :=
  [("bend", .single bend.amount), ("duration", ofNoteValues bend.length),
    ("delay", ofNoteValues bend.delay)]

/-- A record that names its kind. -/
def Value.ofKind (kind : String) (fields : List (String × Value)) : Value :=
  .object (("kind", .text kind) :: fields)

/-- An entry of a track. -/
def Entry.toValue : Entry → Value
  | .note n => ofKind "note" n.fields
  | .hit h => ofKind "drum" h.fields
  | .pattern u => ofKind "pattern" u.fields
  | .meter m => ofKind "time_signature" m.fields
  | .tempo bpm => ofKind "tempo" [("bpm", .double bpm)]
  | .bend b => ofKind "pitch_bend" b.fields

/-- A note of a pattern. -/
def PatternNote.toValue : PatternNote → Value
  | .note n => ofKind "note" n.fields
  | .hit h => ofKind "drum" h.fields

/-- A pattern. -/
def Pattern.toValue (pattern : Pattern) : Value :=
  .object [("name", .text pattern.name), ("notes", .list (pattern.notes.map (·.toValue)))]

/-- An instrument. -/
def Instrument.toValue : Instrument → Value
  | .drums => .text "drums"
  | .program number => .object [("program", ofByte number)]

/-- A track. -/
def Track.toValue (track : Track) : Value :=
  .object [("name", .text track.name), ("instrument", track.instrument.toValue),
    ("entries", .list (track.entries.map (·.toValue)))]

/-- A score. -/
def Score.toValue (score : Score) : Value :=
  .object [("name", .text score.name), ("tempo", .double score.tempo),
    ("numerator", ofByte score.meter.numerator),
    ("denominator", ofByte score.meter.denominator),
    ("resolution", .int score.resolution.perQuarter),
    ("default_octave", ofOption ofOctave score.octave),
    ("default_note_type", ofOption ofNoteValue score.value),
    ("patterns", .list (score.patterns.map (·.toValue))),
    ("tracks", .list (score.tracks.map (·.toValue)))]

end MidiScore
