import MidiScore.NoteValue
import MidiScore.Pitch

/-!
# Scores

A score has a name, a tempo, a meter, a resolution and perhaps default values for notes.  It
declares patterns, which are reusable sequences of notes, and tracks.  A track plays its
entries one after another on one instrument; an entry is a note, a drum hit, the use of a
pattern, a change of meter or tempo, or a pitch bend.

A note, hit or bend is placed relative to what sounds before it.  Its delay, if it has one,
counts from the start of that, and its pause from the end.

Fields that a writer may leave out have default values here.
-/

namespace MidiScore

/-- A time signature. -/
structure Meter where
  numerator : UInt8
  denominator : UInt8
  deriving DecidableEq

/-! ## Notes -/

/-- A pitched note.  Octave and note value may be left to the score's defaults. -/
structure Note where
  pitch : PitchClass
  octave : Option Int8 := none
  value : Option NoteValue := none
  velocity : UInt8 := 100
  delay : List NoteValue := []
  pause : List NoteValue := []
  deriving DecidableEq

/-- A percussion hit. -/
structure Hit where
  drum : Drum
  velocity : UInt8 := 100
  delay : List NoteValue := []
  pause : List NoteValue := []
  deriving DecidableEq

namespace Hit

/-- The hit, struck together with the one before it. -/
def chorded (hit : Hit) : Hit := { hit with delay := [.chord] }

/-- Whether the hit is struck together with the one before it. -/
def isChordMarked (hit : Hit) : Bool := NoteValue.startsWithChord hit.delay

end Hit

/-- A pitch bend that returns to the centre after its length. -/
structure Bend where
  /-- Between -1 and 1 in a valid score. -/
  amount : Float32
  /-- The note values add up. -/
  length : List NoteValue
  delay : List NoteValue := []
  deriving DecidableEq

/-! ## Patterns -/

/-- A note of a pattern. -/
inductive PatternNote where
  | note (note : Note)
  | hit (hit : Hit)
  deriving DecidableEq

/-- A named sequence of notes. -/
structure Pattern where
  name : String
  notes : List PatternNote := []
  deriving DecidableEq

/-- A pattern played so many times within a track. -/
structure PatternUse where
  pattern : String
  count : Int64 := 1
  /-- If not empty, the pause of the very first note. -/
  pause : List NoteValue := []
  deriving DecidableEq

/-! ## Tracks -/

/-- An entry of a track. -/
inductive Entry where
  | note (note : Note)
  | hit (hit : Hit)
  | pattern (use : PatternUse)
  | meter (meter : Meter)
  | tempo (bpm : Float)
  | bend (bend : Bend)
  deriving DecidableEq

/-- What a track is played on. -/
inductive Instrument where
  | drums
  /-- A program of General MIDI. -/
  | program (number : UInt8)
  deriving DecidableEq

/-- Whether a track holds pitched notes or drum hits. -/
inductive TrackKind where
  | melodic
  | percussive
  deriving DecidableEq

namespace TrackKind

/-- The written form. -/
def name : TrackKind → String
  | .melodic => "melodic"
  | .percussive => "percussive"

end TrackKind

/-- The kind of track that an instrument plays. -/
def Instrument.kind : Instrument → TrackKind
  | .drums => .percussive
  | .program _ => .melodic

/-- A named sequence of entries on one instrument. -/
structure Track where
  name : String
  instrument : Instrument
  entries : List Entry := []
  deriving DecidableEq

/-- The kind of a track is that of its instrument. -/
def Track.kind (track : Track) : TrackKind := track.instrument.kind

/-! ## Scores -/

/-- A piece of music.  A new one is in 4/4 at 120 beats per minute. -/
structure Score where
  name : String
  /-- Beats per minute at the start. -/
  tempo : Float := 120.0
  /-- The meter at the start. -/
  meter : Meter := ⟨4, 4⟩
  resolution : Resolution
  /-- The octave of notes that have none. -/
  octave : Option Int8 := none
  /-- The note value of notes that have none. -/
  value : Option NoteValue := none
  patterns : List Pattern := []
  tracks : List Track := []
  deriving DecidableEq

namespace Score

/-- The first pattern of a name. -/
def pattern? (score : Score) (name : String) : Option Pattern :=
  score.patterns.find? fun pattern => pattern.name = name

/-- The score with other defaults for its notes. -/
def withDefaults (score : Score) (octave : Int8) (value : NoteValue) : Score :=
  { score with octave := some octave, value := some value }

/-- The score with one more pattern. -/
def addPattern (score : Score) (pattern : Pattern) : Score :=
  { score with patterns := score.patterns ++ [pattern] }

/-- The score with one more track. -/
def addTrack (score : Score) (track : Track) : Score :=
  { score with tracks := score.tracks ++ [track] }

end Score

end MidiScore
