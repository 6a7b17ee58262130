import MidiScore.Score.Basic
import MidiScore.Number.Format

/-!
# Validation

`Score.validate` reports everything about a score that a reader should know before it is
compiled.  An error is a violated precondition.  A warning says that a note relies on a
default that the score does not declare.

The report goes through the score in order: the head of the score, the patterns with their
notes, the tracks with their entries.
-/

namespace MidiScore

/-! ## Issues -/

inductive Severity where
  | error
  | warning
  deriving DecidableEq, Repr

/-- The name of a severity. -/
def Severity.name : Severity → String
  | .error => "error"
  | .warning => "warning"

/-- Where an issue was found. -/
inductive Location where
  | score
  | pattern (name : String) (note : Option Nat)
  | track (name : String) (entry : Option Nat)
  deriving DecidableEq, Repr

/-- The text of a location counts from one. -/
def Location.text : Location → String
  | .score => "music"
  | .pattern name none => s!"pattern '{name}'"
  | .pattern name (some note) => s!"pattern '{name}', note #{note + 1}"
  | .track name none => s!"track '{name}'"
  | .track name (some entry) => s!"track '{name}', entry #{entry + 1}"

/-- What is wrong. -/
inductive Fault where
  | tempo
  | numerator (value : UInt8)
  | denominator (value : UInt8)
  | defaultOctave (octave : Int8)
  | emptyPattern
  | duplicatePattern
  /-- A pattern with notes and hits. -/
  | mixedPattern
  | program (number : UInt8)
  | repeatCount (count : Int64) (pattern : String)
  | undeclaredPattern (pattern : String)
  /-- Notes or hits on a track of the other kind, which is given. -/
  | foreignNotes (kind : TrackKind)
  | octave (octave : Int8)
  | missingOctave
  | missingValue
  /-- A pitch above the keyboard. -/
  | key (pitch : PitchClass) (octave : Int8)
  | velocity (value : UInt8)
  | delayAndPause
  | bendAmount (amount : Float32)
  | bendLength
  deriving DecidableEq

namespace Fault

/-- Missing defaults are warnings, all else are errors. -/
def severity : Fault → Severity
  | .missingOctave => .warning
  | .missingValue => .warning
  | _ => .error

/-- What is said about the fault. -/
def message : Fault → String
  | .tempo => "tempo must be greater than 0"
  | .numerator n => s!"numerator {n} must be 1, 2, 4, 8 or 16"
  | .denominator n => s!"denominator {n} must be between 1 and 12"
  | .defaultOctave o => s!"default octave {o.toInt} must be between -1 and 9"
  | .emptyPattern => "pattern has no notes"
  | .duplicatePattern => "pattern is declared more than once"
  | .mixedPattern => "pattern contains both drum notes and classic notes"
  | .program n => s!"program {n} must be between 0 and 127"
  | .repeatCount n name =>
    s!"repeat count {n.toInt} of pattern '{name}' must be greater than 0"
  | .undeclaredPattern name => s!"pattern '{name}' is not declared"
  | .foreignNotes .percussive => "drum track contains classic notes"
  | .foreignNotes .melodic => "melodic track contains drum notes"
  | .octave o => s!"octave {o.toInt} must be between -1 and 9"
  | .missingOctave => "note has no octave and the music declares no default octave"
  | .missingValue => "note has no note type and the music declares no default note type"
  | .key pitch o => s!"{pitch.letter}{o.toInt} is above the highest MIDI key (G9)"
  | .velocity n => s!"velocity {n} must be between 0 and 127"
  | .delayAndPause => "note has both a delay and a pause"
  | .bendAmount amount =>
    s!"bend {NumberFormat.message.text (.ofSingle amount)} must be between -1.0 and 1.0"
  | .bendLength => "pitch bend has no duration"

end Fault

/-- A fault and where it was found. -/
structure Issue where
  location : Location
  fault : Fault
  deriving DecidableEq

namespace Issue

def severity (issue : Issue) : Severity := issue.fault.severity

/-- The text of an issue. -/
def text (issue : Issue) : String :=
  s!"{issue.severity.name}: {issue.location.text}: {issue.fault.message}"

end Issue

/-- All issues of a score in order. -/
structure Report where
  issues : List Issue
  deriving DecidableEq

namespace Report

def errors (report : Report) : List Issue := report.issues.filter (·.severity = .error)

def warnings (report : Report) : List Issue := report.issues.filter (·.severity = .warning)

/-- Whether the score has no errors; it may have warnings. -/
def isOk (report : Report) : Bool := report.errors.isEmpty

end Report

/-! ## Checks of single values -/

/-- The fault, if a condition is violated. -/
def Fault.unless (fault : Fault) (condition : Bool) : List Fault :=
  if condition then [] else [fault]

/-- Whether a tempo is positive and finite. -/
def isPositiveTempo (bpm : Float) : Bool := 0.0 < bpm && bpm.isFinite

/-- Whether an octave is one of the keyboard. -/
def isKeyboardOctave (octave : Int8) : Bool := -1 ≤ octave.toInt && octave.toInt ≤ 9

/-- Numerators are powers of two up to 16, denominators go from 1 to 12. -/
def Meter.faults (meter : Meter) : List Fault :=
  (Fault.numerator meter.numerator).unless ([1, 2, 4, 8, 16].contains meter.numerator) ++
    (Fault.denominator meter.denominator).unless
      (1 ≤ meter.denominator && meter.denominator ≤ 12)

/-- A velocity goes up to 127. -/
def velocityFaults (velocity : UInt8) : List Fault :=
  (Fault.velocity velocity).unless (velocity ≤ 127)

/-- A note has a delay or a pause but not both. -/
def placementFaults (delay pause : List NoteValue) : List Fault :=
  Fault.delayAndPause.unless (delay.isEmpty || pause.isEmpty)

/-! ## Checks of notes -/

namespace Note

/-- A note's own octave is one of the keyboard; without one it relies on the score's. -/
def octaveFaults (score : Score) (note : Note) : List Fault :=
  match note.octave with
  | some octave => (Fault.octave octave).unless (isKeyboardOctave octave)
  | none => Fault.missingOctave.unless score.octave.isSome

/-- In an octave of the keyboard the pitch must not lie above its highest key. -/
def keyFaults (score : Score) (note : Note) : List Fault :=
  match (note.octave.or score.octave).filter isKeyboardOctave with
  | some octave => (Fault.key note.pitch octave).unless (note.pitch.key? octave).isSome
  | none => []

/-- A note without a value relies on the score's. -/
def valueFaults (score : Score) (note : Note) : List Fault :=
  Fault.missingValue.unless (note.value.isSome || score.value.isSome)

/-- All faults of a note. -/
def faults (score : Score) (note : Note) : List Fault :=
  note.octaveFaults score ++ note.keyFaults score ++ note.valueFaults score ++
    velocityFaults note.velocity ++ placementFaults note.delay note.pause

end Note

/-- All faults of a hit. -/
def Hit.faults (hit : Hit) : List Fault :=
  velocityFaults hit.velocity ++ placementFaults hit.delay hit.pause

/-- All faults of a bend. -/
def Bend.faults (bend : Bend) : List Fault :=
  (Fault.bendAmount bend.amount).unless (-1.0 ≤ bend.amount && bend.amount ≤ 1.0) ++
    Fault.bendLength.unless (!bend.length.isEmpty)

/-! ## Checks of patterns -/

namespace PatternNote

/-- The kind of track that the note belongs on. -/
def kind : PatternNote → TrackKind
  | .note _ => .melodic
  | .hit _ => .percussive

/-- All faults of a note of a pattern. -/
def faults (score : Score) : PatternNote → List Fault
  | .note n => n.faults score
  | .hit h => h.faults

end PatternNote

namespace Pattern

/-- The kind of track that the pattern belongs on, by its first note. -/
def kind? (pattern : Pattern) : Option TrackKind := pattern.notes.head?.map (·.kind)

/-- Whether the pattern has both notes and hits. -/
def isMixed (pattern : Pattern) : Bool :=
  pattern.notes.any (·.kind = .melodic) && pattern.notes.any (·.kind = .percussive)

/-- All issues of a pattern. -/
def issues (score : Score) (pattern : Pattern) : List Issue :=
  let here (fault : Fault) : Issue := ⟨.pattern pattern.name none, fault⟩
  let sameName := score.patterns.countP fun other => other.name = pattern.name
  (Fault.emptyPattern.unless (!pattern.notes.isEmpty)).map here ++
    (Fault.duplicatePattern.unless (sameName ≤ 1)).map here ++
    (pattern.notes.zipIdx.flatMap fun (note, index) =>
      (note.faults score).map fun fault => ⟨.pattern pattern.name (some index), fault⟩) ++
    (Fault.mixedPattern.unless (!pattern.isMixed)).map here

end Pattern

/-! ## Checks of tracks -/

/-- The faults of the use of a pattern. -/
def PatternUse.faults (score : Score) (use : PatternUse) : List Fault :=
  (Fault.repeatCount use.count use.pattern).unless (0 < use.count.toInt) ++
    (Fault.undeclaredPattern use.pattern).unless (score.pattern? use.pattern).isSome

namespace Entry

/-- The kind of track that the entry belongs on, if it plays notes. -/
def kind? (score : Score) : Entry → Option TrackKind
  | .note _ => some .melodic
  | .hit _ => some .percussive
  | .pattern u => (score.pattern? u.pattern).bind (·.kind?)
  | .meter _ => none
  | .tempo _ => none
  | .bend _ => none

/-- The faults of an entry by itself. -/
def ownFaults (score : Score) : Entry → List Fault
  | .note n => n.faults score
  | .hit h => h.faults
  | .pattern u => u.faults score
  | .meter m => m.faults
  | .tempo bpm => Fault.tempo.unless (isPositiveTempo bpm)
  | .bend b => b.faults

/-- The faults of an entry on a track of a kind. -/
def faults (score : Score) (kind : TrackKind) (entry : Entry) : List Fault :=
  entry.ownFaults score ++
    (Fault.foreignNotes kind).unless ((entry.kind? score).all (· = kind))

end Entry

/-- Programs go up to 127. -/
def Instrument.faults : Instrument → List Fault
  | .drums => []
  | .program number => (Fault.program number).unless (number ≤ 127)

/-- All issues of a track. -/
def Track.issues (score : Score) (track : Track) : List Issue :=
  (track.instrument.faults.map fun fault => ⟨.track track.name none, fault⟩) ++
    track.entries.zipIdx.flatMap fun (entry, index) =>
      (entry.faults score track.kind).map fun fault => ⟨.track track.name (some index), fault⟩

/-! ## Checks of scores -/

namespace Score

/-- The faults of the head of a score. -/
def headFaults (score : Score) : List Fault :=
  Fault.tempo.unless (isPositiveTempo score.tempo) ++ score.meter.faults ++
    match score.octave with
    | some octave => (Fault.defaultOctave octave).unless (isKeyboardOctave octave)
    | none => []

/-- The report on a score. -/
def validate (score : Score) : Report where
  issues :=
    (score.headFaults.map fun fault => ⟨.score, fault⟩) ++
      score.patterns.flatMap (·.issues score) ++ score.tracks.flatMap (·.issues score)

end Score

end MidiScore
