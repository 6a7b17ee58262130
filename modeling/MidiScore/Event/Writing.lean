import MidiScore.Compile
import MidiScore.Value

/-!
# Writing event streams

`CompiledScore.toValue` writes compiled tracks, their events and their findings as a
structured value.  The fields of an event stand beside its tick, gap and type.
-/

namespace MidiScore

/-! ## Events -/

/-- An optional number of ticks; null if absent. -/
def Value.ofTicks? : Option Nat → Value
  | none => .null
  | some n => .int n

/-- The keys of an event. -/
def Value.ofKeys (keys : List UInt8) : Value := .list (keys.map fun key => .int key.toNat)

namespace Event

/-- The type of an event as it is written. -/
def typeName : Event → String
  | .programChange _ => "ProgramChange"
  | .meter _ => "TimeSignature"
  | .tempo _ => "Tempo"
  | .noteOn .. => "NoteOn"
  | .noteOff .. => "NoteOff"
  | .bendBegin .. => "PitchBendBegin"
  | .bendEnd _ => "PitchBendEnd"

/-- The fields that belong to the type of an event. -/
def fields : Event → List (String × Value)
  | .programChange program => [("program", .int program.toNat)]
  | .meter m =>
    [("numerator", .int m.numerator.toNat), ("denominator", .int m.denominator.toNat)]
  | .tempo bpm => [("bpm", .double bpm)]
  | .noteOn pitches velocity wait =>
    [("pitches", .ofKeys pitches), ("velocity", .int velocity.toNat), ("wait", .int wait)]
  | .noteOff pitches duration delta =>
    [("pitches", .ofKeys pitches), ("duration", .int duration), ("delta", .ofTicks? delta)]
  | .bendBegin amount wait => [("amount", .single amount), ("wait", .int wait)]
  | .bendEnd delta => [("delta", .ofTicks? delta)]

end Event

/-- The fields of an event at its tick. -/
def TimedEvent.fields (timed : TimedEvent) : List (String × Value) :=
  [("tick", .int timed.tick), ("delta_ticks", .int timed.gap),
    ("type", .text timed.event.typeName)] ++ timed.event.fields

/-! ## Findings -/

/-- An origin; null stands for an entry that uses no pattern. -/
def Origin.toValue (origin : Origin) : Value :=
  .object [("entry", .int origin.entry),
    ("pattern",
      match origin.pattern with
      | none => .null
      | some p =>
        .object [("name", .text p.name), ("repetition", .int p.repetition),
          ("note", .int p.note)])]

/-- The fields of a finding. -/
def Finding.fields : Finding → List (String × Value)
  | .rounding origin quantity exact emitted =>
    [("kind", .text "rounding"), ("origin", origin.toValue), ("quantity", .text quantity.name),
      ("exact", .double exact.toFloat), ("emitted", .int emitted)]
  | .collapsed origin exact =>
    [("kind", .text "collapsed_note"), ("origin", origin.toValue),
      ("exact", .double exact.toFloat)]

/-! ## Scores -/

/-- A compiled track. -/
def CompiledTrack.toValue (track : CompiledTrack) : Value :=
  .object [("name", .text track.name), ("kind", .text track.kind.name),
    ("events", .list (track.events.map fun timed => .object timed.fields)),
    ("diagnostics", .list (track.findings.map fun finding => .object finding.fields))]

/-- A compiled score. -/
def CompiledScore.toValue (score : CompiledScore) : Value :=
  .object [("name", .text score.name), ("resolution", .int score.resolution.perQuarter),
    ("tracks", .list (score.tracks.map (·.toValue)))]

end MidiScore
