import MidiScore.Score.Basic

/-!
# Events

The stream of a track is a list of events, each at a whole tick and with the gap to the event
before it.  An event on the beginning side carries a wait, the ticks before it that belong to
it; one on the end side a delta, the ticks since the latest event.
-/

namespace MidiScore

/-- What happens at a tick. -/
inductive Event where
  /-- The choice of a program on a melodic track. -/
  | programChange (program : UInt8)
  | meter (meter : Meter)
  | tempo (bpm : Float)
  /-- The start of a tone, or of hits struck together. -/
  | noteOn (pitches : List UInt8) (velocity : UInt8) (wait : Nat)
  /-- The end of the same pitches.  Without a delta it falls the duration after their start. -/
  | noteOff (pitches : List UInt8) (duration : Nat) (delta : Option Nat)
  | bendBegin (amount : Float32) (wait : Nat)
  /-- The return of a bend to the centre. -/
  | bendEnd (delta : Option Nat)
  deriving DecidableEq

namespace Event

/-- The name of the kind of event. -/
def name : Event → String
  | .programChange _ => "program_change"
  | .meter _ => "time_signature"
  | .tempo _ => "tempo"
  | .noteOn .. => "note_on"
  | .noteOff .. => "note_off"
  | .bendBegin .. => "pitch_bend_begin"
  | .bendEnd _ => "pitch_bend_end"

end Event

/-- An event at its tick. -/
structure TimedEvent where
  tick : Nat
  /-- Ticks since the event before it. -/
  gap : Nat
  event : Event
  deriving DecidableEq

end MidiScore
