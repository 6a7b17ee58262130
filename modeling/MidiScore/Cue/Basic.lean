import MidiScore.Score.Basic

/-!
# Cues

A cue is one concrete thing that a track does: a tone, a group of hits struck together, a
pitch bend, or a change of meter or tempo.  It remembers where in the score it comes from.

A cue is either *sounding*, with a length, a delay and a pause, or a *control* that takes no
time.  `Cue.timing` tells the two apart and gives the exact times.
-/

namespace MidiScore

/-! ## Defaults -/

/-- Octave and note value of notes that have none. -/
structure Defaults where
  octave : Int8 := 5
  value : NoteValue := .quarter
  deriving DecidableEq

/-- The defaults of a score, each replaced by the fallback if the score has none. -/
def Score.defaults (score : Score) (fallback : Defaults) : Defaults :=
  ⟨score.octave.getD fallback.octave, score.value.getD fallback.value⟩

/-- A note with its octave and note value. -/
structure Tone where
  pitch : PitchClass
  octave : Int8
  value : NoteValue
  velocity : UInt8
  delay : List NoteValue
  pause : List NoteValue
  deriving DecidableEq

/-- Completes a note from the defaults. -/
def Note.resolve (defaults : Defaults) (note : Note) : Tone :=
  { pitch := note.pitch
    octave := note.octave.getD defaults.octave
    value := note.value.getD defaults.value
    velocity := note.velocity
    delay := note.delay
    pause := note.pause }

/-- The MIDI key of a tone. -/
def Tone.key (tone : Tone) : UInt8 := tone.pitch.key tone.octave

/-! ## Origins -/

/-- A place inside the use of a pattern, counted from zero. -/
structure PatternOrigin where
  name : String
  repetition : Nat
  note : Nat
  deriving DecidableEq, Repr

/-- Where in its track a cue comes from, counted from zero. -/
structure Origin where
  entry : Nat
  pattern : Option PatternOrigin := none
  deriving DecidableEq, Repr

/-- The text of an origin counts from one. -/
def Origin.text (origin : Origin) : String :=
  s!"entry #{origin.entry + 1}" ++
    match origin.pattern with
    | none => ""
    | some p => s!" (pattern '{p.name}', repetition {p.repetition + 1}, note {p.note + 1})"

/-! ## Cues -/

/-- Hits struck at the same time.  The leader's delay, pause and velocity hold for all. -/
structure HitGroup where
  leader : Hit
  others : List Hit := []
  deriving DecidableEq

namespace HitGroup

/-- All hits in the order in which they were written. -/
def hits (group : HitGroup) : List Hit := group.leader :: group.others

/-- The group with one more hit. -/
def add (group : HitGroup) (hit : Hit) : HitGroup :=
  { group with others := group.others ++ [hit] }

/-- The keys of all hits. -/
def keys (group : HitGroup) : List UInt8 := group.hits.map (·.drum.key)

end HitGroup

/-- What a cue does. -/
inductive Action where
  | tone (tone : Tone)
  | hits (group : HitGroup)
  | bend (bend : Bend)
  | meter (meter : Meter)
  | tempo (bpm : Float)
  deriving DecidableEq

/-- One concrete thing that a track does. -/
structure Cue where
  origin : Origin
  action : Action
  deriving DecidableEq

/-- How a cue takes its place in time. -/
inductive Timing where
  /-- A single moment, at the end of what sounded before. -/
  | instant
  /-- A start and an end.  The delay is absent if no delay was written, and may be zero if
  one was. -/
  | span (duration : Ticks) (delay : Option Ticks) (pause : Ticks)
  deriving DecidableEq

namespace Cue

/-- The delay as written. -/
def delay (cue : Cue) : List NoteValue :=
  match cue.action with
  | .tone tone => tone.delay
  | .hits group => group.leader.delay
  | .bend bend => bend.delay
  | .meter _ => []
  | .tempo _ => []

/-- The pause as written. -/
def pause (cue : Cue) : List NoteValue :=
  match cue.action with
  | .tone tone => tone.pause
  | .hits group => group.leader.pause
  | .bend _ => []
  | .meter _ => []
  | .tempo _ => []

/-- Whether the cue is a pitch bend. -/
def isBend (cue : Cue) : Bool :=
  match cue.action with
  | .bend _ => true
  | _ => false

/-- Whether the cue has a start and an end. -/
def isSounding (cue : Cue) : Bool :=
  match cue.action with
  | .tone _ => true
  | .hits _ => true
  | .bend _ => true
  | .meter _ => false
  | .tempo _ => false

/-- Whether the cue sounds together with the one before it. -/
def isChordMarked (cue : Cue) : Bool := NoteValue.startsWithChord cue.delay

/-- The time between start and end, with the sums on the way to it. -/
def durationTraced (resolution : Resolution) (cue : Cue) : Traced Ticks :=
  match cue.action with
  | .tone tone => return tone.value.ticks resolution
  | .hits _ => return NoteValue.drum.ticks resolution
  | .bend bend => NoteValue.sumTraced resolution bend.length
  | .meter _ => return 0
  | .tempo _ => return 0

/-- The time between start and end. -/
def duration (resolution : Resolution) (cue : Cue) : Ticks :=
  (cue.durationTraced resolution).value

/-- The time of the delay if one was written, with the sums on the way to it. -/
def delayTraced (resolution : Resolution) (cue : Cue) : Traced (Option Ticks) :=
  if cue.delay.isEmpty then return none
  else some <$> NoteValue.sumTraced resolution cue.delay

/-- How the cue takes its place in time, with the sums on the way to it. -/
def timingTraced (resolution : Resolution) (cue : Cue) : Traced Timing :=
  if cue.isSounding then do
    let duration ← cue.durationTraced resolution
    let delay ← cue.delayTraced resolution
    let pause ← NoteValue.sumTraced resolution cue.pause
    return .span duration delay pause
  else return .instant

/-- How the cue takes its place in time. -/
def timing (resolution : Resolution) (cue : Cue) : Timing := (cue.timingTraced resolution).value

/-- A sounding cue has a span with its times, and a control none. -/
theorem timing_eq (resolution : Resolution) (cue : Cue) :
    cue.timing resolution =
      if cue.isSounding then
        .span (cue.duration resolution)
          (if cue.delay.isEmpty then none else some (NoteValue.sumTicks resolution cue.delay))
          (NoteValue.sumTicks resolution cue.pause)
      else .instant := by
  unfold timing timingTraced delayTraced
  split
  · cases cue.delay.isEmpty <;> rfl
  · rfl

/-- The keys that a tone or a group of hits sounds. -/
def keys (cue : Cue) : List UInt8 :=
  match cue.action with
  | .tone tone => [tone.key]
  | .hits group => group.keys
  | .bend _ => []
  | .meter _ => []
  | .tempo _ => []

end Cue

end MidiScore
