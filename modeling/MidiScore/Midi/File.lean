import MidiScore.Compile
import MidiScore.Midi.Message

/-!
# Standard MIDI files

A compiled score is written as a format 1 file: a header chunk and one chunk per track.  A
track chunk is a stream of messages, each with the ticks since the message before it, and
ends with an end-of-track message.

Writing has two steps.  `trackStream` finds the messages and their deltas, and it is here
that a score can be refused.  `fileBytes` lays the streams out as bytes and cannot fail.
-/

namespace MidiScore.Midi

/-! ## Message streams -/

/-- A message and the ticks since the message before it. -/
structure TimedMessage where
  delta : VarLength
  message : Message
  deriving DecidableEq

/-- Times the messages of one tick.  The tick before them is given; a tick before that one
counts as the same. -/
def timeMessages (last tick : Nat) : List Message → Except WriteError (List TimedMessage)
  | [] => .ok []
  | message :: rest => do
    let delta ← VarLength.ofNat (tick - last)
    let others ← timeMessages (max tick last) tick rest
    return ⟨delta, message⟩ :: others

/-- The messages of events after the given tick. -/
def eventStream (channel : Channel) :
    Nat → List TimedEvent → Except WriteError (List TimedMessage)
  | _, [] => .ok []
  | last, event :: rest => do
    let messages ← event.event.messages channel
    let first ← timeMessages last event.tick messages
    let others ← eventStream channel (if messages.isEmpty then last else max event.tick last) rest
    return first ++ others

/-- The message of a track's name, if names are written. -/
def nameStream (trackNames : Bool) (name : String) : Except WriteError (List TimedMessage) :=
  if trackNames then do
    let text ← MetaText.ofString name
    return [⟨.zero, .trackName text⟩]
  else .ok []

/-- The messages of a track. -/
def trackStream (trackNames : Bool) (track : CompiledTrack) :
    Except WriteError (List TimedMessage) := do
  let name ← nameStream trackNames track.name
  let events ← eventStream track.kind.channel 0 track.events
  return name ++ events ++ [⟨.zero, .endOfTrack⟩]

/-! ## Bytes -/

/-- A number in so many bytes, highest first. -/
def bigEndian (count n : Nat) : List UInt8 :=
  (List.range count).reverse.map fun i => UInt8.ofNat (n / Nat.pow 256 i)

/-- A chunk with its type and length. -/
def chunk (type : List UInt8) (body : List UInt8) : List UInt8 :=
  type ++ bigEndian 4 body.length ++ body

/-- The bytes of a message with its delta. -/
def TimedMessage.bytes (timed : TimedMessage) : List UInt8 :=
  timed.delta.bytes ++ timed.message.bytes

/-- The type of the header chunk, `MThd`. -/
def headerType : List UInt8 := [0x4D, 0x54, 0x68, 0x64]

/-- The type of a track chunk, `MTrk`. -/
def trackType : List UInt8 := [0x4D, 0x54, 0x72, 0x6B]

/-- The chunk of a track. -/
def trackBytes (stream : List TimedMessage) : List UInt8 :=
  chunk trackType (stream.flatMap TimedMessage.bytes)

/-- The header chunk: format 1, the number of tracks, and ticks per quarter note. -/
def headerBytes (trackCount division : Nat) : List UInt8 :=
  chunk headerType (bigEndian 2 1 ++ bigEndian 2 trackCount ++ bigEndian 2 division)

/-- The bytes of a file. -/
def fileBytes (division : Nat) (streams : List (List TimedMessage)) : List UInt8 :=
  headerBytes streams.length division ++ streams.flatMap trackBytes

end MidiScore.Midi

namespace MidiScore

open Midi in
/-- Writes a compiled score as a MIDI file, with or without the names of its tracks. -/
def CompiledScore.toMidi (score : CompiledScore) (trackNames : Bool := true) :
    Except WriteError (List UInt8) :=
  if 65535 < score.tracks.length then .error (.trackCount score.tracks.length)
  else if 65535 < score.resolution.perQuarter then
    .error (.encoding "Resolution exceeds the division field")
  else do
    let streams ← score.tracks.mapM (trackStream trackNames)
    return fileBytes score.resolution.perQuarter streams

open Midi in
/-- A resolution is small, so the header always has room for it. -/
theorem CompiledScore.toMidi_eq (score : CompiledScore) (trackNames : Bool) :
    score.toMidi trackNames =
      if 65535 < score.tracks.length then .error (.trackCount score.tracks.length)
      else do
        let streams ← score.tracks.mapM (trackStream trackNames)
        return fileBytes score.resolution.perQuarter streams := by
  have room : ¬65535 < score.resolution.perQuarter :=
    Nat.not_lt.mpr (Nat.le_trans score.resolution.small (by decide))
  rw [toMidi, if_neg room]

end MidiScore
