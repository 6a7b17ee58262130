import MidiScore.Event.Basic
import MidiScore.Midi.VarLength

/-!
# MIDI messages

An event of a compiled track becomes one message, or one message per pitch.  Messages are
written with their status byte; there is no running status.

A melodic track uses channel 0 and a percussive one channel 9.  Data bytes have seven bits.
-/

namespace MidiScore

/-! ## Channels and data -/

namespace Midi

/-- A channel number. -/
abbrev Channel := Fin 16

/-- Seven bits of data. -/
structure DataByte where
  value : UInt8
  small : value ≤ 127
  deriving DecidableEq

namespace DataByte

/-- A data byte for a field of a message. -/
def ofByte (field : DataField) (value : UInt8) : Except WriteError DataByte :=
  if h : value ≤ 127 then .ok ⟨value, h⟩ else .error (.data field value)

end DataByte

/-- The length of bytes as it is written before them.  It is taken in a 32-bit word and wraps. -/
def wrappedLength (bytes : List UInt8) : Nat := bytes.length % 0x100000000

/-- The text of a meta message, whose wrapped length can be written. -/
structure MetaText where
  bytes : List UInt8
  fits : wrappedLength bytes ≤ 0x0FFFFFFF
  deriving DecidableEq

namespace MetaText

/-- The bytes of a text. -/
def ofString (text : String) : Except WriteError MetaText :=
  let bytes := text.toUTF8.data.toList
  if h : wrappedLength bytes ≤ 0x0FFFFFFF then .ok ⟨bytes, h⟩
  else .error (.quantity (wrappedLength bytes))

/-- The length that is written before the text. -/
def length (text : MetaText) : VarLength := ⟨wrappedLength text.bytes, text.fits⟩

end MetaText

end Midi

/-- The channel of a track. -/
def TrackKind.channel : TrackKind → Midi.Channel
  | .melodic => 0
  | .percussive => 9

namespace Midi

/-! ## Messages -/

/-- A message of a track. -/
inductive Message where
  | trackName (text : MetaText)
  /-- The denominator is given as a power of two. -/
  | timeSignature (numerator denominatorPower : UInt8)
  /-- Microseconds per quarter note. -/
  | tempo (micros : Fin 0x1000000)
  | programChange (channel : Channel) (program : DataByte)
  | noteOn (channel : Channel) (key velocity : DataByte)
  | noteOff (channel : Channel) (key : DataByte)
  | pitchBend (channel : Channel) (value : Fin 0x4000)
  | endOfTrack
  deriving DecidableEq

namespace Message

/-- The velocity of every release. -/
def releaseVelocity : UInt8 := 64

/-- A status byte on a channel. -/
def status (kind : Nat) (channel : Channel) : UInt8 := UInt8.ofNat (kind + channel.val)

/-- The bytes of a message.  A quarter note has 24 clocks and 8 thirty-seconds. -/
def bytes : Message → List UInt8
  | .trackName text => [0xFF, 0x03] ++ text.length.bytes ++ text.bytes
  | .timeSignature numerator power => [0xFF, 0x58, 4, numerator, power, 24, 8]
  | .tempo micros =>
    [0xFF, 0x51, 3, UInt8.ofNat (micros.val / 65536), UInt8.ofNat (micros.val / 256 % 256),
      UInt8.ofNat (micros.val % 256)]
  | .programChange channel program => [status 0xC0 channel, program.value]
  | .noteOn channel key velocity => [status 0x90 channel, key.value, velocity.value]
  | .noteOff channel key => [status 0x80 channel, key.value, releaseVelocity]
  | .pitchBend channel value =>
    [status 0xE0 channel, UInt8.ofNat (value.val % 128), UInt8.ofNat (value.val / 128)]
  | .endOfTrack => [0xFF, 0x2F, 0]

end Message

/-! ## Numbers in messages -/

theorem nearestUpTo_le (limit : Nat) (x : Binary) : x.nearestUpTo limit ≤ limit := by
  cases x with
  | nan => simp [Binary.nearestUpTo]
  | infinite negative => cases negative <;> simp [Binary.nearestUpTo]
  | finite x =>
    simp only [Binary.nearestUpTo]
    split
    · exact Nat.zero_le _
    · exact Nat.min_le_left _ _

/-- The power of two nearest to a denominator, measured on a logarithmic scale. -/
def denominatorPower (denominator : UInt8) : UInt8 :=
  let square := denominator.toNat * denominator.toNat
  UInt8.ofNat (((List.range 8).find? fun k => square < Nat.pow 2 (2 * k + 1)).getD 8)

/-- Whether a tempo has a length of a quarter note in 24 bits of microseconds. -/
def isWritableTempo (bpm : Float) : Bool :=
  bpm.isFinite && !(bpm ≤ 0.0) && !(16777215.0 < 60000000.0 / bpm)

/-- Microseconds per quarter note, rounded. -/
def quarterMicros (bpm : Float) : Fin 0x1000000 :=
  ⟨(Binary.ofDouble (60000000.0 / bpm)).nearestUpTo 0xffffff,
    Nat.lt_of_le_of_lt (nearestUpTo_le _ _) (by decide)⟩

/-- The bend value of the centre. -/
def bendCentre : Fin 0x4000 := 8192

/-- The bend value of an amount between -1 and 1.  The sum is formed in single precision. -/
def bendValue (amount : Float32) : Fin 0x4000 :=
  ⟨(Binary.ofSingle (8192.0 + amount * 8192.0)).nearestUpTo 0x3fff,
    Nat.lt_of_le_of_lt (nearestUpTo_le _ _) (by decide)⟩

end Midi

/-! ## Messages of events -/

open Midi in
/-- The messages of an event on a channel. -/
def Event.messages (channel : Channel) : Event → Except WriteError (List Message)
  | .programChange program => do
    let program ← DataByte.ofByte .program program
    return [.programChange channel program]
  | .meter m =>
    if m.denominator = 0 then .error (.meter m)
    else .ok [.timeSignature m.numerator (denominatorPower m.denominator)]
  | .tempo bpm =>
    if isWritableTempo bpm then .ok [.tempo (quarterMicros bpm)] else .error (.tempo bpm)
  | .noteOn pitches velocity _ => do
    let velocity ← DataByte.ofByte .velocity velocity
    let keys ← pitches.mapM (DataByte.ofByte .key)
    return keys.map fun key => .noteOn channel key velocity
  | .noteOff pitches _ _ => do
    let keys ← pitches.mapM (DataByte.ofByte .key)
    return keys.map fun key => .noteOff channel key
  | .bendBegin amount _ => .ok [.pitchBend channel (bendValue amount)]
  | .bendEnd _ => .ok [.pitchBend channel bendCentre]

end MidiScore
