import MidiScore.Midi.File

/-!
# A reader of MIDI files

This is the other direction of a MIDI file: from bytes to what they mean.  It knows nothing of
how this library writes, and follows the format.

*Chunks.*  A file is a header chunk `MThd` and as many track chunks `MTrk` as the header
announces.  A chunk has a type of four bytes, a length of four bytes and a body of that length.
Nothing may follow the last chunk.

*Tracks.*  The body of a track chunk is a sequence of messages, each after a variable-length
quantity: the ticks since the message before it.  The last message, and no other, is the end of
the track.

*Messages.*  A message has its own status byte; running status is refused.  A channel message
has one or two data bytes, whose high bit is clear.  A meta message and a system exclusive one
give the length of what follows.

A reader takes the bytes that are left and gives what it read with the rest.
-/

namespace MidiScore.Midi

/-- Reads something from the front of a list of bytes. -/
abbrev ByteReader (α : Type) := List UInt8 → Option (α × List UInt8)

/-! ## Bytes and numbers -/

namespace ByteReader

/-- One byte. -/
def byte : ByteReader Nat
  | [] => none
  | first :: rest => some (first.toNat, rest)

/-- One byte with a clear high bit. -/
def data : ByteReader Nat
  | [] => none
  | first :: rest => if first.toNat < 128 then some (first.toNat, rest) else none

/-- So many bytes. -/
def take (count : Nat) : ByteReader (List UInt8) := fun bytes =>
  if count ≤ bytes.length then some (bytes.take count, bytes.drop count) else none

/-- The number that bytes denote after a number already read, highest byte first. -/
def numberOf (high : Nat) (bytes : List UInt8) : Nat :=
  bytes.foldl (fun n byte => n * 256 + byte.toNat) high

/-- A number in so many bytes. -/
def number (count : Nat) : ByteReader Nat := fun bytes =>
  (take count bytes).map fun (digits, rest) => (numberOf 0 digits, rest)

/-- A variable-length quantity of at most so many bytes, after the number of its bytes so far. -/
def quantityFrom : Nat → Nat → ByteReader Nat
  | 0, _, _ => none
  | _ + 1, _, [] => none
  | most + 1, high, first :: rest =>
    if first.toNat < 128 then some (high * 128 + first.toNat, rest)
    else quantityFrom most (high * 128 + (first.toNat - 128)) rest

/-- A variable-length quantity; it has at most four bytes. -/
def quantity : ByteReader Nat := quantityFrom 4 0

/-- The bytes that follow their length. -/
def counted : ByteReader (List UInt8) := fun bytes => do
  let (length, bytes) ← quantity bytes
  take length bytes

end ByteReader

/-! ## Messages -/

/-- The meaning of a message. -/
inductive Heard where
  | noteOff (channel key velocity : Nat)
  | noteOn (channel key velocity : Nat)
  | keyPressure (channel key pressure : Nat)
  | controlChange (channel control value : Nat)
  | programChange (channel program : Nat)
  | channelPressure (channel pressure : Nat)
  /-- The value has fourteen bits. -/
  | pitchBend (channel value : Nat)
  | exclusive (data : List UInt8)
  | trackName (text : List UInt8)
  | endOfTrack
  /-- Microseconds per quarter note, in 24 bits. -/
  | tempo (micros : Nat)
  | timeSignature (numerator denominatorPower clocks thirtySeconds : Nat)
  /-- Any other meta message. -/
  | other (type : Nat) (data : List UInt8)
  deriving DecidableEq

/-- The meaning of a meta message of a type. -/
def Heard.ofMeta : Nat → List UInt8 → Heard
  | 0x03, text => .trackName text
  | 0x2F, [] => .endOfTrack
  | 0x51, [high, middle, low] => .tempo (ByteReader.numberOf 0 [high, middle, low])
  | 0x58, [numerator, power, clocks, thirtySeconds] =>
    .timeSignature numerator.toNat power.toNat clocks.toNat thirtySeconds.toNat
  | type, data => .other type data

namespace ByteReader

/-- A message with one data byte. -/
def oneData (meaning : Nat → Heard) : ByteReader Heard := fun bytes => do
  let (first, bytes) ← data bytes
  return (meaning first, bytes)

/-- A message with two data bytes. -/
def twoData (meaning : Nat → Nat → Heard) : ByteReader Heard := fun bytes => do
  let (first, bytes) ← data bytes
  let (second, bytes) ← data bytes
  return (meaning first second, bytes)

/-- The rest of a channel message whose status byte has the given high and low half.  The low
byte of a bend comes first. -/
def channelMessage (channel : Nat) : Nat → ByteReader Heard
  | 0x8 => twoData (.noteOff channel)
  | 0x9 => twoData (.noteOn channel)
  | 0xA => twoData (.keyPressure channel)
  | 0xB => twoData (.controlChange channel)
  | 0xC => oneData (.programChange channel)
  | 0xD => oneData (.channelPressure channel)
  | 0xE => twoData fun low high => .pitchBend channel (high * 128 + low)
  | _ => fun _ => none

/-- A message with its status byte. -/
def message : ByteReader Heard
  | [] => none
  | status :: bytes =>
    if status.toNat = 0xFF then do
      let (type, bytes) ← byte bytes
      let (data, bytes) ← counted bytes
      return (.ofMeta type data, bytes)
    else if status.toNat = 0xF0 ∨ status.toNat = 0xF7 then do
      let (data, bytes) ← counted bytes
      return (.exclusive data, bytes)
    else channelMessage (status.toNat % 16) (status.toNat / 16) bytes

end ByteReader

/-! ## Tracks and files -/

/-- A message and the ticks since the message before it. -/
structure HeardAfter where
  delta : Nat
  message : Heard
  deriving DecidableEq

/-- A file as it is read. -/
structure HeardFile where
  format : Nat
  /-- The number of tracks that the header announces. -/
  trackCount : Nat
  /-- Ticks per quarter note. -/
  division : Nat
  tracks : List (List HeardAfter)
  deriving DecidableEq

namespace ByteReader

/-- The messages of a track body, at most so many as given.  The body must end with the end of
the track. -/
def trackBody : Nat → List UInt8 → Option (List HeardAfter)
  | 0, _ => none
  | most + 1, bytes => do
    let (delta, bytes) ← quantity bytes
    let (message, bytes) ← message bytes
    if message = .endOfTrack then
      if bytes.isEmpty then some [⟨delta, message⟩] else none
    else
      let others ← trackBody most bytes
      some (⟨delta, message⟩ :: others)

/-- The body of a chunk of the given type. -/
def chunkBody (type : String) : ByteReader (List UInt8) := fun bytes => do
  let (found, bytes) ← take 4 bytes
  if found = type.toUTF8.data.toList then
    let (length, bytes) ← number 4 bytes
    take length bytes
  else none

/-- So many track chunks.  A message takes at least one byte. -/
def trackChunks : Nat → ByteReader (List (List HeardAfter))
  | 0, bytes => some ([], bytes)
  | count + 1, bytes => do
    let (body, bytes) ← chunkBody "MTrk" bytes
    let track ← trackBody body.length body
    let (others, bytes) ← trackChunks count bytes
    return (track :: others, bytes)

/-- A whole file. -/
def file (bytes : List UInt8) : Option HeardFile := do
  let (header, bytes) ← chunkBody "MThd" bytes
  let (format, header) ← number 2 header
  let (count, header) ← number 2 header
  let (division, header) ← number 2 header
  let (tracks, bytes) ← trackChunks count bytes
  if header.isEmpty ∧ bytes.isEmpty then some ⟨format, count, division, tracks⟩ else none

end ByteReader

end MidiScore.Midi
