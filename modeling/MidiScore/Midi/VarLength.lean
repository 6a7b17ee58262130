import MidiScore.Number.Format
import MidiScore.Score.Basic

/-!
# Variable-length quantities

A MIDI file writes a time as a variable-length quantity: groups of seven bits, the highest
first, and the high bit set on every byte but the last.  Four bytes are the most, so the
largest quantity is `0x0FFFFFFF`.
-/

namespace MidiScore.Midi

/-! ## Errors -/

/-- A field of a message that holds seven bits. -/
inductive DataField where
  | program
  | velocity
  | key
  deriving DecidableEq, Repr

/-- The name of a field. -/
def DataField.name : DataField → String
  | .program => "program"
  | .velocity => "velocity"
  | .key => "key"

/-- Why a compiled score cannot be written as a MIDI file. -/
inductive WriteError where
  /-- A tempo that has no length of a quarter note in 24 bits of microseconds. -/
  | tempo (bpm : Float)
  | meter (meter : Meter)
  /-- A value above 127. -/
  | data (field : DataField) (value : UInt8)
  | trackCount (count : Nat)
  /-- A number too large for a variable-length quantity. -/
  | quantity (value : Nat)
  /-- Anything else that has no place in a file. -/
  | encoding (reason : String)
  deriving DecidableEq

namespace WriteError

/-- What is said about the error. -/
def message : WriteError → String
  | .tempo bpm => s!"Invalid tempo: {NumberFormat.message.text (.ofDouble bpm)} BPM"
  | .meter m => s!"Invalid time signature: {m.numerator}/{m.denominator}"
  | .data field value => s!"Invalid {field.name}: {value} is above 127"
  | .trackCount count => s!"Too many tracks: {count}"
  | .quantity value => s!"Value {value} does not fit a variable-length quantity"
  | .encoding reason => s!"Encoding error: {reason}"

end WriteError

/-! ## Quantities -/

/-- A number that can be written as a variable-length quantity. -/
structure VarLength where
  value : Nat
  fits : value ≤ 0x0FFFFFFF
  deriving DecidableEq

namespace VarLength

def zero : VarLength := ⟨0, by decide⟩

/-- The quantity of a number. -/
def ofNat (n : Nat) : Except WriteError VarLength :=
  if h : n ≤ 0x0FFFFFFF then .ok ⟨n, h⟩ else .error (.quantity n)

/-- Puts the groups of seven bits of a number into so many slots, lowest first.  There is no
result if a group finds no slot. -/
def fill : Nat → Nat → Option (List Nat)
  | 0, _ => none
  | slots + 1, n =>
    if n / 128 = 0 then some [n % 128] else (fill slots (n / 128)).map (n % 128 :: ·)

/-- A number finds a slot for each group if it has seven bits for each slot. -/
theorem fill_isSome : ∀ (slots n : Nat), n < Nat.pow 128 (slots + 1) → (fill (slots + 1) n).isSome
  | 0, n, fits => by
    have last : n / 128 = 0 := Nat.div_eq_of_lt fits
    rw [fill, if_pos last]
    rfl
  | slots + 1, n, fits => by
    rw [fill]
    split
    · rfl
    · rw [Option.isSome_map]
      exact fill_isSome slots (n / 128) (Nat.div_lt_of_lt_mul (Nat.mul_comm .. ▸ fits))

/-- The groups of a quantity, lowest first.  Four slots are enough. -/
def groups (n : VarLength) : List Nat :=
  (fill 4 n.value).get (fill_isSome 3 n.value (Nat.lt_of_le_of_lt n.fits (by decide)))

theorem fill_eq_groups (n : VarLength) : fill 4 n.value = some n.groups :=
  (Option.some_get _).symm

/-- Groups, lowest first, as bytes, highest first: the lowest has its high bit clear. -/
def groupBytes : List Nat → List UInt8
  | [] => []
  | lowest :: higher => (higher.reverse.map fun g => UInt8.ofNat (g + 128)) ++ [UInt8.ofNat lowest]

/-- The bytes of a quantity. -/
def bytes (n : VarLength) : List UInt8 := groupBytes n.groups

end VarLength

/-! ## Buffers -/

/-- Writes at the end of a buffer.  A step that fails leaves what was written before it. -/
abbrev BufferWriter := EStateM WriteError (List UInt8)

def putByte (byte : UInt8) : BufferWriter Unit := modify (· ++ [byte])

/-- Writes a number as a variable-length quantity, byte by byte. -/
def putQuantity (n : Nat) : BufferWriter Unit := do
  let quantity ← MonadExcept.ofExcept (VarLength.ofNat n)
  quantity.bytes.forM putByte

/-- The buffer with a number at its end. -/
def appendQuantity (buffer : List UInt8) (n : Nat) : Except WriteError (List UInt8) :=
  match (putQuantity n).run buffer with
  | .ok _ longer => .ok longer
  | .error error _ => .error error

end MidiScore.Midi
