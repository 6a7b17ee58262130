import MidiScore.Number.Format

/-!
# Exact musical time

Time is measured in ticks, and a tick has 96 sub-ticks.  Every note value, down to the
triplet of a sixty-fourth at one tick per quarter note, is a whole number of sub-ticks, so
positions never drift; they become whole ticks only when events are emitted.

A `Ticks` value is a count of sub-ticks in the range of a signed 64-bit word.  Sums and
differences that leave the range stop at its ends.  The last value of the range,
`Ticks.latest`, is later than any position that a track reaches.
-/

namespace MidiScore

/-- An exact, possibly negative time, counted in sub-ticks. -/
structure Ticks where
  sub : Int
  lower : -0x8000000000000000 ≤ sub
  upper : sub ≤ 0x7fffffffffffffff
  deriving DecidableEq

namespace Ticks

/-- Sub-ticks per tick. -/
def scale : Int := 96

/-- The time of so many sub-ticks, or the end of the range next to it. -/
def ofSub (n : Int) : Ticks :=
  ⟨max (-0x8000000000000000) (min 0x7fffffffffffffff n), by omega, by omega⟩

/-- The time of so many whole ticks.  The product is formed in 64-bit words and wraps. -/
def ofWhole (n : Int) : Ticks :=
  ofSub (Int.bmod (n * scale) 0x10000000000000000)

/-- The last representable time. -/
def latest : Ticks := ofSub 0x7fffffffffffffff

instance : Zero Ticks := ⟨ofSub 0⟩

instance : Inhabited Ticks := ⟨0⟩

instance : Add Ticks := ⟨fun a b => ofSub (a.sub + b.sub)⟩

instance : Sub Ticks := ⟨fun a b => ofSub (a.sub - b.sub)⟩

instance : LE Ticks := ⟨fun a b => a.sub ≤ b.sub⟩

instance : LT Ticks := ⟨fun a b => a.sub < b.sub⟩

instance (a b : Ticks) : Decidable (a ≤ b) := inferInstanceAs (Decidable (a.sub ≤ b.sub))

instance (a b : Ticks) : Decidable (a < b) := inferInstanceAs (Decidable (a.sub < b.sub))

instance : Max Ticks := maxOfLe

/-- The latest of a list of times, or zero if there is none. -/
def lastOf (times : List Ticks) : Ticks := times.max?.getD 0

/-! ## Whole ticks -/

/-- Whole ticks, rounded down. -/
def whole (t : Ticks) : Int := t.sub / scale

/-- The sub-ticks that `whole` leaves out. -/
def remainder (t : Ticks) : Int := t.sub % scale

/-- Whether the time falls on a tick. -/
def isWhole (t : Ticks) : Bool := t.remainder = 0

/-- Whether the time is before zero. -/
def isNegative (t : Ticks) : Bool := t.sub < 0

/-- Whole ticks in the range of an event's fields, that of an unsigned 32-bit word. -/
def wholeClamped (t : Ticks) : Nat := min 0xffffffff t.whole.toNat

/-- The time in ticks, as a double precision number. -/
def toFloat (t : Ticks) : Float := Float.ofInt t.sub / 96.0

/-- The time in ticks with three places after the point. -/
def fixedText (t : Ticks) : String :=
  match Binary.ofDouble t.toFloat with
  | .finite x => x.fixed 3
  | other => NumberFormat.message.text other

/-- The time in ticks: a whole number, or three places after the point. -/
def text (t : Ticks) : String :=
  if t.isWhole then toString t.whole else t.fixedText

end Ticks

end MidiScore
