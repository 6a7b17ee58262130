import MidiScore.Number.Decimal

/-!
# Rounding to single precision

A bend is a single precision number, but texts give all numbers in double precision.  Rounding
takes the single precision number nearest to a double precision one, and of two equally near ones
that with an even last bit.  What is too large becomes infinite.
-/

namespace MidiScore

/-- How often `2 ^ unit` fits into the magnitude of a number, to the nearest whole number; a half
goes to the even neighbour. -/
def Dyadic.inUnits (unit : Int) (x : Dyadic) : Nat :=
  if unit ≤ x.exponent then x.significand * Nat.pow 2 (x.exponent - unit).toNat
  else divEven x.significand (Nat.pow 2 (unit - x.exponent).toNat)

/-- Exponent and fraction of the nearest single precision number as one number.  The last bit of
the fraction counts at least `2 ^ -149`, and a fraction that is rounded up to the next power of two
carries into the exponent. -/
def Dyadic.singleBits (x : Dyadic) : Nat :=
  let unit := max (-149) (x.exponent + Nat.log2 x.significand - 23)
  min 0x7f800000 ((unit + 149).toNat * 0x800000 + x.inUnits unit)

/-- The nearest single precision number. -/
def Binary.toSingle : Binary → Float32
  | .nan => .ofBits 0x7fc00000
  | .infinite negative => .ofBits (if negative then 0xff800000 else 0x7f800000)
  | .finite x => .ofBits (UInt32.ofNat (x.singleBits + if x.negative then 0x80000000 else 0))

end MidiScore
