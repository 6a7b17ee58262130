/-!
# Binary floating-point numbers as exact fractions

Tempos are double precision numbers and bends single precision ones.  A number of either
precision is not a number, an infinity, or `± significand · 2 ^ exponent`, and `Binary` is
that reading of its bits.  All further work on digits and on rounding is done on the two
integers, in exact arithmetic.
-/

namespace MidiScore

/-- A finite binary number: `± significand · 2 ^ exponent`. -/
structure Dyadic where
  negative : Bool
  significand : Nat
  exponent : Int
  /-- The gap to the next number below is half of the gap to the next number above. -/
  narrowBelow : Bool
  deriving DecidableEq, Repr

/-- What the bits of a floating-point number say. -/
inductive Binary where
  | nan
  | infinite (negative : Bool)
  | finite (number : Dyadic)
  deriving DecidableEq, Repr

namespace Binary

/-- Reads sign, exponent and fraction fields of the given widths, highest bit first. -/
def ofBits (exponentBits fractionBits bits : Nat) : Binary :=
  let negative := bits / Nat.pow 2 (exponentBits + fractionBits) % 2 = 1
  let biased := bits / Nat.pow 2 fractionBits % Nat.pow 2 exponentBits
  let fraction := bits % Nat.pow 2 fractionBits
  let unit : Int := 2 - Nat.pow 2 (exponentBits - 1) - fractionBits
  if biased = Nat.pow 2 exponentBits - 1 then
    if fraction = 0 then .infinite negative else .nan
  else if biased = 0 then
    .finite ⟨negative, fraction, unit, false⟩
  else
    .finite ⟨negative, fraction + Nat.pow 2 fractionBits, unit + biased - 1,
      fraction = 0 ∧ 1 < biased⟩

/-- The reading of a double precision number. -/
def ofDouble (x : Float) : Binary := ofBits 11 52 x.toBits.toNat

/-- The reading of a single precision number. -/
def ofSingle (x : Float32) : Binary := ofBits 8 23 x.toBits.toNat

end Binary

/-- The natural number nearest to `significand · 2 ^ exponent`; a half goes up. -/
def Dyadic.nearest (x : Dyadic) : Nat :=
  if 0 ≤ x.exponent then x.significand * Nat.pow 2 x.exponent.toNat
  else
    let unit := Nat.pow 2 (-x.exponent).toNat
    (2 * x.significand + unit) / (2 * unit)

/-- Rounds to the nearest natural number at most `limit`; a half goes up.  What lies below
zero, or is not a number, gives zero. -/
def Binary.nearestUpTo (limit : Nat) : Binary → Nat
  | .nan => 0
  | .infinite negative => if negative then 0 else limit
  | .finite x => if x.negative then 0 else min limit x.nearest

end MidiScore
