import MidiScore.Number.Decimal

/-!
# Layout of decimal numbers

The digits of a number are one thing, the way they are set out another.  A `NumberFormat`
records what is left to decide: which of two equally short and near numbers is written, up to
where the positional form is used, whether whole numbers end in `.0`, and how the values that
have no digits are spelled.

Messages use `NumberFormat.message`, which never writes an exponent.  JSON texts use
`NumberFormat.json64` and `NumberFormat.json32`, which write one for very large and very
small numbers.
-/

namespace MidiScore

/-- How a number is set out once its digits are known. -/
structure NumberFormat where
  /-- Which of two equally near numbers is written. -/
  tie : Tie
  /-- Whether a number with so many digits before its point is written positionally. -/
  positional : Int → Bool
  /-- Whether a whole number written positionally ends in `.0`. -/
  pointZero : Bool
  nan : String
  infinity : String
  negativeInfinity : String

namespace NumberFormat

/-- Messages: no exponent, no `.0`. -/
def message : NumberFormat :=
  { tie := .away, positional := fun _ => true, pointZero := false,
    nan := "NaN", infinity := "inf", negativeInfinity := "-inf" }

/-- JSON, double precision: positional from `0.00001` up to sixteen digits before the point.
A number that JSON cannot express is `null`. -/
def json64 : NumberFormat :=
  { tie := .even, positional := fun p => -5 < p ∧ p ≤ 16, pointZero := true,
    nan := "null", infinity := "null", negativeInfinity := "null" }

/-- JSON, single precision: positional from `0.000001` up to thirteen digits before the
point. -/
def json32 : NumberFormat :=
  { json64 with positional := fun p => -6 < p ∧ p ≤ 13 }

/-- A run of zeros. -/
def zeros (n : Nat) : String := String.ofList (List.replicate n '0')

/-- The positional text of `digits · 10 ^ exponent`. -/
def positionalText (format : NumberFormat) (d : Decimal) : String :=
  let text := Decimal.digitText d.digits
  let point : Int := text.length + d.exponent
  if 0 ≤ d.exponent then
    text ++ zeros d.exponent.toNat ++ (if format.pointZero then ".0" else "")
  else if 0 < point then
    String.ofList (text.toList.take point.toNat) ++ "." ++
      String.ofList (text.toList.drop point.toNat)
  else
    "0." ++ zeros (-point).toNat ++ text

/-- The text of `digits · 10 ^ exponent` with one digit before the point and an exponent,
which always has a sign. -/
def exponentText (d : Decimal) : String :=
  let text := (Decimal.digitText d.digits).toList
  let power : Int := text.length + d.exponent - 1
  let fraction := text.drop 1
  String.ofList (text.take 1) ++ (if fraction.isEmpty then "" else "." ++ String.ofList fraction) ++
    (if power < 0 then "e-" else "e+") ++ toString power.natAbs

/-- The text of a decimal number. -/
def decimalText (format : NumberFormat) (d : Decimal) : String :=
  let point : Int := Dyadic.digitCount d.digits + d.exponent
  if format.positional point then format.positionalText d else exponentText d

/-- The shortest text of a binary number in this format. -/
def text (format : NumberFormat) : Binary → String
  | .nan => format.nan
  | .infinite negative => if negative then format.negativeInfinity else format.infinity
  | .finite x => (if x.negative then "-" else "") ++ format.decimalText (x.shortest format.tie)

end NumberFormat

end MidiScore
