import MidiScore.Number.Binary

/-!
# Decimal digits of binary numbers

Two ways to write a finite binary number in decimal, both in exact natural number arithmetic.

*Shortest.*  `Dyadic.shortest` gives the fewest digits that read back as the same number.
The reals that round to `x` form an interval around it.  For one, two, three, … digits the
two neighbours of `x` on that decimal grid are tested against the interval; the first grid
with a hit wins, and of two hits the nearer one.  Of two equally near ones a `Tie` decides.
Seventeen digits always suffice for double precision.

*Fixed.*  `Dyadic.fixed` rounds the exact value to a given number of places; a half goes to
the even neighbour.
-/

namespace MidiScore

/-- The number `digits · 10 ^ exponent`. -/
structure Decimal where
  digits : Nat
  exponent : Int
  deriving DecidableEq, Repr

/-- The decimal digits of a natural number. -/
def Decimal.digitText (n : Nat) : String := String.ofList (Nat.toDigits 10 n)

/-! ## Shortest digits -/

/-- Which of two equally near decimal numbers is written. -/
inductive Tie where
  /-- The one of larger magnitude. -/
  | away
  /-- The one with an even last digit. -/
  | even
  deriving DecidableEq, Repr

/-- Chooses between a number and the next one. -/
def Tie.choose (tie : Tie) (n : Nat) : Nat :=
  match tie with
  | .away => n + 1
  | .even => if n % 2 = 0 then n else n + 1

namespace Dyadic

/-- How many decimal digits a natural number has. -/
def digitCount (n : Nat) : Nat := (Nat.toDigits 10 n).length

/-- The largest `e` with `10 ^ e ≤ n / d`, for positive `n` and `d`. -/
def leadingExponent (n d : Nat) : Int :=
  if d ≤ n then digitCount (n / d) - 1 else -(digitCount ((d + n - 1) / n - 1) : Int)

/-- The interval of the reals that round to a number, and the number itself, as multiples of
one fraction `1 / unit`.  The ends belong to the interval if `closed`. -/
structure Range where
  low : Nat
  value : Nat
  high : Nat
  unit : Nat
  closed : Bool

/-- The rounding interval of a positive number: half a gap on each side. -/
def range (x : Dyadic) : Range :=
  let low := 4 * x.significand - (if x.narrowBelow then 1 else 2)
  let value := 4 * x.significand
  let high := 4 * x.significand + 2
  let closed := x.significand % 2 = 0
  if 2 ≤ x.exponent then
    let s := Nat.pow 2 (x.exponent - 2).toNat
    ⟨low * s, value * s, high * s, 1, closed⟩
  else
    ⟨low, value, high, Nat.pow 2 (2 - x.exponent).toNat, closed⟩

namespace Range

/-- The same interval measured in multiples of `10 ^ k`. -/
def scale (r : Range) (k : Int) : Range :=
  if 0 ≤ k then { r with unit := r.unit * Nat.pow 10 k.toNat }
  else
    let s := Nat.pow 10 (-k).toNat
    { r with low := r.low * s, value := r.value * s, high := r.high * s }

/-- Whether the whole number `c` lies in the interval. -/
def holds (r : Range) (c : Nat) : Bool :=
  if r.closed then r.low ≤ c * r.unit && c * r.unit ≤ r.high
  else r.low < c * r.unit && c * r.unit < r.high

/-- The whole number of the interval next to the value, if one of the value's two
neighbours lies in it. -/
def hit? (tie : Tie) (r : Range) : Option Nat :=
  let c := r.value / r.unit
  let rest := 2 * (r.value % r.unit)
  match r.holds c, r.holds (c + 1) with
  | true, true =>
    some (if rest < r.unit then c else if rest = r.unit then tie.choose c else c + 1)
  | true, false => some c
  | false, true => some (c + 1)
  | false, false => none

end Range

/-- Moves trailing zeros of the digits into the exponent. -/
def trimZeros : Nat → Decimal → Decimal
  | 0, d => d
  | fuel + 1, d =>
    if d.digits ≠ 0 ∧ d.digits % 10 = 0 then trimZeros fuel ⟨d.digits / 10, d.exponent + 1⟩
    else d

/-- The fewest decimal digits that read back as `x`. -/
def shortest (tie : Tie) (x : Dyadic) : Decimal :=
  if x.significand = 0 then ⟨0, 0⟩
  else
    let r := x.range
    let e := leadingExponent r.value r.unit
    let grid (n : Nat) : Option Decimal :=
      let k := e - n
      ((r.scale k).hit? tie).map (⟨·, k⟩)
    trimZeros 20 (((List.range 18).findSome? grid).getD ⟨r.value / r.unit, 0⟩)

/-! ## Fixed places -/

/-- The whole number nearest to `n / d`; a half goes to the even neighbour. -/
def divEven (n d : Nat) : Nat :=
  let q := n / d
  let r := n % d
  if 2 * r < d ∨ (2 * r = d ∧ q % 2 = 0) then q else q + 1

/-- The magnitude of `x` in units of `10 ^ -places`, rounded. -/
def fixedUnits (places : Nat) (x : Dyadic) : Nat :=
  if 0 ≤ x.exponent then x.significand * Nat.pow 2 x.exponent.toNat * Nat.pow 10 places
  else divEven (x.significand * Nat.pow 10 places) (Nat.pow 2 (-x.exponent).toNat)

/-- The text of `x` with exactly `places` digits after the point. -/
def fixed (places : Nat) (x : Dyadic) : String :=
  let units := fixedUnits places x
  let tail := Decimal.digitText (units % Nat.pow 10 places)
  let zeros := String.ofList (List.replicate (places - tail.length) '0')
  let sign := if x.negative then "-" else ""
  sign ++ Decimal.digitText (units / Nat.pow 10 places) ++ "." ++ zeros ++ tail

end Dyadic

end MidiScore
