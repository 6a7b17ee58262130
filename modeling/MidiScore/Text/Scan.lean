/-!
# Scanning text

A scanner takes the characters that are left and either refuses them or gives what it read
and the rest.  The readers of JSON and TOML are built from the few scanners below.

A scanner that repeats takes a number of steps that it does not exceed.  The length of the
whole text is always enough, so a reader determines it once and passes it on as the *size*.
-/

namespace MidiScore

/-- Reads something from the front of a text. -/
abbrev Scanner (α : Type) := List Char → Option (α × List Char)

namespace Scanner

/-- The longest run of characters of a class, possibly empty. -/
def run (p : Char → Bool) (cs : List Char) : List Char × List Char :=
  (cs.takeWhile p, cs.dropWhile p)

/-- The given characters. -/
def exactly : List Char → Scanner Unit
  | [], cs => some ((), cs)
  | e :: es, c :: cs => if c = e then exactly es cs else none
  | _ :: _, [] => none

/-- Items with commas between them, up to a closing character.  `space` skips what may stand
around a comma.  At least one item is read; `trailing` allows a comma after the last one.
The fuel bounds the number of items. -/
def items {α : Type} (close : Char) (trailing : Bool) (space : List Char → List Char)
    (item : Scanner α) : Nat → Scanner (List α)
  | 0, _ => none
  | fuel + 1, cs => do
    let (x, cs) ← item (space cs)
    match space cs with
    | ',' :: cs =>
      match trailing, space cs with
      | true, c :: rest =>
        if c = close then some ([x], rest)
        else
          let (xs, cs) ← items close trailing space item fuel cs
          some (x :: xs, cs)
      | _, _ =>
        let (xs, cs) ← items close trailing space item fuel cs
        some (x :: xs, cs)
    | c :: cs => if c = close then some ([x], cs) else none
    | [] => none

/-- Items with commas between them, possibly none, up to a closing character. -/
def itemsOrNone {α : Type} (close : Char) (trailing : Bool) (space : List Char → List Char)
    (item : Scanner α) (size : Nat) : Scanner (List α) := fun cs =>
  match space cs with
  | c :: rest =>
    if c = close then some ([], rest) else items close trailing space item size cs
  | [] => none

/-! ## Digits -/

/-- The value of a hexadecimal digit. -/
def hexValue? (c : Char) : Option Nat :=
  if '0' ≤ c ∧ c ≤ '9' then some (c.toNat - '0'.toNat)
  else if 'a' ≤ c ∧ c ≤ 'f' then some (c.toNat - 'a'.toNat + 10)
  else if 'A' ≤ c ∧ c ≤ 'F' then some (c.toNat - 'A'.toNat + 10)
  else none

/-- The number that digits of a base denote, highest digit first. -/
def numeral (base : Nat) (digits : List Char) : Nat :=
  digits.foldl (fun n c => n * base + (hexValue? c).getD 0) 0

/-- A fixed number of hexadecimal digits. -/
def hex (count : Nat) : Scanner Nat := fun cs =>
  let digits := cs.take count
  if digits.length = count ∧ digits.all (fun c => (hexValue? c).isSome) then
    some (numeral 16 digits, cs.drop count)
  else none

/-- The character with a code point, if it is one. -/
def charOf? (code : Nat) : Option Char :=
  if code.isValidChar then some (Char.ofNat code) else none

/-! ## Decimal fractions -/

/-- The double precision number nearest to `± digits · 10 ^ exponent`, from the digits before
and after the point.  Exponents beyond the range of all such numbers are cut off first. -/
def fraction (negative : Bool) (whole part : List Char) (exponent : Int) : Float :=
  let digits := numeral 10 (whole ++ part)
  let shift := exponent - part.length
  let bound : Int := (whole.length + part.length : Nat) + 400
  let magnitude :=
    if digits = 0 then 0.0
    else if 0 ≤ shift then Float.ofScientific digits false (min shift bound).toNat
    else Float.ofScientific digits true (min (-shift) bound).toNat
  if negative then -magnitude else magnitude

end Scanner

end MidiScore
