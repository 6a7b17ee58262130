import MidiScore.Text.Scan
import MidiScore.Value

/-!
# Scalars of TOML

Strings in their four forms, numbers, dates and times, and the words `true` and `false`.

A scalar that is not a string is a run of letters, digits and the signs `+ - _ . :`, and the
whole run must be one number, date, time or word.  Only a date and a time of day may have a
blank between them.
-/

namespace MidiScore.Toml

/-! ## Characters -/

def isBlank (c : Char) : Bool := c = ' ' ∨ c = '\t'

/-- A character that may stand in a comment or a string: no control character but the tab. -/
def isPrintable (c : Char) : Bool := c = '\t' ∨ (' ' ≤ c ∧ c ≠ '\x7f')

/-- Leaves out blanks. -/
def skipBlank (cs : List Char) : List Char := cs.dropWhile isBlank

/-- A line end. -/
def lineEnd : Scanner Unit
  | '\n' :: cs => some ((), cs)
  | '\r' :: '\n' :: cs => some ((), cs)
  | _ => none

/-! ## Strings -/

/-- The character of a one-letter escape. -/
def escaped? : Char → Option Char
  | '"' => some '"'
  | '\\' => some '\\'
  | 'b' => some '\x08'
  | 'f' => some '\x0c'
  | 'n' => some '\n'
  | 'r' => some '\r'
  | 't' => some '\t'
  | _ => none

/-- An escape after its backslash. -/
def escape : Scanner Char
  | 'u' :: cs => do
    let (code, cs) ← Scanner.hex 4 cs
    let c ← Scanner.charOf? code
    some (c, cs)
  | 'U' :: cs => do
    let (code, cs) ← Scanner.hex 8 cs
    let c ← Scanner.charOf? code
    some (c, cs)
  | e :: cs => (escaped? e).map fun c => (c, cs)
  | [] => none

/-- The body of a string on one line, up to its closing mark.  Only a basic string has
escapes.  The fuel bounds the number of characters. -/
def lineBody (mark : Char) (basic : Bool) : Nat → List Char → Scanner String
  | 0, _, _ => none
  | _ + 1, _, [] => none
  | fuel + 1, done, c :: cs =>
    if c = mark then some (String.ofList done.reverse, cs)
    else if basic ∧ c = '\\' then do
      let (c, cs) ← escape cs
      lineBody mark basic fuel (c :: done) cs
    else if isPrintable c then lineBody mark basic fuel (c :: done) cs
    else none

/-- Leaves out blanks and line ends.  The fuel bounds their number. -/
def skipLines : Nat → List Char → List Char
  | 0, cs => cs
  | fuel + 1, cs =>
    let cs := skipBlank cs
    match lineEnd cs with
    | some (_, cs) => skipLines fuel cs
    | none => cs

/-- The body of a string over several lines, up to three closing marks.  Up to two marks more
belong to the text.  Only a basic string has escapes, among them a backslash at the end of a
line, which joins the lines. -/
def linesBody (mark : Char) (basic : Bool) : Nat → List Char → Scanner String
  | 0, _, _ => none
  | _ + 1, _, [] => none
  | fuel + 1, done, c :: cs =>
    if c = mark then
      let count := ((c :: cs).takeWhile (· = mark)).length
      if count < 3 then
        linesBody mark basic fuel (List.replicate count mark ++ done) (cs.drop (count - 1))
      else
        let extra := min (count - 3) 2
        some (String.ofList (List.replicate extra mark ++ done).reverse, cs.drop (extra + 2))
    else if basic ∧ c = '\\' then
      match lineEnd (skipBlank cs) with
      | some (_, cs) => linesBody mark basic fuel done (skipLines fuel cs)
      | none => do
        let (c, cs) ← escape cs
        linesBody mark basic fuel (c :: done) cs
    else if isPrintable c then linesBody mark basic fuel (c :: done) cs
    else
      match lineEnd (c :: cs) with
      | some (_, cs) => linesBody mark basic fuel ('\n' :: done) cs
      | none => none

/-- Leaves out a line end right after the opening marks. -/
def skipFirstLine (cs : List Char) : List Char :=
  match lineEnd cs with
  | some (_, cs) => cs
  | none => cs

/-- A string on one line. -/
def lineString (size : Nat) : Scanner String
  | '"' :: cs => lineBody '"' true size [] cs
  | '\'' :: cs => lineBody '\'' false size [] cs
  | _ => none

/-- A string of any form. -/
def string (size : Nat) : Scanner String
  | '"' :: '"' :: '"' :: cs => linesBody '"' true size [] (skipFirstLine cs)
  | '\'' :: '\'' :: '\'' :: cs => linesBody '\'' false size [] (skipFirstLine cs)
  | cs => lineString size cs

/-! ## Numbers -/

/-- Digits of a class with single underscores between them, without the underscores. -/
def digitRun? (isDigit : Char → Bool) (cs : List Char) : Option (List Char) :=
  let groups := cs.splitOn '_'
  if groups.all (fun g => !g.isEmpty && g.all isDigit) then some groups.flatten else none

/-- Digits before the point: no zero in front of others. -/
def wholeRun? (cs : List Char) : Option (List Char) :=
  match cs with
  | '0' :: _ :: _ => none
  | _ => digitRun? Char.isDigit cs

/-- The sign in front of a number. -/
def splitSign : List Char → Bool × List Char
  | '-' :: cs => (true, cs)
  | '+' :: cs => (false, cs)
  | cs => (false, cs)

/-- A whole number of a base other than ten, after its mark. -/
def basedInteger? (base : Nat) (cs : List Char) : Option Value := do
  let ds ← digitRun? (fun c => (Scanner.hexValue? c).any fun digit => digit < base) cs
  let n := Scanner.numeral base ds
  if n < 0x8000000000000000 then some (.int n) else none

/-- A whole number in the range of a signed 64-bit word. -/
def integer? : List Char → Option Value
  | '0' :: 'x' :: cs => basedInteger? 16 cs
  | '0' :: 'o' :: cs => basedInteger? 8 cs
  | '0' :: 'b' :: cs => basedInteger? 2 cs
  | cs => do
    let (negative, cs) := splitSign cs
    let ds ← wholeRun? cs
    let n : Int := Scanner.numeral 10 ds
    let n := if negative then -n else n
    if -0x8000000000000000 ≤ n ∧ n < 0x8000000000000000 then some (.int n) else none

/-- The exponent of a number, after its mark. -/
def exponent? (cs : List Char) : Option Int := do
  let (negative, cs) := splitSign cs
  let ds ← digitRun? Char.isDigit cs
  let n : Int := Scanner.numeral 10 ds
  some (if negative then -n else n)

/-- A number with a fraction or an exponent.  One above all double precision numbers is
refused; one below them is negative infinity. -/
def decimal? (cs : List Char) : Option Value := do
  let (negative, cs) := splitSign cs
  let mantissa := cs.takeWhile fun c => c ≠ 'e' ∧ c ≠ 'E'
  let power := cs.drop mantissa.length
  let whole ← wholeRun? (mantissa.takeWhile (· ≠ '.'))
  let part ←
    match mantissa.dropWhile (· ≠ '.') with
    | [] => if power.isEmpty then none else some []
    | _ :: ds => digitRun? Char.isDigit ds
  let power ← if power.isEmpty then some 0 else exponent? (power.drop 1)
  let x := Scanner.fraction negative whole part power
  if x.isFinite ∨ negative then some (.double x) else none

/-- An infinity, or not a number. -/
def special? (cs : List Char) : Option Value :=
  let (negative, cs) := splitSign cs
  if cs = ['i', 'n', 'f'] then some (.double (if negative then -1.0 / 0.0 else 1.0 / 0.0))
  else if cs = ['n', 'a', 'n'] then some (.double (0.0 / 0.0))
  else none

/-! ## Dates and times -/

/-- Two digits with a value in the given range. -/
def twoDigits? (low high : Nat) : Scanner Nat
  | a :: b :: cs =>
    let n := Scanner.numeral 10 [a, b]
    if a.isDigit ∧ b.isDigit ∧ low ≤ n ∧ n ≤ high then some (n, cs) else none
  | _ => none

/-- The number of days of a month. -/
def daysOf (year month : Nat) : Nat :=
  if month = 2 then
    if year % 4 = 0 ∧ (year % 100 ≠ 0 ∨ year % 400 = 0) then 29 else 28
  else if month = 4 ∨ month = 6 ∨ month = 9 ∨ month = 11 then 30
  else 31

/-- A date. -/
def date : Scanner Unit
  | a :: b :: c :: d :: '-' :: cs =>
    if [a, b, c, d].all Char.isDigit then do
      let (month, cs) ← twoDigits? 1 12 cs
      let (_, cs) ← Scanner.exactly ['-'] cs
      let (_, cs) ← twoDigits? 1 (daysOf (Scanner.numeral 10 [a, b, c, d]) month) cs
      some ((), cs)
    else none
  | _ => none

/-- A time of day. -/
def time : Scanner Unit := fun cs => do
  let (_, cs) ← twoDigits? 0 23 cs
  let (_, cs) ← Scanner.exactly [':'] cs
  let (_, cs) ← twoDigits? 0 59 cs
  let (_, cs) ← Scanner.exactly [':'] cs
  let (_, cs) ← twoDigits? 0 60 cs
  match cs with
  | '.' :: cs =>
    let (ds, cs) := Scanner.run Char.isDigit cs
    if ds.isEmpty then none else some ((), cs)
  | _ => some ((), cs)

/-- The offset of a time zone, or nothing. -/
def offset : Scanner Unit
  | 'Z' :: cs => some ((), cs)
  | 'z' :: cs => some ((), cs)
  | c :: cs =>
    if c = '+' ∨ c = '-' then do
      let (_, cs) ← twoDigits? 0 23 cs
      let (_, cs) ← Scanner.exactly [':'] cs
      let (_, cs) ← twoDigits? 0 59 cs
      some ((), cs)
    else some ((), c :: cs)
  | [] => some ((), [])

/-- Whether the characters are exactly what a scanner reads. -/
def covers (scanner : Scanner Unit) (cs : List Char) : Bool :=
  match scanner cs with
  | some (_, []) => true
  | _ => false

/-- A time of day with an optional offset. -/
def zonedTime : Scanner Unit := fun cs => do
  let (_, cs) ← time cs
  offset cs

/-- A date, a date and a time, or a time. -/
def isMoment (cs : List Char) : Bool :=
  match date cs with
  | some (_, []) => true
  | some (_, c :: cs) => (c = 'T' ∨ c = 't' ∨ c = ' ') && covers zonedTime cs
  | none => covers time cs

/-! ## Scalars -/

/-- A character of a scalar that is not a string. -/
def isPlain (c : Char) : Bool :=
  c.isAlphanum ∨ c = '+' ∨ c = '-' ∨ c = '_' ∨ c = '.' ∨ c = ':'

/-- The value of a run of characters. -/
def plainValue? (cs : List Char) : Option Value :=
  if cs = ['t', 'r', 'u', 'e'] then some (.bool true)
  else if cs = ['f', 'a', 'l', 's', 'e'] then some (.bool false)
  else if isMoment cs then some (.moment (String.ofList cs))
  else (decimal? cs).or ((special? cs).or (integer? cs))

/-- A scalar that is not a string. -/
def plain : Scanner Value := fun cs =>
  let (first, rest) := Scanner.run isPlain cs
  let (second, after) :=
    match rest with
    | ' ' :: rest => Scanner.run isPlain rest
    | _ => ([], rest)
  if covers date first ∧ (second.head?.map Char.isDigit).getD false then
    let whole := first ++ ' ' :: second
    if isMoment whole then some (.moment (String.ofList whole), after) else none
  else (plainValue? first).map fun value => (value, rest)

end MidiScore.Toml
