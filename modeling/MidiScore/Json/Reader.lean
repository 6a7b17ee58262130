import MidiScore.Text.Scan
import MidiScore.Value

/-!
# Reading JSON

`Json.read?` reads one JSON text.  Numbers without a fraction and an exponent are whole
numbers as long as they fit a 64-bit word; larger ones, and `-0`, are double precision
numbers like all others.  Of two fields of one name the later one counts.  Lists and objects
nest at most 127 deep.
-/

namespace MidiScore.Json

/-- Leaves out blanks and line ends. -/
def skipBlank (cs : List Char) : List Char :=
  cs.dropWhile fun c => c = ' ' ∨ c = '\t' ∨ c = '\n' ∨ c = '\r'

/-! ## Strings -/

/-- The character of a one-letter escape. -/
def escaped? : Char → Option Char
  | '"' => some '"'
  | '\\' => some '\\'
  | '/' => some '/'
  | 'b' => some '\x08'
  | 'f' => some '\x0c'
  | 'n' => some '\n'
  | 'r' => some '\r'
  | 't' => some '\t'
  | _ => none

/-- The character of a numeric escape: a code point, or two halves of one. -/
def unicode : Scanner Char := fun cs => do
  let (high, cs) ← Scanner.hex 4 cs
  if 0xD800 ≤ high ∧ high ≤ 0xDBFF then
    let (_, cs) ← Scanner.exactly ['\\', 'u'] cs
    let (low, cs) ← Scanner.hex 4 cs
    if 0xDC00 ≤ low ∧ low ≤ 0xDFFF then
      let c ← Scanner.charOf? (0x10000 + (high - 0xD800) * 0x400 + (low - 0xDC00))
      some (c, cs)
    else none
  else
    let c ← Scanner.charOf? high
    some (c, cs)

/-- The characters of a string up to its closing quote.  The fuel bounds their number. -/
def stringBody : Nat → List Char → Scanner String
  | 0, _, _ => none
  | _ + 1, _, [] => none
  | fuel + 1, done, c :: cs =>
    if c = '"' then some (String.ofList done.reverse, cs)
    else if c = '\\' then
      match cs with
      | 'u' :: cs => do
        let (c, cs) ← unicode cs
        stringBody fuel (c :: done) cs
      | e :: cs => do
        let c ← escaped? e
        stringBody fuel (c :: done) cs
      | [] => none
    else if c < ' ' then none
    else stringBody fuel (c :: done) cs

/-- A quoted string. -/
def string (size : Nat) : Scanner String
  | '"' :: cs => stringBody size [] cs
  | _ => none

/-! ## Numbers -/

/-- A run of digits that is not empty. -/
def digits : Scanner (List Char) := fun cs =>
  let (ds, rest) := Scanner.run Char.isDigit cs
  if ds.isEmpty then none else some (ds, rest)

/-- The digits before the point: one zero, or digits that do not start with zero. -/
def wholeDigits : Scanner (List Char)
  | '0' :: cs => some (['0'], cs)
  | cs => digits cs

/-- The digits after the point, if there is one. -/
def fractionDigits : Scanner (Option (List Char))
  | '.' :: cs => (digits cs).map fun (ds, rest) => (some ds, rest)
  | cs => some (none, cs)

/-- The exponent after its mark. -/
def exponentDigits (cs : List Char) : Option (Int × List Char) :=
  match cs with
  | '-' :: cs => (digits cs).map fun (ds, rest) => (-(Scanner.numeral 10 ds : Int), rest)
  | '+' :: cs => (digits cs).map fun (ds, rest) => ((Scanner.numeral 10 ds : Int), rest)
  | cs => (digits cs).map fun (ds, rest) => ((Scanner.numeral 10 ds : Int), rest)

/-- The exponent, if there is one. -/
def exponent : Scanner (Option Int)
  | 'e' :: cs => (exponentDigits cs).map fun (e, rest) => (some e, rest)
  | 'E' :: cs => (exponentDigits cs).map fun (e, rest) => (some e, rest)
  | cs => some (none, cs)

/-- The value of a number with neither fraction nor exponent. -/
def wholeValue (negative : Bool) (ds : List Char) : Value :=
  let n := Scanner.numeral 10 ds
  if negative then
    if n = 0 ∨ 0x8000000000000000 < n then .double (Scanner.fraction true ds [] 0) else .int (-n)
  else if n < 0x10000000000000000 then .int n
  else .double (Scanner.fraction false ds [] 0)

/-- The value of a number.  One beyond all double precision numbers is refused. -/
def numberValue? (negative : Bool) (whole : List Char) (part : Option (List Char))
    (power : Option Int) : Option Value :=
  match part, power with
  | none, none => some (wholeValue negative whole)
  | _, _ =>
    let x := Scanner.fraction negative whole (part.getD []) (power.getD 0)
    if x.isFinite then some (.double x) else none

/-- A number. -/
def number : Scanner Value := fun cs => do
  let negative := cs.head? = some '-'
  let (whole, cs) ← wholeDigits (if negative then cs.drop 1 else cs)
  let (part, cs) ← fractionDigits cs
  let (power, cs) ← exponent cs
  let value ← numberValue? negative whole part power
  some (value, cs)

/-! ## Values -/

/-- A literal word. -/
def word (text : String) (value : Value) : Scanner Value := fun cs =>
  (Scanner.exactly text.toList cs).map fun (_, rest) => (value, rest)

/-- A field of an object. -/
def member (size : Nat) (value : Scanner Value) : Scanner (String × Value) := fun cs => do
  let (name, cs) ← string size cs
  match skipBlank cs with
  | ':' :: cs =>
    let (v, cs) ← value (skipBlank cs)
    some ((name, v), cs)
  | _ => none

/-- A value in which lists and objects nest less deep than the given bound. -/
def value (size : Nat) : Nat → Scanner Value
  | 0, _ => none
  | depth + 1, cs =>
    match cs with
    | '"' :: _ => (string size cs).map fun (s, rest) => (.text s, rest)
    | '[' :: cs =>
      (Scanner.itemsOrNone ']' false skipBlank (value size depth) size cs).map fun (vs, rest) =>
        (.list vs, rest)
    | '\x7b' :: cs =>
      (Scanner.itemsOrNone '\x7d' false skipBlank (member size (value size depth)) size cs).map
        fun (fs, rest) =>
          (.object (fs.foldl (fun done (name, v) => Value.setField name v done) []), rest)
    | 'n' :: _ => word "null" .null cs
    | 't' :: _ => word "true" (.bool true) cs
    | 'f' :: _ => word "false" (.bool false) cs
    | _ => number cs

/-- Reads a JSON text. -/
def read? (text : String) : Option Value := do
  let (v, rest) ← value (text.length + 1) 128 (skipBlank text.toList)
  if (skipBlank rest).isEmpty then some v else none

end MidiScore.Json
