import MidiScore.NoteValue
import MidiScore.Number.Single
import MidiScore.Value

/-!
# Reading typed data from structured values

A record is read from an object by the names of its fields, and fields of other names are
ignored.  A list is also taken for a record: its items are the fields in their order, and
fields at the end may be missing.  A bare name may also be given as an object with that one
field and nothing in it.

What counts as nothing, and whether a list may have more items than the record has fields,
depends on where the value was written.  A `Dialect` says so.
-/

namespace MidiScore

/-- Why a value could not be read. -/
inductive ReadError where
  /-- A text that is no note value. -/
  | noteValue (text : String)
  /-- A number of ticks per quarter note that is no resolution. -/
  | resolution (value : Nat)
  /-- A value of another shape than the expected one. -/
  | shape (expected : String)
  deriving DecidableEq, Repr

namespace ReadError

/-- What is said about the error. -/
def message : ReadError → String
  | .noteValue text => s!"Unknown duration token: {text}"
  | .resolution value => s!"Invalid resolution {value}: expected 1..=128 ticks per quarter note"
  | .shape expected => s!"expected {expected}"

end ReadError

/-- The result of reading. -/
abbrev Reading (α : Type) := Except ReadError α

/-- How a value was written. -/
structure Dialect where
  /-- Whether a list may have more items than the record has fields. -/
  surplus : Bool
  /-- What stands for nothing. -/
  isNothing : Value → Bool

namespace Dialect

/-- A value read from JSON. -/
def json : Dialect where
  surplus := false
  isNothing
    | .null => true
    | _ => false

/-- A value read from TOML, which has no null. -/
def toml : Dialect where
  surplus := true
  isNothing
    | .list [] => true
    | .object [] => true
    | _ => false

/-- A value inside a record that names its own kind, from either. -/
def tagged : Dialect where
  surplus := false
  isNothing
    | .null => true
    | .object [] => true
    | _ => false

end Dialect

namespace Value

/-! ## Scalars -/

def readText : Value → Reading String
  | .text s => .ok s
  | _ => .error (.shape "a text")

def readBool : Value → Reading Bool
  | .bool b => .ok b
  | _ => .error (.shape "true or false")

/-- A whole number in a range. -/
def readInt (low high : Int) : Value → Reading Int
  | .int n => if low ≤ n ∧ n ≤ high then .ok n else .error (.shape "a smaller number")
  | _ => .error (.shape "a whole number")

/-- An unsigned byte. -/
def readByte (value : Value) : Reading UInt8 :=
  (value.readInt 0 255).map fun n => UInt8.ofNat n.toNat

/-- An octave number, a signed byte. -/
def readOctave (value : Value) : Reading Int8 :=
  (value.readInt (-128) 127).map Int8.ofInt

/-- A number of repetitions, a signed 64-bit word. -/
def readCount (value : Value) : Reading Int64 :=
  (value.readInt (-0x8000000000000000) 0x7fffffffffffffff).map Int64.ofInt

/-- A double precision number; whole numbers are numbers too. -/
def readDouble : Value → Reading Float
  | .double x => .ok x
  | .single x => .ok x.toFloat
  | .int n => .ok (Float.ofInt n)
  | _ => .error (.shape "a number")

/-- A single precision number; any other number is rounded to one. -/
def readSingle : Value → Reading Float32
  | .single x => .ok x
  | .double x => .ok (Binary.ofDouble x).toSingle
  | .int n => .ok (Float32.ofInt n)
  | _ => .error (.shape "a number")

/-- A note value. -/
def readNoteValue (value : Value) : Reading NoteValue := do
  let text ← value.readText
  match NoteValue.parse? text with
  | some v => .ok v
  | none => .error (.noteValue text)

/-- A resolution. -/
def readResolution (value : Value) : Reading Resolution := do
  let n ← value.readInt 0 0xffffffff
  match Resolution.ofNat? n.toNat with
  | some resolution => .ok resolution
  | none => .error (.resolution n.toNat)

/-- A name out of a closed list of names. -/
def readName {α : Type} (dialect : Dialect) (parse? : String → Option α) (what : String)
    (value : Value) : Reading α :=
  let name? : Option String :=
    match value with
    | .text s => some s
    | .object [(s, content)] => if dialect.isNothing content then some s else none
    | _ => none
  match name?.bind parse? with
  | some x => .ok x
  | none => .error (.shape what)

/-! ## Lists and optional values -/

/-- A list of readable items. -/
def readList {α : Type} (read : Value → Reading α) : Value → Reading (List α)
  | .list items => items.mapM read
  | _ => .error (.shape "a list")

/-- Note values in a list. -/
def readNoteValues : Value → Reading (List NoteValue) := readList readNoteValue

/-- Null stands for an absent value. -/
def readOption {α : Type} (read : Value → Reading α) : Value → Reading (Option α)
  | .null => .ok none
  | value => (read value).map some

/-! ## Records -/

/-- The fields of a record with the given field names. -/
def readFields (dialect : Dialect) (names : List String) :
    Value → Reading (List (String × Value))
  | .object fields => .ok fields
  | .list items =>
    if items.length ≤ names.length ∨ dialect.surplus then .ok (names.zip items)
    else .error (.shape "fewer items")
  | .moment _ => .ok []
  | _ => .error (.shape "a record")

/-- The kind that a record names, and the record. -/
def readKind : Value → Reading (String × Value)
  | .object fields =>
    match field? "kind" fields with
    | some (.text kind) => .ok (kind, .object fields)
    | _ => .error (.shape "a kind")
  | .list (.text kind :: items) => .ok (kind, .list items)
  | _ => .error (.shape "a record with a kind")

/-- A field that must be there. -/
def required {α : Type} (fields : List (String × Value)) (name : String)
    (read : Value → Reading α) : Reading α :=
  match field? name fields with
  | some value => read value
  | none => .error (.shape s!"the field {name}")

/-- A field with a default value. -/
def defaulted {α : Type} (fields : List (String × Value)) (name : String) (default : α)
    (read : Value → Reading α) : Reading α :=
  match field? name fields with
  | some value => read value
  | none => .ok default

/-- A field that may be missing or null. -/
def optional {α : Type} (fields : List (String × Value)) (name : String)
    (read : Value → Reading α) : Reading (Option α) :=
  defaulted fields name none (readOption read)

end Value

end MidiScore
