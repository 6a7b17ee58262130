/-!
# Structured values

A `Value` is what a JSON or TOML text says, before it is known what it is about.  Scores and
settings are read from values, and scores and event streams are written as values.

Whole numbers and fractional numbers are kept apart, because a field that takes a whole
number refuses `4.0`.  Single precision numbers are kept apart from double precision ones,
because fewer digits suffice to write them.
-/

namespace MidiScore

/-- A tree of structured data. -/
inductive Value where
  | null
  | bool (value : Bool)
  /-- A whole number. -/
  | int (value : Int)
  /-- A double precision number. -/
  | double (value : Float)
  /-- A single precision number. -/
  | single (value : Float32)
  | text (value : String)
  /-- A date, a time of day, or both, as it was written. -/
  | moment (value : String)
  | list (items : List Value)
  /-- Named fields in order. -/
  | object (fields : List (String × Value))

namespace Value

/-- The fields of an object after one has been set: a field of that name is replaced,
otherwise the new one comes last. -/
def setField (name : String) (value : Value) :
    List (String × Value) → List (String × Value)
  | [] => [(name, value)]
  | (key, old) :: rest =>
    if key = name then (key, value) :: rest else (key, old) :: setField name value rest

/-- The value of a field. -/
def field? (name : String) (fields : List (String × Value)) : Option Value :=
  fields.lookup name

end Value

end MidiScore
