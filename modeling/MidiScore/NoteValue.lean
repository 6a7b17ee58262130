import MidiScore.Traced

/-!
# Note values

A note value is a symbolic length: a base such as `quarter`, plain, dotted or as a triplet.
Two bases are no lengths of notation.  `drum` lasts one tick whatever the resolution is, and
`chord` lasts nothing and marks a note that sounds together with the one before it.

A `Resolution` says how many ticks a quarter note has, and turns a note value into `Ticks`.

Note values are written as the name of the base, followed by `_dotted` or `_triplet`.
-/

namespace MidiScore

/-! ## Resolution -/

/-- Ticks per quarter note, between 1 and 128. -/
structure Resolution where
  perQuarter : Nat
  positive : 1 ≤ perQuarter
  small : perQuarter ≤ 128
  deriving DecidableEq

namespace Resolution

/-- The resolution of so many ticks per quarter note, if that is in range. -/
def ofNat? (n : Nat) : Option Resolution :=
  if h : 1 ≤ n ∧ n ≤ 128 then some ⟨n, h.1, h.2⟩ else none

end Resolution

/-! ## Bases and modifiers -/

/-- The base of a note value. -/
inductive NoteBase where
  | whole
  | half
  | quarter
  | eighth
  | sixteenth
  | thirtySecond
  | sixtyFourth
  /-- One tick, independent of the resolution. -/
  | drum
  /-- No length: groups a note with the one before it. -/
  | chord
  deriving DecidableEq, Repr

namespace NoteBase

/-- All bases, longest first. -/
def all : List NoteBase :=
  [.whole, .half, .quarter, .eighth, .sixteenth, .thirtySecond, .sixtyFourth, .drum, .chord]

/-- The written name. -/
def name : NoteBase → String
  | .whole => "whole"
  | .half => "half"
  | .quarter => "quarter"
  | .eighth => "eighth"
  | .sixteenth => "sixteenth"
  | .thirtySecond => "thirty_second"
  | .sixtyFourth => "sixty_fourth"
  | .drum => "drum"
  | .chord => "chord"

/-- The base with the given name. -/
def ofName? (name : String) : Option NoteBase :=
  all.find? fun base => base.name = name

/-- Length in sub-ticks.  A quarter note has sixteen sixty-fourths and a tick 96 sub-ticks,
so a sixty-fourth is six sub-ticks per tick of a quarter note. -/
def sub (resolution : Resolution) : NoteBase → Nat
  | .whole => 64 * resolution.perQuarter * 6
  | .half => 32 * resolution.perQuarter * 6
  | .quarter => 16 * resolution.perQuarter * 6
  | .eighth => 8 * resolution.perQuarter * 6
  | .sixteenth => 4 * resolution.perQuarter * 6
  | .thirtySecond => 2 * resolution.perQuarter * 6
  | .sixtyFourth => 1 * resolution.perQuarter * 6
  | .drum => 96
  | .chord => 0

end NoteBase

/-- How the length of the base is changed. -/
inductive Modifier where
  | plain
  /-- Three halves of the base. -/
  | dotted
  /-- Two thirds of the base. -/
  | triplet
  deriving DecidableEq, Repr

namespace Modifier

/-- What is written after the name of the base. -/
def suffix : Modifier → String
  | .plain => ""
  | .dotted => "_dotted"
  | .triplet => "_triplet"

/-- The changed length. -/
def apply (length : Nat) : Modifier → Nat
  | .plain => length
  | .dotted => length * 3 / 2
  | .triplet => length * 2 / 3

end Modifier

/-! ## Note values -/

/-- A symbolic length such as `quarter` or `eighth_dotted`. -/
structure NoteValue where
  base : NoteBase
  modifier : Modifier := .plain
  deriving DecidableEq, Repr

namespace NoteValue

def quarter : NoteValue := ⟨.quarter, .plain⟩

def drum : NoteValue := ⟨.drum, .plain⟩

def chord : NoteValue := ⟨.chord, .plain⟩

/-- The dotted value on the same base. -/
def dotted (value : NoteValue) : NoteValue := ⟨value.base, .dotted⟩

/-- The triplet value on the same base. -/
def triplet (value : NoteValue) : NoteValue := ⟨value.base, .triplet⟩

/-- Whether this is the marker of a chord member. -/
def isChordMarker (value : NoteValue) : Bool := value.base = .chord

/-- The exact length. -/
def ticks (resolution : Resolution) (value : NoteValue) : Ticks :=
  .ofSub (value.modifier.apply (value.base.sub resolution))

/-- The written form. -/
def text (value : NoteValue) : String := value.base.name ++ value.modifier.suffix

/-- What stands before a given ending. -/
def beforeSuffix? (ending text : List Char) : Option (List Char) :=
  if ending.isSuffixOf text then some (text.take (text.length - ending.length)) else none

/-- Splits a written form into the name of the base and the modifier. -/
def split (text : String) : String × Modifier :=
  match beforeSuffix? Modifier.dotted.suffix.toList text.toList with
  | some base => (String.ofList base, .dotted)
  | none =>
    match beforeSuffix? Modifier.triplet.suffix.toList text.toList with
    | some base => (String.ofList base, .triplet)
    | none => (text, .plain)

/-- Reads a written form. -/
def parse? (text : String) : Option NoteValue :=
  let (base, modifier) := split text
  (NoteBase.ofName? base).map fun base => ⟨base, modifier⟩

/-- The total length of a list of note values, with the sums on the way to it. -/
def sumTraced (resolution : Resolution) (values : List NoteValue) : Traced Ticks :=
  Ticks.sumTraced (values.map (ticks resolution))

/-- The total length of a list of note values. -/
def sumTicks (resolution : Resolution) (values : List NoteValue) : Ticks :=
  (sumTraced resolution values).value

/-- Whether a delay marks its note as a chord member. -/
def startsWithChord : List NoteValue → Bool
  | [] => false
  | value :: _ => value.isChordMarker

end NoteValue

end MidiScore
