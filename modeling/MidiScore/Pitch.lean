/-!
# Pitches and percussion

A pitch class is one of the twelve chromatic names.  It is written as a letter (`C`, `F#`)
and also read as a syllable (`Do`, `Fa#`).  With an octave it gives a MIDI key; C4 is key 60.

A drum is a percussion element with a short code and a key of the General MIDI kit.
-/

namespace MidiScore

/-! ## Pitch classes -/

/-- One of the twelve chromatic pitches. -/
inductive PitchClass where
  | c
  | cSharp
  | d
  | dSharp
  | e
  | f
  | fSharp
  | g
  | gSharp
  | a
  | aSharp
  | b
  deriving DecidableEq, Repr

namespace PitchClass

/-- All pitch classes, upwards from C. -/
def all : List PitchClass :=
  [.c, .cSharp, .d, .dSharp, .e, .f, .fSharp, .g, .gSharp, .a, .aSharp, .b]

/-- Semitones above C. -/
def semitone : PitchClass → Nat
  | .c => 0
  | .cSharp => 1
  | .d => 2
  | .dSharp => 3
  | .e => 4
  | .f => 5
  | .fSharp => 6
  | .g => 7
  | .gSharp => 8
  | .a => 9
  | .aSharp => 10
  | .b => 11

/-- The letter name, which is the written form. -/
def letter : PitchClass → String
  | .c => "C"
  | .cSharp => "C#"
  | .d => "D"
  | .dSharp => "D#"
  | .e => "E"
  | .f => "F"
  | .fSharp => "F#"
  | .g => "G"
  | .gSharp => "G#"
  | .a => "A"
  | .aSharp => "A#"
  | .b => "B"

/-- The syllable that is read as the same pitch. -/
def syllable : PitchClass → String
  | .c => "Do"
  | .cSharp => "Do#"
  | .d => "Re"
  | .dSharp => "Re#"
  | .e => "Mi"
  | .f => "Fa"
  | .fSharp => "Fa#"
  | .g => "Sol"
  | .gSharp => "Sol#"
  | .a => "La"
  | .aSharp => "La#"
  | .b => "Si"

/-- Reads a letter name or a syllable. -/
def parse? (name : String) : Option PitchClass :=
  all.find? fun pitch => pitch.letter = name ∨ pitch.syllable = name

/-- The position on an endless keyboard on which C4 is key 60. -/
def position (octave : Int8) (pitch : PitchClass) : Int :=
  (octave.toInt + 1) * 12 + pitch.semitone

/-- The MIDI key, or the end of the keyboard next to it. -/
def key (octave : Int8) (pitch : PitchClass) : UInt8 :=
  .ofNat (min 127 (pitch.position octave).toNat)

/-- The MIDI key, if the keyboard has it. -/
def key? (octave : Int8) (pitch : PitchClass) : Option UInt8 :=
  let position := pitch.position octave
  if 0 ≤ position ∧ position ≤ 127 then some (.ofNat position.toNat) else none

end PitchClass

/-! ## Drums -/

/-- An element of the drum kit. -/
inductive Drum where
  | kick
  | bass
  | snare
  | hiHat
  | closedHiHat
  | openHiHat
  | ride
  | crash
  deriving DecidableEq, Repr

namespace Drum

/-- All drums. -/
def all : List Drum :=
  [.kick, .bass, .snare, .hiHat, .closedHiHat, .openHiHat, .ride, .crash]

/-- The written form. -/
def code : Drum → String
  | .kick => "kd"
  | .bass => "bd"
  | .snare => "sd"
  | .hiHat => "hh"
  | .closedHiHat => "ch"
  | .openHiHat => "oh"
  | .ride => "rc"
  | .crash => "cc"

/-- Reads a code. -/
def parse? (code : String) : Option Drum :=
  all.find? fun drum => drum.code = code

/-- The key of the General MIDI percussion map. -/
def key : Drum → UInt8
  | .kick => 35
  | .bass => 35
  | .snare => 38
  | .hiHat => 42
  | .closedHiHat => 42
  | .openHiHat => 46
  | .ride => 53
  | .crash => 49

end Drum

end MidiScore
