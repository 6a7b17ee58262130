import MidiScore.Cue.Basic

/-!
# Expansion of tracks

A track becomes cues in two steps.

*Unrolling.*  `Score.unroll` walks the entries of a track.  A note is completed from the
defaults.  The use of a pattern becomes as many copies of the pattern's notes as it asks for;
its pause, if it has one, replaces the pause of the first note of the first copy.

*Grouping.*  `group` folds a chord-marked hit into the group of hits right before it.  A
chord-marked hit after anything else opens a group of its own.
-/

namespace MidiScore

/-! ## Errors -/

/-- Why a track cannot be played. -/
inductive TrackError where
  /-- A pattern is used that the score does not declare. -/
  | undeclaredPattern (pattern : String) (origin : Origin)
  /-- A pattern is used zero times or less. -/
  | repeatCount (pattern : String) (count : Int64) (origin : Origin)
  /-- A delay goes past the end of what it counts from. -/
  | longDelay (origin : Origin) (delay available : Ticks)
  deriving DecidableEq

namespace TrackError

/-- What is said about the error. -/
def message : TrackError → String
  | .undeclaredPattern pattern origin =>
    s!"Unresolved pattern reference '{pattern}' at {origin.text}"
  | .repeatCount pattern count origin =>
    s!"Invalid repeat count {count.toInt} for pattern '{pattern}' at {origin.text}"
  | .longDelay origin delay available =>
    s!"Delay of {delay.text} ticks at {origin.text} exceeds the previous duration of " ++
      s!"{available.text} ticks"

end TrackError

/-! ## Unrolling -/

/-- One thing played, before hits are grouped. -/
inductive Item where
  | tone (tone : Tone)
  | hit (hit : Hit)
  | bend (bend : Bend)
  | meter (meter : Meter)
  | tempo (bpm : Float)
  deriving DecidableEq

/-- An item and where it comes from. -/
structure Played where
  origin : Origin
  item : Item
  deriving DecidableEq

/-- A note of a pattern as it is played; a pause that is not empty replaces the note's own. -/
def PatternNote.play (defaults : Defaults) (pause : List NoteValue) : PatternNote → Item
  | .note n =>
    let tone := n.resolve defaults
    .tone (if pause.isEmpty then tone else { tone with pause := pause })
  | .hit h => .hit (if pause.isEmpty then h else { h with pause := pause })

/-- One copy of a pattern, played for the entry at an index. -/
def Pattern.copy (defaults : Defaults) (index : Nat) (pause : List NoteValue)
    (pattern : Pattern) (repetition : Nat) : List Played :=
  pattern.notes.zipIdx.map fun (note, position) =>
    { origin := ⟨index, some ⟨pattern.name, repetition, position⟩⟩
      item := note.play defaults (if repetition = 0 ∧ position = 0 then pause else []) }

namespace Score

/-- All copies of a pattern that the entry at an index asks for.  A pattern without notes
plays nothing, however often. -/
def unrollUse (score : Score) (defaults : Defaults) (index : Nat) (use : PatternUse) :
    Except TrackError (List Played) :=
  match score.pattern? use.pattern with
  | none => .error (.undeclaredPattern use.pattern ⟨index, none⟩)
  | some pattern =>
    if use.count.toInt ≤ 0 then .error (.repeatCount use.pattern use.count ⟨index, none⟩)
    else if pattern.notes.isEmpty then .ok []
    else
      .ok ((List.range use.count.toInt.toNat).flatMap
        (pattern.copy defaults index use.pause))

/-- What the entry at an index plays. -/
def unrollEntry (score : Score) (defaults : Defaults) (index : Nat) :
    Entry → Except TrackError (List Played)
  | .note note => .ok [⟨⟨index, none⟩, .tone (note.resolve defaults)⟩]
  | .hit hit => .ok [⟨⟨index, none⟩, .hit hit⟩]
  | .pattern use => score.unrollUse defaults index use
  | .meter meter => .ok [⟨⟨index, none⟩, .meter meter⟩]
  | .tempo bpm => .ok [⟨⟨index, none⟩, .tempo bpm⟩]
  | .bend bend => .ok [⟨⟨index, none⟩, .bend bend⟩]

/-- What entries play whose first one has the given index.  The first entry that cannot be
played decides the error. -/
def unrollFrom (score : Score) (defaults : Defaults) :
    Nat → List Entry → Except TrackError (List Played)
  | _, [] => .ok []
  | index, entry :: rest => do
    let first ← score.unrollEntry defaults index entry
    let others ← score.unrollFrom defaults (index + 1) rest
    return first ++ others

/-- What a track plays. -/
def unroll (score : Score) (defaults : Defaults) (track : Track) :
    Except TrackError (List Played) :=
  score.unrollFrom defaults 0 track.entries

end Score

/-! ## Grouping -/

/-- The cue of a single item. -/
def Played.cue (played : Played) : Cue :=
  { origin := played.origin
    action :=
      match played.item with
      | .tone tone => .tone tone
      | .hit hit => .hits ⟨hit, []⟩
      | .bend bend => .bend bend
      | .meter meter => .meter meter
      | .tempo bpm => .tempo bpm }

/-- Adds an item after cues that are given last first. -/
def Played.addTo (cues : List Cue) (played : Played) : List Cue :=
  match played.item, cues with
  | .hit hit, ⟨origin, .hits group⟩ :: rest =>
    if hit.isChordMarked then ⟨origin, .hits (group.add hit)⟩ :: rest else played.cue :: cues
  | _, _ => played.cue :: cues

/-- The cues of a list of items. -/
def group (items : List Played) : List Cue := (items.foldl Played.addTo []).reverse

/-- The cues of a track. -/
def Score.expand (score : Score) (defaults : Defaults) (track : Track) :
    Except TrackError (List Cue) :=
  (score.unroll defaults track).map group

end MidiScore
