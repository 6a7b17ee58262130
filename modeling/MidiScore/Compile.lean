import MidiScore.Schedule

/-!
# Compilation

Each track is compiled on its own: it is expanded, placed and scheduled.  Its stream starts
with the meter and the tempo of the score and, on a melodic track, the program of its
instrument, all at tick zero.

`Score.compile` compiles the tracks in order and stops at the first one that cannot be
compiled.  `Score.compileParallel` gives each track to a task of its own and looks at the
results in the order of the tracks, so the answer is the same.
-/

namespace MidiScore

/-- The event stream of one track. -/
structure CompiledTrack where
  name : String
  kind : TrackKind
  events : List TimedEvent
  findings : List Finding := []
  deriving DecidableEq

/-- The event streams of all tracks. -/
structure CompiledScore where
  name : String
  resolution : Resolution
  tracks : List CompiledTrack
  deriving DecidableEq

/-- The number of findings on all tracks. -/
def CompiledScore.findingCount (score : CompiledScore) : Nat :=
  (score.tracks.flatMap (·.findings)).length

/-- Why a score cannot be compiled: the track, and what is wrong with it. -/
structure CompileError where
  track : String
  cause : TrackError
  deriving DecidableEq

/-- What is said about the error. -/
def CompileError.message (error : CompileError) : String :=
  s!"Track '{error.track}': {error.cause.message}"

/-! ## Tracks -/

/-- The events at the start of a track. -/
def Score.prologue (score : Score) (track : Track) : List TimedEvent :=
  [⟨0, 0, .meter score.meter⟩, ⟨0, 0, .tempo score.tempo⟩] ++
    match track.instrument with
    | .drums => []
    | .program number => [⟨0, 0, .programChange number⟩]

/-- Compiles one track. -/
def Score.compileTrack (score : Score) (defaults : Defaults) (track : Track) :
    Except TrackError CompiledTrack := do
  let cues ← score.expand defaults track
  let timeline ← Timeline.ofCues score.resolution cues
  let scheduled := schedule score.resolution cues timeline
  return {
    name := track.name
    kind := track.kind
    events := score.prologue track ++ scheduled.events
    findings := scheduled.findings }

/-! ## Scores -/

/-- A result with the track that an error belongs to. -/
def Track.blame {α : Type} (track : Track) (result : Except TrackError α) :
    Except CompileError α :=
  result.mapError fun cause => ⟨track.name, cause⟩

/-- Compiles the tracks of a score in order. -/
def Score.compile (score : Score) (fallback : Defaults) : Except CompileError CompiledScore := do
  let defaults := score.defaults fallback
  let tracks ← score.tracks.mapM fun track => track.blame (score.compileTrack defaults track)
  return ⟨score.name, score.resolution, tracks⟩

/-- Compiles the tracks of a score on tasks of their own. -/
def Score.compileParallel (score : Score) (fallback : Defaults) :
    Except CompileError CompiledScore := do
  let defaults := score.defaults fallback
  let tasks := score.tracks.map fun track =>
    Task.spawn fun _ => score.compileTrack defaults track
  let results := tasks.map Task.get
  let tracks ← (score.tracks.zip results).mapM fun (track, result) => track.blame result
  return ⟨score.name, score.resolution, tracks⟩

end MidiScore
