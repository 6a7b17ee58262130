import MidiScore.Compile
import MidiScore.Text.Terminal
import MidiScore.Validation

/-!
# Log lines

A log record has a level, a target that says which part of the program speaks, and a message.
Those that a filter shows are written as lines.  The text of a line comes from files, so it
is cleared of what would give orders to a terminal.

Which records a user wants to see is no matter of the program, so a `Filter` is any condition.
-/

namespace MidiScore.Log

/-! ## Records -/

/-- How important a record is, the most important first.  No record is `off`. -/
inductive Level where
  | off
  | error
  | warn
  | info
  | debug
  | trace
  deriving DecidableEq, Repr

def Level.name : Level → String
  | .off => "OFF"
  | .error => "ERROR"
  | .warn => "WARN"
  | .info => "INFO"
  | .debug => "DEBUG"
  | .trace => "TRACE"

/-- One thing to say. -/
structure Record where
  level : Level
  target : String
  message : String
  deriving DecidableEq, Repr

/-- Which records are shown. -/
structure Filter where
  shows : Record → Bool

namespace Record

/-- A message with the lines after the first one set in by four blanks. -/
def indent (message : String) : String :=
  String.ofList (message.toList.flatMap fun c => if c = '\n' then "\n    ".toList else [c])

/-- The line of a record. -/
def line (record : Record) : String :=
  let name := record.level.name
  let padding := String.ofList (List.replicate (5 - name.length) ' ')
  Terminal.plain s!"[{name}{padding} {record.target}] {indent record.message}\n"

end Record

/-! ## What the program says -/

/-- After a score has been loaded. -/
def loaded (score : Score) (path : String) : Record :=
  ⟨.debug, "scorec::input",
    s!"Loaded '{score.name}' from {path}: {score.patterns.length} patterns, " ++
      s!"{score.tracks.length} tracks"⟩

/-- After a score has been validated. -/
def validated (score : Score) (report : Report) : Record :=
  ⟨.debug, "scorec_core::validation",
    s!"Validated '{score.name}': {report.errors.length} errors, " ++
      s!"{report.warnings.length} warnings"⟩

/-- After a track has been expanded. -/
def expanded (track : Track) (cues : List Cue) : Record :=
  ⟨.debug, "scorec_core::expand",
    s!"Expanded track '{track.name}': {track.entries.length} entries -> " ++
      s!"{cues.length} flat entries"⟩

/-- Before the marks of a timeline are put in order. -/
def scheduling (timeline : Timeline) : Record :=
  ⟨.debug, "scorec_core::scheduler",
    s!"Scheduling {timeline.begins.length} begin marks and {timeline.ends.length} end marks"⟩

/-- A finding. -/
def found (finding : Finding) : Record :=
  ⟨.warn, "scorec_core::diagnostics", finding.message⟩

/-- After a track has been compiled. -/
def compiledTrack (track : CompiledTrack) (timeline : Timeline) : Record :=
  ⟨.debug, "scorec_core::compiler",
    s!"Track '{track.name}': {track.events.length} events, length {timeline.length.text} ticks"⟩

/-- After a score has been compiled. -/
def compiled (score : CompiledScore) : Record :=
  ⟨.info, "scorec_core::compiler",
    s!"Compiled '{score.name}': {score.tracks.length} tracks, {score.findingCount} diagnostics"⟩

/-- After a file has been laid out. -/
def encoded (score : CompiledScore) (bytes : List UInt8) : Record :=
  ⟨.debug, "scorec_smf::encoder",
    s!"Encoded '{score.name}': {score.tracks.length} tracks, {bytes.length} bytes"⟩

/-- After a file has been written. -/
def wrote (path : String) : Record := ⟨.info, "scorec_smf::encoder", s!"Wrote {path}"⟩

/-- What is said while a track is compiled, as far as that goes. -/
def trackRecords (score : Score) (defaults : Defaults) (track : Track) : List Record :=
  match score.expand defaults track with
  | .error _ => []
  | .ok cues =>
    expanded track cues ::
      match Timeline.ofCues score.resolution cues, score.compileTrack defaults track with
      | .ok timeline, .ok result =>
        scheduling timeline :: result.findings.map found ++ [compiledTrack result timeline]
      | _, _ => []

/-- The tracks that are looked at when they are compiled in order: those up to the first one
that cannot be compiled. -/
def attempted (score : Score) (defaults : Defaults) : List Track → List Track
  | [] => []
  | track :: rest =>
    match score.compileTrack defaults track with
    | .ok _ => track :: attempted score defaults rest
    | .error _ => [track]

/-- What is said while the tracks of a score are compiled.  On tasks of their own all tracks
are compiled, whatever becomes of the others. -/
def scoreRecords (score : Score) (fallback : Defaults) (parallel : Bool) : List Record :=
  let defaults := score.defaults fallback
  let tracks := if parallel then score.tracks else attempted score defaults score.tracks
  tracks.flatMap (trackRecords score defaults)

end MidiScore.Log
