import MidiScore.Command.Arguments
import MidiScore.Command.FileTree
import MidiScore.Command.Formats
import MidiScore.Command.Host
import MidiScore.Command.Loading
import MidiScore.Command.Log
import MidiScore.Command.Log.Directives
import MidiScore.Command.Path
import MidiScore.Command.Run
import MidiScore.Command.Settings
import MidiScore.Command.Standard
import MidiScore.Compile
import MidiScore.Cue.Basic
import MidiScore.Cue.Expansion
import MidiScore.Event.Basic
import MidiScore.Event.Writing
import MidiScore.Finding
import MidiScore.Json.Reader
import MidiScore.Json.Writer
import MidiScore.Main
import MidiScore.Midi.File
import MidiScore.Midi.Message
import MidiScore.Midi.VarLength
import MidiScore.NoteValue
import MidiScore.Number.Binary
import MidiScore.Number.Decimal
import MidiScore.Number.Format
import MidiScore.Number.Single
import MidiScore.Pitch
import MidiScore.Regex.Fault
import MidiScore.Regex.Matching
import MidiScore.Regex.Meaning
import MidiScore.Regex.Reader
import MidiScore.Regex.Tree
import MidiScore.Schedule
import MidiScore.Score.Basic
import MidiScore.Score.Reading
import MidiScore.Score.Writing
import MidiScore.Text.Blank
import MidiScore.Text.Scan
import MidiScore.Text.Terminal
import MidiScore.Ticks
import MidiScore.Timeline
import MidiScore.Toml.Reader
import MidiScore.Toml.Scalar
import MidiScore.Toml.Table
import MidiScore.Traced
import MidiScore.Validation
import MidiScore.Value
import MidiScore.Value.Reading
import MidiScore.Proofs.Emission
import MidiScore.Proofs.MidiReader
import MidiScore.Proofs.MidiBytes
import MidiScore.Proofs.MidiRoundTrip
import MidiScore.Proofs.Pairing
import MidiScore.Proofs.Balance
import MidiScore.Proofs.Provenance
import MidiScore.Proofs.HangingNotes
import MidiScore.Proofs.Failures
import MidiScore.Proofs.Writability
import MidiScore.Proofs.SoundedKeys
import MidiScore.Proofs.Inlining
import MidiScore.Proofs.Gaps
import MidiScore.Proofs.MidiTiming
import MidiScore.Proofs.TaskOrder
import MidiScore.Proofs.JsonText
import MidiScore.Proofs.ScoreRoundTrip
import MidiScore.Proofs.Overruns
import MidiScore.Proofs.Fallbacks
import MidiScore.Proofs.FinerPlacement
import MidiScore.Proofs.Scaling
import MidiScore.Proofs.FileTrees
import MidiScore.Proofs.CompileCommand
import MidiScore.Proofs.Deltas
import MidiScore.Proofs.Layout
import MidiScore.Proofs.Grouping
import MidiScore.Proofs.Ungrouping
import MidiScore.Proofs.Concatenation
import MidiScore.Proofs.MidiAcceptance
import MidiScore.Proofs.Exclusion
import MidiScore.Proofs.Findings
import MidiScore.Proofs.NoteValueText
import MidiScore.Proofs.Quantities
import MidiScore.Proofs.ExactArithmetic
import MidiScore.Proofs.OutputPaths
import MidiScore.Proofs.LogFilters
