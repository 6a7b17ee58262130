import MidiScore.Midi.File
import MidiScore.Proofs.Streams
import MidiScore.Proofs.Validity

/-!
# Valid scores fit into MIDI messages

A message has seven bits for a program, a velocity or a key, and writes the denominator of a meter
as a power of two.  Validation checks programs, velocities and denominators where they are written,
and expansion brings them into events unchanged.  Keys need no check here, since those of tones are
cut off at the ends of the keyboard and those of drums are fixed.  So every event of a valid score
is in range (`Score.event_inRange`).

What is left are numbers that no check looks at: the count of tracks, lengths of time and of names,
and a tempo so slow that a quarter note does not fit into 24 bits of microseconds.
-/

namespace MidiScore

open Midi

/-! ## Events in range -/

/-- Whether bytes have seven bits, a denominator is not zero and a tempo is positive. -/
def Event.InRange : Event → Prop
  | .programChange program => program ≤ 127
  | .meter m => m.denominator ≠ 0
  | .tempo bpm => isPositiveTempo bpm = true
  | .noteOn pitches velocity _ => velocity ≤ 127 ∧ ∀ key ∈ pitches, key ≤ 127
  | .noteOff pitches _ _ => ∀ key ∈ pitches, key ≤ 127
  | .bendBegin _ _ => True
  | .bendEnd _ => True

theorem PitchClass.key_le (octave : Int8) (pitch : PitchClass) : pitch.key octave ≤ 127 := by
  have small : min 127 (pitch.position octave).toNat ≤ 127 := Nat.min_le_left _ _
  rw [PitchClass.key, UInt8.le_iff_toNat_le, UInt8.toNat_ofNat']
  exact Nat.le_trans (Nat.mod_le _ _) small

theorem Drum.key_le (drum : Drum) : drum.key ≤ 127 := by
  cases drum <;> decide

/-- Keys are in range whatever was written: tones are cut off, and drums have fixed keys. -/
theorem Cue.keys_le (cue : Cue) : ∀ key ∈ cue.keys, key ≤ 127 := by
  obtain ⟨origin, action⟩ := cue
  intro key member
  cases action with
  | tone tone =>
      rw [List.mem_singleton.mp member]
      exact PitchClass.key_le _ _
  | hits group =>
      obtain ⟨hit, -, rfl⟩ := List.mem_map.mp member
      exact Drum.key_le _
  | bend bend => cases member
  | meter meter => cases member
  | tempo bpm => cases member

/-! ## Checked values -/

theorem velocity_le_of_warnings {velocity : UInt8}
    (warnings : OnlyWarnings (velocityFaults velocity)) : velocity ≤ 127 :=
  of_decide_eq_true (Fault.holds_of_warnings (.velocity velocity) warnings rfl)

theorem Meter.denominator_ne_zero {meter : Meter} (warnings : OnlyWarnings meter.faults) :
    meter.denominator ≠ 0 := by
  have range := Fault.holds_of_warnings (.denominator meter.denominator)
    (onlyWarnings_append.mp warnings).2 rfl
  intro zero
  rw [zero] at range
  cases range

section
variable {score : Score} (valid : score.validate.isOk = true) {track : Track}
  (trackMember : track ∈ score.tracks)

include valid

theorem Score.head_inRange :
    score.meter.denominator ≠ 0 ∧ isPositiveTempo score.tempo = true := by
  have warnings := score.head_onlyWarnings valid
  simp only [Score.headFaults, onlyWarnings_append] at warnings
  obtain ⟨⟨tempo, meter⟩, -⟩ := warnings
  exact ⟨Meter.denominator_ne_zero meter, Fault.holds_of_warnings .tempo tempo rfl⟩

include trackMember

/-- Meter, tempo and program at the start of a track are those of the score and the track. -/
theorem Score.prologue_inRange {event : TimedEvent} (member : event ∈ score.prologue track) :
    event.event.InRange := by
  obtain ⟨meter, tempo⟩ := score.head_inRange valid
  have program := score.instrument_onlyWarnings valid trackMember
  unfold Score.prologue at member
  cases instrument : track.instrument with
  | drums =>
      simp only [instrument, List.append_nil, List.mem_cons, List.not_mem_nil, or_false] at member
      rcases member with rfl | rfl
      · exact meter
      · exact tempo
  | program number =>
      simp only [instrument, List.mem_append, List.mem_cons, List.not_mem_nil, or_false] at member
      rw [instrument] at program
      rcases member with (rfl | rfl) | rfl
      · exact meter
      · exact tempo
      · have small : number ≤ 127 :=
          of_decide_eq_true (Fault.holds_of_warnings (.program number) program rfl)
        exact small

/-- A note is checked where it is written, be it in the track or in a pattern. -/
theorem Score.note_velocity_le {origin : Origin} {note : Note}
    (found : score.writtenAt? track origin = some (.note note)) : note.velocity ≤ 127 := by
  have warnings := (score.written_checked valid trackMember found).2
  simp only [PatternNote.faults, Note.faults, onlyWarnings_append] at warnings
  exact velocity_le_of_warnings warnings.1.2

theorem Score.hit_velocity_le {origin : Origin} {hit : Hit}
    (found : score.writtenAt? track origin = some (.hit hit)) : hit.velocity ≤ 127 := by
  have warnings := (score.written_checked valid trackMember found).2
  simp only [PatternNote.faults, Hit.faults, onlyWarnings_append] at warnings
  exact velocity_le_of_warnings warnings.1

/-- The events of a cue of a valid track are in range. -/
theorem Score.cue_inRange {defaults : Defaults} {cues : List Cue}
    (expanded : score.expand defaults track = .ok cues) {cue : Cue} (member : cue ∈ cues)
    {side : Side} {event : Event} (causes : cue.Causes side event) : event.InRange := by
  have written := Score.lead_writtenAt expanded member
  have keys := cue.keys_le
  obtain ⟨origin, action⟩ := cue
  cases action with
  | tone tone =>
      obtain ⟨note, pause, found, rfl⟩ := written
      cases side with
      | start =>
          obtain ⟨wait, rfl⟩ := causes
          exact ⟨score.note_velocity_le valid trackMember found, keys⟩
      | stop => obtain ⟨duration, delta, rfl⟩ := causes; exact keys
  | hits group =>
      obtain ⟨hit, pause, found, same⟩ := written
      cases side with
      | start =>
          obtain ⟨wait, rfl⟩ := causes
          have velocity := score.hit_velocity_le valid trackMember found
          exact ⟨same ▸ velocity, keys⟩
      | stop => obtain ⟨duration, delta, rfl⟩ := causes; exact keys
  | bend bend =>
      cases side with
      | start => obtain ⟨wait, rfl⟩ := causes; trivial
      | stop => obtain ⟨delta, rfl⟩ := causes; trivial
  | meter meter =>
      cases side with
      | start =>
          cases causes
          exact Meter.denominator_ne_zero (score.ownFaults_onlyWarnings valid trackMember written)
      | stop => exact causes.elim
  | tempo bpm =>
      cases side with
      | start =>
          cases causes
          exact Fault.holds_of_warnings .tempo
            (score.ownFaults_onlyWarnings valid trackMember written) rfl
      | stop => exact causes.elim

/-- Every event of a valid score is in range. -/
theorem Score.event_inRange {defaults : Defaults} {stream : CompiledTrack}
    (compiled : score.compileTrack defaults track = .ok stream) {event : TimedEvent}
    (member : event ∈ stream.events) : event.event.InRange := by
  rcases Score.mem_stream compiled member with early | ⟨cues, cue, side, expanded, inside, causes⟩
  · exact score.prologue_inRange valid trackMember early
  · exact score.cue_inRange valid trackMember expanded inside causes

end

/-! ## Writing -/

/-- Why a file may be refused although its events are in range. -/
def Midi.WriteError.IsLimit : WriteError → Prop
  | .tempo bpm => isPositiveTempo bpm = true ∧ isWritableTempo bpm = false
  | .meter _ => False
  | .data _ _ => False
  | .trackCount count => 65535 < count
  | .quantity value => 0x0FFFFFFF < value
  | .encoding _ => False

theorem Midi.DataByte.ofByte_ne_error {field : DataField} {value : UInt8} (small : value ≤ 127)
    (error : WriteError) : DataByte.ofByte field value ≠ .error error := by
  rw [DataByte.ofByte, dif_pos small]
  nofun

theorem Midi.mapM_ofByte_ne_error {field : DataField} {values : List UInt8}
    (small : ∀ value ∈ values, value ≤ 127) (error : WriteError) :
    values.mapM (DataByte.ofByte field) ≠ .error error := by
  intro failed
  obtain ⟨value, member, fails⟩ := exists_of_mapM_eq_error failed
  exact DataByte.ofByte_ne_error (small value member) error fails

/-- An event in range is refused for its tempo only. -/
theorem Event.messages_isLimit {event : Event} (inRange : event.InRange) {channel : Channel}
    {error : WriteError} (failed : event.messages channel = .error error) : error.IsLimit := by
  cases event with
  | programChange program =>
      rcases bind_eq_error.mp failed with byte | ⟨_, -, done⟩
      · exact absurd byte (DataByte.ofByte_ne_error inRange error)
      · cases done
  | meter meter =>
      rw [Event.messages, if_neg inRange] at failed
      cases failed
  | tempo bpm =>
      rw [Event.messages] at failed
      split at failed
      next => cases failed
      next slow =>
        cases failed
        exact ⟨inRange, Bool.eq_false_iff.mpr slow⟩
  | noteOn pitches velocity wait =>
      rcases bind_eq_error.mp failed with byte | ⟨_, -, rest⟩
      · exact absurd byte (DataByte.ofByte_ne_error inRange.1 error)
      · rcases bind_eq_error.mp rest with keys | ⟨_, -, done⟩
        · exact absurd keys (mapM_ofByte_ne_error inRange.2 error)
        · cases done
  | noteOff pitches duration delta =>
      rcases bind_eq_error.mp failed with keys | ⟨_, -, done⟩
      · exact absurd keys (mapM_ofByte_ne_error inRange error)
      · cases done
  | bendBegin amount wait => cases failed
  | bendEnd delta => cases failed

namespace Midi

theorem VarLength.ofNat_isLimit {n : Nat} {error : WriteError}
    (failed : VarLength.ofNat n = .error error) : error.IsLimit := by
  unfold VarLength.ofNat at failed
  split at failed
  next => cases failed
  next large =>
    cases failed
    exact Nat.lt_of_not_le large

theorem timeMessages_isLimit {messages : List Message} {last tick : Nat} {error : WriteError}
    (failed : timeMessages last tick messages = .error error) : error.IsLimit := by
  induction messages generalizing last with
  | nil => cases failed
  | cons message messages ih =>
      rcases bind_eq_error.mp failed with delta | ⟨_, -, rest⟩
      · exact VarLength.ofNat_isLimit delta
      · rcases bind_eq_error.mp rest with others | ⟨_, -, done⟩
        · exact ih others
        · cases done

/-- By induction over the events, of which each is in range. -/
theorem eventStream_isLimit {channel : Channel} {events : List TimedEvent} {last : Nat}
    (inRange : ∀ event ∈ events, event.event.InRange) {error : WriteError}
    (failed : eventStream channel last events = .error error) : error.IsLimit := by
  induction events generalizing last with
  | nil => cases failed
  | cons event events ih =>
      rcases bind_eq_error.mp failed with here | ⟨messages, -, rest⟩
      · exact Event.messages_isLimit (inRange event (List.mem_cons_self ..)) here
      · rcases bind_eq_error.mp rest with timing | ⟨first, -, rest⟩
        · exact timeMessages_isLimit timing
        · rcases bind_eq_error.mp rest with others | ⟨_, -, done⟩
          · exact ih (fun other later => inRange other (List.mem_cons_of_mem _ later)) others
          · cases done

/-- A name is refused for its length. -/
theorem nameStream_isLimit {trackNames : Bool} {name : String} {error : WriteError}
    (failed : nameStream trackNames name = .error error) : error.IsLimit := by
  unfold nameStream at failed
  split at failed
  next =>
    rcases bind_eq_error.mp failed with text | ⟨_, -, done⟩
    · simp only [MetaText.ofString] at text
      split at text
      next => cases text
      next long =>
        cases text
        exact Nat.lt_of_not_le long
    · cases done
  next => cases failed

theorem trackStream_isLimit {trackNames : Bool} {track : CompiledTrack}
    (inRange : ∀ event ∈ track.events, event.event.InRange) {error : WriteError}
    (failed : trackStream trackNames track = .error error) : error.IsLimit := by
  rcases bind_eq_error.mp failed with name | ⟨_, -, rest⟩
  · exact nameStream_isLimit name
  · rcases bind_eq_error.mp rest with events | ⟨_, -, done⟩
    · exact eventStream_isLimit inRange events
    · cases done

end Midi

/-- A score with events in range is refused for a limit only.  The resolution is never too large for
its field. -/
theorem CompiledScore.toMidi_isLimit {compiled : CompiledScore} {trackNames : Bool}
    (inRange : ∀ stream ∈ compiled.tracks, ∀ event ∈ stream.events, event.event.InRange)
    {error : WriteError} (failed : compiled.toMidi trackNames = .error error) : error.IsLimit := by
  rw [CompiledScore.toMidi_eq] at failed
  split at failed
  next many =>
    cases failed
    exact many
  next =>
    rcases bind_eq_error.mp failed with inTrack | ⟨_, -, done⟩
    · obtain ⟨stream, member, fails⟩ := exists_of_mapM_eq_error inTrack
      exact trackStream_isLimit (inRange stream member) fails
    · cases done

/-- A valid score that compiles is refused for too many tracks, a length that does not fit into a
variable-length quantity, or a positive tempo that is too slow to be written.  No byte and no meter
is ever out of range. -/
theorem toMidi_error_of_valid {score : Score} {fallback : Defaults} {compiled : CompiledScore}
    (valid : score.validate.isOk = true) (compiles : score.compile fallback = .ok compiled)
    (trackNames : Bool) {error : WriteError}
    (failed : compiled.toMidi trackNames = .error error) :
    (∃ count, error = .trackCount count ∧ 65535 < count) ∨
      (∃ value, error = .quantity value ∧ 0x0FFFFFFF < value) ∨
      ∃ bpm, error = .tempo bpm ∧ isPositiveTempo bpm = true ∧ isWritableTempo bpm = false := by
  have limit : error.IsLimit := by
    refine CompiledScore.toMidi_isLimit ?_ failed
    intro stream member event inside
    obtain ⟨track, trackMember, compiled⟩ :=
      exists_of_forall₂_right (Score.compile_eq_ok compiles) member
    exact score.event_inRange valid trackMember compiled inside
  cases error with
  | tempo bpm => exact Or.inr (Or.inr ⟨bpm, rfl, limit⟩)
  | meter meter => exact limit.elim
  | data field value => exact limit.elim
  | trackCount count => exact Or.inl ⟨count, rfl, limit⟩
  | quantity value => exact Or.inr (Or.inl ⟨value, rfl, limit⟩)
  | encoding reason => exact limit.elim

/-- A valid score whose quarter note lasts a minute. -/
def slowDrums (resolution : Resolution) : Score where
  name := "song"
  tempo := 1.0
  resolution := resolution
  patterns := [⟨"beat", [.hit ⟨.kick, 127, [], []⟩]⟩]
  tracks := [⟨"drums", .drums, [.pattern ⟨"beat", 2, []⟩, .meter ⟨4, 12⟩]⟩]

theorem slowDrums_refused :
    (slowDrums ⟨4, by decide, by decide⟩).validate.isOk = true ∧
      ∃ compiled, (slowDrums ⟨4, by decide, by decide⟩).compile {} = .ok compiled ∧
        compiled.toMidi = .error (.tempo 1.0) ∧ isPositiveTempo 1.0 = true ∧
        isWritableTempo 1.0 = false := by
  have valid : (slowDrums ⟨4, by decide, by decide⟩).validate.isOk = true := by decide
  obtain ⟨compiled, compiles, failed⟩ : ∃ compiled,
      (slowDrums ⟨4, by decide, by decide⟩).compile {} = .ok compiled ∧
        compiled.toMidi = .error (.tempo 1.0) := ⟨_, rfl, rfl⟩
  refine ⟨valid, compiled, compiles, failed, ?_⟩
  obtain ⟨_, other, -⟩ | ⟨_, other, -⟩ | ⟨bpm, same, slow⟩ :=
    toMidi_error_of_valid valid compiles true failed
  · cases other
  · cases other
  · cases same
    exact slow

end MidiScore
