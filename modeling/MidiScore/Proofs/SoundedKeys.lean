import MidiScore.Proofs.HangingNotes

/-!
# The keys of valid scores

The key of a tone is cut off at the ends of the keyboard.  In a valid score that never happens.

*Octaves.*  A note's own octave and that of the score are checked, and so is the key of the note
in such an octave.  A note without any is completed from the fallback, which no check sees.  From
octave -1 to octave 8 every pitch is on the keyboard, and in octave 9 some are not.

*Kinds.*  A valid track plays notes of its own kind only, those of its patterns included.  So
a percussive track sounds drums and a melodic track one tone at a time.
-/

namespace MidiScore

/-! ## Positions on the keyboard -/

theorem PitchClass.semitone_le (pitch : PitchClass) : pitch.semitone ≤ 11 := by
  cases pitch <;> decide

/-- On the keyboard the key is the position. -/
theorem PitchClass.key_toNat {octave : Int8} {pitch : PitchClass}
    (low : 0 ≤ pitch.position octave) (high : pitch.position octave ≤ 127) :
    ((pitch.key octave).toNat : Int) = pitch.position octave := by
  rw [PitchClass.key, UInt8.toNat_ofNat']
  omega

theorem PitchClass.position_of_key? {octave : Int8} {pitch : PitchClass}
    (found : (pitch.key? octave).isSome = true) :
    0 ≤ pitch.position octave ∧ pitch.position octave ≤ 127 := by
  simp only [PitchClass.key?] at found
  split at found
  next inside => exact inside
  next => cases found

theorem PitchClass.position_of_octave {octave : Int8} (low : -1 ≤ octave.toInt)
    (high : octave.toInt ≤ 8) (pitch : PitchClass) :
    0 ≤ pitch.position octave ∧ pitch.position octave ≤ 127 := by
  have small := pitch.semitone_le
  unfold PitchClass.position
  omega

/-! ## Octaves of notes -/

/-- The octave of a note: its own, or that of the score, or that of the fallback. -/
def Note.octaveIn (score : Score) (fallback : Defaults) (note : Note) : Int8 :=
  (note.octave.or score.octave).getD fallback.octave

theorem Note.resolve_octave (score : Score) (fallback : Defaults) (note : Note) :
    (note.resolve (score.defaults fallback)).octave = note.octaveIn score fallback := by
  unfold Note.octaveIn
  cases written : note.octave with
  | none => simp [Note.resolve, Score.defaults, written]
  | some octave => simp [Note.resolve, written]

section
variable {score : Score} {note : Note}

/-- An octave that is written in a valid score is one of the keyboard. -/
theorem Note.isKeyboardOctave_of_written (head : OnlyWarnings score.headFaults)
    (warnings : OnlyWarnings (note.faults score)) {octave : Int8}
    (written : note.octave.or score.octave = some octave) : isKeyboardOctave octave = true := by
  cases own : note.octave with
  | some _ =>
      rw [own] at written
      cases written
      simp only [Note.faults, onlyWarnings_append, Note.octaveFaults, own] at warnings
      exact Fault.holds_of_warnings (.octave octave) warnings.1.1.1.1 rfl
  | none =>
      rw [own, Option.none_or] at written
      simp only [Score.headFaults, onlyWarnings_append, written] at head
      exact Fault.holds_of_warnings (.defaultOctave octave) head.2 rfl

/-- A note of a valid score is on the keyboard. -/
theorem Note.position_onKeyboard (head : OnlyWarnings score.headFaults)
    (warnings : OnlyWarnings (note.faults score)) {fallback : Defaults}
    (low : -1 ≤ fallback.octave.toInt) (high : fallback.octave.toInt ≤ 8) :
    0 ≤ note.pitch.position (note.octaveIn score fallback) ∧
      note.pitch.position (note.octaveIn score fallback) ≤ 127 := by
  unfold Note.octaveIn
  cases written : note.octave.or score.octave with
  | none => exact PitchClass.position_of_octave low high note.pitch
  | some octave =>
      have keyboard := Note.isKeyboardOctave_of_written head warnings written
      simp only [Note.faults, onlyWarnings_append, Note.keyFaults, written, Option.filter_some,
        keyboard, if_true] at warnings
      exact PitchClass.position_of_key?
        (Fault.holds_of_warnings (.key note.pitch octave) warnings.1.1.1.2 rfl)

end

/-! ## Keys of events -/

/-- Whether keys are those of what is written at a place of a track.  On a percussive track they
are the keys of some drums.  On a melodic track there is one, at the position of the note. -/
def KeysWrittenAt (score : Score) (fallback : Defaults) (track : Track) (origin : Origin)
    (keys : List UInt8) : Prop :=
  match track.kind with
  | .percussive => keys ≠ [] ∧ ∀ key ∈ keys, ∃ drum : Drum, key = drum.key
  | .melodic => ∃ note key, score.writtenAt? track origin = some (.note note) ∧ keys = [key] ∧
      (key.toNat : Int) =
        ((note.octaveIn score fallback).toInt + 1) * 12 + note.pitch.semitone

/-- The keys of a cue of a valid track. -/
theorem Score.keys_writtenAt {score : Score} (valid : score.validate.isOk = true) {track : Track}
    (trackMember : track ∈ score.tracks) {fallback : Defaults}
    (low : -1 ≤ fallback.octave.toInt) (high : fallback.octave.toInt ≤ 8) {cues : List Cue}
    (expanded : score.expand (score.defaults fallback) track = .ok cues) {cue : Cue}
    (member : cue ∈ cues) {keys : List UInt8} (sounds : cue.voice? = some (.keys keys)) :
    KeysWrittenAt score fallback track cue.origin keys := by
  have written := Score.lead_writtenAt expanded member
  obtain ⟨origin, action⟩ := cue
  cases action with
  | tone tone =>
      cases sounds
      obtain ⟨note, pause, found, rfl⟩ := written
      obtain ⟨kind, warnings⟩ := score.written_checked valid trackMember found
      obtain ⟨first, last⟩ :=
        Note.position_onKeyboard (score.head_onlyWarnings valid) warnings low high
      rw [KeysWrittenAt, ← kind]
      refine ⟨note, _, found, rfl, ?_⟩
      rw [Tone.key, Note.resolve_octave]
      exact PitchClass.key_toNat first last
  | hits group =>
      cases sounds
      obtain ⟨hit, pause, found, -⟩ := written
      rw [KeysWrittenAt, ← (score.written_checked valid trackMember found).1]
      refine ⟨List.cons_ne_nil _ _, ?_⟩
      intro key inside
      obtain ⟨struck, -, rfl⟩ := List.mem_map.mp inside
      exact ⟨struck.drum, rfl⟩
  | bend bend => cases sounds
  | meter meter => cases sounds
  | tempo bpm => cases sounds

/-- The keys of a valid score, where the fallback has an octave from -1 to 8.  An event after the
prologue stands for a side of a cue, and where it starts or stops keys, these are the keys of what
is written at the origin of the cue.  The prologue has none. -/
theorem compile_keys_unclamped {score : Score} {fallback : Defaults} {compiled : CompiledScore}
    (valid : score.validate.isOk = true) (low : -1 ≤ fallback.octave.toInt)
    (high : fallback.octave.toInt ≤ 8) (compiles : score.compile fallback = .ok compiled) :
    compiled.tracks.length = score.tracks.length ∧
      ∀ track stream, (track, stream) ∈ score.tracks.zip compiled.tracks →
        stream.kind = track.kind ∧
        (∀ event ∈ score.prologue track, event.event.voice? = none) ∧
        ∃ cues timeline scheduled, score.expand (score.defaults fallback) track = .ok cues ∧
          Timeline.ofCues score.resolution cues = .ok timeline ∧
          stream.events = score.prologue track ++ scheduled ∧
          List.Forall₂ (fun source event => ∃ cue, cues[source.2]? = some cue ∧
              cue.Causes source.1 event.event ∧
              ∀ side keys, event.event.voice? = some (side, .keys keys) →
                KeysWrittenAt score fallback track cue.origin keys)
            (timeline.sources cues) scheduled := by
  have all := Score.compile_eq_ok compiles
  refine ⟨all.length_eq.symm, ?_⟩
  intro track stream zipped
  have compiled := List.forall₂_zip all zipped
  obtain ⟨cues, placements, expanded, placed, events⟩ := Score.compileTrack_eq_ok compiled
  refine ⟨Score.compileTrack_kind compiled, score.prologue_silent track, cues,
    Timeline.ofPlacements placements, _, expanded, map_eq_ok.mpr ⟨placements, placed, rfl⟩,
    events, ?_⟩
  refine (schedule_events_standFor (placeFrom_fits placed) score.resolution).imp ?_
  rintro source event ⟨cue, found, causes⟩
  refine ⟨cue, found, causes, ?_⟩
  intro side keys sounds
  rw [causes.voice?, Option.map_eq_some_iff] at sounds
  obtain ⟨voice, voiced, same⟩ := sounds
  cases same
  exact score.keys_writtenAt valid (List.of_mem_zip zipped).1 low high expanded
    (List.mem_of_getElem? found) voiced

/-- The two highest notes in reach: G in octave 9, and B in the octave of the fallback. -/
def highRiff (resolution : Resolution) : Score where
  name := "song"
  resolution := resolution
  patterns :=
    [⟨"riff", [.note ⟨.g, some 9, none, 100, [], []⟩, .note ⟨.b, none, none, 100, [], []⟩]⟩]
  tracks := [⟨"lead", .program 0, [.pattern ⟨"riff", 1, []⟩]⟩]

theorem highRiff_keys :
    (highRiff ⟨4, by decide, by decide⟩).validate.isOk = true ∧
      ∃ stream, (highRiff ⟨4, by decide, by decide⟩).compile ⟨8, .quarter⟩ =
          .ok ⟨"song", ⟨4, by decide, by decide⟩, [stream]⟩ ∧
        ∀ event ∈ stream.events, ∀ side keys, event.event.voice? = some (side, .keys keys) →
          keys = [127] ∨ keys = [119] := by
  have valid : (highRiff ⟨4, by decide, by decide⟩).validate.isOk = true := by decide
  obtain ⟨stream, compiles⟩ : ∃ stream,
      (highRiff ⟨4, by decide, by decide⟩).compile ⟨8, .quarter⟩ =
        .ok ⟨"song", ⟨4, by decide, by decide⟩, [stream]⟩ := ⟨_, rfl⟩
  refine ⟨valid, stream, compiles, ?_⟩
  obtain ⟨-, tracks⟩ := compile_keys_unclamped valid (by decide) (by decide) compiles
  obtain ⟨-, silent, cues, timeline, scheduled, expanded, -, events, all⟩ :=
    tracks _ _ (List.mem_singleton_self _)
  intro event member side keys sounds
  rw [events] at member
  rcases List.mem_append.mp member with early | late
  · rw [silent event early] at sounds
    cases sounds
  · obtain ⟨source, -, cue, found, -, written⟩ := exists_of_forall₂_right all late
    obtain ⟨note, key, there, rfl, position⟩ := written side keys sounds
    have places : ∀ cue ∈ cues, cue.origin = ⟨0, some ⟨"riff", 0, 0⟩⟩ ∨
        cue.origin = ⟨0, some ⟨"riff", 0, 1⟩⟩ := by
      cases expanded
      decide
    rcases places cue (List.mem_of_getElem? found) with first | second
    · rw [first] at there
      cases there
      exact Or.inl (congrArg List.singleton (UInt8.toNat_inj.mp (Int.natCast_inj.mp position)))
    · rw [second] at there
      cases there
      exact Or.inr (congrArg List.singleton (UInt8.toNat_inj.mp (Int.natCast_inj.mp position)))

end MidiScore
