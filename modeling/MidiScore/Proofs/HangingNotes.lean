import MidiScore.Proofs.Balance
import MidiScore.Proofs.Provenance
import MidiScore.Proofs.Streams
import MidiScore.Proofs.Validity

/-!
# Hanging notes

The stream of a compiled track is balanced exactly if its cues without a length are covered by
longer ones of the same voice.  Validation does not look at lengths: a note whose value is the
chord marker has none, and neither has a bend whose length is written with chord markers only.
Such a note alone is released before it is struck.

*Lengths.*  A track lasts if none of its notes resolves to the chord marker and none of its bends
is written with one (`Track.lasts`).  Every sounding cue of a valid track that lasts has a positive
length, so its stream is balanced.

*Prologue.*  The events at the start of a track start and stop no voice.
-/

namespace MidiScore

/-! ## Lengths -/

namespace NoteValue

/-- Only the chord marker takes no time. -/
theorem exact_pos (resolution : Resolution) {value : NoteValue}
    (lasts : value.isChordMarker = false) : 0 < value.exact resolution := by
  obtain ⟨base, modifier⟩ := value
  have positive := resolution.positive
  have sixth : 6 ≤ base.sub resolution := by
    cases base with
    | chord => cases lasts
    | _ => simp only [NoteBase.sub]; omega
  unfold exact
  cases modifier with
  | plain => simp only [Modifier.apply]; omega
  | dotted => simp only [Modifier.apply]; omega
  | triplet => simp only [Modifier.apply]; omega

theorem exactSum_pos (resolution : Resolution) {values : List NoteValue} (written : values ≠ [])
    (lasts : ∀ value ∈ values, value.isChordMarker = false) :
    0 < exactSum resolution values := by
  cases values with
  | nil => exact absurd rfl written
  | cons value values =>
      have first := exact_pos resolution (lasts value (List.mem_cons_self ..))
      simp only [exactSum, List.map_cons, List.sum_cons]
      omega

end NoteValue

/-- Whether a note resolves to a value with a length. -/
def Note.lasts (defaults : Defaults) (note : Note) : Bool :=
  !(note.resolve defaults).value.isChordMarker

/-- Whether a note of a pattern takes any time; a hit always does. -/
def PatternNote.lasts (defaults : Defaults) : PatternNote → Bool
  | .note n => n.lasts defaults
  | .hit _ => true

/-- Whether the notes of an entry have a length and its bend is written without chord markers. -/
def Entry.lasts (score : Score) (defaults : Defaults) : Entry → Bool
  | .note n => n.lasts defaults
  | .hit _ => true
  | .pattern u =>
    (score.pattern? u.pattern).all fun declared => declared.notes.all (·.lasts defaults)
  | .meter _ => true
  | .tempo _ => true
  | .bend b => b.length.all (!·.isChordMarker)

/-- Whether every note that a track plays takes some time. -/
def Track.lasts (score : Score) (defaults : Defaults) (track : Track) : Bool :=
  track.entries.all (·.lasts score defaults)

/-- A track that lasts has a length wherever a note or hit is written. -/
theorem Track.lasts_writtenAt {score : Score} {defaults : Defaults} {track : Track}
    (lasts : track.lasts score defaults = true) {origin : Origin} {written : PatternNote}
    (found : score.writtenAt? track origin = some written) : written.lasts defaults = true := by
  have entries := List.all_eq_true.mp lasts
  unfold Score.writtenAt? at found
  split at found
  next note there _ =>
    cases found
    exact entries _ (List.mem_of_getElem? there)
  next hit there _ =>
    cases found
    rfl
  next use place there _ =>
    obtain ⟨declared, isDeclared, inside⟩ := Option.bind_eq_some_iff.mp found
    have notes := entries _ (List.mem_of_getElem? there)
    simp only [Entry.lasts, isDeclared, Option.all_some, List.all_eq_true] at notes
    exact notes written (List.mem_of_getElem? inside)
  next => cases found

/-- Every sounding cue of a valid track that lasts has a length. -/
theorem exactDuration_pos {score : Score} (valid : score.validate.isOk = true) {track : Track}
    (trackMember : track ∈ score.tracks) {defaults : Defaults}
    (lasts : track.lasts score defaults = true) {cues : List Cue}
    (expanded : score.expand defaults track = .ok cues) :
    ∀ cue ∈ cues, cue.isSounding = true → 0 < cue.exactDuration score.resolution := by
  intro cue member sounding
  have written := Score.lead_writtenAt expanded member
  obtain ⟨origin, action⟩ := cue
  cases action with
  | tone tone =>
      obtain ⟨note, pause, found, rfl⟩ := written
      have lasting := Track.lasts_writtenAt lasts found
      exact NoteValue.exact_pos _ (by simpa [PatternNote.lasts, Note.lasts] using lasting)
  | hits group => exact NoteValue.exact_pos _ rfl
  | bend bend =>
      have positive := score.bend_length_ne_nil valid trackMember written
      have marked := List.all_eq_true.mp lasts _ written
      simp only [Entry.lasts, List.all_eq_true, Bool.not_eq_true'] at marked
      exact NoteValue.exactSum_pos _ positive marked
  | meter meter => cases sounding
  | tempo bpm => cases sounding

/-! ## Streams of tracks -/

theorem tally_append_of_silent {silent : List TimedEvent}
    (quiet : ∀ event ∈ silent, event.event.voice? = none) (side : Side) (voice : Voice)
    (events : List TimedEvent) : tally side voice (silent ++ events) = tally side voice events := by
  have zero : silent.countP (fun event => event.event.voice? = some (side, voice)) = 0 := by
    refine List.countP_eq_zero.mpr ?_
    intro event member
    simp [quiet event member]
  rw [tally, List.countP_append, zero, Nat.zero_add, tally]

/-- Silent events in front do not matter. -/
theorem balanced_append_iff {silent : List TimedEvent}
    (quiet : ∀ event ∈ silent, event.event.voice? = none) (events : List TimedEvent) :
    Balanced (silent ++ events) ↔ Balanced events := by
  constructor
  · intro balanced voice
    obtain ⟨fronts, whole⟩ := balanced voice
    constructor
    · intro front isFront
      have longer := fronts (silent ++ front) ((List.prefix_append_right_inj silent).mpr isFront)
      rwa [tally_append_of_silent quiet, tally_append_of_silent quiet] at longer
    · rwa [tally_append_of_silent quiet, tally_append_of_silent quiet] at whole
  · intro balanced voice
    obtain ⟨fronts, whole⟩ := balanced voice
    constructor
    · intro front isFront
      have quietFront : ∀ event ∈ silent.take front.length, event.event.voice? = none :=
        fun event member => quiet event (List.mem_of_mem_take member)
      rw [List.prefix_iff_eq_take.mp isFront, List.take_append,
        tally_append_of_silent quietFront, tally_append_of_silent quietFront]
      exact fronts _ (List.take_prefix _ _)
    · rwa [tally_append_of_silent quiet, tally_append_of_silent quiet]

theorem Score.prologue_silent (score : Score) (track : Track) :
    ∀ event ∈ score.prologue track, event.event.voice? = none := by
  intro event member
  unfold Score.prologue at member
  cases instrument : track.instrument with
  | drums =>
      simp only [instrument, List.append_nil, List.mem_cons, List.not_mem_nil, or_false] at member
      rcases member with rfl | rfl <;> rfl
  | program number =>
      simp only [instrument, List.mem_append, List.mem_cons, List.not_mem_nil, or_false] at member
      rcases member with (rfl | rfl) | rfl <;> rfl

/-- The stream of a track is balanced exactly if its cues without a length are covered. -/
theorem Score.stream_balanced_iff {score : Score} {cues : List Cue} {placements : List Placement}
    (placed : place score.resolution cues = .ok placements) (track : Track) :
    Balanced (score.prologue track ++
        (schedule score.resolution cues (Timeline.ofPlacements placements)).events) ↔
      Covered cues placements := by
  rw [balanced_append_iff (score.prologue_silent track)]
  exact balanced_iff_covered (placeFrom_fits placed) score.resolution

/-- The streams of a valid score, track by track.  A stream is balanced if and only if wherever cues
without a length stand as many longer ones of their voice sound on.  Below the last representable
time every voice is stopped in the end as often as it was started, and the stream of a track that
lasts is balanced. -/
theorem compile_balanced_iff_covered {score : Score} {fallback : Defaults}
    {compiled : CompiledScore} (valid : score.validate.isOk = true)
    (compiles : score.compile fallback = .ok compiled) :
    compiled.tracks.length = score.tracks.length ∧
      ∀ track stream, (track, stream) ∈ score.tracks.zip compiled.tracks →
        ∃ cues placements, score.expand (score.defaults fallback) track = .ok cues ∧
          place score.resolution cues = .ok placements ∧
          (Balanced stream.events ↔ Covered cues placements) ∧
          (extent score.resolution cues < 2 ^ 63 - 1 →
            (∀ voice, tally .stop voice stream.events = tally .start voice stream.events) ∧
              (track.lasts score (score.defaults fallback) = true → Balanced stream.events)) := by
  obtain ⟨streams, steps, same⟩ := bind_eq_ok.mp compiles
  cases same
  have all := mapM_eq_ok.mp steps
  refine ⟨all.length_eq.symm, ?_⟩
  intro track stream zipped
  obtain ⟨cues, placements, expanded, placed, events⟩ :=
    Score.compileTrack_eq_ok (mapError_eq_ok.mp (List.forall₂_zip all zipped))
  have balanced : Balanced stream.events ↔ Covered cues placements := by
    rw [events]
    exact score.stream_balanced_iff placed track
  refine ⟨cues, placements, expanded, placed, balanced, ?_⟩
  intro small
  have inside := place_placed small placed
  constructor
  · intro voice
    rw [events, tally_append_of_silent (score.prologue_silent track),
      tally_append_of_silent (score.prologue_silent track)]
    exact tally_stop_eq_start inside small voice
  · intro lasts
    exact balanced.mpr (covered_of_lengths inside
      (exactDuration_pos valid (List.of_mem_zip zipped).1 lasts expanded))

/-- One track with a single note of the given value. -/
def soloNote (resolution : Resolution) (value : NoteValue) : Score where
  name := "song"
  resolution := resolution
  tracks := [⟨"lead", .program 0, [.note ⟨.c, some 4, some value, 100, [], []⟩]⟩]

theorem soloNote_quarter_balanced :
    (soloNote ⟨4, by decide, by decide⟩ .quarter).validate.isOk = true ∧
      ∃ stream, (soloNote ⟨4, by decide, by decide⟩ .quarter).compile {} =
          .ok ⟨"song", ⟨4, by decide, by decide⟩, [stream]⟩ ∧
        Balanced stream.events := by
  have valid : (soloNote ⟨4, by decide, by decide⟩ .quarter).validate.isOk = true := by decide
  refine ⟨valid, _, rfl, ?_⟩
  have compiles : (soloNote ⟨4, by decide, by decide⟩ .quarter).compile {} = .ok ⟨_, _, [_]⟩ := rfl
  obtain ⟨-, tracks⟩ := compile_balanced_iff_covered valid compiles
  obtain ⟨cues, placements, expanded, -, -, exactly⟩ := tracks _ _ (List.mem_singleton_self _)
  cases expanded
  exact (exactly (by decide)).2 rfl

/-- The cue of the note if its value is the chord marker. -/
def soloGraceNote : Cue := ⟨⟨0, none⟩, .tone ⟨.c, 4, .chord, 100, [], []⟩⟩

theorem soloGraceNote_order :
    (Timeline.ofPlacements [.span {}]).order [soloGraceNote] =
      [(.stop, ⟨⟨0, 0, 0⟩, soloGraceNote⟩), (.start, ⟨⟨0, 0, 0⟩, soloGraceNote⟩)] := by
  refine Timeline.eq_of_map_sided_eq (fun _ => Timeline.attached_of_mem_order) ?_ ?_
  · simp [Queued.Attached]
  · rw [Timeline.order_map_sided (by unfold Timeline.PointsInto; decide)]
    exact (Timeline.eq_sortedMarks (by decide) (by decide)).symm

theorem soloNote_chord_released_first :
    (soloNote ⟨4, by decide, by decide⟩ .chord).validate.isOk = true ∧
      ∃ stream, (soloNote ⟨4, by decide, by decide⟩ .chord).compile {} =
          .ok ⟨"song", ⟨4, by decide, by decide⟩, [stream]⟩ ∧
        stream.events.map (·.event) = [.meter ⟨4, 4⟩, .tempo 120.0, .programChange 0,
          .noteOff [60] 0 (some 0), .noteOn [60] 100 0] ∧
        ¬Balanced stream.events := by
  refine ⟨by decide, _, rfl, ?_, ?_⟩
  · change (_ ++ (schedule _ [soloGraceNote] (.ofPlacements [.span {}])).events).map _ = _
    rw [schedule_eq, soloGraceNote_order]
    rfl
  · intro balanced
    have covered := (Score.stream_balanced_iff
      (show place _ [soloGraceNote] = .ok [.span {}] from rfl) _).mp balanced
    exact absurd (covered (.keys [60]) 0) (by decide)

end MidiScore
