import MidiScore.Proofs.Failures
import MidiScore.Proofs.Relabelling

/-!
# Inlined patterns

A track can be written out: each use of a pattern is replaced by the notes that it stands for, as
entries of the track (`Track.inlined`).  The written-out track sounds the same.

*Items.*  Unrolling a track plays the written-out entries one by one (`unrollFrom_items`).  The
pause of a use goes to the first note of the first copy, and so it does in `PatternUse.writtenOut`.
Writing out twice changes nothing more, so both tracks play the same items and differ in origins
only.

*Streams.*  Grouping runs over the items of the whole track, so a chord-marked hit may join a group
that was opened by another copy, another use or a direct entry.  This is the same for both tracks,
since nothing after unrolling depends on origins but findings and errors.
-/

namespace MidiScore

/-! ## Writing out -/

/-- A note of a pattern as an entry of a track. -/
def PatternNote.entry : PatternNote → Entry
  | .note n => .note n
  | .hit h => .hit h

/-- A note of a pattern with another pause. -/
def PatternNote.withPause (pause : List NoteValue) : PatternNote → PatternNote
  | .note n => .note { n with pause := pause }
  | .hit h => .hit { h with pause := pause }

/-- The notes that the use of a pattern stands for, copy after copy.  A pause that is not empty
replaces that of the first one. -/
def PatternUse.writtenOut (pattern : Pattern) (use : PatternUse) : List PatternNote :=
  let copies := (List.replicate use.count.toInt.toNat pattern.notes).flatten
  if use.pause.isEmpty then copies else copies.modifyHead (·.withPause use.pause)

/-- The entry, or the notes that it stands for. -/
def Entry.inlined (score : Score) : Entry → List Entry
  | .pattern use =>
    match score.pattern? use.pattern with
    | none => [.pattern use]
    | some declared => (use.writtenOut declared).map PatternNote.entry
  | entry => [entry]

/-- The track with its patterns written out. -/
def Track.inlined (score : Score) (track : Track) : Track :=
  { track with entries := track.entries.flatMap (Entry.inlined score) }

theorem PatternNote.entry_inlined (score : Score) (note : PatternNote) :
    note.entry.inlined score = [note.entry] := by
  cases note with
  | note note => rfl
  | hit hit => rfl

/-- Writing out twice changes nothing more. -/
theorem Entry.inlined_inlined (score : Score) (entry : Entry) :
    (entry.inlined score).flatMap (Entry.inlined score) = entry.inlined score := by
  cases entry with
  | pattern use =>
      simp only [Entry.inlined]
      cases declared : score.pattern? use.pattern with
      | none => simp [Entry.inlined, declared]
      | some pattern =>
          simp only [List.flatMap_map, PatternNote.entry_inlined]
          exact List.map_eq_flatMap.symm
  | note note => rfl
  | hit hit => rfl
  | meter meter => rfl
  | tempo bpm => rfl
  | bend bend => rfl

theorem Track.inlined_inlined (score : Score) (track : Track) :
    (track.inlined score).inlined score = track.inlined score := by
  simp only [Track.inlined, List.flatMap_assoc, Entry.inlined_inlined]

/-! ## Items -/

/-- What a single entry plays, if it is no use of a pattern. -/
def Entry.item? (defaults : Defaults) : Entry → Option Item
  | .note n => some (.tone (n.resolve defaults))
  | .hit h => some (.hit h)
  | .pattern _ => none
  | .meter m => some (.meter m)
  | .tempo bpm => some (.tempo bpm)
  | .bend b => some (.bend b)

section
variable {defaults : Defaults}

theorem PatternNote.entry_item? (note : PatternNote) :
    note.entry.item? defaults = some (note.play defaults []) := by
  cases note with
  | note note => rfl
  | hit hit => rfl

theorem PatternNote.play_withPause (note : PatternNote) {pause : List NoteValue}
    (written : pause.isEmpty = false) :
    (note.withPause pause).play defaults [] = note.play defaults pause := by
  cases note with
  | note note => simp [PatternNote.withPause, PatternNote.play, written, Note.resolve]
  | hit hit => simp [PatternNote.withPause, PatternNote.play, written]

/-- Notes play as they are but for the first one of the first copy. -/
theorem zipIdx_play (pause : List NoteValue) {repetition : Nat} (notes : List PatternNote)
    {start : Nat} (later : repetition ≠ 0 ∨ start ≠ 0) :
    (notes.zipIdx start).map (fun indexed =>
        indexed.1.play defaults (if repetition = 0 ∧ indexed.2 = 0 then pause else [])) =
      notes.map (·.play defaults []) := by
  induction notes generalizing start with
  | nil => rfl
  | cons note notes ih =>
      rw [List.zipIdx_cons, List.map_cons, List.map_cons, ih (Or.inr (Nat.succ_ne_zero start)),
        if_neg (by omega)]

section
variable (pattern : Pattern) (index : Nat) (pause : List NoteValue)

theorem Pattern.copy_items (repetition : Nat) :
    (pattern.copy defaults index pause repetition).map (·.item) =
      pattern.notes.zipIdx.map fun indexed =>
        indexed.1.play defaults (if repetition = 0 ∧ indexed.2 = 0 then pause else []) := by
  rw [Pattern.copy, List.map_map]
  rfl

/-- The first copy has the pause of the use on its first note. -/
theorem Pattern.copy_zero_items :
    (pattern.copy defaults index pause 0).map (·.item) =
      (if pause.isEmpty then pattern.notes
        else pattern.notes.modifyHead (·.withPause pause)).map (·.play defaults []) := by
  rw [Pattern.copy_items]
  cases pattern.notes with
  | nil => simp
  | cons first notes =>
      rw [List.zipIdx_cons, List.map_cons, zipIdx_play pause notes (Or.inr Nat.one_ne_zero)]
      cases written : pause.isEmpty with
      | true => simp [List.isEmpty_iff.mp written]
      | false => simp [PatternNote.play_withPause first written]

/-- The copies after the first play the notes as they are. -/
theorem Pattern.copy_succ_items (more : Nat) :
    ((List.range more).flatMap fun repetition =>
        pattern.copy defaults index pause (repetition + 1)).map (·.item) =
      (List.replicate more pattern.notes).flatten.map (·.play defaults []) := by
  induction more with
  | zero => rfl
  | succ more ih =>
      rw [List.range_succ, List.flatMap_append, List.map_append, ih, List.flatMap_singleton,
        Pattern.copy_items, zipIdx_play pause _ (Or.inl (Nat.succ_ne_zero more)),
        List.replicate_succ', List.flatten_append, List.flatten_singleton, List.map_append]

end

/-- All copies of a pattern play what its use stands for. -/
theorem PatternUse.copies_items (pattern : Pattern) (index : Nat) (use : PatternUse) :
    ((List.range use.count.toInt.toNat).flatMap (pattern.copy defaults index use.pause)).map
        (·.item) =
      (use.writtenOut pattern).map (·.play defaults []) := by
  unfold PatternUse.writtenOut
  cases use.count.toInt.toNat with
  | zero => simp
  | succ more =>
      rw [List.range_succ_eq_map, List.flatMap_cons, List.map_append, List.flatMap_map,
        Pattern.copy_zero_items, Pattern.copy_succ_items, List.replicate_succ, List.flatten_cons,
        ← List.map_append]
      -- a pattern without notes has no first one in any copy
      cases pattern.notes with
      | nil => simp
      | cons first notes =>
          cases use.pause.isEmpty with
          | true => rfl
          | false => rfl

end

section
variable {score : Score} {defaults : Defaults}

theorem Score.unrollEntry_items {index : Nat} {entry : Entry} {items : List Played}
    (unrolled : score.unrollEntry defaults index entry = .ok items) :
    items.map (·.item) = (entry.inlined score).filterMap (Entry.item? defaults) := by
  cases entry with
  | pattern use =>
      obtain ⟨pattern, declared, rfl⟩ := Score.unrollUse_eq_ok unrolled
      have single : Entry.item? defaults ∘ PatternNote.entry = some ∘ (·.play defaults []) :=
        funext PatternNote.entry_item?
      rw [PatternUse.copies_items]
      simp only [Entry.inlined, declared, List.filterMap_map, single, List.filterMap_eq_map]
  | note note => cases unrolled; rfl
  | hit hit => cases unrolled; rfl
  | meter meter => cases unrolled; rfl
  | tempo bpm => cases unrolled; rfl
  | bend bend => cases unrolled; rfl

/-- A track plays the items of its written-out entries. -/
theorem Score.unrollFrom_items {entries : List Entry} {index : Nat} {items : List Played}
    (unrolled : score.unrollFrom defaults index entries = .ok items) :
    items.map (·.item) =
      (entries.flatMap (Entry.inlined score)).filterMap (Entry.item? defaults) := by
  induction entries generalizing index items with
  | nil => cases unrolled; rfl
  | cons entry entries ih =>
      obtain ⟨first, firstItems, rest⟩ := bind_eq_ok.mp unrolled
      obtain ⟨others, otherItems, same⟩ := bind_eq_ok.mp rest
      cases same
      rw [List.map_append, List.flatMap_cons, List.filterMap_append, ih otherItems,
        Score.unrollEntry_items firstItems]

/-- A track can be unrolled if its patterns are declared and used at least once. -/
theorem Score.unroll_of_resolves (defaults : Defaults) {track : Track}
    (resolves : ∀ use, .pattern use ∈ track.entries →
      (score.pattern? use.pattern).isSome = true ∧ 0 < use.count.toInt) :
    ∃ items, score.unroll defaults track = .ok items := by
  cases result : score.unroll defaults track with
  | ok items => exact ⟨items, rfl⟩
  | error cause =>
      obtain ⟨index, entry, found, fails⟩ := Score.unrollFrom_eq_error result
      obtain ⟨use, rfl, ⟨undeclared, -⟩ | ⟨tooFew, -⟩⟩ := Score.unrollEntry_eq_error fails
      · have declared := (resolves use (List.mem_of_getElem? found)).1
        rw [undeclared] at declared
        cases declared
      · have positive := (resolves use (List.mem_of_getElem? found)).2
        omega

/-- Nothing is left to write out where all patterns are declared. -/
theorem Track.pattern_not_mem_inlined {track : Track}
    (declared : ∀ use, .pattern use ∈ track.entries → (score.pattern? use.pattern).isSome = true)
    (use : PatternUse) : .pattern use ∉ (track.inlined score).entries := by
  intro member
  obtain ⟨entry, entryMember, inside⟩ := List.mem_flatMap.mp member
  cases entry with
  | pattern other =>
      simp only [Entry.inlined] at inside
      split at inside
      next undeclared =>
        have found := declared other entryMember
        rw [undeclared] at found
        cases found
      next pattern _ =>
        obtain ⟨note, -, same⟩ := List.mem_map.mp inside
        cases note <;> cases same
  | note note => cases List.mem_singleton.mp inside
  | hit hit => cases List.mem_singleton.mp inside
  | meter meter => cases List.mem_singleton.mp inside
  | tempo bpm => cases List.mem_singleton.mp inside
  | bend bend => cases List.mem_singleton.mp inside

end

/-! ## Streams -/

/-- The origin that stands for any. -/
def nowhere : Origin := ⟨0, none⟩

/-- The finding without its origin. -/
def Finding.unplaced (finding : Finding) : Finding := finding.relabel fun _ => nowhere

/-- The stream of a track or its error, without origins. -/
def unplacedResult (result : Except TrackError CompiledTrack) : Except TrackError CompiledTrack :=
  (result.map (CompiledTrack.relabel fun _ => nowhere)).mapError
    (TrackError.relabel fun _ => nowhere)

theorem map_relabel_nowhere (items : List Played) :
    items.map (Played.relabel fun _ => nowhere) = (items.map (·.item)).map (Played.mk nowhere) := by
  rw [List.map_map]
  rfl

/-- Tracks that play the same items have the same stream but for origins. -/
theorem Score.unplaced_streamOf (score : Score) (track : Track) {items others : List Played}
    (same : items.map (·.item) = others.map (·.item)) :
    unplacedResult (score.streamOf track (group items)) =
      unplacedResult (score.streamOf track (group others)) := by
  unfold unplacedResult
  rw [← Score.streamOf_relabel, ← Score.streamOf_relabel, ← group_relabel, ← group_relabel,
    map_relabel_nowhere, map_relabel_nowhere, same]

/-- Results that agree without origins are both streams or both errors. -/
theorem cases_of_unplaced_eq {first second : Except TrackError CompiledTrack}
    (same : unplacedResult first = unplacedResult second) :
    (∃ stream other, first = .ok stream ∧ second = .ok other ∧
        stream.relabel (fun _ => nowhere) = other.relabel fun _ => nowhere) ∨
      ∃ cause other, first = .error cause ∧ second = .error other ∧
        cause.relabel (fun _ => nowhere) = other.relabel fun _ => nowhere := by
  cases first with
  | ok stream =>
      cases second with
      | ok other => exact Or.inl ⟨stream, other, rfl, rfl, Except.ok.inj same⟩
      | error other => cases same
  | error cause =>
      cases second with
      | ok other => cases same
      | error other => exact Or.inr ⟨cause, other, rfl, rfl, Except.error.inj same⟩

theorem Score.streamOf_eq_error {score : Score} {track : Track} {cues : List Cue}
    {cause : TrackError} (failed : score.streamOf track cues = .error cause) :
    ∃ origin delay available, cause = .longDelay origin delay available :=
  placeFrom_eq_error (map_eq_error.mp (map_eq_error.mp failed))

/-- A track whose patterns are all declared and used at least once, and the same track written
out.  Both have the same events and the same findings but for origins, or both fail with a delay
that is too long by the same amount. -/
theorem compileTrack_inlined {score : Score} {track : Track} (defaults : Defaults)
    (resolves : ∀ use, .pattern use ∈ track.entries →
      (score.pattern? use.pattern).isSome = true ∧ 0 < use.count.toInt) :
    (∃ stream writtenOut, score.compileTrack defaults track = .ok stream ∧
        score.compileTrack defaults (track.inlined score) = .ok writtenOut ∧
        writtenOut.name = stream.name ∧ writtenOut.kind = stream.kind ∧
        writtenOut.events = stream.events ∧
        writtenOut.findings.map Finding.unplaced = stream.findings.map Finding.unplaced) ∨
      ∃ origin place delay available,
        score.compileTrack defaults track = .error (.longDelay origin delay available) ∧
        score.compileTrack defaults (track.inlined score) =
          .error (.longDelay place delay available) := by
  obtain ⟨items, unrolled⟩ := Score.unroll_of_resolves defaults resolves
  obtain ⟨others, otherUnrolled⟩ : ∃ others,
      score.unroll defaults (track.inlined score) = .ok others := by
    refine Score.unroll_of_resolves defaults fun use member => absurd member ?_
    exact Track.pattern_not_mem_inlined (fun use inside => (resolves use inside).1) use
  have same : items.map (·.item) = others.map (·.item) := by
    rw [Score.unrollFrom_items unrolled, Score.unrollFrom_items otherUnrolled]
    exact congrArg (fun inlined : Track => inlined.entries.filterMap (Entry.item? defaults))
      (Track.inlined_inlined score track).symm
  -- the written-out track has the same name, instrument and prologue
  have unplaced : unplacedResult (score.streamOf track (group items)) =
      unplacedResult (score.streamOf (track.inlined score) (group others)) :=
    score.unplaced_streamOf track same
  rw [Score.compileTrack_of_unroll unrolled, Score.compileTrack_of_unroll otherUnrolled]
  rcases cases_of_unplaced_eq unplaced with
    ⟨stream, writtenOut, first, second, equal⟩ | ⟨cause, other, first, second, equal⟩
  · exact Or.inl ⟨stream, writtenOut, first, second, (congrArg CompiledTrack.name equal).symm,
      (congrArg CompiledTrack.kind equal).symm, (congrArg CompiledTrack.events equal).symm,
      (congrArg CompiledTrack.findings equal).symm⟩
  · obtain ⟨origin, delay, available, rfl⟩ := Score.streamOf_eq_error first
    obtain ⟨place, _, _, rfl⟩ := Score.streamOf_eq_error second
    cases equal
    exact Or.inr ⟨origin, place, delay, available, first, second⟩

/-- A hit and two copies of a fill that starts with a chord-marked hit.  It joins the hit before
the first copy, and in the second copy the last hit of the first. -/
def fillTrack : Track :=
  ⟨"drums", .drums, [.hit ⟨.ride, 100, [], []⟩, .pattern ⟨"fill", 2, [.quarter]⟩]⟩

/-- A score of the one track above and the pattern that it uses. -/
def fillScore (resolution : Resolution) : Score where
  name := "song"
  resolution := resolution
  patterns := [⟨"fill", [.hit ⟨.snare, 100, [.chord], []⟩, .hit ⟨.kick, 100, [], []⟩]⟩]
  tracks := [fillTrack]

theorem fillTrack_inlined :
    fillTrack.inlined (fillScore ⟨4, by decide, by decide⟩) =
        ⟨"drums", .drums, [.hit ⟨.ride, 100, [], []⟩, .hit ⟨.snare, 100, [.chord], [.quarter]⟩,
          .hit ⟨.kick, 100, [], []⟩, .hit ⟨.snare, 100, [.chord], []⟩,
          .hit ⟨.kick, 100, [], []⟩]⟩ ∧
      ∃ stream writtenOut,
        (fillScore ⟨4, by decide, by decide⟩).compileTrack {} fillTrack = .ok stream ∧
        (fillScore ⟨4, by decide, by decide⟩).compileTrack {}
          (fillTrack.inlined (fillScore ⟨4, by decide, by decide⟩)) = .ok writtenOut ∧
        writtenOut.events = stream.events := by
  refine ⟨by decide, ?_⟩
  have resolves : ∀ use, .pattern use ∈ fillTrack.entries →
      ((fillScore ⟨4, by decide, by decide⟩).pattern? use.pattern).isSome = true ∧
        0 < use.count.toInt := by
    intro use member
    simp only [fillTrack, List.mem_cons, reduceCtorEq, Entry.pattern.injEq, List.not_mem_nil,
      or_false, false_or] at member
    subst member
    decide
  rcases compileTrack_inlined {} resolves with
    ⟨stream, writtenOut, first, second, -, -, events, -⟩ | ⟨_, _, _, _, failed, -⟩
  · exact ⟨stream, writtenOut, first, second, events⟩
  · cases failed

end MidiScore
