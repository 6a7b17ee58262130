import MidiScore.Compile
import MidiScore.Proofs.Placement
import MidiScore.Proofs.Success
import MidiScore.Proofs.Validity

/-!
# Where compilation fails

A track fails in expansion or in placement.

*Expansion* fails at the use of a pattern that the score does not declare, or that is played zero
times or less.  The error names the index of that entry.  Validation walks the same entries with
the same indices, so it reports an error at the same place (`Score.mem_errors_of_expand`).

*Placement* fails with a delay that is too long and with nothing else.  Validation does not look
at times, so this is what is left of a score without errors.
-/

namespace MidiScore

section
variable {score : Score} {defaults : Defaults} {cause : TrackError}

/-! ## Expansion -/

/-- The only entry that cannot be played is the use of a pattern. -/
theorem Score.unrollEntry_eq_error {index : Nat} {entry : Entry}
    (failed : score.unrollEntry defaults index entry = .error cause) :
    ∃ use, entry = .pattern use ∧
      (score.pattern? use.pattern = none ∧ cause = .undeclaredPattern use.pattern ⟨index, none⟩ ∨
        use.count.toInt ≤ 0 ∧ cause = .repeatCount use.pattern use.count ⟨index, none⟩) := by
  cases entry with
  | pattern use =>
      refine ⟨use, rfl, ?_⟩
      simp only [Score.unrollEntry, Score.unrollUse] at failed
      split at failed
      next undeclared =>
        cases failed
        exact Or.inl ⟨undeclared, rfl⟩
      next declared _ =>
        split at failed
        next tooFew =>
          cases failed
          exact Or.inr ⟨tooFew, rfl⟩
        next => split at failed <;> cases failed
  | note note => cases failed
  | hit hit => cases failed
  | meter meter => cases failed
  | tempo bpm => cases failed
  | bend bend => cases failed

theorem Score.unrollFrom_eq_error {entries : List Entry} {index : Nat}
    (failed : score.unrollFrom defaults index entries = .error cause) :
    ∃ offset entry, entries[offset]? = some entry ∧
      score.unrollEntry defaults (index + offset) entry = .error cause := by
  induction entries generalizing index with
  | nil => cases failed
  | cons entry entries ih =>
      rcases bind_eq_error.mp failed with here | ⟨first, -, rest⟩
      · exact ⟨0, entry, rfl, here⟩
      · rcases bind_eq_error.mp rest with later | ⟨others, -, done⟩
        · obtain ⟨offset, found, there, fails⟩ := ih later
          refine ⟨offset + 1, found, there, ?_⟩
          rwa [Nat.add_assoc, Nat.add_comm 1 offset] at fails
        · cases done

/-- The issue that a validation finds where expansion fails. -/
def TrackError.issue? (track : String) : TrackError → Option Issue
  | .undeclaredPattern pattern origin =>
    some ⟨.track track (some origin.entry), .undeclaredPattern pattern⟩
  | .repeatCount pattern count origin =>
    some ⟨.track track (some origin.entry), .repeatCount count pattern⟩
  | .longDelay _ _ _ => none

/-- Where a track cannot be expanded validation reports an error. -/
theorem Score.mem_errors_of_expand {track : Track} (member : track ∈ score.tracks)
    (failed : score.expand defaults track = .error cause) :
    ∃ issue ∈ score.validate.errors, cause.issue? track.name = some issue := by
  obtain ⟨index, entry, found, fails⟩ := Score.unrollFrom_eq_error (map_eq_error.mp failed)
  rw [Nat.zero_add] at fails
  have reported : ∀ fault ∈ entry.faults score track.kind, fault.severity = .error →
      ⟨.track track.name (some index), fault⟩ ∈ score.validate.errors := by
    intro fault inside isError
    exact List.mem_filter.mpr
      ⟨Score.mem_issues_of_entry member found inside, decide_eq_true isError⟩
  obtain ⟨use, rfl, ⟨undeclared, rfl⟩ | ⟨tooFew, rfl⟩⟩ := Score.unrollEntry_eq_error fails
  · refine ⟨_, reported (.undeclaredPattern use.pattern) ?_ rfl, rfl⟩
    simp [Entry.faults, Entry.ownFaults, PatternUse.faults, Fault.unless, undeclared]
  · refine ⟨_, reported (.repeatCount use.count use.pattern) ?_ rfl, rfl⟩
    simp [Entry.faults, Entry.ownFaults, PatternUse.faults, Fault.unless, tooFew]

/-! ## Placement -/

theorem placeFrom_eq_error {resolution : Resolution} {cues : List Cue} {previous : Option Span}
    (failed : placeFrom resolution previous cues = .error cause) :
    ∃ origin delay available, cause = .longDelay origin delay available := by
  induction cues generalizing previous with
  | nil => cases failed
  | cons cue cues ih =>
      rcases placeFrom_cons_error failed with ⟨-, later⟩ |
        ⟨_, _, _, -, ⟨_, -, refused⟩ | ⟨_, -, later⟩⟩
      · exact ih later
      · exact ⟨_, _, _, refused⟩
      · exact ih later

/-! ## Tracks and scores -/

/-- A track fails in expansion, or with a delay that is too long. -/
theorem Score.compileTrack_eq_error {track : Track}
    (failed : score.compileTrack defaults track = .error cause) :
    score.expand defaults track = .error cause ∨
      ∃ origin delay available, cause = .longDelay origin delay available := by
  rcases bind_eq_error.mp failed with expansion | ⟨cues, -, rest⟩
  · exact Or.inl expansion
  · rcases bind_eq_error.mp rest with placement | ⟨timeline, -, done⟩
    · exact Or.inr (placeFrom_eq_error (map_eq_error.mp placement))
    · cases done

theorem Score.compile_eq_error {fallback : Defaults} {error : CompileError}
    (failed : score.compile fallback = .error error) :
    ∃ track ∈ score.tracks, error.track = track.name ∧
      score.compileTrack (score.defaults fallback) track = .error error.cause := by
  rcases bind_eq_error.mp failed with inTrack | ⟨tracks, -, done⟩
  · obtain ⟨track, member, blamed⟩ := exists_of_mapM_eq_error inTrack
    refine ⟨track, member, ?_⟩
    unfold Track.blame at blamed
    cases result : score.compileTrack (score.defaults fallback) track with
    | error cause => rw [result] at blamed; cases blamed; exact ⟨rfl, rfl⟩
    | ok stream => rw [result] at blamed; cases blamed
  · cases done

/-- An error of expansion is reported by validation as an error at its entry. -/
theorem Score.mem_errors_of_compile {fallback : Defaults} {error : CompileError} {issue : Issue}
    (failed : score.compile fallback = .error error)
    (issued : error.cause.issue? error.track = some issue) : issue ∈ score.validate.errors := by
  obtain ⟨track, member, named, fails⟩ := Score.compile_eq_error failed
  rcases Score.compileTrack_eq_error fails with expansion | ⟨_, _, _, late⟩
  · obtain ⟨found, reported, same⟩ := Score.mem_errors_of_expand member expansion
    rw [named, same] at issued
    cases issued
    exact reported
  · rw [late] at issued
    cases issued

/-- Every track of a score without errors can be expanded. -/
theorem Score.expand_of_isOk (valid : score.validate.isOk = true) {track : Track}
    (member : track ∈ score.tracks) (defaults : Defaults) :
    ∃ cues, score.expand defaults track = .ok cues := by
  cases expansion : score.expand defaults track with
  | ok cues => exact ⟨cues, rfl⟩
  | error cause =>
      obtain ⟨issue, reported, -⟩ := Score.mem_errors_of_expand member expansion
      rw [List.isEmpty_iff.mp valid] at reported
      cases reported

end

/-- Compilation fails at the use of a pattern only where validation reports the same as an error,
at the same entry of a track of the same name.  So every track of a score without errors can be
expanded, and the score compiles unless a delay is too long. -/
theorem compile_error_reported (score : Score) (fallback : Defaults) :
    (∀ name pattern origin,
        score.compile fallback = .error ⟨name, .undeclaredPattern pattern origin⟩ →
        ⟨.track name (some origin.entry), .undeclaredPattern pattern⟩ ∈ score.validate.errors) ∧
      (∀ name pattern count origin,
        score.compile fallback = .error ⟨name, .repeatCount pattern count origin⟩ →
        ⟨.track name (some origin.entry), .repeatCount count pattern⟩ ∈ score.validate.errors) ∧
      (score.validate.isOk = true →
        (∀ track ∈ score.tracks, ∃ cues,
          score.expand (score.defaults fallback) track = .ok cues) ∧
        ((∃ compiled, score.compile fallback = .ok compiled) ∨
          ∃ name origin delay available,
            score.compile fallback = .error ⟨name, .longDelay origin delay available⟩)) := by
  refine ⟨fun _ _ _ failed => Score.mem_errors_of_compile failed rfl,
    fun _ _ _ _ failed => Score.mem_errors_of_compile failed rfl, ?_⟩
  intro valid
  refine ⟨fun track member => Score.expand_of_isOk valid member _, ?_⟩
  cases result : score.compile fallback with
  | ok compiled => exact Or.inl ⟨compiled, rfl⟩
  | error error =>
      obtain ⟨track, member, -, fails⟩ := Score.compile_eq_error result
      rcases Score.compileTrack_eq_error fails with expansion | ⟨origin, delay, available, late⟩
      · obtain ⟨cues, expands⟩ := Score.expand_of_isOk valid member (score.defaults fallback)
        rw [expands] at expansion
        cases expansion
      · refine Or.inr ⟨error.track, origin, delay, available, ?_⟩
        rw [← late]

/-- Two tracks of one name.  The second plays a declared pattern, and another one that is not. -/
def strayUse (resolution : Resolution) : Score where
  name := "song"
  resolution := resolution
  patterns := [⟨"riff", [.note ⟨.c, some 4, some .quarter, 100, [], []⟩]⟩]
  tracks :=
    [⟨"lead", .program 0, [.pattern ⟨"riff", 2, []⟩]⟩,
      ⟨"lead", .program 0, [.pattern ⟨"riff", 1, []⟩, .pattern ⟨"solo", 0, []⟩]⟩]

theorem strayUse_reported :
    (strayUse ⟨4, by decide, by decide⟩).compile {} =
        .error ⟨"lead", .undeclaredPattern "solo" ⟨1, none⟩⟩ ∧
      ⟨.track "lead" (some 1), .undeclaredPattern "solo"⟩ ∈
        (strayUse ⟨4, by decide, by decide⟩).validate.errors := by
  have failed : (strayUse ⟨4, by decide, by decide⟩).compile {} =
      .error ⟨"lead", .undeclaredPattern "solo" ⟨1, none⟩⟩ := rfl
  exact ⟨failed, (compile_error_reported _ {}).1 _ _ _ failed⟩

end MidiScore
