import MidiScore.Compile
import MidiScore.Proofs.Validity

/-!
# Fallbacks and warnings

A fallback completes the notes that leave out an octave or a note value which the score does not
declare either.  Validation warns of each such note, be it in a track or in a pattern, used or not.

*Warnings.*  A score without warnings has every note completed by the note itself or by the score
(`Note.resolve_defaults`), octave and note value each on its own.

*Compilation.*  Defaults are read by `Note.resolve` and by nothing else.  So defaults that complete
all notes alike (`Score.CompletedAlike`) unroll every entry alike, and hence compile the score to
the same answer, be it the streams or the error.
-/

namespace MidiScore

/-! ## Defaults that make no difference -/

/-- Two defaults complete all notes of a score alike, those of its tracks and of its patterns. -/
structure Score.CompletedAlike (score : Score) (first second : Defaults) : Prop where
  tracks : ∀ track ∈ score.tracks, ∀ note, .note note ∈ track.entries →
    note.resolve first = note.resolve second
  patterns : ∀ pattern ∈ score.patterns, ∀ note, .note note ∈ pattern.notes →
    note.resolve first = note.resolve second

section
variable {score : Score} {first second : Defaults}

theorem Pattern.copy_congr {pattern : Pattern}
    (alike : ∀ note, .note note ∈ pattern.notes → note.resolve first = note.resolve second)
    (index : Nat) (pause : List NoteValue) (repetition : Nat) :
    pattern.copy first index pause repetition = pattern.copy second index pause repetition := by
  refine List.map_congr_left ?_
  rintro ⟨note, position⟩ member
  cases note with
  | note note =>
      have same := alike note (List.fst_mem_of_mem_zipIdx member)
      simp only [PatternNote.play, same]
  | hit hit => rfl

section
variable (alike : score.CompletedAlike first second)

include alike

/-- A pattern is played alike if its notes are completed alike. -/
theorem Score.CompletedAlike.unrollUse (index : Nat) (use : PatternUse) :
    score.unrollUse first index use = score.unrollUse second index use := by
  unfold Score.unrollUse
  cases declared : score.pattern? use.pattern with
  | none => rfl
  | some pattern =>
      have copies : pattern.copy first index use.pause = pattern.copy second index use.pause :=
        funext (Pattern.copy_congr (alike.patterns pattern (List.mem_of_find?_eq_some declared))
          index use.pause)
      simp only [copies]

theorem Score.CompletedAlike.unrollEntry {track : Track} (trackMember : track ∈ score.tracks)
    {entry : Entry} (entryMember : entry ∈ track.entries) (index : Nat) :
    score.unrollEntry first index entry = score.unrollEntry second index entry := by
  cases entry with
  | note note => simp only [Score.unrollEntry, alike.tracks track trackMember note entryMember]
  | pattern use => exact alike.unrollUse index use
  | hit hit => rfl
  | meter meter => rfl
  | tempo bpm => rfl
  | bend bend => rfl

/-- So a whole track is compiled alike, or fails alike. -/
theorem Score.CompletedAlike.compileTrack {track : Track} (trackMember : track ∈ score.tracks) :
    score.compileTrack first track = score.compileTrack second track := by
  have run : ∀ (entries : List Entry) (index : Nat), (∀ entry ∈ entries, entry ∈ track.entries) →
      score.unrollFrom first index entries = score.unrollFrom second index entries := by
    intro entries
    induction entries with
    | nil => exact fun _ _ => rfl
    | cons entry entries ih =>
        intro index inside
        rw [Score.unrollFrom, Score.unrollFrom,
          alike.unrollEntry trackMember (inside entry (List.mem_cons_self ..)),
          ih _ fun later member => inside later (List.mem_cons_of_mem _ member)]
  have expanded : score.expand first track = score.expand second track :=
    congrArg (Except.map group) (run track.entries 0 fun _ member => member)
  rw [Score.compileTrack, Score.compileTrack, expanded]

end

end

/-! ## Scores without warnings -/

theorem Fault.holds_of_notMem (fault : Fault) {condition : Bool}
    (absent : fault ∉ fault.unless condition) : condition = true := by
  cases condition with
  | true => rfl
  | false => exact absurd (List.mem_singleton_self fault) absent

/-- A note that causes no warning needs no fallback. -/
theorem Note.resolve_defaults {score : Score} {note : Note}
    (hasOctave : .missingOctave ∉ note.faults score)
    (hasValue : .missingValue ∉ note.faults score) (first second : Defaults) :
    note.resolve (score.defaults first) = note.resolve (score.defaults second) := by
  have octave : note.octave.getD (score.defaults first).octave =
      note.octave.getD (score.defaults second).octave := by
    cases written : note.octave with
    | some octave => rfl
    | none =>
        have declared : score.octave.isSome = true := by
          apply Fault.holds_of_notMem .missingOctave
          simp only [Note.faults, Note.octaveFaults, written, List.mem_append] at hasOctave
          tauto
        obtain ⟨octave, same⟩ := Option.isSome_iff_exists.mp declared
        simp [Score.defaults, same]
  have value : note.value.getD (score.defaults first).value =
      note.value.getD (score.defaults second).value := by
    have declared : (note.value.isSome || score.value.isSome) = true := by
      apply Fault.holds_of_notMem .missingValue
      simp only [Note.faults, Note.valueFaults, List.mem_append] at hasValue
      tauto
    cases written : note.value with
    | some value => rfl
    | none =>
        rw [written] at declared
        obtain ⟨value, same⟩ := Option.isSome_iff_exists.mp declared
        simp [Score.defaults, same]
  rw [Note.resolve, Note.resolve, octave, value]

theorem Report.severity_of_warnings_nil {report : Report} (silent : report.warnings = [])
    {issue : Issue} (member : issue ∈ report.issues) : issue.severity ≠ .warning := by
  intro warning
  have found : issue ∈ report.warnings := List.mem_filter.mpr ⟨member, decide_eq_true warning⟩
  rw [silent] at found
  cases found

/-- Any two fallbacks complete the notes of a score without warnings alike. -/
theorem Score.completedAlike_of_silent {score : Score} (silent : score.validate.warnings = [])
    (first second : Defaults) :
    score.CompletedAlike (score.defaults first) (score.defaults second) where
  tracks := by
    intro track trackMember note member
    obtain ⟨index, found⟩ := List.mem_iff_getElem?.mp member
    have absent : ∀ fault, fault.severity = .warning → fault ∉ note.faults score := by
      intro fault warning inside
      exact Report.severity_of_warnings_nil silent
        (Score.mem_issues_of_entry trackMember found (List.mem_append_left _ inside)) warning
    exact Note.resolve_defaults (absent _ rfl) (absent _ rfl) first second
  patterns := by
    intro pattern patternMember note member
    have absent : ∀ fault, fault.severity = .warning → fault ∉ note.faults score := by
      intro fault warning inside
      obtain ⟨index, reported⟩ := Score.mem_issues_of_patternNote patternMember member inside
      exact Report.severity_of_warnings_nil silent reported warning
    exact Note.resolve_defaults (absent _ rfl) (absent _ rfl) first second

/-- A score without warnings compiles to the same answer with any two fallbacks, also where it has
errors and compilation fails. -/
theorem compile_ignores_fallback {score : Score} (silent : score.validate.warnings = [])
    (first second : Defaults) : score.compile first = score.compile second := by
  have alike := Score.completedAlike_of_silent silent first second
  have tracks : score.tracks.mapM (fun track =>
        track.blame (score.compileTrack (score.defaults first) track)) =
      score.tracks.mapM fun track =>
        track.blame (score.compileTrack (score.defaults second) track) := by
    refine mapM_congr ?_
    intro track member
    rw [alike.compileTrack member]
  rw [Score.compile, Score.compile, tracks]

/-- The score declares an octave but no note value, and every note has a value of its own.  A
pattern is declared twice and the second track waits too long, so there are errors but no
warnings. -/
def pinnedScore (resolution : Resolution) : Score where
  name := "song"
  resolution := resolution
  octave := some 4
  patterns :=
    [⟨"riff", [.note ⟨.c, none, some .quarter, 100, [], []⟩]⟩,
      ⟨"riff", [.note ⟨.d, some 3, some .quarter, 100, [], []⟩]⟩]
  tracks :=
    [⟨"lead", .program 0, [.pattern ⟨"riff", 2, []⟩,
        .note ⟨.e, some 2, some .quarter, 100, [], []⟩]⟩,
      ⟨"echo", .program 0, [.pattern ⟨"riff", 1, []⟩,
        .note ⟨.e, none, some .quarter, 100, [⟨.half, .plain⟩], []⟩]⟩]

theorem pinnedScore_refused :
    (pinnedScore ⟨4, by decide, by decide⟩).validate.warnings = [] ∧
      (pinnedScore ⟨4, by decide, by decide⟩).validate.errors ≠ [] ∧
      (pinnedScore ⟨4, by decide, by decide⟩).compile ⟨-1, .chord⟩ =
        .error ⟨"echo", .longDelay ⟨1, none⟩ (.ofSub 768) (.ofSub 384)⟩ := by
  have silent : (pinnedScore ⟨4, by decide, by decide⟩).validate.warnings = [] := rfl
  refine ⟨silent, List.cons_ne_nil _ _, ?_⟩
  exact (compile_ignores_fallback silent ⟨-1, .chord⟩ {}).trans rfl

end MidiScore
