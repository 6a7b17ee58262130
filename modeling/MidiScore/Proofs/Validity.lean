import MidiScore.Proofs.Provenance
import MidiScore.Validation

/-!
# Scores without errors

The report on a valid score holds warnings only.  So what a check would report as an error does
not occur: the condition of the check holds (`Fault.holds_of_warnings`).  The lemmas here go from
the report down to the head of the score, the notes of the patterns and the entries of the tracks.

The kind of a pattern is that of its first note, and an unmixed pattern has no note of another
kind.  Hence every note or hit that a valid track plays, written in the track or in a pattern, was
checked and is of the kind of the track (`Score.written_checked`).
-/

namespace MidiScore

/-- Whether no fault among some is an error. -/
def OnlyWarnings (faults : List Fault) : Prop := ∀ fault ∈ faults, fault.severity = .warning

/-- A check that is made without an error has its condition fulfilled. -/
theorem Fault.holds_of_warnings (fault : Fault) {condition : Bool}
    (warnings : OnlyWarnings (fault.unless condition)) (isError : fault.severity = .error) :
    condition = true := by
  cases condition with
  | true => rfl
  | false =>
      have warning := warnings fault (List.mem_singleton_self fault)
      rw [isError] at warning
      cases warning

theorem onlyWarnings_append {first second : List Fault} :
    OnlyWarnings (first ++ second) ↔ OnlyWarnings first ∧ OnlyWarnings second :=
  List.forall_mem_append

/-- The notes of an unmixed pattern are of one kind. -/
theorem Pattern.kind_eq_of_unmixed {pattern : Pattern} (unmixed : pattern.isMixed = false)
    {first second : PatternNote} (firstMember : first ∈ pattern.notes)
    (secondMember : second ∈ pattern.notes) : first.kind = second.kind := by
  have never : ∀ melodic ∈ pattern.notes, ∀ percussive ∈ pattern.notes,
      melodic.kind = .melodic → percussive.kind ≠ .percussive := by
    intro melodic melodicMember percussive percussiveMember isMelodic isPercussive
    have mixed : pattern.isMixed = true := by
      simp only [Pattern.isMixed, Bool.and_eq_true, List.any_eq_true, decide_eq_true_eq]
      exact ⟨⟨melodic, melodicMember, isMelodic⟩, percussive, percussiveMember, isPercussive⟩
    rw [unmixed] at mixed
    cases mixed
  cases firstKind : first.kind with
  | melodic =>
      cases secondKind : second.kind with
      | melodic => rfl
      | percussive =>
          exact absurd secondKind (never first firstMember second secondMember firstKind)
  | percussive =>
      cases secondKind : second.kind with
      | melodic =>
          exact absurd firstKind (never second secondMember first firstMember secondKind)
      | percussive => rfl

/-! ## From the report to its parts -/

theorem Report.severity_of_isOk {report : Report} (valid : report.isOk = true) {issue : Issue}
    (member : issue ∈ report.issues) : issue.severity = .warning := by
  cases severity : issue.severity with
  | warning => rfl
  | error =>
      have isError : issue ∈ report.errors :=
        List.mem_filter.mpr ⟨member, decide_eq_true severity⟩
      rw [List.isEmpty_iff.mp valid] at isError
      cases isError

/-- The faults of an entry are reported at its index. -/
theorem Score.mem_issues_of_entry {score : Score} {track : Track}
    (trackMember : track ∈ score.tracks) {index : Nat} {entry : Entry}
    (found : track.entries[index]? = some entry) {fault : Fault}
    (member : fault ∈ entry.faults score track.kind) :
    ⟨.track track.name (some index), fault⟩ ∈ score.validate.issues := by
  refine List.mem_append_right _ (List.mem_flatMap.mpr ⟨track, trackMember, ?_⟩)
  refine List.mem_append_right _ (List.mem_flatMap.mpr ⟨(entry, index), ?_, ?_⟩)
  · exact List.mem_zipIdx_iff_getElem?.mpr found
  · exact List.mem_map_of_mem member

/-- The faults of a note of a pattern are reported at its index. -/
theorem Score.mem_issues_of_patternNote {score : Score} {pattern : Pattern}
    (patternMember : pattern ∈ score.patterns) {note : PatternNote}
    (noteMember : note ∈ pattern.notes) {fault : Fault} (member : fault ∈ note.faults score) :
    ∃ index, ⟨.pattern pattern.name (some index), fault⟩ ∈ score.validate.issues := by
  obtain ⟨index, found⟩ := List.mem_iff_getElem?.mp noteMember
  refine ⟨index, List.mem_append_left _ (List.mem_append_right _ ?_)⟩
  refine List.mem_flatMap.mpr ⟨pattern, patternMember, ?_⟩
  refine List.mem_append_left _ (List.mem_append_right _ (List.mem_flatMap.mpr ?_))
  exact ⟨(note, index), List.mem_zipIdx_iff_getElem?.mpr found, List.mem_map_of_mem member⟩

/-- The entries of a valid score have warnings only. -/
theorem Score.entry_onlyWarnings {score : Score} (valid : score.validate.isOk = true)
    {track : Track} (trackMember : track ∈ score.tracks) {entry : Entry}
    (entryMember : entry ∈ track.entries) :
    OnlyWarnings (entry.faults score track.kind) := by
  intro fault member
  obtain ⟨index, found⟩ := List.mem_iff_getElem?.mp entryMember
  exact Report.severity_of_isOk valid (Score.mem_issues_of_entry trackMember found member)

section
variable {score : Score} (valid : score.validate.isOk = true)

include valid

theorem Score.head_onlyWarnings : OnlyWarnings score.headFaults := by
  intro fault member
  have issue : ⟨.score, fault⟩ ∈ score.validate.issues :=
    List.mem_append_left _ (List.mem_append_left _ (List.mem_map_of_mem member))
  exact Report.severity_of_isOk valid issue

theorem Score.instrument_onlyWarnings {track : Track} (member : track ∈ score.tracks) :
    OnlyWarnings track.instrument.faults := by
  intro fault inside
  have issue : ⟨.track track.name none, fault⟩ ∈ score.validate.issues := by
    refine List.mem_append_right _ (List.mem_flatMap.mpr ⟨track, member, ?_⟩)
    exact List.mem_append_left _ (List.mem_map_of_mem inside)
  exact Report.severity_of_isOk valid issue

theorem Score.pattern_issue_severity {pattern : Pattern} (member : pattern ∈ score.patterns)
    {issue : Issue} (inside : issue ∈ pattern.issues score) : issue.severity = .warning := by
  refine Report.severity_of_isOk valid (List.mem_append_left _ (List.mem_append_right _ ?_))
  exact List.mem_flatMap.mpr ⟨pattern, member, inside⟩

/-! ## Notes -/

/-- The notes of the patterns of a valid score have warnings only. -/
theorem Score.patternNote_onlyWarnings {pattern : Pattern} (member : pattern ∈ score.patterns)
    {note : PatternNote} (noteMember : note ∈ pattern.notes) :
    OnlyWarnings (note.faults score) := by
  intro fault inside
  obtain ⟨index, reported⟩ := Score.mem_issues_of_patternNote member noteMember inside
  exact Report.severity_of_isOk valid reported

/-- All notes of a pattern of a valid score are of its kind. -/
theorem Score.pattern_kind? {pattern : Pattern} (member : pattern ∈ score.patterns)
    {note : PatternNote} (noteMember : note ∈ pattern.notes) :
    pattern.kind? = some note.kind := by
  have unmixed : (!pattern.isMixed) = true := by
    refine Fault.holds_of_warnings .mixedPattern ?_ rfl
    intro fault inside
    have issue : ⟨.pattern pattern.name none, fault⟩ ∈ pattern.issues score :=
      List.mem_append_right _ (List.mem_map_of_mem inside)
    exact score.pattern_issue_severity valid member issue
  have first : ∀ other ∈ pattern.notes, other.kind = note.kind := fun other otherMember =>
    Pattern.kind_eq_of_unmixed (by simpa using unmixed) otherMember noteMember
  unfold Pattern.kind?
  cases written : pattern.notes with
  | nil => rw [written] at noteMember; cases noteMember
  | cons head notes =>
      rw [List.head?_cons, Option.map_some, first head (by simp [written])]

theorem Score.ownFaults_onlyWarnings {track : Track} (trackMember : track ∈ score.tracks)
    {entry : Entry} (entryMember : entry ∈ track.entries) :
    OnlyWarnings (entry.ownFaults score) :=
  (onlyWarnings_append.mp (score.entry_onlyWarnings valid trackMember entryMember)).1

/-- An entry that plays notes stands on a track of its kind. -/
theorem Score.entry_kind {track : Track} (trackMember : track ∈ score.tracks) {entry : Entry}
    (entryMember : entry ∈ track.entries) {kind : TrackKind}
    (belongs : entry.kind? score = some kind) : kind = track.kind := by
  have warnings := score.entry_onlyWarnings valid trackMember entryMember
  have fits := Fault.holds_of_warnings (.foreignNotes track.kind)
    (onlyWarnings_append.mp warnings).2 rfl
  rw [belongs, Option.all_some] at fits
  exact of_decide_eq_true fits

/-- What a valid track plays was checked and is of its kind. -/
theorem Score.written_checked {track : Track} (trackMember : track ∈ score.tracks)
    {origin : Origin} {written : PatternNote}
    (found : score.writtenAt? track origin = some written) :
    written.kind = track.kind ∧ OnlyWarnings (written.faults score) := by
  unfold Score.writtenAt? at found
  split at found
  next note there _ =>
    cases found
    have member := List.mem_of_getElem? there
    exact ⟨score.entry_kind valid trackMember member rfl,
      score.ownFaults_onlyWarnings valid trackMember member⟩
  next hit there _ =>
    cases found
    have member := List.mem_of_getElem? there
    exact ⟨score.entry_kind valid trackMember member rfl,
      score.ownFaults_onlyWarnings valid trackMember member⟩
  next use place there _ =>
    obtain ⟨declared, isDeclared, inside⟩ := Option.bind_eq_some_iff.mp found
    have patternMember := List.mem_of_find?_eq_some isDeclared
    have noteMember := List.mem_of_getElem? inside
    refine ⟨score.entry_kind valid trackMember (List.mem_of_getElem? there) ?_,
      score.patternNote_onlyWarnings valid patternMember noteMember⟩
    simp only [Entry.kind?, isDeclared, Option.bind_some]
    exact score.pattern_kind? valid patternMember noteMember
  next => cases found

end

/-- A bend of a valid score is written with a length. -/
theorem Score.bend_length_ne_nil {score : Score} (valid : score.validate.isOk = true)
    {track : Track} (trackMember : track ∈ score.tracks) {bend : Bend}
    (entryMember : .bend bend ∈ track.entries) :
    bend.length ≠ [] := by
  have warnings := score.ownFaults_onlyWarnings valid trackMember entryMember
  have written : (!bend.length.isEmpty) = true :=
    Fault.holds_of_warnings .bendLength (onlyWarnings_append.mp warnings).2 rfl
  simpa using written

end MidiScore
