import MidiScore.Proofs.Layout
import MidiScore.Proofs.Validity

/-!
# Delays and pauses together

A note counts from the start of what sounds before it by its delay, or from the end by its pause.
Validation refuses a note that is written with both.  The pause of the use of a pattern is not
written with a note: it replaces that of the first one, which keeps its delay, and no check looks at
the two together.

*Where both come from.*  A cue of a valid score has a delay and a pause exactly if it is the first
note of a use with a pause, written with a delay (`Score.PausesDelayed`).  One entry plays such an
item there and nowhere else (`Entry.Plays.both_iff`).  A hit that joins a group does not count,
since the leader of the group decides.

*Waits.*  Placement leaves the pause aside if there is a delay, and the wait of an event is the sum
of the two.  So the wait is the distance from the time that the start counts from, except for these
cues, where it is too long by the pause.
-/

namespace MidiScore

/-! ## Written delays and pauses -/

/-- The delay of a note of a pattern. -/
def PatternNote.delay : PatternNote → List NoteValue
  | .note n => n.delay
  | .hit h => h.delay

/-- The pause of a note of a pattern. -/
def PatternNote.pause : PatternNote → List NoteValue
  | .note n => n.pause
  | .hit h => h.pause

/-- The delay of an item. -/
def Item.delay : Item → List NoteValue
  | .tone t => t.delay
  | .hit h => h.delay
  | .bend b => b.delay
  | .meter _ => []
  | .tempo _ => []

/-- The pause of an item. -/
def Item.pause : Item → List NoteValue
  | .tone t => t.pause
  | .hit h => h.pause
  | .bend _ => []
  | .meter _ => []
  | .tempo _ => []

theorem Cue.lead_delay (cue : Cue) : cue.lead.delay = cue.delay := by
  obtain ⟨origin, action⟩ := cue
  cases action <;> rfl

theorem Cue.lead_pause (cue : Cue) : cue.lead.pause = cue.pause := by
  obtain ⟨origin, action⟩ := cue
  cases action <;> rfl

section
variable (defaults : Defaults) (pause : List NoteValue) (note : PatternNote)

theorem PatternNote.play_delay : (note.play defaults pause).delay = note.delay := by
  cases note with
  | note note =>
      simp only [PatternNote.play]
      split <;> rfl
  | hit hit =>
      simp only [PatternNote.play]
      split <;> rfl

/-- A pause that is not empty takes the place of the note's own. -/
theorem PatternNote.play_pause :
    (note.play defaults pause).pause = if pause = [] then note.pause else pause := by
  cases note with
  | note note =>
      simp only [PatternNote.play, List.isEmpty_iff]
      split <;> rfl
  | hit hit =>
      simp only [PatternNote.play, List.isEmpty_iff]
      split <;> rfl

end

/-! ## Valid notes -/

theorem nil_or_nil_of_warnings {delay pause : List NoteValue}
    (warnings : OnlyWarnings (placementFaults delay pause)) : delay = [] ∨ pause = [] := by
  have apart := Fault.holds_of_warnings .delayAndPause warnings rfl
  simpa using apart

/-- A note or hit of a valid score is not written with both. -/
theorem PatternNote.nil_or_nil {score : Score} {note : PatternNote}
    (warnings : OnlyWarnings (note.faults score)) : note.delay = [] ∨ note.pause = [] := by
  cases note with
  | note note =>
      simp only [PatternNote.faults, Note.faults, onlyWarnings_append] at warnings
      exact nil_or_nil_of_warnings warnings.2
  | hit hit =>
      simp only [PatternNote.faults, Hit.faults, onlyWarnings_append] at warnings
      exact nil_or_nil_of_warnings warnings.2

/-! ## Where both come from -/

/-- Whether a place of a track is the very first note of the use of a pattern, where the pause of
the use comes to a delay. -/
def Score.PausesDelayed (score : Score) (track : Track) (origin : Origin) : Prop :=
  ∃ use declared note, track.entries[origin.entry]? = some (.pattern use) ∧ use.pause ≠ [] ∧
    score.pattern? use.pattern = some declared ∧ declared.notes[0]? = some note ∧
    note.delay ≠ [] ∧ origin.pattern = some ⟨declared.name, 0, 0⟩

section
variable {score : Score} (valid : score.validate.isOk = true) {defaults : Defaults} {track : Track}
  (trackMember : track ∈ score.tracks)

include valid trackMember

/-- What an entry of a valid track plays has both exactly at the first note of a use with a
pause. -/
theorem Entry.Plays.both_iff {entry : Entry} {index : Nat} {played : Played}
    (plays : entry.Plays score defaults index played)
    (found : track.entries[index]? = some entry) :
    played.item.delay ≠ [] ∧ played.item.pause ≠ [] ↔
      score.PausesDelayed track played.origin := by
  -- only the use of a pattern has places inside it
  have direct : ∀ item : Item, item.delay = [] ∨ item.pause = [] →
      (item.delay ≠ [] ∧ item.pause ≠ [] ↔ score.PausesDelayed track ⟨index, none⟩) := by
    intro item apart
    constructor
    · rintro ⟨delayed, paused⟩
      rcases apart with none | none
      · exact absurd none delayed
      · exact absurd none paused
    · rintro ⟨_, _, _, -, -, -, -, -, inside⟩
      cases inside
  have member := List.mem_of_getElem? found
  have warnings := score.ownFaults_onlyWarnings valid trackMember member
  cases entry with
  | note note =>
      cases plays
      exact direct _ (@PatternNote.nil_or_nil score (.note note) warnings)
  | hit hit =>
      cases plays
      exact direct _ (@PatternNote.nil_or_nil score (.hit hit) warnings)
  | meter meter => cases plays; exact direct _ (Or.inl rfl)
  | tempo bpm => cases plays; exact direct _ (Or.inl rfl)
  | bend bend => cases plays; exact direct _ (Or.inr rfl)
  | pattern use =>
      obtain ⟨declared, isDeclared, repetition, -, position, note, there, rfl⟩ := plays
      have apart := PatternNote.nil_or_nil (score.patternNote_onlyWarnings valid
        (List.mem_of_find?_eq_some isDeclared) (List.mem_of_getElem? there))
      simp only [PatternNote.play_delay, PatternNote.play_pause]
      constructor
      · rintro ⟨delayed, paused⟩
        have unpaused := apart.resolve_left delayed
        by_cases first : repetition = 0 ∧ position = 0
        · rw [if_pos first] at paused
          obtain ⟨rfl, rfl⟩ := first
          have given : use.pause ≠ [] := by
            intro none
            rw [if_pos none] at paused
            exact paused unpaused
          exact ⟨use, declared, note, found, given, isDeclared, there, delayed, rfl⟩
        · rw [if_neg first, if_pos rfl] at paused
          exact absurd unpaused paused
      · rintro ⟨other, otherDeclared, head, isUse, paused, otherIsDeclared, isHead, delayed, place⟩
        cases found.symm.trans isUse
        cases isDeclared.symm.trans otherIsDeclared
        have first : repetition = 0 ∧ position = 0 := by
          cases place
          exact ⟨rfl, rfl⟩
        rw [first.2] at there
        cases there.symm.trans isHead
        rw [if_pos first, if_neg paused]
        exact ⟨delayed, paused⟩

theorem Score.cue_both_iff {cues : List Cue} (expanded : score.expand defaults track = .ok cues)
    {cue : Cue} (member : cue ∈ cues) :
    cue.delay ≠ [] ∧ cue.pause ≠ [] ↔ score.PausesDelayed track cue.origin := by
  obtain ⟨items, unrolled, rfl⟩ := map_eq_ok.mp expanded
  obtain ⟨index, entry, found, plays⟩ :=
    getElem?_of_mem_unrollFrom unrolled (mem_group member).lead_mem
  rw [Nat.zero_add] at plays
  rw [← cue.lead_delay, ← cue.lead_pause]
  exact plays.both_iff valid trackMember found

end

/-! ## Waits -/

/-- The time that a sounding cue counts from: the last start if it has a delay, or else the last
end. -/
def Cue.reference (cue : Cue) (last : Option Span) : Ticks :=
  if cue.delay = [] then (last.getD {}).stop else (last.getD {}).start

/-- A sounding cue starts its wait after its reference, but for a pause beside a delay. -/
theorem Cue.StartsAfter.reference {resolution : Resolution} {cue : Cue} {last : Option Span}
    {start : Ticks} (starts : cue.StartsAfter resolution last start)
    (sounding : cue.isSounding = true) (small : cue.extent resolution < 2 ^ 63) :
    (cue.delay ≠ [] ∧ cue.pause ≠ [] →
        start.sub + NoteValue.exactSum resolution cue.pause =
          (cue.reference last).sub + (cue.wait resolution).sub) ∧
      (¬(cue.delay ≠ [] ∧ cue.pause ≠ []) →
        start.sub = (cue.reference last).sub + (cue.wait resolution).sub) := by
  have wait := Cue.wait_sub small
  unfold Cue.extent at small
  rw [Cue.StartsAfter, if_pos sounding] at starts
  rw [wait, Cue.reference]
  by_cases delayed : cue.delay = []
  · rw [if_pos delayed, NoteValue.sumTicks_sub (by omega)] at starts
    have none : NoteValue.exactSum resolution cue.delay = 0 := by rw [delayed]; rfl
    rw [if_pos delayed]
    refine ⟨fun both => absurd delayed both.1, fun _ => ?_⟩
    omega
  · rw [if_neg delayed, NoteValue.sumTicks_sub (by omega)] at starts
    rw [if_neg delayed]
    refine ⟨fun _ => by omega, fun single => ?_⟩
    have unpaused : cue.pause = [] := by
      by_contra paused
      exact single ⟨delayed, paused⟩
    have none : NoteValue.exactSum resolution cue.pause = 0 := by rw [unpaused]; rfl
    omega

/-- The cues of a valid track.  A cue has a delay and a pause if and only if it is the first note of
the use of a pattern with a pause, and that note is written with a delay.  In a timeline of the
track the wait of every other sounding cue is the distance from the time that its start counts from;
the wait of such a cue is longer by its pause. -/
theorem expand_both_iff {score : Score} (valid : score.validate.isOk = true) {defaults : Defaults}
    {track : Track} (trackMember : track ∈ score.tracks) {cues : List Cue}
    (expanded : score.expand defaults track = .ok cues) :
    (∀ cue ∈ cues, cue.delay ≠ [] ∧ cue.pause ≠ [] ↔ score.PausesDelayed track cue.origin) ∧
      ∀ timeline, Timeline.ofCues score.resolution cues = .ok timeline →
        extent score.resolution cues < 2 ^ 63 - 1 →
        ∀ index cue, cues[index]? = some cue → cue.isSounding = true →
          ∃ start, tickOf? timeline.begins index = some start ∧
            (score.PausesDelayed track cue.origin →
              start.sub + NoteValue.exactSum score.resolution cue.pause =
                (cue.reference (timeline.spanBefore? cues index)).sub +
                  (cue.wait score.resolution).sub) ∧
            (¬score.PausesDelayed track cue.origin →
              start.sub = (cue.reference (timeline.spanBefore? cues index)).sub +
                (cue.wait score.resolution).sub) := by
  have both : ∀ cue ∈ cues, cue.delay ≠ [] ∧ cue.pause ≠ [] ↔
      score.PausesDelayed track cue.origin :=
    fun cue member => score.cue_both_iff valid trackMember expanded member
  refine ⟨both, ?_⟩
  intro timeline built small index cue found sounding
  obtain ⟨placements, placed, rfl⟩ := Timeline.ofCues_eq_ok.mp built
  have member := List.mem_of_getElem? found
  have short := extent_le_of_mem score.resolution member
  obtain ⟨start, begins, starts⟩ := (Timeline.laysOut small placed).starts index cue found
  refine ⟨start, begins, ?_⟩
  rw [← both cue member]
  exact starts.reference sounding (by omega)

/-- A half note, and two copies of an echo, with a pause before the first. -/
def echoTrack : Track :=
  ⟨"lead", .program 0, [.note ⟨.c, some 4, some ⟨.half, .plain⟩, 100, [], []⟩,
    .pattern ⟨"echo", 2, [⟨.eighth, .plain⟩]⟩]⟩

/-- The echo enters a quarter after the start of what sounds. -/
def echoScore (resolution : Resolution) : Score where
  name := "song"
  resolution := resolution
  patterns := [⟨"echo", [.note ⟨.e, some 4, some .quarter, 100, [.quarter], []⟩]⟩]
  tracks := [echoTrack]

/-- The cues of the echo. -/
def echoCues : List Cue :=
  [⟨⟨0, none⟩, .tone ⟨.c, 4, ⟨.half, .plain⟩, 100, [], []⟩⟩,
    ⟨⟨1, some ⟨"echo", 0, 0⟩⟩, .tone ⟨.e, 4, .quarter, 100, [.quarter], [⟨.eighth, .plain⟩]⟩⟩,
    ⟨⟨1, some ⟨"echo", 1, 0⟩⟩, .tone ⟨.e, 4, .quarter, 100, [.quarter], []⟩⟩]

/-- The marks of the echo.  The pause has no effect. -/
def echoMarks : Timeline where
  begins := [⟨0, 0, 0⟩, ⟨.ofSub 384, 1, 1⟩, ⟨.ofSub 768, 2, 2⟩]
  ends := [⟨.ofSub 768, 0, 0⟩, ⟨.ofSub 768, 1, 1⟩, ⟨.ofSub 1152, 2, 2⟩]

/-- The second copy waits as long as it is away from the start of the first.  The first copy starts
a quarter after the half note and waits an eighth more. -/
theorem echoCues_waits :
    (echoScore ⟨4, by decide, by decide⟩).validate.isOk = true ∧
      (echoScore ⟨4, by decide, by decide⟩).expand {} echoTrack = .ok echoCues ∧
      Timeline.ofCues ⟨4, by decide, by decide⟩ echoCues = .ok echoMarks ∧
      (echoScore ⟨4, by decide, by decide⟩).PausesDelayed echoTrack ⟨1, some ⟨"echo", 0, 0⟩⟩ ∧
      ¬(echoScore ⟨4, by decide, by decide⟩).PausesDelayed echoTrack ⟨1, some ⟨"echo", 1, 0⟩⟩ ∧
      ∃ start, tickOf? echoMarks.begins 2 = some start ∧ start.sub = 384 + 384 := by
  have valid : (echoScore ⟨4, by decide, by decide⟩).validate.isOk = true := by decide
  have expanded : (echoScore ⟨4, by decide, by decide⟩).expand {} echoTrack = .ok echoCues := by
    decide
  have built : Timeline.ofCues ⟨4, by decide, by decide⟩ echoCues = .ok echoMarks := rfl
  obtain ⟨both, waits⟩ := expand_both_iff valid (List.mem_singleton_self echoTrack) expanded
  have first := (both _ (.tail _ (.head _))).mp (by decide)
  have second := mt (both _ (.tail _ (.tail _ (.head _)))).mpr (by decide)
  obtain ⟨start, begins, -, waited⟩ := waits echoMarks built (by decide) 2 _ rfl rfl
  exact ⟨valid, expanded, built, first, second, start, begins, waited second⟩

/-- The first copy of the echo has a delay and a pause in a valid score. -/
theorem echoCues_delayed_and_paused :
    (echoScore ⟨4, by decide, by decide⟩).validate.isOk = true ∧
      echoTrack ∈ (echoScore ⟨4, by decide, by decide⟩).tracks ∧
      ∃ cues, (echoScore ⟨4, by decide, by decide⟩).expand {} echoTrack = .ok cues ∧
        ¬∀ cue ∈ cues, ¬(cue.delay ≠ [] ∧ cue.pause ≠ []) := by
  refine ⟨by decide, List.mem_singleton_self echoTrack, echoCues, by decide, ?_⟩
  intro apart
  exact apart _ (.tail _ (.head _)) (by decide)

end MidiScore
