import Mathlib.Data.List.Chain
import MidiScore.Proofs.Placement

/-!
# Delays that go too far

A delay counts from the start of the sounding cue before it and must not go past the end of that
one.  Placement compares it with the distance of two absolute times.  As long as no sum leaves the
range this distance is the duration of the cue before, so the condition can be read off two sounding
cues in a row, wherever the track has got to (`Cue.Overruns`).

The invariant of a run is that the span it keeps has the duration of the last sounding cue
(`Spans`).  One cue is then refused exactly if it overruns that cue (`startAfter_cases`).  A run
succeeds if no sounding cue overruns the one before it, and otherwise stops at the first that does.
-/

namespace MidiScore

/-- The cues that have a start and an end. -/
def soundingCues (cues : List Cue) : List Cue := cues.filter (·.isSounding)

/-- A written delay that is longer than the sounding cue before. -/
def Cue.Overruns (resolution : Resolution) (cue earlier : Cue) : Prop :=
  cue.delay ≠ [] ∧ earlier.exactDuration resolution < NoteValue.exactSum resolution cue.delay

/-- No sounding cue overruns the one before it. -/
def InTime (resolution : Resolution) (sounding : List Cue) : Prop :=
  sounding.IsChain fun earlier cue => ¬cue.Overruns resolution earlier

/-- The first sounding cue that overruns the one before it, and that one. -/
def FirstOverrun (resolution : Resolution) (sounding : List Cue) (earlier cue : Cue) : Prop :=
  ∃ before after, sounding = before ++ earlier :: cue :: after ∧
    InTime resolution (before ++ [earlier]) ∧ cue.Overruns resolution earlier

/-- The error of a cue that overruns the one before it. -/
def Cue.overrunError (resolution : Resolution) (cue earlier : Cue) : TrackError :=
  .longDelay cue.origin (NoteValue.sumTicks resolution cue.delay) (earlier.duration resolution)

theorem soundingCues_cons_of_sounding {cue : Cue} (sounding : cue.isSounding = true)
    (cues : List Cue) : soundingCues (cue :: cues) = cue :: soundingCues cues :=
  List.filter_cons_of_pos sounding

theorem soundingCues_cons_of_control {cue : Cue} (control : cue.isSounding = false)
    (cues : List Cue) : soundingCues (cue :: cues) = soundingCues cues :=
  List.filter_cons_of_neg (by simp [control])

section
variable {resolution : Resolution}

theorem not_inTime_iff {sounding : List Cue} :
    ¬InTime resolution sounding ↔ ∃ before earlier cue after,
      sounding = before ++ earlier :: cue :: after ∧ cue.Overruns resolution earlier := by
  rw [InTime, List.isChain_iff_forall_rel_of_append_cons_cons]
  constructor
  · intro late
    push Not at late
    obtain ⟨earlier, cue, before, after, split, overruns⟩ := late
    exact ⟨before, earlier, cue, after, split, overruns⟩
  · rintro ⟨before, earlier, cue, after, split, overruns⟩ inTime
    exact inTime split overruns

/-- A cue after the last sounding one, if there is one. -/
theorem inTime_cons {last : Option Cue} {cue : Cue} {sounding : List Cue} :
    InTime resolution (last.toList ++ cue :: sounding) ↔
      (∀ earlier ∈ last, ¬cue.Overruns resolution earlier) ∧
        InTime resolution (cue :: sounding) := by
  cases last with
  | none => simp [InTime]
  | some earlier => simp [InTime, List.isChain_cons_cons]

/-! ## Steps -/

/-- A span with the duration of a cue. -/
def Spans (resolution : Resolution) (cue : Cue) (span : Span) : Prop :=
  span.stop.sub = span.start.sub + cue.exactDuration resolution

/-- The last sounding cue is no longer than the track so far. -/
theorem Spans.exactDuration_le {cue : Cue} {span : Span} {reach : Nat}
    (spans : Spans resolution cue span) (within : span.Within reach) :
    cue.exactDuration resolution ≤ reach := by
  obtain ⟨first, -, third⟩ := within
  unfold Spans at spans
  omega

/-- What is available after a cue is its duration. -/
theorem Spans.available {cue : Cue} {span : Span} {reach : Nat} (spans : Spans resolution cue span)
    (within : span.Within reach) (small : reach < 2 ^ 63) :
    span.stop - span.start = cue.duration resolution := by
  have short := spans.exactDuration_le within
  have distance : span.stop.sub - span.start.sub = cue.exactDuration resolution := by
    unfold Spans at spans
    omega
  apply Ticks.ext
  rw [Cue.duration_sub (by omega), Ticks.sub_sub (by omega) (by omega), distance]

theorem Cue.duration_lt_delay_iff {cue earlier : Cue}
    (short : earlier.exactDuration resolution < 2 ^ 63)
    (small : NoteValue.exactSum resolution cue.delay < 2 ^ 63) :
    earlier.duration resolution < NoteValue.sumTicks resolution cue.delay ↔
      earlier.exactDuration resolution < NoteValue.exactSum resolution cue.delay := by
  rw [Ticks.lt_iff, Cue.duration_sub short, NoteValue.sumTicks_sub small, Int.ofNat_lt]

theorem startAfter_some (span : Span) (delay pause : Ticks) :
    startAfter (some span) (some delay) pause =
      if span.stop - span.start < delay then .error (span.stop - span.start)
      else .ok (span.start + delay) := by
  simp [startAfter_delayed]

/-- A sounding cue is refused exactly if it overruns the last one. -/
theorem startAfter_cases {cue : Cue} {last : Option Cue} {previous : Option Span} {reach : Nat}
    {duration pause : Ticks} {delay : Option Ticks}
    (spans : Option.Rel (Spans resolution) last previous)
    (within : (previous.getD {}).Within reach) (small : reach + cue.extent resolution < 2 ^ 63)
    (timing : cue.timing resolution = .span duration delay pause) :
    (∃ earlier, last = some earlier ∧ cue.Overruns resolution earlier ∧
        delay = some (NoteValue.sumTicks resolution cue.delay) ∧
        startAfter previous delay pause = .error (earlier.duration resolution)) ∨
      (∀ earlier ∈ last, ¬cue.Overruns resolution earlier) ∧
        ∃ start, startAfter previous delay pause = .ok start := by
  obtain ⟨-, -, rfl, -⟩ := Cue.timing_eq_span timing
  by_cases written : cue.delay = []
  · refine Or.inr ⟨fun earlier _ overruns => overruns.1 written, ?_⟩
    rw [if_pos (List.isEmpty_iff.mpr written)]
    exact ⟨_, rfl⟩
  · rw [if_neg (mt List.isEmpty_iff.mp written)]
    cases spans with
    | none => exact Or.inr ⟨by simp, _, rfl⟩
    | @some earlier span spans =>
        have late : earlier.duration resolution < NoteValue.sumTicks resolution cue.delay ↔
            earlier.exactDuration resolution < NoteValue.exactSum resolution cue.delay :=
          Cue.duration_lt_delay_iff
            (Nat.lt_of_le_of_lt (spans.exactDuration_le within) (by omega))
            (by unfold Cue.extent at small; omega)
        rw [startAfter_some, spans.available within (by omega)]
        split
        next refused => exact Or.inl ⟨earlier, rfl, ⟨written, late.mp refused⟩, rfl, rfl⟩
        next accepted =>
          refine Or.inr ⟨?_, _, rfl⟩
          rintro other ⟨⟩ overruns
          exact accepted (late.mpr overruns.2)

/-! ## Runs -/

/-- Placement after the last sounding cue succeeds if all cues are in time. -/
theorem placeFrom_inTime {cues : List Cue} {last : Option Cue} {previous : Option Span}
    {placements : List Placement} {reach : Nat}
    (spans : Option.Rel (Spans resolution) last previous)
    (within : (previous.getD {}).Within reach)
    (small : reach + extent resolution cues < 2 ^ 63 - 1)
    (placed : placeFrom resolution previous cues = .ok placements) :
    InTime resolution (last.toList ++ soundingCues cues) := by
  induction cues generalizing last previous placements reach with
  | nil => cases last <;> simp [InTime, soundingCues]
  | cons cue cues ih =>
      rw [extent_cons] at small
      rcases placeFrom_cons placed with ⟨timing, others, otherPlaced, -⟩ |
        ⟨duration, delay, pause, start, others, timing, started, otherPlaced, -⟩
      · rw [soundingCues_cons_of_control (Cue.timing_eq_instant.mp timing)]
        exact ih spans within (by omega) otherPlaced
      · obtain ⟨inside, stop⟩ := startAfter_within within (by omega) timing started
        rw [soundingCues_cons_of_sounding (Cue.timing_eq_span timing).1, inTime_cons]
        have spanned : Option.Rel (Spans resolution) (some cue)
          (some ⟨start, start + duration⟩) := .some stop
        have rest := ih spanned inside (by omega) otherPlaced
        rcases startAfter_cases spans within (by omega) timing with
          ⟨_, -, -, -, refused⟩ | ⟨inTime, -⟩
        · rw [refused] at started
          cases started
        · exact ⟨inTime, rest⟩

/-- Placement that fails stops at the first overrun. -/
theorem placeFrom_firstOverrun {cues : List Cue} {last : Option Cue} {previous : Option Span}
    {cause : TrackError} {reach : Nat} (spans : Option.Rel (Spans resolution) last previous)
    (within : (previous.getD {}).Within reach)
    (small : reach + extent resolution cues < 2 ^ 63 - 1)
    (failed : placeFrom resolution previous cues = .error cause) :
    ∃ earlier cue, FirstOverrun resolution (last.toList ++ soundingCues cues) earlier cue ∧
      cause = cue.overrunError resolution earlier := by
  induction cues generalizing last previous reach with
  | nil => cases failed
  | cons cue cues ih =>
      rw [extent_cons] at small
      rcases placeFrom_cons_error failed with ⟨timing, later⟩ |
        ⟨duration, delay, pause, timing, ⟨available, refused, same⟩ | ⟨start, started, later⟩⟩
      · rw [soundingCues_cons_of_control (Cue.timing_eq_instant.mp timing)]
        exact ih spans within (by omega) later
      · rw [soundingCues_cons_of_sounding (Cue.timing_eq_span timing).1]
        rcases startAfter_cases spans within (by omega) timing with
          ⟨earlier, rfl, overruns, rfl, unavailable⟩ | ⟨-, _, started⟩
        · rw [unavailable] at refused
          cases refused
          exact ⟨earlier, cue, ⟨[], soundingCues cues, rfl, by simp [InTime], overruns⟩, same⟩
        · rw [started] at refused
          cases refused
      · obtain ⟨inside, stop⟩ := startAfter_within within (by omega) timing started
        rw [soundingCues_cons_of_sounding (Cue.timing_eq_span timing).1]
        have spanned : Option.Rel (Spans resolution) (some cue)
          (some ⟨start, start + duration⟩) := .some stop
        obtain ⟨earlier, found, ⟨before, after, split, inTime, overruns⟩, same⟩ :=
          ih spanned inside (by omega) later
        refine ⟨earlier, found, ⟨last.toList ++ before, after, ?_, ?_, overruns⟩, same⟩
        · rw [List.append_assoc, ← split]
          rfl
        · -- what comes before the overrun begins with the cue that was placed
          obtain ⟨rest, begins⟩ : ∃ rest, before ++ [earlier] = cue :: rest := by
            cases before with
            | nil => exact ⟨[], by rw [(List.cons.inj split).1, List.nil_append]⟩
            | cons first before =>
                exact ⟨before ++ [earlier], by rw [(List.cons.inj split).1, List.cons_append]⟩
          rw [begins] at inTime
          rw [List.append_assoc, begins, inTime_cons]
          rcases startAfter_cases spans within (by omega) timing with
            ⟨_, -, -, -, refused⟩ | ⟨notBefore, -⟩
          · rw [refused] at started
            cases started
          · exact ⟨notBefore, inTime⟩

end

/-- The timeline of a track below the last representable time cannot be built if and only if some
sounding cue after the first has a written delay that is longer than the sounding cue before it.
The error names the first such cue, its delay, and the duration of the cue before it as
available. -/
theorem ofCues_fails_at_first_overrun {resolution : Resolution} {cues : List Cue}
    (small : extent resolution cues < 2 ^ 63 - 1) :
    ((∃ cause, Timeline.ofCues resolution cues = .error cause) ↔
        ∃ before earlier cue after,
          soundingCues cues = before ++ earlier :: cue :: after ∧ cue.Overruns resolution earlier) ∧
      ∀ cause, Timeline.ofCues resolution cues = .error cause →
        ∃ earlier cue, FirstOverrun resolution (soundingCues cues) earlier cue ∧
          cause = .longDelay cue.origin (NoteValue.sumTicks resolution cue.delay)
            (earlier.duration resolution) := by
  have within : ((none : Option Span).getD {}).Within 0 := Span.within_default 0
  have stops : ∀ cause, Timeline.ofCues resolution cues = .error cause →
      ∃ earlier cue, FirstOverrun resolution (soundingCues cues) earlier cue ∧
        cause = cue.overrunError resolution earlier := by
    intro cause failed
    exact placeFrom_firstOverrun .none within (by omega) (map_eq_error.mp failed)
  refine ⟨⟨?_, ?_⟩, stops⟩
  · rintro ⟨cause, failed⟩
    obtain ⟨earlier, cue, ⟨before, after, split, -, overruns⟩, -⟩ := stops cause failed
    exact ⟨before, earlier, cue, after, split, overruns⟩
  · intro overrun
    cases built : Timeline.ofCues resolution cues with
    | error cause => exact ⟨cause, rfl⟩
    | ok timeline =>
        obtain ⟨placements, placed, -⟩ := Timeline.ofCues_eq_ok.mp built
        exact absurd (placeFrom_inTime .none within (by omega) placed) (not_inTime_iff.mpr overrun)

/-- A leading delay, a chord member and a hit in time, a change of meter, and two tones that wait
longer than a hit lasts. -/
def lateEcho : List Cue :=
  [⟨⟨0, none⟩, .tone ⟨.c, 4, .quarter, 100, [⟨.whole, .plain⟩], []⟩⟩,
    ⟨⟨1, none⟩, .tone ⟨.e, 4, .quarter, 100, [.chord], []⟩⟩,
    ⟨⟨2, none⟩, .hits ⟨⟨.snare, 100, [.quarter], []⟩, []⟩⟩, ⟨⟨3, none⟩, .meter ⟨3, 4⟩⟩,
    ⟨⟨4, none⟩, .tone ⟨.g, 4, .quarter, 100, [⟨.eighth, .dotted⟩], []⟩⟩,
    ⟨⟨5, none⟩, .tone ⟨.g, 4, .quarter, 100, [⟨.half, .plain⟩], []⟩⟩]

theorem lateEcho_refused :
    extent ⟨4, by decide, by decide⟩ lateEcho < 2 ^ 63 - 1 ∧
      Timeline.ofCues ⟨4, by decide, by decide⟩ lateEcho =
        .error (.longDelay ⟨4, none⟩ (.ofSub 288) (.ofSub 96)) ∧
      ∃ earlier cue,
        FirstOverrun ⟨4, by decide, by decide⟩ (soundingCues lateEcho) earlier cue ∧
        cue.origin = ⟨4, none⟩ := by
  have small : extent ⟨4, by decide, by decide⟩ lateEcho < 2 ^ 63 - 1 := by decide
  have failed : Timeline.ofCues ⟨4, by decide, by decide⟩ lateEcho =
      .error (.longDelay ⟨4, none⟩ (.ofSub 288) (.ofSub 96)) := rfl
  obtain ⟨earlier, cue, first, same⟩ := (ofCues_fails_at_first_overrun small).2 _ failed
  exact ⟨small, failed, earlier, cue, first, (TrackError.longDelay.inj same).1.symm⟩

end MidiScore
