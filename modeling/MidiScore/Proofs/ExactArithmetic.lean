import MidiScore.Proofs.Deltas
import MidiScore.Proofs.FinerPlacement

/-!
# Sums that never leave the range

A sum or a difference of times stops at the end of its range and does not say so.  Placement and
scheduling list every operation that they perform (`Traced`).  For a track that is not absurdly
long, every operation in the list gives the exact result (the lemmas `_exact`).

*Placement.*  The invariant of a run is the one of `placeFrom_placed`: the last sounding cue lies
between zero and what the cues so far can reach.  A run that fails has formed exact sums up to
there.

*Scheduling.*  Marks and clocks are never negative, and the difference of two times that are not
negative is always in range.

*Length.*  A note value has at most 73728 sub-ticks, so the number of note values bounds the reach
of a track (`extent_le`).
-/

namespace MidiScore

/-! ## Operations -/

namespace Operation

/-- The number of sub-ticks that should come out. -/
def exact : Operation → Int
  | .sum a b => a.sub + b.sub
  | .difference a b => a.sub - b.sub

/-- Whether the operation stays in range. -/
def Exact (operation : Operation) : Prop := operation.result.sub = operation.exact

theorem sum_exact {a b : Ticks} (first : 0 ≤ a.sub) (second : 0 ≤ b.sub)
    (small : a.sub + b.sub < 2 ^ 63) : (sum a b).Exact :=
  Ticks.add_sub (by omega) (by omega)

/-- Times that are not negative have a distance in range. -/
theorem difference_exact {a b : Ticks} (first : 0 ≤ a.sub) (second : 0 ≤ b.sub) :
    (difference a b).Exact := by
  have upperA := a.upper
  have upperB := b.upper
  exact Ticks.sub_sub (by omega) (by omega)

end Operation

namespace Traced

variable {α β : Type}

/-- Whether every operation stays in range. -/
def Exact (traced : Traced α) : Prop := ∀ operation ∈ traced.operations, operation.Exact

@[simp] theorem pure_exact (value : α) : (pure value : Traced α).Exact := by
  intro operation member
  cases member

@[simp] theorem bind_exact {step : Traced α} {next : α → Traced β} :
    (step >>= next).Exact ↔ step.Exact ∧ (next step.value).Exact :=
  List.forall_mem_append

/-- One step after another. -/
theorem Exact.bind {step : Traced α} {next : α → Traced β} (first : step.Exact)
    (second : (next step.value).Exact) : (step >>= next).Exact :=
  bind_exact.mpr ⟨first, second⟩

/-- A result that needs no further operation. -/
theorem Exact.bind_pure {step : Traced α} {result : α → β} (exact : step.Exact) :
    (step >>= fun value => pure (result value)).Exact :=
  exact.bind (pure_exact _)

@[simp] theorem map_exact {change : α → β} {step : Traced α} :
    (change <$> step).Exact ↔ step.Exact := Iff.rfl

@[simp] theorem perform_exact {operation : Operation} :
    (perform operation).Exact ↔ operation.Exact :=
  List.forall_mem_singleton

end Traced

/-! ## Lengths -/

namespace NoteValue

/-- Lengths are added exactly as long as the total stays in range. -/
theorem sumFrom_exact (resolution : Resolution) : ∀ (values : List NoteValue) (total : Ticks),
    0 ≤ total.sub → total.sub + exactSum resolution values < 2 ^ 63 →
      (Ticks.sumFrom total (values.map (ticks resolution))).Exact
  | [], _, _, _ => Traced.pure_exact _
  | value :: values, total, positive, small => by
      simp only [exactSum, List.map_cons, List.sum_cons, Int.natCast_add] at small
      have length := ticks_sub resolution value
      have first : (Operation.sum total (value.ticks resolution)).Exact :=
        Operation.sum_exact positive (by omega) (by omega)
      have next : (total + value.ticks resolution).sub = total.sub + value.exact resolution := by
        rw [← length]
        exact first
      refine (Traced.perform_exact.mpr first).bind ?_
      exact sumFrom_exact resolution values (total + value.ticks resolution) (by omega) (by
        rw [next, exactSum]
        omega)

theorem sumTraced_exact {resolution : Resolution} {values : List NoteValue}
    (small : exactSum resolution values < 2 ^ 63) : (sumTraced resolution values).Exact :=
  sumFrom_exact resolution values 0 (Int.le_refl 0) (by rw [Ticks.zero_sub]; omega)

end NoteValue

namespace Cue

section
variable {resolution : Resolution} {cue : Cue}

theorem durationTraced_exact (small : cue.extent resolution < 2 ^ 63) :
    (cue.durationTraced resolution).Exact := by
  obtain ⟨origin, action⟩ := cue
  cases action with
  | tone tone => exact Traced.pure_exact _
  | hits group => exact Traced.pure_exact _
  | bend bend =>
      refine NoteValue.sumTraced_exact ?_
      simp only [extent, exactDuration] at small
      omega
  | meter meter => exact Traced.pure_exact _
  | tempo bpm => exact Traced.pure_exact _

theorem timingTraced_exact (small : cue.extent resolution < 2 ^ 63) :
    (cue.timingTraced resolution).Exact := by
  have duration := durationTraced_exact small
  unfold extent at small
  have delay : (cue.delayTraced resolution).Exact := by
    unfold delayTraced
    split
    · exact Traced.pure_exact _
    · exact Traced.map_exact.mpr (NoteValue.sumTraced_exact (by omega))
  have pause : (NoteValue.sumTraced resolution cue.pause).Exact :=
    NoteValue.sumTraced_exact (by omega)
  unfold timingTraced
  split
  · exact duration.bind (delay.bind pause.bind_pure)
  · exact Traced.pure_exact _

/-- The time that a cue waits for is formed exactly. -/
theorem waitTraced_exact (small : cue.extent resolution < 2 ^ 63) :
    (cue.waitTraced resolution).Exact := by
  unfold extent at small
  have delay : (NoteValue.sumTraced resolution cue.delay).Exact :=
    NoteValue.sumTraced_exact (by omega)
  have pause : (NoteValue.sumTraced resolution cue.pause).Exact :=
    NoteValue.sumTraced_exact (by omega)
  have sum : (Operation.sum (NoteValue.sumTicks resolution cue.delay)
      (NoteValue.sumTicks resolution cue.pause)).Exact := by
    have first := NoteValue.sumTicks_sub
      (show NoteValue.exactSum resolution cue.delay < 2 ^ 63 by omega)
    have second := NoteValue.sumTicks_sub
      (show NoteValue.exactSum resolution cue.pause < 2 ^ 63 by omega)
    exact Operation.sum_exact (by omega) (by omega) (by omega)
  have both : (cue.delayAndPauseTraced resolution).Exact :=
    delay.bind (pause.bind (Traced.perform_exact.mpr sum))
  obtain ⟨origin, action⟩ := cue
  cases action with
  | tone tone => exact both
  | hits group => exact both
  | bend bend => exact delay
  | meter meter => exact Traced.pure_exact _
  | tempo bpm => exact Traced.pure_exact _

end

end Cue

/-! ## Placement -/

/-- A start is found exactly, and so is the time that a delay exceeds. -/
theorem startAfterTraced_exact {previous : Option Span} {delay : Option Ticks} {pause : Ticks}
    {reach : Nat} (within : (previous.getD {}).Within reach) (delayed : 0 ≤ (delay.getD 0).sub)
    (paused : 0 ≤ pause.sub) (small : reach + (delay.getD 0).sub + pause.sub < 2 ^ 63) :
    (startAfterTraced previous delay pause).Exact := by
  obtain ⟨first, second, third⟩ := within
  cases delay with
  | none =>
      rw [Option.getD_none, Ticks.zero_sub] at small
      have sum : (Operation.sum (previous.getD {}).stop pause).Exact :=
        Operation.sum_exact (by omega) paused (by omega)
      exact (Traced.perform_exact.mpr sum).bind_pure
  | some delay =>
      rw [Option.getD_some] at delayed small
      have available :
          (Operation.difference (previous.getD {}).stop (previous.getD {}).start).Exact :=
        Operation.difference_exact (by omega) first
      have sum : (Operation.sum (previous.getD {}).start delay).Exact :=
        Operation.sum_exact first delayed (by omega)
      refine (Traced.perform_exact.mpr available).bind ?_
      split
      · exact Traced.pure_exact _
      · exact (Traced.perform_exact.mpr sum).bind_pure

/-- Placement forms exact sums as long as the track can reach no farther than the range, also if
it fails. -/
theorem placeFromTraced_exact {resolution : Resolution} : ∀ {cues : List Cue}
    {previous : Option Span} {reach : Nat}, (previous.getD {}).Within reach →
      reach + extent resolution cues < 2 ^ 63 →
      (placeFromTraced resolution previous cues).Exact
  | [], _, _, _, _ => Traced.pure_exact _
  | cue :: cues, previous, reach, within, small => by
      rw [extent_cons] at small
      refine (Cue.timingTraced_exact (by omega)).bind ?_
      cases timing : (cue.timingTraced resolution).value with
      | instant => exact Traced.map_exact.mpr (placeFromTraced_exact within (by omega))
      | span duration delay pause =>
          obtain ⟨length, delayed, paused⟩ := Cue.timing_sub (by omega) timing
          refine (startAfterTraced_exact within (by omega) (by omega)
            (by unfold Cue.extent at small; omega)).bind ?_
          cases started : (startAfterTraced previous delay pause).value with
          | error available => exact Traced.pure_exact _
          | ok start =>
              -- the new span takes the place of the last one, within the extent of its cue
              obtain ⟨inside, stop⟩ := startAfter_within within (by omega) timing started
              have sum : (Operation.sum start duration).Exact := by
                rw [Operation.Exact, Operation.exact, length]
                exact stop
              have rest :
                  (placeFromTraced resolution (some ⟨start, start + duration⟩) cues).Exact :=
                placeFromTraced_exact
                  (show ((some (Span.mk start (start + duration))).getD {}).Within _ from inside)
                  (by omega)
              exact (Traced.perform_exact.mpr sum).bind (Traced.map_exact.mpr rest)

theorem Timeline.ofCuesTraced_exact {resolution : Resolution} {cues : List Cue}
    (small : extent resolution cues < 2 ^ 63) : (ofCuesTraced resolution cues).Exact := by
  have placed : (placeFromTraced resolution none cues).Exact := placeFromTraced_exact
    (show ((none : Option Span).getD {}).Within 0 from Span.within_default 0) (by omega)
  exact Traced.map_exact.mpr placed

/-! ## Scheduling -/

namespace Cue

section
variable {resolution : Resolution} {cue : Cue}

theorem startEventTraced_exact (small : cue.extent resolution < 2 ^ 63) :
    (cue.startEventTraced resolution).Exact :=
  Traced.map_exact.mpr (waitTraced_exact small)

theorem noteEndTraced_exact {stop : Ticks} (small : cue.extent resolution < 2 ^ 63)
    (positive : 0 ≤ stop.sub) (delta : Ticks) :
    (cue.noteEndTraced resolution stop delta).Exact := by
  have start : (Operation.difference stop (cue.duration resolution)).Exact :=
    Operation.difference_exact positive (cue.duration_nonneg resolution)
  exact (durationTraced_exact small).bind (Traced.perform_exact.mpr start).bind_pure

/-- The end of a cue counts back from its time exactly. -/
theorem stopEventTraced_exact {stop : Ticks} (small : cue.extent resolution < 2 ^ 63)
    (positive : 0 ≤ stop.sub) (delta : Ticks) :
    (cue.stopEventTraced resolution stop delta).Exact := by
  have note := noteEndTraced_exact small positive delta
  unfold stopEventTraced
  cases cue.action with
  | tone tone => exact Traced.map_exact.mpr note
  | hits group => exact Traced.map_exact.mpr note
  | bend bend => exact Traced.pure_exact _
  | meter meter => exact Traced.pure_exact _
  | tempo bpm => exact Traced.pure_exact _

end

end Cue

namespace Clock

/-- A clock that has not gone below zero. -/
def Nonneg (clock : Clock) : Prop := 0 ≤ clock.latestStart.sub ∧ 0 ≤ clock.latestStop.sub

section
variable {clock : Clock} {side : Side} {queued : Queued}

/-- One mark forms exact sums and differences. -/
theorem scheduleTraced_exact {resolution : Resolution} (forward : clock.Nonneg)
    (positive : 0 ≤ queued.mark.tick.sub) (small : queued.cue.extent resolution < 2 ^ 63) :
    (clock.scheduleTraced resolution side queued).Exact := by
  cases side with
  | start => exact Traced.map_exact.mpr (Cue.startEventTraced_exact small)
  | stop =>
      have latest : 0 ≤ (max clock.latestStart clock.latestStop).sub := by
        rw [Ticks.max_sub]
        exact Int.le_trans forward.1 (Int.le_max_left ..)
      have delta : (clock.deltaTraced queued.mark.tick).Exact :=
        Traced.perform_exact.mpr (Operation.difference_exact positive latest)
      exact delta.bind (Traced.map_exact.mpr (Cue.stopEventTraced_exact small positive _))

theorem Nonneg.advance (forward : clock.Nonneg) (positive : 0 ≤ queued.mark.tick.sub) :
    (clock.advance side queued).Nonneg := by
  obtain ⟨starts, stops⟩ := forward
  cases side with
  | start => exact ⟨positive, stops⟩
  | stop =>
      simp only [Clock.advance]
      split
      · exact ⟨starts, positive⟩
      · exact ⟨starts, stops⟩

end

end Clock

/-- A run of marks that are not negative forms exact sums and differences. -/
theorem emissionsTraced_exact {resolution : Resolution} :
    ∀ {clock : Clock} {taken : List (Side × Queued)}, clock.Nonneg →
      (∀ mark ∈ taken, 0 ≤ mark.2.mark.tick.sub ∧ mark.2.cue.extent resolution < 2 ^ 63) →
      (emissionsTraced resolution clock taken).Exact
  | _, [], _, _ => Traced.pure_exact _
  | clock, (side, queued) :: rest, forward, inRange => by
      obtain ⟨⟨positive, small⟩, others⟩ := List.forall_mem_cons.mp inRange
      exact (Clock.scheduleTraced_exact forward positive small).bind
        (Traced.map_exact.mpr (emissionsTraced_exact (forward.advance positive) others))

/-- Scheduling placed cues forms exact sums and differences. -/
theorem scheduleTraced_exact {resolution : Resolution} {cues : List Cue}
    {placements : List Placement} (small : extent resolution cues < 2 ^ 63)
    (placed : place resolution cues = .ok placements) :
    (scheduleTraced resolution cues (Timeline.ofPlacements placements)).Exact := by
  refine Traced.map_exact.mpr (emissionsTraced_exact ⟨Int.le_refl 0, Int.le_refl 0⟩ ?_)
  intro mark member
  have attached := Timeline.attached_of_mem_order member
  have part := extent_le_of_mem resolution (List.mem_of_getElem? attached)
  exact ⟨Timeline.mark_nonneg placed (Timeline.mark_mem_of_mem_order member), by omega⟩

/-! ## Tracks of many note values -/

/-- The number of note values that place cues in time: one for a tone, one for a group of hits, and
all those of bends, delays and pauses. -/
def noteValueCount (cues : List Cue) : Nat := (cues.flatMap Cue.noteValues).length

/-- No note value is longer than a dotted whole note at the finest resolution. -/
theorem NoteValue.exactSum_le (resolution : Resolution) (values : List NoteValue) :
    exactSum resolution values ≤ 73728 * values.length := by
  induction values with
  | nil => exact Nat.le_refl 0
  | cons value values ih =>
      have first := value.exact_le resolution
      simp only [exactSum, List.map_cons, List.sum_cons, List.length_cons] at ih ⊢
      omega

theorem NoteValue.exactSum_append (resolution : Resolution) (first second : List NoteValue) :
    exactSum resolution (first ++ second) =
      exactSum resolution first + exactSum resolution second := by
  simp [exactSum]

/-- A cue reaches as far as all its note values together. -/
theorem Cue.extent_eq_exactSum (resolution : Resolution) (cue : Cue) :
    cue.extent resolution = NoteValue.exactSum resolution cue.noteValues := by
  rw [extent, noteValues, NoteValue.exactSum_append, NoteValue.exactSum_append]
  obtain ⟨origin, action⟩ := cue
  cases action <;> simp [exactDuration, NoteValue.exactSum]

/-- The number of note values bounds what a track can reach. -/
theorem extent_le (resolution : Resolution) (cues : List Cue) :
    extent resolution cues ≤ 73728 * noteValueCount cues := by
  have whole : extent resolution cues =
      NoteValue.exactSum resolution (cues.flatMap Cue.noteValues) := by
    induction cues with
    | nil => rfl
    | cons cue cues ih =>
        rw [extent_cons, List.flatMap_cons, NoteValue.exactSum_append, ih, Cue.extent_eq_exactSum]
  rw [whole]
  exact NoteValue.exactSum_le resolution _

/-- A track of at most `10 ^ 14` note values is placed and scheduled without leaving the range of
times.  Every sum and every difference on the way to the results is exact, also if placement
fails.  The marks lie between zero and 73728 sub-ticks a note value, so none of them is at the last
representable time. -/
theorem times_never_saturate {resolution : Resolution} {cues : List Cue}
    (few : noteValueCount cues ≤ 10 ^ 14) :
    ((Timeline.ofCuesTraced resolution cues).value = Timeline.ofCues resolution cues ∧
      (Timeline.ofCuesTraced resolution cues).Exact) ∧
    ∀ timeline, Timeline.ofCues resolution cues = .ok timeline →
      ((scheduleTraced resolution cues timeline).value = schedule resolution cues timeline ∧
        (scheduleTraced resolution cues timeline).Exact) ∧
      ∀ mark ∈ timeline.begins ++ timeline.ends, 0 ≤ mark.tick.sub ∧
        mark.tick.sub ≤ 73728 * noteValueCount cues ∧ mark.tick < .latest := by
  have reach := extent_le resolution cues
  refine ⟨⟨rfl, Timeline.ofCuesTraced_exact (by omega)⟩, ?_⟩
  intro timeline built
  obtain ⟨placements, placed, rfl⟩ := Timeline.ofCues_eq_ok.mp built
  refine ⟨⟨rfl, scheduleTraced_exact (by omega) placed⟩, ?_⟩
  intro mark member
  obtain ⟨first, last⟩ := Timeline.mark_bounds (place_placed (by omega) placed) member
  rw [Ticks.lt_iff, Ticks.latest_sub]
  exact ⟨first, by omega, by omega⟩

/-- A dotted whole note, a bend of two note values that starts inside it, a change of tempo, and
hits after a pause. -/
def mixedCues : List Cue :=
  [⟨⟨0, none⟩, .tone ⟨.c, 4, ⟨.whole, .dotted⟩, 100, [], []⟩⟩,
    ⟨⟨1, none⟩, .bend ⟨100, [.quarter, ⟨.eighth, .triplet⟩], [⟨.half, .plain⟩]⟩⟩,
    ⟨⟨2, none⟩, .tempo 90.0⟩,
    ⟨⟨3, none⟩, .hits ⟨⟨.kick, 100, [], [.quarter]⟩, [⟨.snare, 90, [.chord], []⟩]⟩⟩]

/-- Their marks at the finest resolution. -/
def mixedMarks : Timeline where
  begins := [⟨0, 0, 0⟩, ⟨.ofSub 24576, 1, 1⟩, ⟨.ofSub 40960, 2, 2⟩, ⟨.ofSub 53248, 3, 3⟩]
  ends := [⟨.ofSub 73728, 0, 0⟩, ⟨.ofSub 40960, 1, 1⟩, ⟨.ofSub 53344, 2, 3⟩]

/-- Placing six note values takes eleven operations. -/
theorem mixedCues_never_saturate :
    noteValueCount mixedCues = 6 ∧
      Timeline.ofCues ⟨128, by decide, by decide⟩ mixedCues = .ok mixedMarks ∧
      (Timeline.ofCuesTraced ⟨128, by decide, by decide⟩ mixedCues).operations.length = 11 ∧
      (Timeline.ofCuesTraced ⟨128, by decide, by decide⟩ mixedCues).Exact ∧
      (scheduleTraced ⟨128, by decide, by decide⟩ mixedCues mixedMarks).Exact ∧
      ∀ mark ∈ mixedMarks.begins ++ mixedMarks.ends, mark.tick.sub ≤ 73728 * 6 := by
  have count : noteValueCount mixedCues = 6 := rfl
  have built : Timeline.ofCues ⟨128, by decide, by decide⟩ mixedCues = .ok mixedMarks := rfl
  obtain ⟨⟨-, placed⟩, after⟩ := @times_never_saturate ⟨128, by decide, by decide⟩ mixedCues
    (by rw [count]; omega)
  obtain ⟨⟨-, emitted⟩, bounds⟩ := after mixedMarks built
  refine ⟨count, built, rfl, placed, emitted, ?_⟩
  intro mark member
  have bound := (bounds mark member).2.1
  rwa [count] at bound

end MidiScore
