import Mathlib.Algebra.Order.Ring.Int
import MidiScore.Proofs.Placement

/-!
# Lengths at a finer resolution

A resolution with a whole number of times as many ticks per quarter note makes everything that many
times as long, but for the note value `drum`, which is one tick at any resolution (`Cue.Scales`).

*Lengths.*  A dotted value is three halves of its base and a triplet two thirds, and both are whole
numbers of sub-ticks at any resolution.  So no length is rounded, and lengths scale exactly
(`NoteValue.exact_scaled`).

*Placement.*  It adds lengths and compares a delay with a duration, and all of them are multiplied.
As long as the multiples stay in range, cues without drums are placed at multiples of their times,
or fail at the same cue (`placeFrom_times`).
-/

namespace MidiScore

/-! ## Multiplied times -/

namespace Ticks

/-- So many times as long. -/
def times (factor : Nat) (t : Ticks) : Ticks := ofSub (factor * t.sub)

/-- A time from zero on whose multiple is before the last representable time. -/
def Roomy (factor : Nat) (t : Ticks) : Prop := 0 ≤ t.sub ∧ factor * t.sub < 2 ^ 63 - 1

variable {factor : Nat} {a b : Ticks}

@[simp] theorem times_zero : (0 : Ticks).times factor = 0 := by simp [times]; rfl

theorem mul_lt_of_le {count reach : Int} (le : count ≤ reach)
    (small : factor * reach < 2 ^ 63 - 1) : factor * count < 2 ^ 63 - 1 :=
  Int.lt_of_le_of_lt (Int.mul_le_mul_of_nonneg_left le (Int.natCast_nonneg factor)) small

theorem Roomy.of_le {reach : Int} (nonneg : 0 ≤ a.sub) (le : a.sub ≤ reach)
    (small : factor * reach < 2 ^ 63 - 1) : a.Roomy factor :=
  ⟨nonneg, mul_lt_of_le le small⟩

/-- A multiple in range is exact. -/
theorem Roomy.times_sub (roomy : a.Roomy factor) : (a.times factor).sub = factor * a.sub := by
  obtain ⟨nonneg, small⟩ := roomy
  have multiple := Int.mul_nonneg (Int.natCast_nonneg factor) nonneg
  exact ofSub_sub (by omega) (by omega)

/-- Multiples in range are ordered alike. -/
theorem times_lt_times (positive : 0 < factor) (roomyA : a.Roomy factor)
    (roomyB : b.Roomy factor) : a.times factor < b.times factor ↔ a < b := by
  rw [lt_iff, lt_iff, roomyA.times_sub, roomyB.times_sub]
  exact Int.mul_lt_mul_left (Int.natCast_pos.mpr positive)

theorem times_lt_latest (roomy : a.Roomy factor) : a.times factor < latest := by
  rw [lt_iff, roomy.times_sub, latest_sub]
  exact roomy.2

theorem Roomy.lt_latest (positive : 0 < factor) (roomy : a.Roomy factor) : a < latest := by
  obtain ⟨nonneg, small⟩ := roomy
  have grows : a.sub ≤ factor * a.sub :=
    le_mul_of_one_le_left nonneg (Int.natCast_pos.mpr positive)
  rw [lt_iff, latest_sub]
  omega

/-- A sum is multiplied term by term if its multiple is in range. -/
theorem times_add (positive : 0 < factor) (nonnegA : 0 ≤ a.sub) (nonnegB : 0 ≤ b.sub)
    (small : factor * (a.sub + b.sub) < 2 ^ 63 - 1) :
    (a + b).times factor = a.times factor + b.times factor := by
  have grows : a.sub + b.sub ≤ factor * (a.sub + b.sub) :=
    le_mul_of_one_le_left (by omega) (Int.natCast_pos.mpr positive)
  have sum : (a + b).sub = a.sub + b.sub := add_sub (by omega) (by omega)
  have roomyA : a.Roomy factor := Roomy.of_le nonnegA (by omega) small
  have roomyB : b.Roomy factor := Roomy.of_le nonnegB (by omega) small
  have roomySum : (a + b).Roomy factor := Roomy.of_le (by omega) (Int.le_of_eq sum) small
  have multiples : (a.times factor).sub + (b.times factor).sub = factor * (a.sub + b.sub) := by
    rw [roomyA.times_sub, roomyB.times_sub, Int.mul_add]
  apply ext
  rw [roomySum.times_sub, sum, add_sub (by omega) (by omega), multiples]

/-- So is a distance. -/
theorem times_distance (nonneg : 0 ≤ a.sub) (le : a.sub ≤ b.sub) (roomy : b.Roomy factor) :
    (b - a).times factor = b.times factor - a.times factor := by
  have upper := b.upper
  have distance : (b - a).sub = b.sub - a.sub := sub_sub (by omega) (by omega)
  have roomyA : a.Roomy factor := Roomy.of_le nonneg le roomy.2
  have roomyDistance : (b - a).Roomy factor := Roomy.of_le (by omega) (by omega) roomy.2
  have multiples : (b.times factor).sub - (a.times factor).sub = ((b - a).times factor).sub := by
    rw [roomy.times_sub, roomyA.times_sub, roomyDistance.times_sub, distance, Int.mul_sub]
  have first := ((b - a).times factor).lower
  have last := ((b - a).times factor).upper
  apply ext
  rw [sub_sub (by omega) (by omega), multiples]

/-- A time that counts so many times as many sub-ticks. -/
theorem eq_times {count : Nat} (coarse : a.sub = count) (fine : b.sub = (factor * count : Nat))
    (small : factor * count < 2 ^ 63 - 1) : b = a.times factor := by
  rw [Int.natCast_mul] at fine
  have roomy : a.Roomy factor := Roomy.of_le (by omega) (Int.le_of_eq coarse) (by omega)
  apply ext
  rw [roomy.times_sub, coarse, fine]

end Ticks

/-! ## Lengths -/

/-- A base that is no fixed number of ticks is a multiple of six sub-ticks per tick of a quarter. -/
theorem NoteBase.exists_sub_eq {base : NoteBase} (scales : base ≠ .drum) :
    ∃ count, ∀ resolution, base.sub resolution = 6 * (count * resolution.perQuarter) := by
  cases base with
  | whole => exact ⟨64, fun _ => by simp only [NoteBase.sub]; omega⟩
  | half => exact ⟨32, fun _ => by simp only [NoteBase.sub]; omega⟩
  | quarter => exact ⟨16, fun _ => by simp only [NoteBase.sub]; omega⟩
  | eighth => exact ⟨8, fun _ => by simp only [NoteBase.sub]; omega⟩
  | sixteenth => exact ⟨4, fun _ => by simp only [NoteBase.sub]; omega⟩
  | thirtySecond => exact ⟨2, fun _ => by simp only [NoteBase.sub]; omega⟩
  | sixtyFourth => exact ⟨1, fun _ => by simp only [NoteBase.sub]; omega⟩
  | drum => exact absurd rfl scales
  | chord => exact ⟨0, fun _ => by simp only [NoteBase.sub]; omega⟩

/-- Halves and thirds of a multiple of six are exact. -/
theorem Modifier.apply_six_mul (modifier : Modifier) (count : Nat) :
    modifier.apply (6 * count) = modifier.apply 6 * count := by
  cases modifier with
  | plain => rfl
  | dotted => simp only [Modifier.apply]; omega
  | triplet => simp only [Modifier.apply]; omega

/-- The note values that place a cue in time: its length, its delay and its pause.  Hits last one
tick, which is the value `drum`. -/
def Cue.noteValues (cue : Cue) : List NoteValue :=
  let length :=
    match cue.action with
    | .tone tone => [tone.value]
    | .hits _ => [.drum]
    | .bend bend => bend.length
    | .meter _ => []
    | .tempo _ => []
  length ++ cue.delay ++ cue.pause

/-- Whether all times of a cue depend on the resolution: it is no group of hits, and no `drum`
stands in its note value, its bend, its delay or its pause. -/
def Cue.Scales (cue : Cue) : Prop := ∀ value ∈ cue.noteValues, value.base ≠ .drum

instance (cue : Cue) : Decidable cue.Scales :=
  inferInstanceAs (Decidable (∀ value ∈ cue.noteValues, value.base ≠ .drum))

section
variable {coarse fine : Resolution} {factor : Nat}
  (finer : fine.perQuarter = factor * coarse.perQuarter)

include finer

/-- A resolution has at least one tick, and so has every other. -/
theorem factor_pos : 0 < factor := by
  have positive := fine.positive
  rw [finer] at positive
  exact Nat.pos_of_mul_pos_right positive

/-- The length of a note value is proportional to the resolution, but that of a drum hit is
fixed. -/
theorem NoteValue.exact_scaled {value : NoteValue} (scales : value.base ≠ .drum) :
    value.exact fine = factor * value.exact coarse := by
  obtain ⟨count, length⟩ := NoteBase.exists_sub_eq scales
  rw [NoteValue.exact, NoteValue.exact, length, length, Modifier.apply_six_mul,
    Modifier.apply_six_mul, finer, Nat.mul_left_comm count, Nat.mul_left_comm _ factor]

theorem NoteValue.exactSum_scaled {values : List NoteValue}
    (scales : ∀ value ∈ values, value.base ≠ .drum) :
    NoteValue.exactSum fine values = factor * NoteValue.exactSum coarse values := by
  induction values with
  | nil => rfl
  | cons value values ih =>
      obtain ⟨first, others⟩ := List.forall_mem_cons.mp scales
      have rest := ih others
      simp only [NoteValue.exactSum, List.map_cons, List.sum_cons] at rest ⊢
      rw [rest, NoteValue.exact_scaled finer first, Nat.mul_add]

theorem NoteValue.sumTicks_times {values : List NoteValue}
    (scales : ∀ value ∈ values, value.base ≠ .drum)
    (small : factor * NoteValue.exactSum coarse values < 2 ^ 63 - 1) :
    NoteValue.sumTicks fine values = (NoteValue.sumTicks coarse values).times factor := by
  have scaled := NoteValue.exactSum_scaled finer scales
  have grows : NoteValue.exactSum coarse values ≤ factor * NoteValue.exactSum coarse values :=
    Nat.le_mul_of_pos_left _ (factor_pos finer)
  refine Ticks.eq_times (NoteValue.sumTicks_sub (by omega)) ?_ small
  rw [NoteValue.sumTicks_sub (by omega), scaled]

namespace Cue

variable {cue : Cue} (scales : cue.Scales)

include scales

theorem exactDuration_scaled :
    cue.exactDuration fine = factor * cue.exactDuration coarse := by
  obtain ⟨origin, action⟩ := cue
  cases action with
  | tone tone => exact NoteValue.exact_scaled finer (scales tone.value (by simp [Cue.noteValues]))
  | hits group => exact absurd rfl (scales .drum (by simp [Cue.noteValues]))
  | bend bend =>
      refine NoteValue.exactSum_scaled finer fun value member => scales value ?_
      simp [Cue.noteValues, member]
  | meter meter => rfl
  | tempo bpm => rfl

omit finer in
theorem delay_scales : ∀ value ∈ cue.delay, value.base ≠ .drum := by
  intro value member
  exact scales value (by simp [Cue.noteValues, member])

omit finer in
theorem pause_scales : ∀ value ∈ cue.pause, value.base ≠ .drum := by
  intro value member
  exact scales value (by simp [Cue.noteValues, member])

theorem extent_scaled : cue.extent fine = factor * cue.extent coarse := by
  rw [Cue.extent, Cue.extent, exactDuration_scaled finer scales,
    NoteValue.exactSum_scaled finer (delay_scales scales),
    NoteValue.exactSum_scaled finer (pause_scales scales), Nat.mul_add, Nat.mul_add]

theorem duration_times (small : factor * cue.exactDuration coarse < 2 ^ 63 - 1) :
    cue.duration fine = (cue.duration coarse).times factor := by
  have scaled := exactDuration_scaled finer scales
  have grows : cue.exactDuration coarse ≤ factor * cue.exactDuration coarse :=
    Nat.le_mul_of_pos_left _ (factor_pos finer)
  refine Ticks.eq_times (Cue.duration_sub (by omega)) ?_ small
  rw [Cue.duration_sub (by omega), scaled]

end Cue

theorem extent_scaled {cues : List Cue} (scales : ∀ cue ∈ cues, cue.Scales) :
    extent fine cues = factor * extent coarse cues := by
  induction cues with
  | nil => rfl
  | cons cue cues ih =>
      obtain ⟨first, others⟩ := List.forall_mem_cons.mp scales
      rw [extent_cons, extent_cons, Cue.extent_scaled finer first, ih others, Nat.mul_add]

end

/-! ## Placement -/

section
variable (factor : Nat)

/-- The timing of a cue with all times multiplied. -/
def Timing.times : Timing → Timing
  | .instant => .instant
  | .span duration delay pause =>
    .span (duration.times factor) (delay.map (Ticks.times factor)) (pause.times factor)

/-- A span with both times multiplied. -/
def Span.times (span : Span) : Span := ⟨span.start.times factor, span.stop.times factor⟩

/-- A placement with all times multiplied. -/
def Placement.times : Placement → Placement
  | .instant tick => .instant (tick.times factor)
  | .span s => .span (s.times factor)

/-- An error with the times that it names multiplied. -/
def TrackError.times : TrackError → TrackError
  | .longDelay origin delay available =>
    .longDelay origin (delay.times factor) (available.times factor)
  | error => error

theorem Span.getD_times (previous : Option Span) :
    (previous.map (Span.times factor)).getD {} = (previous.getD {}).times factor := by
  cases previous with
  | none =>
      rw [Option.map_none, Option.getD_none, Span.times, Ticks.times_zero]
  | some span => rfl

end

section
variable {coarse fine : Resolution} {factor : Nat}
  (finer : fine.perQuarter = factor * coarse.perQuarter)

include finer

/-- A cue without drum hits has its timing multiplied. -/
theorem Cue.timing_times {cue : Cue} (scales : cue.Scales)
    (small : factor * cue.extent coarse < 2 ^ 63 - 1) :
    cue.timing fine = (cue.timing coarse).times factor := by
  rw [Cue.extent, Nat.mul_add, Nat.mul_add] at small
  rw [Cue.timing_eq, Cue.timing_eq]
  cases cue.isSounding with
  | false => rfl
  | true =>
      simp only [if_true, Timing.times]
      rw [Cue.duration_times finer scales (by omega),
        NoteValue.sumTicks_times finer (Cue.pause_scales scales) (by omega),
        NoteValue.sumTicks_times finer (Cue.delay_scales scales) (by omega)]
      split
      · rfl
      · rfl

end

/-- A multiplied cue starts at the multiplied time, or exceeds the multiplied available time. -/
theorem startAfter_times {factor : Nat} (positive : 0 < factor) {previous : Option Span}
    {delay : Option Ticks} {pause : Ticks} {reach : Nat}
    (within : (previous.getD {}).Within reach) (delayed : 0 ≤ (delay.getD 0).sub)
    (paused : 0 ≤ pause.sub)
    (small : factor * (reach + (delay.getD 0).sub + pause.sub) < 2 ^ 63 - 1) :
    startAfter (previous.map (Span.times factor)) (delay.map (Ticks.times factor))
        (pause.times factor) =
      ((startAfter previous delay pause).map (Ticks.times factor)).mapError
        (Ticks.times factor) := by
  obtain ⟨first, second, third⟩ := within
  cases delay with
  | none =>
      rw [Option.map_none, startAfter_paused, startAfter_paused, Span.getD_times]
      generalize previous.getD {} = last at first second third
      rw [Option.getD_none, Ticks.zero_sub] at small
      have sum : (last.stop + pause).times factor = last.stop.times factor + pause.times factor :=
        Ticks.times_add positive (by omega) paused (Ticks.mul_lt_of_le (by omega) small)
      simp only [Span.times, Except.map, Except.mapError, sum]
  | some delay =>
      rw [Option.map_some, startAfter_delayed, startAfter_delayed, Span.getD_times]
      generalize previous.getD {} = last at first second third
      rw [Option.getD_some] at delayed small
      have last_roomy : last.stop.Roomy factor := .of_le (by omega) (by omega) small
      have distance : (last.stop - last.start).times factor =
          last.stop.times factor - last.start.times factor :=
        Ticks.times_distance first second last_roomy
      have available : (last.stop - last.start).Roomy factor := by
        have upper := last.stop.upper
        have length : (last.stop - last.start).sub = last.stop.sub - last.start.sub :=
          Ticks.sub_sub (by omega) (by omega)
        exact .of_le (by omega) (by omega) last_roomy.2
      have compared : (last.stop - last.start).times factor < delay.times factor ↔
          last.stop - last.start < delay :=
        Ticks.times_lt_times positive available (.of_le delayed (by omega) small)
      have sum : (last.start + delay).times factor = last.start.times factor + delay.times factor :=
        Ticks.times_add positive first delayed (Ticks.mul_lt_of_le (by omega) small)
      simp only [Option.isSome_map, Span.times, ← distance, compared, ← sum]
      split
      · rfl
      · rfl

theorem Ticks.getD_times (factor : Nat) (delay : Option Ticks) :
    (delay.map (Ticks.times factor)).getD 0 = (delay.getD 0).times factor := by
  cases delay with
  | none => exact Ticks.times_zero.symm
  | some delay => rfl

/-- The invariant of a run is that the last span lies between zero and what the cues so far
reach. -/
theorem placeFrom_times {coarse fine : Resolution} {factor : Nat}
    (finer : fine.perQuarter = factor * coarse.perQuarter) {cues : List Cue}
    {previous : Option Span} {reach : Nat} (within : (previous.getD {}).Within reach)
    (scales : ∀ cue ∈ cues, cue.Scales)
    (small : factor * (reach + extent coarse cues) < 2 ^ 63 - 1) :
    placeFrom fine (previous.map (Span.times factor)) cues =
      ((placeFrom coarse previous cues).map (List.map (Placement.times factor))).mapError
        (TrackError.times factor) := by
  induction cues generalizing previous reach with
  | nil => rfl
  | cons cue cues ih =>
      obtain ⟨first, others⟩ := List.forall_mem_cons.mp scales
      have positive := factor_pos finer
      rw [extent_cons, ← Nat.add_assoc] at small
      have here : factor * (reach + cue.extent coarse) < 2 ^ 63 - 1 :=
        Nat.lt_of_le_of_lt (Nat.mul_le_mul_left factor (by omega)) small
      have grows : reach + cue.extent coarse ≤ factor * (reach + cue.extent coarse) :=
        Nat.le_mul_of_pos_left _ positive
      have scaled := Cue.timing_times finer first
        (Nat.lt_of_le_of_lt (Nat.mul_le_mul_left factor (by omega)) here)
      cases timing : cue.timing coarse with
      | instant =>
          rw [timing] at scaled
          rw [placeFrom_of_instant scaled, placeFrom_of_instant timing, Span.getD_times,
            ih within others (Nat.lt_of_le_of_lt (Nat.mul_le_mul_left factor (by omega)) small)]
          cases placeFrom coarse previous cues with
          | ok placements => rfl
          | error cause => rfl
      | span duration delay pause =>
          obtain ⟨length, delayed, paused⟩ := Cue.timing_sub (by omega) timing
          have asked : reach + (delay.getD 0).sub + pause.sub ≤
              (reach + cue.extent coarse : Nat) := by
            unfold Cue.extent
            omega
          have room : (factor : Int) * (reach + cue.extent coarse : Nat) < 2 ^ 63 - 1 := by
            rw [← Int.natCast_mul]
            omega
          have starts := startAfter_times positive within (by omega) (by omega)
            (Ticks.mul_lt_of_le asked room)
          rw [timing] at scaled
          cases started : startAfter previous delay pause with
          | error available =>
              rw [started] at starts
              rw [placeFrom_of_refused scaled starts, placeFrom_of_refused timing started]
              simp only [Except.map, Except.mapError, TrackError.times, Ticks.getD_times]
          | ok start =>
              rw [started] at starts
              rw [placeFrom_of_started scaled starts, placeFrom_of_started timing started]
              obtain ⟨inside, stop⟩ := startAfter_within within (by omega) timing started
              have rest := @ih (some ⟨start, start + duration⟩) _ inside others small
              have span : Span.times factor ⟨start, start + duration⟩ =
                  ⟨start.times factor, start.times factor + duration.times factor⟩ := by
                have last : start.sub + duration.sub ≤ (reach + cue.extent coarse : Nat) := by
                  have reached := inside.2.2
                  simp only at reached
                  omega
                rw [Span.times, Ticks.times_add positive inside.1 (by omega)
                  (Ticks.mul_lt_of_le last room)]
              rw [Option.map_some, span] at rest
              rw [rest]
              cases placeFrom coarse (some ⟨start, start + duration⟩) cues with
              | ok placements => rw [← span]; rfl
              | error cause => rfl

end MidiScore
