import Mathlib.Algebra.Order.BigOperators.Group.List
import Mathlib.Algebra.Order.Ring.Nat
import Mathlib.Data.List.Forall2
import MidiScore.Proofs.MarkOrder
import MidiScore.Proofs.Success

/-!
# Exact placement

Times are 64-bit words whose sums stop at the ends of the range.  As long as the sum of all
lengths of a track stays below the last representable time, no sum on the way does.  Then the
times of a placed track are those of exact arithmetic.

*Lengths.*  `NoteValue.exact` and `Cue.exactDuration` are lengths as natural numbers of
sub-ticks, and `Cue.extent` is all that a cue can add to the time of its track.

*Placement.*  One step starts a cue at an exact time (`startAfter_sub`).  The invariant of a run is
that the last sounding cue lies between zero and what the cues so far can reach (`Span.Within`).
So every cue is placed between zero and the reach of the whole track, and a sounding one ends its
duration after its start (`placeFrom_placed`).

*Marks.*  The timeline of placed cues has one beginning for every cue and one end for every
sounding one, which `Timeline.mem_begins` and `Timeline.mem_ends` read off.
-/

namespace MidiScore

/-! ## Sums in range -/

namespace Ticks

theorem ofSub_sub {n : Int} (lower : -2 ^ 63 ≤ n) (upper : n ≤ 2 ^ 63 - 1) : (ofSub n).sub = n := by
  simp only [ofSub]
  omega

@[simp] theorem zero_sub : (0 : Ticks).sub = 0 := rfl

theorem add_sub {a b : Ticks} (lower : -2 ^ 63 ≤ a.sub + b.sub)
    (upper : a.sub + b.sub ≤ 2 ^ 63 - 1) : (a + b).sub = a.sub + b.sub :=
  ofSub_sub lower upper

theorem sub_sub {a b : Ticks} (lower : -2 ^ 63 ≤ a.sub - b.sub)
    (upper : a.sub - b.sub ≤ 2 ^ 63 - 1) : (a - b).sub = a.sub - b.sub :=
  ofSub_sub lower upper

/-- A sum does not go backwards, even where it stops at the end of the range. -/
theorem le_add {a b : Ticks} (positive : 0 ≤ b.sub) : a ≤ a + b := by
  have upper := a.upper
  have lower := a.lower
  have sum : (a + b).sub = max (-2 ^ 63) (min (2 ^ 63 - 1) (a.sub + b.sub)) := rfl
  rw [le_iff]
  omega

end Ticks

/-! ## Exact lengths -/

namespace NoteValue

/-- The length of a note value in sub-ticks. -/
def exact (resolution : Resolution) (value : NoteValue) : Nat :=
  value.modifier.apply (value.base.sub resolution)

/-- The total length of note values in sub-ticks. -/
def exactSum (resolution : Resolution) (values : List NoteValue) : Nat :=
  (values.map (exact resolution)).sum

theorem base_sub_le (resolution : Resolution) (base : NoteBase) : base.sub resolution ≤ 49152 := by
  have small := resolution.small
  cases base <;> simp only [NoteBase.sub] <;> omega

/-- The longest note value is a dotted whole note at the finest resolution. -/
theorem exact_le (resolution : Resolution) (value : NoteValue) :
    value.exact resolution ≤ 73728 := by
  have base := base_sub_le resolution value.base
  unfold exact
  cases value.modifier with
  | plain => simp only [Modifier.apply]; omega
  | dotted => simp only [Modifier.apply]; omega
  | triplet => simp only [Modifier.apply]; omega

theorem ticks_sub (resolution : Resolution) (value : NoteValue) :
    (value.ticks resolution).sub = value.exact resolution := by
  have short := value.exact_le resolution
  exact Ticks.ofSub_sub (by omega) (by unfold exact at short; omega)

/-- Lengths that are added to a time never take it below zero. -/
theorem sumFrom_nonneg (resolution : Resolution) : ∀ (values : List NoteValue) (total : Ticks),
    0 ≤ total.sub → 0 ≤ (Ticks.sumFrom total (values.map (ticks resolution))).value.sub
  | [], _, positive => positive
  | value :: values, total, positive => by
      have length := ticks_sub resolution value
      have next : total ≤ total + value.ticks resolution := Ticks.le_add (by omega)
      exact sumFrom_nonneg resolution values _ (Int.le_trans positive next)

/-- Lengths that are added to a time in range give the exact sum. -/
theorem sumFrom_sub (resolution : Resolution) : ∀ (values : List NoteValue) (total : Ticks),
    0 ≤ total.sub → total.sub + exactSum resolution values ≤ 2 ^ 63 - 1 →
      (Ticks.sumFrom total (values.map (ticks resolution))).value.sub =
        total.sub + exactSum resolution values
  | [], total, _, _ => by simp [exactSum, Ticks.sumFrom]
  | value :: values, total, positive, small => by
      simp only [exactSum, List.map_cons, List.sum_cons, Int.natCast_add] at small ⊢
      have length := ticks_sub resolution value
      have next : (total + value.ticks resolution).sub = total.sub + value.exact resolution := by
        rw [Ticks.add_sub (by omega) (by omega), length]
      have rest := sumFrom_sub resolution values (total + value.ticks resolution) (by omega) (by
        rw [exactSum]; omega)
      rw [next, exactSum] at rest
      exact rest.trans (Int.add_assoc ..)

theorem sumTicks_nonneg (resolution : Resolution) (values : List NoteValue) :
    0 ≤ (sumTicks resolution values).sub :=
  sumFrom_nonneg resolution values 0 (Int.le_refl 0)

/-- A sum of lengths is exact as long as it is in range. -/
theorem sumTicks_sub {resolution : Resolution} {values : List NoteValue}
    (small : exactSum resolution values < 2 ^ 63) :
    (sumTicks resolution values).sub = exactSum resolution values := by
  have total := sumFrom_sub resolution values 0 (by decide) (by rw [Ticks.zero_sub]; omega)
  rwa [Ticks.zero_sub, Int.zero_add] at total

end NoteValue

namespace Cue

/-- The time between start and end in sub-ticks. -/
def exactDuration (resolution : Resolution) (cue : Cue) : Nat :=
  match cue.action with
  | .tone tone => tone.value.exact resolution
  | .hits _ => NoteValue.drum.exact resolution
  | .bend bend => NoteValue.exactSum resolution bend.length
  | .meter _ => 0
  | .tempo _ => 0

/-- All that a cue can add to the time of its track: its duration, its delay and its pause. -/
def extent (resolution : Resolution) (cue : Cue) : Nat :=
  cue.exactDuration resolution + NoteValue.exactSum resolution cue.delay +
    NoteValue.exactSum resolution cue.pause

theorem duration_nonneg (resolution : Resolution) (cue : Cue) :
    0 ≤ (cue.duration resolution).sub := by
  obtain ⟨origin, action⟩ := cue
  cases action with
  | tone tone => exact NoteValue.ticks_sub resolution tone.value ▸ Int.natCast_nonneg _
  | hits group => exact NoteValue.ticks_sub resolution .drum ▸ Int.natCast_nonneg _
  | bend bend => exact NoteValue.sumTicks_nonneg resolution bend.length
  | meter meter => exact Int.le_refl 0
  | tempo bpm => exact Int.le_refl 0

theorem duration_sub {resolution : Resolution} {cue : Cue}
    (small : cue.exactDuration resolution < 2 ^ 63) :
    (cue.duration resolution).sub = cue.exactDuration resolution := by
  obtain ⟨origin, action⟩ := cue
  cases action with
  | tone tone => exact NoteValue.ticks_sub resolution tone.value
  | hits group => exact NoteValue.ticks_sub resolution .drum
  | bend bend => exact NoteValue.sumTicks_sub small
  | meter meter => rfl
  | tempo bpm => rfl

end Cue

/-- All that cues can add to the time of their track. -/
def extent (resolution : Resolution) (cues : List Cue) : Nat :=
  (cues.map (Cue.extent resolution)).sum

theorem extent_cons (resolution : Resolution) (cue : Cue) (cues : List Cue) :
    extent resolution (cue :: cues) = cue.extent resolution + extent resolution cues := by
  simp [extent]

theorem extent_le_of_mem (resolution : Resolution) {cue : Cue} {cues : List Cue}
    (member : cue ∈ cues) : cue.extent resolution ≤ extent resolution cues :=
  List.le_sum_of_mem (List.mem_map_of_mem member)

theorem exactDuration_le_extent (resolution : Resolution) {cue : Cue} {cues : List Cue}
    (member : cue ∈ cues) : cue.exactDuration resolution ≤ extent resolution cues := by
  have whole := extent_le_of_mem resolution member
  unfold Cue.extent at whole
  omega

/-! ## Steps -/

/-- Controls are instants, and everything else takes time. -/
theorem Cue.timing_eq_instant {resolution : Resolution} {cue : Cue} :
    cue.timing resolution = .instant ↔ cue.isSounding = false := by
  rw [Cue.timing_eq]
  cases cue.isSounding <;> simp

theorem Cue.timing_eq_span {resolution : Resolution} {cue : Cue} {duration pause : Ticks}
    {delay : Option Ticks} (timing : cue.timing resolution = .span duration delay pause) :
    cue.isSounding = true ∧ duration = cue.duration resolution ∧
      delay = (if cue.delay.isEmpty then none else some (NoteValue.sumTicks resolution cue.delay)) ∧
      pause = NoteValue.sumTicks resolution cue.pause := by
  rw [Cue.timing_eq] at timing
  split at timing
  case isFalse => cases timing
  case isTrue sounding =>
    cases timing
    exact ⟨sounding, rfl, rfl, rfl⟩

/-- The times that a sounding cue asks for are exact. -/
theorem Cue.timing_sub {resolution : Resolution} {cue : Cue} {duration pause : Ticks}
    {delay : Option Ticks} (small : cue.extent resolution < 2 ^ 63)
    (timing : cue.timing resolution = .span duration delay pause) :
    duration.sub = cue.exactDuration resolution ∧
      (delay.getD 0).sub = NoteValue.exactSum resolution cue.delay ∧
      pause.sub = NoteValue.exactSum resolution cue.pause := by
  obtain ⟨-, rfl, rfl, rfl⟩ := Cue.timing_eq_span timing
  unfold Cue.extent at small
  refine ⟨Cue.duration_sub (by omega), ?_, NoteValue.sumTicks_sub (by omega)⟩
  cases written : cue.delay with
  | nil => rfl
  | cons value values =>
      rw [written] at small
      exact NoteValue.sumTicks_sub (by omega)

/-- The time that a cue waits for is exact. -/
theorem Cue.wait_sub {resolution : Resolution} {cue : Cue}
    (small : cue.extent resolution < 2 ^ 63) :
    (cue.wait resolution).sub =
      NoteValue.exactSum resolution cue.delay + NoteValue.exactSum resolution cue.pause := by
  unfold Cue.extent at small
  have delayed : NoteValue.exactSum resolution cue.delay < 2 ^ 63 := by omega
  have paused : NoteValue.exactSum resolution cue.pause < 2 ^ 63 := by omega
  have delay := NoteValue.sumTicks_sub delayed
  have pause := NoteValue.sumTicks_sub paused
  have both : (NoteValue.sumTicks resolution cue.delay +
      NoteValue.sumTicks resolution cue.pause).sub =
        NoteValue.exactSum resolution cue.delay + NoteValue.exactSum resolution cue.pause := by
    rw [Ticks.add_sub (by omega) (by omega), delay, pause]
  obtain ⟨origin, action⟩ := cue
  cases action with
  | tone tone => exact both
  | hits group => exact both
  | bend bend => exact delay.trans (Int.add_zero _).symm
  | meter meter => rfl
  | tempo bpm => rfl

section
variable {resolution : Resolution} {previous : Option Span} {cue : Cue}

/-- A control stands at the end of the last sounding cue.  A sounding cue starts after it and is
the last one for the cues that follow. -/
theorem placeFrom_cons {cues : List Cue} {placements : List Placement}
    (placed : placeFrom resolution previous (cue :: cues) = .ok placements) :
    (cue.timing resolution = .instant ∧ ∃ others,
      placeFrom resolution previous cues = .ok others ∧
        placements = .instant (previous.getD {}).stop :: others) ∨
      ∃ duration delay pause start others,
        cue.timing resolution = .span duration delay pause ∧
          startAfter previous delay pause = .ok start ∧
          placeFrom resolution (some ⟨start, start + duration⟩) cues = .ok others ∧
          placements = .span ⟨start, start + duration⟩ :: others := by
  cases timing : cue.timing resolution with
  | instant =>
      rw [placeFrom_of_instant timing] at placed
      obtain ⟨others, otherPlaced, rfl⟩ := map_eq_ok.mp placed
      exact Or.inl ⟨rfl, others, otherPlaced, rfl⟩
  | span duration delay pause =>
      cases started : startAfter previous delay pause with
      | error available =>
          rw [placeFrom_of_refused timing started] at placed
          cases placed
      | ok start =>
          rw [placeFrom_of_started timing started] at placed
          obtain ⟨others, otherPlaced, rfl⟩ := map_eq_ok.mp placed
          exact Or.inr ⟨duration, delay, pause, start, others, rfl, started, otherPlaced, rfl⟩

/-- Placement fails after a control or a sounding cue that is placed, or at a sounding cue whose
delay is too long. -/
theorem placeFrom_cons_error {cues : List Cue} {cause : TrackError}
    (failed : placeFrom resolution previous (cue :: cues) = .error cause) :
    (cue.timing resolution = .instant ∧ placeFrom resolution previous cues = .error cause) ∨
      ∃ duration delay pause, cue.timing resolution = .span duration delay pause ∧
        ((∃ available, startAfter previous delay pause = .error available ∧
            cause = .longDelay cue.origin (delay.getD 0) available) ∨
          ∃ start, startAfter previous delay pause = .ok start ∧
            placeFrom resolution (some ⟨start, start + duration⟩) cues = .error cause) := by
  cases timing : cue.timing resolution with
  | instant =>
      rw [placeFrom_of_instant timing] at failed
      exact Or.inl ⟨rfl, map_eq_error.mp failed⟩
  | span duration delay pause =>
      refine Or.inr ⟨duration, delay, pause, rfl, ?_⟩
      cases started : startAfter previous delay pause with
      | error available =>
          rw [placeFrom_of_refused timing started] at failed
          cases failed
          exact Or.inl ⟨available, rfl, rfl⟩
      | ok start =>
          rw [placeFrom_of_started timing started] at failed
          exact Or.inr ⟨start, rfl, map_eq_error.mp failed⟩

end

/-- A timeline is built exactly from cues that can be placed. -/
theorem Timeline.ofCues_eq_ok {resolution : Resolution} {cues : List Cue} {timeline : Timeline} :
    Timeline.ofCues resolution cues = .ok timeline ↔ ∃ placements,
      place resolution cues = .ok placements ∧ Timeline.ofPlacements placements = timeline := by
  rw [Timeline.ofCues_eq]
  exact map_eq_ok

/-- A span that lies between zero and a reach. -/
def Span.Within (span : Span) (reach : Nat) : Prop :=
  0 ≤ span.start.sub ∧ span.start.sub ≤ span.stop.sub ∧ span.stop.sub ≤ reach

theorem Span.within_default (reach : Nat) : ({} : Span).Within reach :=
  ⟨Int.le_refl 0, Int.le_refl 0, Int.natCast_nonneg reach⟩

/-- A cue starts its delay after the last start, or its pause after the last end. -/
theorem startAfter_sub {previous : Option Span} {delay : Option Ticks} {pause start : Ticks}
    {reach : Nat} (within : (previous.getD {}).Within reach)
    (delayed : 0 ≤ (delay.getD 0).sub) (paused : 0 ≤ pause.sub)
    (small : reach + (delay.getD 0).sub + pause.sub < 2 ^ 63)
    (started : startAfter previous delay pause = .ok start) :
    start.sub = match delay with
      | none => (previous.getD {}).stop.sub + pause.sub
      | some delay => (previous.getD {}).start.sub + delay.sub := by
  obtain ⟨first, second, third⟩ := within
  cases delay with
  | none =>
      cases started
      rw [Option.getD_none, Ticks.zero_sub] at small
      exact Ticks.add_sub (by omega) (by omega)
  | some delay =>
      rw [Option.getD_some] at delayed small
      rw [startAfter_delayed] at started
      split at started
      · cases started
      · cases started
        exact Ticks.add_sub (by omega) (by omega)

/-- The span of a cue reaches no farther than its extent beyond the cues before it. -/
theorem startAfter_within {resolution : Resolution} {cue : Cue} {previous : Option Span}
    {duration pause start : Ticks} {delay : Option Ticks} {reach : Nat}
    (within : (previous.getD {}).Within reach)
    (small : reach + cue.extent resolution < 2 ^ 63)
    (timing : cue.timing resolution = .span duration delay pause)
    (started : startAfter previous delay pause = .ok start) :
    (Span.mk start (start + duration)).Within (reach + cue.extent resolution) ∧
      (start + duration).sub = start.sub + cue.exactDuration resolution := by
  obtain ⟨length, delayed, paused⟩ := Cue.timing_sub (by omega) timing
  have begun := startAfter_sub within (by omega) (by omega)
    (by unfold Cue.extent at small; omega) started
  obtain ⟨first, second, third⟩ := within
  have bounds : 0 ≤ start.sub ∧
      start.sub + cue.exactDuration resolution ≤ reach + cue.extent resolution := by
    unfold Cue.extent
    cases delay with
    | none => simp only at begun; omega
    | some delay =>
        rw [Option.getD_some] at delayed
        simp only at begun
        omega
  have stop : (start + duration).sub = start.sub + cue.exactDuration resolution := by
    rw [Ticks.add_sub (by omega) (by omega), length]
  refine ⟨⟨bounds.1, ?_, ?_⟩, stop⟩
  · simp only [stop]
    omega
  · simp only [stop]
    omega

/-! ## Runs -/

/-- A placement of the kind of its cue: one moment for a control, and for a sounding cue a span
that does not go backwards. -/
def Fits (cue : Cue) : Placement → Prop
  | .instant _ => cue.isSounding = false
  | .span span => cue.isSounding = true ∧ span.start ≤ span.stop

/-- Placement keeps to the kinds of cues, also where times reach the end of the range. -/
theorem placeFrom_fits {resolution : Resolution} : ∀ {cues : List Cue} {previous : Option Span}
    {placements : List Placement}, placeFrom resolution previous cues = .ok placements →
      List.Forall₂ Fits cues placements
  | [], _, _, placed => by
      cases placed
      exact List.Forall₂.nil
  | cue :: cues, previous, placements, placed => by
      rcases placeFrom_cons placed with ⟨timing, others, otherPlaced, rfl⟩ |
        ⟨duration, delay, pause, start, others, timing, -, otherPlaced, rfl⟩
      · exact List.Forall₂.cons (Cue.timing_eq_instant.mp timing) (placeFrom_fits otherPlaced)
      · obtain ⟨sounding, rfl, -⟩ := Cue.timing_eq_span timing
        exact List.Forall₂.cons ⟨sounding, Ticks.le_add (cue.duration_nonneg resolution)⟩
          (placeFrom_fits otherPlaced)

/-- A sounding cue does not start before the one that it follows. -/
theorem le_startAfter {resolution : Resolution} {cue : Cue} {previous : Option Span}
    {duration pause start : Ticks} {delay : Option Ticks}
    (forward : (previous.getD {}).start ≤ (previous.getD {}).stop)
    (timing : cue.timing resolution = .span duration delay pause)
    (started : startAfter previous delay pause = .ok start) :
    (previous.getD {}).start ≤ start := by
  obtain ⟨-, -, written, rfl⟩ := Cue.timing_eq_span timing
  cases delay with
  | none =>
      cases started
      exact Int.le_trans forward (Ticks.le_add (NoteValue.sumTicks_nonneg resolution cue.pause))
  | some delay =>
      rw [startAfter_delayed] at started
      split at written
      · cases written
      · cases written
        split at started
        · cases started
        · cases started
          exact Ticks.le_add (NoteValue.sumTicks_nonneg resolution cue.delay)

/-- Nothing is placed before the start of a sounding cue that it follows, also where times reach the
end of the range. -/
theorem placeFrom_starts {resolution : Resolution} : ∀ {cues : List Cue} {previous : Option Span}
    {placements : List Placement}, (previous.getD {}).start ≤ (previous.getD {}).stop →
      placeFrom resolution previous cues = .ok placements →
      (∀ placement ∈ placements, (previous.getD {}).start ≤ placement.start) ∧
        placements.Pairwise fun earlier later =>
          ∀ span, earlier = .span span → span.start ≤ later.start
  | [], _, _, _, placed => by
      cases placed
      exact ⟨by simp, List.Pairwise.nil⟩
  | cue :: cues, previous, placements, forward, placed => by
      rcases placeFrom_cons placed with ⟨-, others, otherPlaced, rfl⟩ |
        ⟨duration, delay, pause, start, others, timing, started, otherPlaced, rfl⟩
      · obtain ⟨after, starts⟩ := placeFrom_starts forward otherPlaced
        exact ⟨List.forall_mem_cons.mpr ⟨forward, after⟩,
          List.Pairwise.cons (by simp) starts⟩
      · have later := le_startAfter forward timing started
        obtain ⟨-, rfl, -⟩ := Cue.timing_eq_span timing
        have length : start ≤ start + cue.duration resolution :=
          Ticks.le_add (cue.duration_nonneg resolution)
        -- the new span takes the place of the last one, and nothing after it starts earlier
        obtain ⟨after, starts⟩ := placeFrom_starts
          (show ((some (Span.mk start (start + cue.duration resolution))).getD {}).start ≤ _ from
            length) otherPlaced
        refine ⟨List.forall_mem_cons.mpr ⟨later, fun other member =>
          Int.le_trans later (after other member)⟩, List.Pairwise.cons ?_ starts⟩
        rintro other member span ⟨⟩
        exact after other member

theorem place_starts {resolution : Resolution} {cues : List Cue} {placements : List Placement}
    (placed : place resolution cues = .ok placements) :
    (∀ placement ∈ placements, 0 ≤ placement.start.sub) ∧
      placements.Pairwise fun earlier later =>
        ∀ span, earlier = .span span → span.start ≤ later.start :=
  placeFrom_starts (show ((none : Option Span).getD {}).start ≤ _ from Int.le_refl 0) placed

/-- How a cue is placed between zero and a reach: at one moment, or for its duration. -/
def Placed (resolution : Resolution) (reach : Nat) (cue : Cue) : Placement → Prop
  | .instant tick => cue.isSounding = false ∧ 0 ≤ tick.sub ∧ tick.sub ≤ reach
  | .span span => cue.isSounding = true ∧ span.Within reach ∧
      span.stop.sub = span.start.sub + cue.exactDuration resolution

/-- What is placed within a reach is placed within a farther one. -/
theorem Placed.mono {resolution : Resolution} {reach farther : Nat} {cue : Cue}
    {placement : Placement} (placed : Placed resolution reach cue placement)
    (le : reach ≤ farther) : Placed resolution farther cue placement := by
  cases placement with
  | instant tick =>
      obtain ⟨control, first, last⟩ := placed
      exact ⟨control, first, by omega⟩
  | span span =>
      obtain ⟨sounding, ⟨first, second, third⟩, stop⟩ := placed
      exact ⟨sounding, ⟨first, second, by omega⟩, stop⟩

theorem Placed.fits {resolution : Resolution} {reach : Nat} {cue : Cue} {placement : Placement}
    (placed : Placed resolution reach cue placement) : Fits cue placement := by
  cases placement with
  | instant tick => exact placed.1
  | span span => exact ⟨placed.1, placed.2.1.2.1⟩

/-- Cues are placed between zero and what the track can reach. -/
theorem placeFrom_placed {resolution : Resolution} : ∀ {cues : List Cue} {previous : Option Span}
    {placements : List Placement} {reach : Nat}, (previous.getD {}).Within reach →
      reach + extent resolution cues < 2 ^ 63 - 1 →
      placeFrom resolution previous cues = .ok placements →
      List.Forall₂ (Placed resolution (reach + extent resolution cues)) cues placements
  | [], _, placements, _, _, _, placed => by
      cases placed
      exact List.Forall₂.nil
  | cue :: cues, previous, placements, reach, within, small, placed => by
      rw [extent_cons] at small ⊢
      rcases placeFrom_cons placed with ⟨timing, others, otherPlaced, rfl⟩ |
        ⟨duration, delay, pause, start, others, timing, started, otherPlaced, rfl⟩
      · have rest := placeFrom_placed within (by omega) otherPlaced
        obtain ⟨first, second, third⟩ := within
        refine List.Forall₂.cons ⟨Cue.timing_eq_instant.mp timing, ?_, ?_⟩
          (rest.imp fun _ _ other => other.mono (by omega))
        · exact Int.le_trans first second
        · omega
      · -- the new span takes the place of the last one, within the extent of its cue
        obtain ⟨inside, stop⟩ := startAfter_within within (by omega) timing started
        have rest := placeFrom_placed
          (show ((some (Span.mk start (start + duration))).getD {}).Within _ from inside)
          (by omega) otherPlaced
        have here : Placed resolution (reach + cue.extent resolution) cue
          (.span ⟨start, start + duration⟩) := ⟨(Cue.timing_eq_span timing).1, inside, stop⟩
        exact List.Forall₂.cons (here.mono (by omega))
          (rest.imp fun _ _ other => other.mono (by omega))

theorem place_placed {resolution : Resolution} {cues : List Cue} {placements : List Placement}
    (small : extent resolution cues < 2 ^ 63 - 1)
    (placed : place resolution cues = .ok placements) :
    List.Forall₂ (Placed resolution (extent resolution cues)) cues placements := by
  have all := placeFrom_placed (show ((none : Option Span).getD {}).Within 0 from
    Span.within_default 0) (by omega) placed
  rwa [Nat.zero_add] at all

/-! ## Marks -/

namespace Timeline

theorem mem_begins {placements : List Placement} {start : Ticks} {index : Nat} :
    (∃ mark ∈ (ofPlacements placements).begins, mark.tick = start ∧ mark.entry = index) ↔
      ∃ placement, placements[index]? = some placement ∧ placement.start = start := by
  constructor
  · rintro ⟨mark, member, rfl, rfl⟩
    obtain ⟨⟨placement, index⟩, indexed, rfl⟩ := List.mem_map.mp member
    exact ⟨placement, List.mem_zipIdx_iff_getElem?.mp indexed, rfl⟩
  · rintro ⟨placement, found, rfl⟩
    refine ⟨⟨placement.start, index, index⟩, List.mem_map.mpr ?_, rfl, rfl⟩
    exact ⟨(placement, index), List.mem_zipIdx_iff_getElem?.mpr found, rfl⟩

theorem begins_map_entry (placements : List Placement) :
    (ofPlacements placements).begins.map (·.entry) = List.range placements.length := by
  rw [ofPlacements, List.map_map, List.range_eq_range']
  exact List.zipIdx_map_snd 0 placements

theorem ends_map (placements : List Placement) :
    (ofPlacements placements).ends.map (fun mark => (mark.tick, mark.entry)) =
      placements.zipIdx.filterMap fun (placement, index) =>
        placement.stop?.map fun stop => (stop, index) := by
  rw [ofPlacements, List.map_map]
  exact List.zipIdx_map_fst 0 _

theorem mem_ends {placements : List Placement} {stop : Ticks} {index : Nat} :
    (∃ mark ∈ (ofPlacements placements).ends, mark.tick = stop ∧ mark.entry = index) ↔
      ∃ placement, placements[index]? = some placement ∧ placement.stop? = some stop := by
  have member : (∃ mark ∈ (ofPlacements placements).ends, mark.tick = stop ∧ mark.entry = index) ↔
      (stop, index) ∈ (ofPlacements placements).ends.map fun mark => (mark.tick, mark.entry) := by
    simp [List.mem_map]
  rw [member, ends_map, List.mem_filterMap]
  constructor
  · rintro ⟨⟨placement, _⟩, indexed, found⟩
    obtain ⟨_, ends, same⟩ := Option.map_eq_some_iff.mp found
    cases same
    exact ⟨placement, List.mem_zipIdx_iff_getElem?.mp indexed, ends⟩
  · rintro ⟨placement, found, ends⟩
    exact ⟨(placement, index), List.mem_zipIdx_iff_getElem?.mpr found, by simp [ends]⟩

theorem ends_map_entry_nodup (placements : List Placement) :
    ((ofPlacements placements).ends.map (·.entry)).Nodup := by
  have indices : placements.zipIdx.Pairwise fun a b => a.2 < b.2 := by
    rw [← List.pairwise_map (f := Prod.snd), List.zipIdx_map_snd]
    exact List.pairwise_lt_range'
  have stops : ((ofPlacements placements).ends.map fun mark => (mark.tick, mark.entry)).Pairwise
      fun a b => a.2 ≠ b.2 := by
    rw [ends_map]
    refine List.pairwise_filterMap.mpr (indices.imp ?_)
    rintro ⟨placement, index⟩ ⟨other, otherIndex⟩ before stop found otherStop otherFound
    obtain ⟨_, _, rfl⟩ := Option.map_eq_some_iff.mp found
    obtain ⟨_, _, rfl⟩ := Option.map_eq_some_iff.mp otherFound
    exact Nat.ne_of_lt before
  rw [List.pairwise_map] at stops
  exact List.pairwise_map.mpr stops

/-- The marks of placed cues lie between zero and the reach of the track. -/
theorem mark_bounds {resolution : Resolution} {reach : Nat} {cues : List Cue}
    {placements : List Placement} (placed : List.Forall₂ (Placed resolution reach) cues placements)
    {mark : Mark}
    (member : mark ∈ (ofPlacements placements).begins ++ (ofPlacements placements).ends) :
    0 ≤ mark.tick.sub ∧ mark.tick.sub ≤ reach := by
  rcases List.mem_append.mp member with begin | stop
  · obtain ⟨placement, found, same⟩ := mem_begins.mp ⟨mark, begin, rfl, rfl⟩
    obtain ⟨cue, -, here⟩ := exists_of_forall₂_right placed (List.mem_of_getElem? found)
    rw [← same]
    cases placement with
    | instant tick => exact here.2
    | span span =>
        obtain ⟨-, ⟨first, second, third⟩, -⟩ := here
        exact ⟨first, Int.le_trans second third⟩
  · obtain ⟨placement, found, same⟩ := mem_ends.mp ⟨mark, stop, rfl, rfl⟩
    obtain ⟨cue, -, here⟩ := exists_of_forall₂_right placed (List.mem_of_getElem? found)
    cases placement with
    | instant tick => cases same
    | span span =>
        obtain ⟨-, ⟨first, second, third⟩, -⟩ := here
        rw [← Option.some.inj same]
        exact ⟨Int.le_trans first second, third⟩

end Timeline

end MidiScore
