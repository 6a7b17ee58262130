import Mathlib.Data.List.Forall2
import MidiScore.Proofs.MarkOrder

/-!
# What marks emit

Every mark that the merge takes emits its own part of a schedule.  `Cue.Causes` says which
events stand for the beginning and the end of a cue, and `Yields` what the part of one mark
holds: one event of its side at the clamped whole tick of the mark, or nothing for the end of a
control.

The clock that runs along the marks decides waits, deltas and gaps, but not which events there
are.  So one step yields what it should from any clock (`schedule_yields`), and a run of steps
does so mark by mark (`emissions_yield`).
-/

namespace MidiScore

/-! ## Ticks of events -/

/-- Whole ticks are rounded down and cut off at both ends of an unsigned 32-bit word. -/
theorem Ticks.wholeClamped_eq (t : Ticks) :
    (t.wholeClamped : Int) = max 0 (min 0xffffffff (t.sub.fdiv 96)) := by
  have floor : t.whole = t.sub.fdiv 96 := (Int.fdiv_eq_ediv_of_nonneg _ (by decide)).symm
  rw [Ticks.wholeClamped, floor]
  omega

/-! ## Events of cues -/

/-- Whether an event stands for the given side of a cue.  A tone or a group of hits is released
with the keys with which it was struck, and only a sounding cue has an end. -/
def Cue.Causes (cue : Cue) (side : Side) (event : Event) : Prop :=
  match cue.action, side with
  | .tone tone, .start => ∃ wait, event = .noteOn cue.keys tone.velocity wait
  | .tone _, .stop => ∃ duration delta, event = .noteOff cue.keys duration delta
  | .hits group, .start => ∃ wait, event = .noteOn cue.keys group.leader.velocity wait
  | .hits _, .stop => ∃ duration delta, event = .noteOff cue.keys duration delta
  | .bend bend, .start => ∃ wait, event = .bendBegin bend.amount wait
  | .bend _, .stop => ∃ delta, event = .bendEnd delta
  | .meter meter, .start => event = .meter meter
  | .meter _, .stop => False
  | .tempo bpm, .start => event = .tempo bpm
  | .tempo _, .stop => False

theorem Cue.startEvent_causes (resolution : Resolution) (cue : Cue) :
    cue.Causes .start (cue.startEvent resolution).value := by
  obtain ⟨origin, action⟩ := cue
  cases action with
  | tone tone => exact ⟨_, rfl⟩
  | hits group => exact ⟨_, rfl⟩
  | bend bend => exact ⟨_, rfl⟩
  | meter meter => rfl
  | tempo bpm => rfl

/-- A release gives back the keys of its cue, whatever its delta is. -/
theorem Cue.release_value (cue : Cue) (duration delta : Ticks) :
    ∃ given gap, (cue.release duration delta).value = .noteOff cue.keys given gap := by
  unfold Cue.release
  split
  · split
    · exact ⟨_, _, rfl⟩
    · exact ⟨_, _, rfl⟩
  · exact ⟨_, _, rfl⟩

/-- A bend ends whatever its delta is. -/
theorem Cue.bendEnd_value (cue : Cue) (delta : Ticks) :
    ∃ gap, (cue.bendEnd delta).value = .bendEnd gap := by
  unfold Cue.bendEnd
  split
  · exact ⟨_, rfl⟩
  · exact ⟨_, rfl⟩

/-- A sounding cue has an event at its end. -/
theorem Cue.stopEvent?_of_sounding {resolution : Resolution} {cue : Cue}
    (sounding : cue.isSounding = true) (stop delta : Ticks) :
    ∃ event, cue.stopEvent? resolution stop delta = some event ∧ cue.Causes .stop event.value := by
  obtain ⟨origin, action⟩ := cue
  cases action with
  | tone tone => exact ⟨_, rfl, Cue.release_value _ _ delta⟩
  | hits group => exact ⟨_, rfl, Cue.release_value _ _ delta⟩
  | bend bend => exact ⟨_, rfl, Cue.bendEnd_value _ delta⟩
  | meter meter => cases sounding
  | tempo bpm => cases sounding

/-- A control has none. -/
theorem Cue.stopEvent?_of_control {resolution : Resolution} {cue : Cue}
    (control : cue.isSounding = false) (stop delta : Ticks) :
    cue.stopEvent? resolution stop delta = none := by
  obtain ⟨origin, action⟩ := cue
  cases action with
  | tone tone => cases control
  | hits group => cases control
  | bend bend => cases control
  | meter meter => rfl
  | tempo bpm => rfl

/-! ## Parts of a schedule -/

/-- What the part of one mark in a schedule holds.  A beginning, and the end of a sounding cue,
give one event of their side at the tick of the mark.  The end of a control gives nothing. -/
def Yields (cues : List Cue) (mark : Side × Mark) (part : Schedule) : Prop :=
  ∃ cue, cues[mark.2.entry]? = some cue ∧
    if mark.1 = .start ∨ cue.isSounding then
      ∃ event, part.events = [event] ∧ cue.Causes mark.1 event.event ∧
        (event.tick : Int) = max 0 (min 0xffffffff (mark.2.tick.sub.fdiv 96))
    else part = {}

/-- One mark yields its part, from any clock. -/
theorem schedule_yields {cues : List Cue} {queued : Queued} (attached : queued.Attached cues)
    (resolution : Resolution) (clock : Clock) (side : Side) :
    Yields cues (side, queued.mark) (clock.schedule resolution side queued) := by
  refine ⟨queued.cue, attached, ?_⟩
  cases side with
  | start =>
      rw [if_pos (Or.inl rfl)]
      exact ⟨_, rfl, Cue.startEvent_causes resolution queued.cue, Ticks.wholeClamped_eq _⟩
  | stop =>
      cases sounding : queued.cue.isSounding with
      | true =>
          rw [if_pos (Or.inr rfl)]
          obtain ⟨event, found, causes⟩ := Cue.stopEvent?_of_sounding sounding
            queued.mark.tick (clock.delta queued.mark.tick)
          have part : clock.schedule resolution .stop queued =
              clock.emit queued.mark.tick queued.cue.origin event := by
            rw [Clock.schedule_stop, found]
            rfl
          rw [part]
          exact ⟨_, rfl, causes, Ticks.wholeClamped_eq _⟩
      | false =>
          rw [if_neg (by simp)]
          rw [Clock.schedule_stop, Cue.stopEvent?_of_control sounding]
          rfl

/-- A run of marks yields their parts one after another. -/
theorem emissions_yield {cues : List Cue} (resolution : Resolution) :
    ∀ (clock : Clock) {taken : List (Side × Queued)}, (∀ mark ∈ taken, mark.2.Attached cues) →
      List.Forall₂ (Yields cues) (taken.map sided) (emissions resolution clock taken)
  | _, [], _ => List.Forall₂.nil
  | clock, (side, queued) :: rest, attached => by
      refine List.Forall₂.cons ?_ ?_
      · exact schedule_yields (attached _ (List.mem_cons_self ..)) resolution clock side
      · exact emissions_yield resolution (clock.advance side queued)
          fun mark member => attached mark (List.mem_cons_of_mem _ member)

/-! ## The schedule of a timeline -/

/-- Scheduling takes all marks, but for beginnings at the last representable tick, in the order
of the single key.  Each of them yields its own part, in this order, and the schedule is these
parts and nothing else.  It does not depend on the order of the lists of the timeline. -/
theorem schedule_follows_sortedMarks (resolution : Resolution) {cues : List Cue}
    {timeline : Timeline} (inside : timeline.PointsInto cues) :
    (timeline.order cues).map sided = timeline.sortedMarks cues ∧
      (∃ parts, List.Forall₂ (Yields cues) (timeline.sortedMarks cues) parts ∧
        schedule resolution cues timeline = Schedule.concat parts) ∧
      ∀ other : Timeline, other.begins.Perm timeline.begins → other.ends.Perm timeline.ends →
        schedule resolution cues other = schedule resolution cues timeline := by
  have sorted := Timeline.order_map_sided inside
  refine ⟨sorted, ⟨emissions resolution {} (timeline.order cues), ?_, rfl⟩, ?_⟩
  · rw [← sorted]
    exact emissions_yield resolution {} fun _ => Timeline.attached_of_mem_order
  · intro other begins ends
    rw [schedule_eq, schedule_eq, Timeline.order_eq_of_perm inside begins ends]

/-- A tone and a change of meter. -/
def toneThenMeter : List Cue :=
  [⟨⟨0, none⟩, .tone ⟨.c, 4, .quarter, 100, [], []⟩⟩, ⟨⟨1, none⟩, .meter ⟨3, 4⟩⟩]

/-- Marks with a negative tick, equal sequences, a beginning at the last tick and the end of a
control. -/
def tangledMarks : Timeline where
  begins := [⟨.latest, 0, 0⟩, ⟨.ofSub 96, 0, 1⟩, ⟨.ofSub (-5), 0, 0⟩]
  ends := [⟨.ofSub 96, 3, 1⟩, ⟨.ofSub 96, 3, 0⟩]

theorem tangledMarks_order :
    tangledMarks.PointsInto toneThenMeter ∧ (tangledMarks.order toneThenMeter).map sided =
      [(.start, ⟨.ofSub (-5), 0, 0⟩), (.stop, ⟨.ofSub 96, 3, 0⟩), (.stop, ⟨.ofSub 96, 3, 1⟩),
        (.start, ⟨.ofSub 96, 0, 1⟩)] := by
  have inside : tangledMarks.PointsInto toneThenMeter := by unfold Timeline.PointsInto; decide
  refine ⟨inside, ?_⟩
  rw [(schedule_follows_sortedMarks ⟨4, by decide, by decide⟩ inside).1]
  exact (Timeline.eq_sortedMarks (by decide) (by decide)).symm

end MidiScore
