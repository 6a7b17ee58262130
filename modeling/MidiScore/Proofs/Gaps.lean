import MidiScore.Proofs.Streams

/-!
# Gaps between events

Every event of a stream gives its tick and the gap to the event before it.  The gap is a difference
of natural numbers, which stops at zero, so it is the true gap only if ticks never go back.

*Ticks.*  Marks are taken in order of time from both queues together.  Rounding down and cutting off
at the ends of the range keep this order.

*Streams.*  `Paced` says that each gap leads from the tick before it to the tick of its own event.
One mark paces the event that it emits, and leaves the clock at the tick of that event; the end of a
control emits nothing and leaves the clock alone (`Clock.schedule_cases`).  A run of marks in order
of time is therefore paced from the tick of the clock on (`emissions_paced`).

A paced stream can be rebuilt from its gaps alone (`Paced.reconstructs`).
-/

namespace MidiScore

/-! ## Paced streams -/

/-- Each gap leads from the tick before it, at first the given one, to the tick of its event. -/
inductive Paced : Nat → List TimedEvent → Prop
  | nil {last : Nat} : Paced last []
  | cons {last : Nat} {event : TimedEvent} {events : List TimedEvent} :
      last + event.gap = event.tick → Paced event.tick events → Paced last (event :: events)

/-- Ticks never go back, and the gaps up to an event add up to its tick. -/
def Reconstructs (events : List TimedEvent) : Prop :=
  (events.map (·.tick)).Pairwise (· ≤ ·) ∧
    ∀ (index : Nat) (event : TimedEvent), events[index]? = some event →
      ((events.take (index + 1)).map (·.gap)).sum = event.tick

namespace Paced

variable {last : Nat} {events : List TimedEvent}

/-- No event of a paced stream is earlier than where the stream is paced from. -/
theorem le_tick (paced : Paced last events) : ∀ event ∈ events, last ≤ event.tick := by
  induction paced with
  | nil => simp
  | cons step _ ih =>
      intro event member
      rcases List.mem_cons.mp member with rfl | later
      · omega
      · have := ih event later
        omega

theorem ticks_pairwise (paced : Paced last events) :
    (events.map (·.tick)).Pairwise (· ≤ ·) := by
  induction paced with
  | nil => exact List.Pairwise.nil
  | cons _ rest ih =>
      refine List.Pairwise.cons ?_ ih
      simpa using rest.le_tick

/-- The gaps up to an event add up to its tick. -/
theorem sum_gaps (paced : Paced last events) {index : Nat} {event : TimedEvent}
    (found : events[index]? = some event) :
    last + ((events.take (index + 1)).map (·.gap)).sum = event.tick := by
  induction paced generalizing index with
  | nil => simp at found
  | cons step _ ih =>
      cases index with
      | zero =>
          cases found
          simpa using step
      | succ index =>
          rw [List.getElem?_cons_succ] at found
          have rest := ih found
          rw [List.take_succ_cons, List.map_cons, List.sum_cons]
          omega

theorem reconstructs (paced : Paced 0 events) : Reconstructs events := by
  refine ⟨paced.ticks_pairwise, ?_⟩
  intro index event found
  simpa using paced.sum_gaps found

end Paced

/-! ## Schedules -/

theorem Ticks.wholeClamped_mono {a b : Ticks} (ordered : a ≤ b) :
    a.wholeClamped ≤ b.wholeClamped := by
  have whole : a.whole ≤ b.whole := Int.ediv_le_ediv (by decide) ordered
  unfold Ticks.wholeClamped
  omega

/-- A mark emits nothing and leaves the clock alone, or it emits one event at its tick, whose gap is
counted from the clock, and moves the clock there. -/
theorem Clock.schedule_cases (clock : Clock) (resolution : Resolution) (side : Side)
    (queued : Queued) :
    ((clock.schedule resolution side queued).events = [] ∧ clock.advance side queued = clock) ∨
      ∃ event, (clock.schedule resolution side queued).events =
          [⟨queued.mark.tick.wholeClamped,
            queued.mark.tick.wholeClamped - clock.lastTick, event⟩] ∧
        (clock.advance side queued).lastTick = queued.mark.tick.wholeClamped := by
  cases side with
  | start => exact Or.inr ⟨_, rfl, rfl⟩
  | stop =>
      cases sounding : queued.cue.isSounding with
      | true =>
          obtain ⟨event, found, -⟩ := @Cue.stopEvent?_of_sounding resolution _ sounding
            queued.mark.tick (clock.delta queued.mark.tick)
          refine Or.inr ⟨event.value, ?_, ?_⟩
          · rw [Clock.schedule_stop, found]
            rfl
          · simp [Clock.advance, sounding]
      | false =>
          have found := @Cue.stopEvent?_of_control resolution _ sounding
            queued.mark.tick (clock.delta queued.mark.tick)
          refine Or.inl ⟨?_, ?_⟩
          · rw [Clock.schedule_stop, found]
            rfl
          · simp [Clock.advance, sounding]

/-- Marks in order of time emit a stream that is paced from the last tick of the clock. -/
theorem emissions_paced (resolution : Resolution) {clock : Clock} {taken : List (Side × Queued)}
    (after : ∀ mark ∈ taken, clock.lastTick ≤ mark.2.mark.tick.wholeClamped)
    (ordered : taken.Pairwise fun a b => a.2.mark.tick ≤ b.2.mark.tick) :
    Paced clock.lastTick ((emissions resolution clock taken).flatMap (·.events)) := by
  induction taken generalizing clock with
  | nil => exact Paced.nil
  | cons mark rest ih =>
      obtain ⟨side, queued⟩ := mark
      obtain ⟨first, others⟩ := List.pairwise_cons.mp ordered
      rw [emissions_cons, List.flatMap_cons]
      rcases clock.schedule_cases resolution side queued with
        ⟨silent, same⟩ | ⟨event, emitted, moved⟩
      · rw [silent, same, List.nil_append]
        exact ih (fun mark member => after mark (List.mem_cons_of_mem _ member)) others
      · rw [emitted, List.singleton_append]
        have here : clock.lastTick ≤ queued.mark.tick.wholeClamped :=
          after _ (List.mem_cons_self ..)
        refine Paced.cons (Nat.add_sub_of_le here) ?_
        rw [← moved]
        refine ih ?_ others
        intro mark member
        rw [moved]
        exact Ticks.wholeClamped_mono (first mark member)

theorem Timeline.order_ticks_pairwise (cues : List Cue) (timeline : Timeline) :
    (timeline.order cues).Pairwise fun a b => a.2.mark.tick ≤ b.2.mark.tick :=
  (List.pairwise_map.mp (timeline.order_pairwise cues)).imp fun ordered =>
    tick_le_of_markKey_le ordered

theorem schedule_paced (resolution : Resolution) (cues : List Cue) (timeline : Timeline) :
    Paced 0 (schedule resolution cues timeline).events :=
  @emissions_paced resolution {} _ (fun _ _ => Nat.zero_le _) (timeline.order_ticks_pairwise cues)

/-! ## Compiled tracks -/

theorem Score.prologue_paced (score : Score) (track : Track) {events : List TimedEvent}
    (paced : Paced 0 events) : Paced 0 (score.prologue track ++ events) := by
  unfold Score.prologue
  cases track.instrument with
  | drums => exact Paced.cons rfl (Paced.cons rfl paced)
  | program number => exact Paced.cons rfl (Paced.cons rfl (Paced.cons rfl paced))

/-- The events at the start of a track stand at tick zero, and the schedule goes on from there. -/
theorem Score.compileTrack_paced {score : Score} {defaults : Defaults} {track : Track}
    {stream : CompiledTrack} (compiled : score.compileTrack defaults track = .ok stream) :
    Paced 0 stream.events := by
  obtain ⟨cues, placements, -, -, events⟩ := Score.compileTrack_eq_ok compiled
  rw [events]
  exact score.prologue_paced track (schedule_paced _ _ _)

/-- The gaps of a scheduled timeline and of a compiled track, its prologue included, add up to the
ticks of their events, and these never go back. -/
theorem gaps_reconstruct_ticks :
    (∀ (resolution : Resolution) (cues : List Cue) (timeline : Timeline),
      Reconstructs (schedule resolution cues timeline).events) ∧
    ∀ {score : Score} {defaults : Defaults} {track : Track} {stream : CompiledTrack},
      score.compileTrack defaults track = .ok stream → Reconstructs stream.events := by
  refine ⟨?_, ?_⟩
  · intro resolution cues timeline
    exact (schedule_paced resolution cues timeline).reconstructs
  · intro score defaults track stream compiled
    exact (Score.compileTrack_paced compiled).reconstructs

/-- A track whose triplets fall between ticks, with a change of tempo on the way. -/
def tripletTrack : Track where
  name := "triplets"
  instrument := .program 5
  entries := [.note ⟨.c, none, some ⟨.quarter, .triplet⟩, 100, [], []⟩, .tempo 90.0,
    .note ⟨.e, none, some ⟨.half, .triplet⟩, 100, [], [⟨.quarter, .triplet⟩]⟩]

/-- A score of the one track above. -/
def tripletScore (resolution : Resolution) : Score where
  name := "song"
  resolution := resolution
  tracks := [tripletTrack]

theorem tripletTrack_gaps : ∃ stream,
    (tripletScore ⟨1, by decide, by decide⟩).compileTrack {} tripletTrack = .ok stream ∧
      Reconstructs stream.events := by
  obtain ⟨stream, compiled⟩ : ∃ stream,
      (tripletScore ⟨1, by decide, by decide⟩).compileTrack {} tripletTrack = .ok stream := ⟨_, rfl⟩
  exact ⟨stream, compiled, gaps_reconstruct_ticks.2 compiled⟩

end MidiScore
