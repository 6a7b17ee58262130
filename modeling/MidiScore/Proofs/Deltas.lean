import MidiScore.Proofs.Gaps

/-!
# Deltas of releases

The delta of a release, or of the end of a bend, counts from the latest event.  Should that event
lie after the end, there would be no delta, and a release would give its duration instead.  Placed
cues never get there: their marks are not negative, and the merge takes marks in order of time.

*Clock.*  The clock keeps the latest beginning and the latest end apart.  The later of the two is
the exact time of the latest event (`Clock.StandsAt`).  One mark that is not earlier emits one event
that counts from there, and the clock then stands at the time of the mark (`Clock.schedule_counts`).
A run of marks in order of time therefore counts each event from the one before it
(`emissions_count`).

*Rounding.*  A delta rounds the exact distance of two events down, and a gap is the distance of
their ticks, which are rounded one by one.  So the gap is the delta or one more.
-/

namespace MidiScore

/-! ## Distances -/

namespace Ticks

theorem max_sub (a b : Ticks) : (max a b).sub = max a.sub b.sub := by
  have unfolded : max a b = if a ≤ b then b else a := rfl
  rw [unfolded]
  split
  next ordered => exact (Int.max_eq_right ordered).symm
  next reversed => exact (Int.max_eq_left (Int.le_of_lt (Int.not_le.mp reversed))).symm

/-- Whole ticks from one time to a later one, rounded down, in the range of an event's fields. -/
def wholeBetween (last time : Ticks) : Nat := min 0xffffffff ((time.sub - last.sub) / 96).toNat

/-- The distance of two times that are not negative is in range. -/
theorem distance_sub {last time : Ticks} (positive : 0 ≤ last.sub) (later : last ≤ time) :
    (time - last).sub = time.sub - last.sub := by
  have upper := time.upper
  rw [le_iff] at later
  exact sub_sub (by omega) (by omega)

theorem distance_wholeClamped {last time : Ticks} (positive : 0 ≤ last.sub) (later : last ≤ time) :
    (time - last).wholeClamped = last.wholeBetween time := by
  rw [wholeClamped, whole, distance_sub positive later]
  rfl

/-- The distance of two whole ticks is the whole distance or one more. -/
theorem wholeBetween_gap {last time : Ticks} (positive : 0 ≤ last.sub) (later : last ≤ time)
    (small : time.whole ≤ 0xffffffff) :
    last.wholeBetween time ≤ time.wholeClamped - last.wholeClamped ∧
      time.wholeClamped - last.wholeClamped ≤ last.wholeBetween time + 1 := by
  rw [le_iff] at later
  simp only [wholeBetween, wholeClamped, whole, scale] at small ⊢
  omega

end Ticks

/-! ## Events that count -/

/-- The delta of an event of the end side.  A release that has one has no duration of its own. -/
def Event.GivesDelta (delta : Nat) : Event → Prop
  | .noteOff _ duration given => duration = 0 ∧ given = some delta
  | .bendEnd given => given = some delta
  | _ => True

/-- How the event of a mark counts from the exact time of the event before it. -/
structure CountsFrom (last : Ticks) (mark : Side × Mark) (event : TimedEvent) : Prop where
  notBefore : last ≤ mark.2.tick
  tick : event.tick = mark.2.tick.wholeClamped
  delta : event.event.GivesDelta (last.wholeBetween mark.2.tick)
  gap : mark.2.tick.whole ≤ 0xffffffff → last.wholeBetween mark.2.tick ≤ event.gap ∧
    event.gap ≤ last.wholeBetween mark.2.tick + 1

theorem Cue.Causes.givesDelta {cue : Cue} {event : Event} (causes : cue.Causes .start event)
    (delta : Nat) : event.GivesDelta delta := by
  obtain ⟨origin, action⟩ := cue
  cases action with
  | tone tone => obtain ⟨_, rfl⟩ := causes; trivial
  | hits group => obtain ⟨_, rfl⟩ := causes; trivial
  | bend bend => obtain ⟨_, rfl⟩ := causes; trivial
  | meter meter => cases causes; trivial
  | tempo bpm => cases causes; trivial

theorem Cue.release_givesDelta {cue : Cue} {duration delta : Ticks} (positive : 0 ≤ delta.sub) :
    (cue.release duration delta).value.GivesDelta delta.wholeClamped := by
  have forward : delta.isNegative = false := decide_eq_false (Int.not_lt.mpr positive)
  simp only [Cue.release, forward]
  exact ⟨rfl, rfl⟩

/-- The end of a cue that is not before the latest event gives its delta. -/
theorem Cue.stopEvent?_givesDelta {resolution : Resolution} {cue : Cue} {stop delta : Ticks}
    {event : Rounded Event} (positive : 0 ≤ delta.sub)
    (found : cue.stopEvent? resolution stop delta = some event) :
    event.value.GivesDelta delta.wholeClamped := by
  have forward : delta.isNegative = false := decide_eq_false (Int.not_lt.mpr positive)
  obtain ⟨origin, action⟩ := cue
  cases action with
  | tone tone => cases found; exact Cue.release_givesDelta positive
  | hits group => cases found; exact Cue.release_givesDelta positive
  | bend bend =>
      cases found
      simp only [Cue.bendEnd, forward]
      rfl
  | meter meter => cases found
  | tempo bpm => cases found

/-! ## Steps -/

/-- The clock stands at the exact time of the latest event. -/
def Clock.StandsAt (clock : Clock) (last : Ticks) : Prop :=
  max clock.latestStart clock.latestStop = last ∧ clock.lastTick = last.wholeClamped

theorem Clock.standsAt_default : ({} : Clock).StandsAt 0 := ⟨rfl, rfl⟩

section
variable {clock : Clock} {last : Ticks} {side : Side} {queued : Queued}

theorem Clock.StandsAt.advance (stands : clock.StandsAt last)
    (later : last ≤ queued.mark.tick)
    (sounding : side = .stop → queued.cue.isSounding = true) :
    (clock.advance side queued).StandsAt queued.mark.tick := by
  have latest : max clock.latestStart.sub clock.latestStop.sub = last.sub := by
    rw [← Ticks.max_sub, stands.1]
  rw [Ticks.le_iff] at later
  cases side with
  | start =>
      refine ⟨Ticks.ext ?_, rfl⟩
      simp only [Clock.advance, Ticks.max_sub]
      omega
  | stop =>
      simp only [Clock.advance, sounding rfl, if_true]
      refine ⟨Ticks.ext ?_, rfl⟩
      simp only [Ticks.max_sub]
      omega

/-- A mark that is not earlier than the latest event emits one event that counts from there. -/
theorem Clock.schedule_counts {cues : List Cue} (resolution : Resolution)
    (stands : clock.StandsAt last) (positive : 0 ≤ last.sub) (later : last ≤ queued.mark.tick)
    (attached : queued.Attached cues)
    (sounding : side = .stop → queued.cue.isSounding = true) :
    ∃ event, (clock.schedule resolution side queued).events = [event] ∧
      StandsFor cues (source (side, queued.mark)) event ∧
      CountsFrom last (side, queued.mark) event := by
  have counts : ∀ event : Event, event.GivesDelta (last.wholeBetween queued.mark.tick) →
      CountsFrom last (side, queued.mark) ⟨queued.mark.tick.wholeClamped,
        queued.mark.tick.wholeClamped - clock.lastTick, event⟩ := by
    intro event gives
    refine ⟨later, rfl, gives, ?_⟩
    rw [stands.2]
    exact Ticks.wholeBetween_gap positive later
  cases side with
  | start =>
      have causes := Cue.startEvent_causes resolution queued.cue
      exact ⟨_, rfl, ⟨_, attached, causes⟩, counts _ (causes.givesDelta _)⟩
  | stop =>
      have distance : clock.delta queued.mark.tick = queued.mark.tick - last := by
        rw [← stands.1]
        rfl
      obtain ⟨event, found, causes⟩ := @Cue.stopEvent?_of_sounding resolution _ (sounding rfl)
        queued.mark.tick (clock.delta queued.mark.tick)
      have gives : event.value.GivesDelta (last.wholeBetween queued.mark.tick) := by
        rw [← Ticks.distance_wholeClamped positive later, ← distance]
        refine Cue.stopEvent?_givesDelta ?_ found
        rw [distance, Ticks.distance_sub positive later]
        exact Int.sub_nonneg_of_le later
      have emitted : clock.schedule resolution .stop queued =
          clock.emit queued.mark.tick queued.cue.origin event := by
        rw [Clock.schedule_stop, found]
        rfl
      rw [emitted]
      exact ⟨_, rfl, ⟨_, attached, causes⟩, counts _ gives⟩

end

/-! ## Runs -/

/-- Marks in order, each with the time of the one before it and the first with the given time. -/
def withPrevious (last : Ticks) (marks : List (Side × Mark)) : List (Ticks × Side × Mark) :=
  (last :: marks.map (·.2.tick)).zip marks

theorem withPrevious_cons (last : Ticks) (mark : Side × Mark) (marks : List (Side × Mark)) :
    withPrevious last (mark :: marks) = (last, mark) :: withPrevious mark.2.tick marks := rfl

/-- Marks in order of time emit events that count from one another. -/
theorem emissions_count {cues : List Cue} (resolution : Resolution) {clock : Clock} {last : Ticks}
    {taken : List (Side × Queued)} (stands : clock.StandsAt last) (positive : 0 ≤ last.sub)
    (later : ∀ mark ∈ taken, last ≤ mark.2.mark.tick)
    (ordered : taken.Pairwise fun a b => a.2.mark.tick ≤ b.2.mark.tick)
    (attached : ∀ mark ∈ taken, mark.2.Attached cues)
    (sounding : ∀ mark ∈ taken, mark.1 = .stop → mark.2.cue.isSounding = true) :
    List.Forall₂
      (fun step event => StandsFor cues (source step.2) event ∧ CountsFrom step.1 step.2 event)
      (withPrevious last (taken.map sided))
      ((emissions resolution clock taken).flatMap (·.events)) := by
  induction taken generalizing clock last with
  | nil => exact List.Forall₂.nil
  | cons mark rest ih =>
      obtain ⟨side, queued⟩ := mark
      obtain ⟨first, others⟩ := List.pairwise_cons.mp ordered
      obtain ⟨here, -⟩ := List.forall_mem_cons.mp later
      obtain ⟨isAttached, restAttached⟩ := List.forall_mem_cons.mp attached
      obtain ⟨sounds, restSounding⟩ := List.forall_mem_cons.mp sounding
      obtain ⟨event, single, standsFor, counts⟩ :=
        Clock.schedule_counts resolution stands positive here isAttached sounds
      rw [emissions_cons, List.flatMap_cons, single, List.map_cons, withPrevious_cons]
      refine List.Forall₂.cons ⟨standsFor, counts⟩ ?_
      exact ih (stands.advance here sounds) (Int.le_trans positive here) first others restAttached
        restSounding

/-! ## Marks of placed cues -/

theorem Timeline.mark_mem_ends {cues : List Cue} {timeline : Timeline} {queued : Queued}
    (member : (Side.stop, queued) ∈ timeline.order cues) : queued.mark ∈ timeline.ends := by
  rcases mem_merge member with start | stop
  · obtain ⟨_, -, same⟩ := List.mem_map.mp start
    cases same
  · obtain ⟨_, queuedMember, same⟩ := List.mem_map.mp stop
    cases same
    exact (mem_queue.mp queuedMember).1

section
variable {resolution : Resolution} {cues : List Cue} {placements : List Placement}

/-- No mark of placed cues is before zero, also where times reach the end of the range. -/
theorem Timeline.mark_nonneg (placed : place resolution cues = .ok placements) {mark : Mark}
    (member : mark ∈ (ofPlacements placements).begins ++ (ofPlacements placements).ends) :
    0 ≤ mark.tick.sub := by
  rcases List.mem_append.mp member with begin | stop
  · obtain ⟨placement, found, same⟩ := mem_begins.mp ⟨mark, begin, rfl, rfl⟩
    rw [← same]
    exact (place_starts placed).1 placement (List.mem_of_getElem? found)
  · obtain ⟨placement, found, same⟩ := mem_ends.mp ⟨mark, stop, rfl, rfl⟩
    have start := (place_starts placed).1 placement (List.mem_of_getElem? found)
    obtain ⟨cue, -, fits⟩ := exists_of_forall₂_right (placeFrom_fits placed)
      (List.mem_of_getElem? found)
    cases placement with
    | instant tick => cases same
    | span span =>
        rw [← Option.some.inj same]
        exact Int.le_trans start fits.2

/-- An end that is taken is that of a sounding cue. -/
theorem Timeline.sounding_of_mem_order (placed : place resolution cues = .ok placements)
    {mark : Side × Queued} (member : mark ∈ (ofPlacements placements).order cues)
    (ending : mark.1 = .stop) : mark.2.cue.isSounding = true := by
  obtain ⟨side, queued⟩ := mark
  cases ending
  exact sounding_of_mem_ends (placeFrom_fits placed) (mark_mem_ends member)
    (attached_of_mem_order member)

/-- The events of placed cues count from one another, in the order in which marks are taken. -/
theorem schedule_counts (placed : place resolution cues = .ok placements) :
    List.Forall₂
      (fun step event => StandsFor cues (source step.2) event ∧ CountsFrom step.1 step.2 event)
      (withPrevious 0 (((Timeline.ofPlacements placements).order cues).map sided))
      (schedule resolution cues (Timeline.ofPlacements placements)).events := by
  refine emissions_count resolution Clock.standsAt_default (Int.le_refl 0) ?_
    (Timeline.order_ticks_pairwise cues _) (fun _ => Timeline.attached_of_mem_order)
    (fun _ => Timeline.sounding_of_mem_order placed)
  intro mark member
  exact Timeline.mark_nonneg placed (Timeline.mark_mem_of_mem_order member)

end

/-- Every event of the schedule of an accepted track stands for one mark, in the order of the single
key, and counts from the exact time of the event before it, the first one from zero.  So a release
always has a delta and no duration, the end of a bend has a delta, and this is the whole distance
from the event before.  The gap of an event is that distance or one more, as long as its tick is in
range. -/
theorem schedule_counts_from_previous {resolution : Resolution} {cues : List Cue}
    {timeline : Timeline} (built : Timeline.ofCues resolution cues = .ok timeline) :
    List.Forall₂
      (fun step event => StandsFor cues (source step.2) event ∧ CountsFrom step.1 step.2 event)
      (withPrevious 0 (timeline.sortedMarks cues)) (schedule resolution cues timeline).events := by
  obtain ⟨placements, placed, rfl⟩ := Timeline.ofCues_eq_ok.mp built
  rw [← Timeline.order_map_sided (ofPlacements_pointsInto (placeFrom_fits placed))]
  exact schedule_counts placed

/-- A triplet with a bend over it that lasts longer, a change of tempo and another triplet. -/
def bentTriplet : List Cue :=
  [⟨⟨0, none⟩, .tone ⟨.c, 4, ⟨.quarter, .triplet⟩, 100, [], []⟩⟩,
    ⟨⟨1, none⟩, .bend ⟨100, [⟨.quarter, .triplet⟩, ⟨.eighth, .plain⟩], [.chord]⟩⟩,
    ⟨⟨2, none⟩, .tempo 90.0⟩, ⟨⟨3, none⟩, .tone ⟨.e, 4, ⟨.quarter, .triplet⟩, 100, [], []⟩⟩]

/-- The marks of the two triplets, the bend and the change of tempo. -/
def bentTripletMarks : Timeline where
  begins := [⟨0, 0, 0⟩, ⟨0, 1, 1⟩, ⟨.ofSub 112, 2, 2⟩, ⟨.ofSub 112, 3, 3⟩]
  ends := [⟨.ofSub 64, 0, 0⟩, ⟨.ofSub 112, 1, 1⟩, ⟨.ofSub 176, 2, 3⟩]

/-- The bend returns half a tick after the first release, and in the next tick. -/
theorem bentTriplet_counts :
    Timeline.ofCues ⟨1, by decide, by decide⟩ bentTriplet = .ok bentTripletMarks ∧
      bentTripletMarks.sortedMarks bentTriplet =
        [(.start, ⟨0, 0, 0⟩), (.start, ⟨0, 1, 1⟩), (.stop, ⟨.ofSub 64, 0, 0⟩),
          (.stop, ⟨.ofSub 112, 1, 1⟩), (.start, ⟨.ofSub 112, 2, 2⟩),
          (.start, ⟨.ofSub 112, 3, 3⟩), (.stop, ⟨.ofSub 176, 2, 3⟩)] ∧
      ∃ event,
        (schedule ⟨1, by decide, by decide⟩ bentTriplet bentTripletMarks).events[3]? = some event ∧
          event.tick = 1 ∧ event.event.GivesDelta 0 ∧ event.gap ≤ 1 := by
  have built : Timeline.ofCues ⟨1, by decide, by decide⟩ bentTriplet = .ok bentTripletMarks := rfl
  have sorted : bentTripletMarks.sortedMarks bentTriplet =
      [(.start, ⟨0, 0, 0⟩), (.start, ⟨0, 1, 1⟩), (.stop, ⟨.ofSub 64, 0, 0⟩),
        (.stop, ⟨.ofSub 112, 1, 1⟩), (.start, ⟨.ofSub 112, 2, 2⟩),
        (.start, ⟨.ofSub 112, 3, 3⟩), (.stop, ⟨.ofSub 176, 2, 3⟩)] :=
    (Timeline.eq_sortedMarks (by decide) (by decide)).symm
  have returned : (withPrevious 0 (bentTripletMarks.sortedMarks bentTriplet))[3]? =
      some (.ofSub 64, .stop, ⟨.ofSub 112, 1, 1⟩) := by
    rw [sorted]
    rfl
  obtain ⟨event, found, -, counted⟩ :=
    getElem?_of_forall₂ (schedule_counts_from_previous built) returned
  exact ⟨built, sorted, event, found, counted.tick, counted.delta, (counted.gap (by decide)).2⟩

end MidiScore
