import MidiScore.Proofs.Emission
import MidiScore.Proofs.FinerPlacement
import MidiScore.Proofs.Overruns
import MidiScore.Proofs.Relabelling

/-!
# Tracks at a finer resolution

A track without drums at a multiple of its resolution has the same events in the same order, at
multiples of their times.

*Stages.*  As long as the times of the finer track stay in range, multiplying them commutes with
every stage after placement:

* marks keep their order, since order looks at ticks only to compare them (`Timeline.order_times`),
* one mark emits the same event at either resolution, but for waits and deltas (`Yields.finer`).

Events stand at whole ticks.  Rounding down loses less than one coarse tick, so a fine tick lies
within the coarse one that it belongs to (`Ticks.wholeClamped_times`).
-/

namespace MidiScore

/-! ## Order -/

section
variable (factor : Nat)

/-- A mark at a multiple of its time. -/
def Mark.times (mark : Mark) : Mark := { mark with tick := mark.tick.times factor }

/-- A timeline with all times multiplied. -/
def Timeline.times (timeline : Timeline) : Timeline :=
  ⟨timeline.begins.map (Mark.times factor), timeline.ends.map (Mark.times factor)⟩

/-- A mark with its cue, at a multiple of its time. -/
def Queued.times (queued : Queued) : Queued := { queued with mark := queued.mark.times factor }

theorem Placement.times_start (placement : Placement) :
    (placement.times factor).start = placement.start.times factor := by
  cases placement with
  | instant tick => rfl
  | span span => rfl

theorem Placement.times_stop? (placement : Placement) :
    (placement.times factor).stop? = placement.stop?.map (Ticks.times factor) := by
  cases placement with
  | instant tick => rfl
  | span span => rfl

theorem Timeline.ofPlacements_times (placements : List Placement) :
    Timeline.ofPlacements (placements.map (Placement.times factor)) =
      (Timeline.ofPlacements placements).times factor := by
  have stops : (placements.zipIdx.map (Prod.map (Placement.times factor) id)).filterMap
        (fun indexed => indexed.1.stop?.map fun stop => (stop, indexed.2)) =
      (placements.zipIdx.filterMap
        fun indexed => indexed.1.stop?.map fun stop => (stop, indexed.2)).map
          (Prod.map (Ticks.times factor) id) := by
    rw [List.filterMap_map, List.map_filterMap]
    refine List.filterMap_congr ?_
    intro indexed _
    simp [Placement.times_stop?, Function.comp_def]
  simp only [Timeline.ofPlacements, Timeline.times, List.zipIdx_map, stops]
  simp [Placement.times_start, Mark.times, Function.comp_def]

theorem attachCues_times (cues : List Cue) (marks : List Mark) :
    attachCues cues (marks.map (Mark.times factor)) =
      (attachCues cues marks).map (Queued.times factor) := by
  simp only [attachCues, List.map_filterMap, List.filterMap_map]
  refine List.filterMap_congr ?_
  intro mark _
  simp [Queued.times, Mark.times, Function.comp_def]

end

section
variable {factor : Nat} (positive : 0 < factor)

include positive

theorem Queued.le_times {a b : Queued} (roomyA : a.mark.tick.Roomy factor)
    (roomyB : b.mark.tick.Roomy factor) : (a.times factor).le (b.times factor) = a.le b := by
  have less : (a.mark.tick.times factor).sub < (b.mark.tick.times factor).sub ↔
      a.mark.tick.sub < b.mark.tick.sub := Ticks.times_lt_times positive roomyA roomyB
  have same : (a.mark.tick.times factor).sub = (b.mark.tick.times factor).sub ↔
      a.mark.tick.sub = b.mark.tick.sub := by
    rw [roomyA.times_sub, roomyB.times_sub]
    exact Int.mul_eq_mul_left_iff (Int.natCast_ne_zero.mpr positive.ne')
  rw [Bool.eq_iff_iff, Queued.le_iff, Queued.le_iff]
  simp only [Queued.key, Queued.times, Mark.times, Prod.Lex.toLex_le_toLex, less, same]

theorem queue_times {cues : List Cue} {marks : List Mark}
    (roomy : ∀ mark ∈ marks, mark.tick.Roomy factor) :
    queue cues (marks.map (Mark.times factor)) = (queue cues marks).map (Queued.times factor) := by
  rw [queue, queue, attachCues_times]
  refine (List.map_mergeSort ?_).symm
  intro a memberA b memberB
  exact (Queued.le_times positive (roomy _ (mem_attachCues.mp memberA).1)
    (roomy _ (mem_attachCues.mp memberB).1)).symm

/-- The merge compares times only, and multiples in range are ordered alike. -/
theorem merge_times (starts stops : List Queued)
    (roomyStarts : ∀ queued ∈ starts, queued.mark.tick.Roomy factor)
    (roomyStops : ∀ queued ∈ stops, queued.mark.tick.Roomy factor) :
    merge (starts.map (Queued.times factor)) (stops.map (Queued.times factor)) =
      (merge starts stops).map (Prod.map id (Queued.times factor)) := by
  fun_induction merge starts stops with
  | case1 => simp [merge]
  | case2 stop stops ih =>
      have rest := ih roomyStarts (List.forall_mem_cons.mp roomyStops).2
      simpa [merge] using rest
  | case3 start starts early ih =>
      obtain ⟨first, others⟩ := List.forall_mem_cons.mp roomyStarts
      have before : (start.times factor).mark.tick < .latest := Ticks.times_lt_latest first
      simpa [merge, before] using ih others roomyStops
  | case4 start starts late =>
      exact absurd ((List.forall_mem_cons.mp roomyStarts).1.lt_latest positive) late
  | case5 start starts stop stops early ih =>
      obtain ⟨first, others⟩ := List.forall_mem_cons.mp roomyStarts
      have before : (start.times factor).mark.tick < (stop.times factor).mark.tick :=
        (Ticks.times_lt_times positive first (List.forall_mem_cons.mp roomyStops).1).mpr early
      simpa [merge, before] using ih others roomyStops
  | case6 start starts stop stops late ih =>
      obtain ⟨first, others⟩ := List.forall_mem_cons.mp roomyStops
      have notBefore : ¬(start.times factor).mark.tick < (stop.times factor).mark.tick :=
        mt (Ticks.times_lt_times positive (List.forall_mem_cons.mp roomyStarts).1 first).mp late
      simpa [merge, notBefore] using ih roomyStarts others

theorem Timeline.order_times {cues : List Cue} {timeline : Timeline}
    (roomy : ∀ mark ∈ timeline.begins ++ timeline.ends, mark.tick.Roomy factor) :
    (timeline.times factor).order cues =
      (timeline.order cues).map (Prod.map id (Queued.times factor)) := by
  obtain ⟨begins, ends⟩ := List.forall_mem_append.mp roomy
  rw [Timeline.order, Timeline.order, Timeline.times, queue_times positive begins,
    queue_times positive ends, merge_times positive]
  · intro queued member
    exact begins _ (mem_queue.mp member).1
  · intro queued member
    exact ends _ (mem_queue.mp member).1

end

/-! ## Events -/

/-- A fine whole tick lies within the coarse one. -/
theorem Ticks.wholeClamped_times {factor : Nat} (positive : 0 < factor) {t : Ticks}
    (roomy : t.Roomy factor) (fits : (t.times factor).whole ≤ 0xffffffff) :
    factor * t.wholeClamped ≤ (t.times factor).wholeClamped ∧
      (t.times factor).wholeClamped ≤ factor * t.wholeClamped + factor - 1 := by
  obtain ⟨count, same⟩ := Int.eq_ofNat_of_zero_le roomy.1
  have multiple : (t.times factor).sub = (factor * count : Nat) := by
    rw [roomy.times_sub, same, Int.natCast_mul]
  unfold Ticks.whole Ticks.scale at fits
  have lower : factor * (count / 96) ≤ factor * count / 96 := Nat.mul_div_le_mul_div_assoc ..
  have upper : factor * count / 96 < factor * (count / 96) + factor := by
    apply Nat.div_lt_of_lt_mul
    rw [← Nat.mul_succ, Nat.mul_left_comm]
    exact Nat.mul_lt_mul_of_pos_left (by omega) positive
  have grows : count / 96 ≤ factor * (count / 96) := Nat.le_mul_of_pos_left _ positive
  have coarse : t.wholeClamped = count / 96 := by
    unfold Ticks.wholeClamped Ticks.whole Ticks.scale
    omega
  have fine : (t.times factor).wholeClamped = factor * count / 96 := by
    unfold Ticks.wholeClamped Ticks.whole Ticks.scale
    omega
  rw [coarse, fine]
  omega

/-- An event without its wait, duration and delta. -/
def Event.outline : Event → Event
  | .noteOn pitches velocity _ => .noteOn pitches velocity 0
  | .noteOff pitches _ _ => .noteOff pitches 0 none
  | .bendBegin amount _ => .bendBegin amount 0
  | .bendEnd _ => .bendEnd none
  | event => event

/-- The same event at a finer resolution, on one of the ticks that its coarse tick is divided
into. -/
def Finer (factor : Nat) (coarse fine : TimedEvent) : Prop :=
  fine.event.outline = coarse.event.outline ∧
    factor * coarse.tick ≤ fine.tick ∧ fine.tick ≤ factor * coarse.tick + factor - 1

/-- Two events of one cue differ in their times only. -/
theorem Cue.Causes.outline_eq {cue : Cue} {side : Side} {first second : Event}
    (causesFirst : cue.Causes side first) (causesSecond : cue.Causes side second) :
    second.outline = first.outline := by
  obtain ⟨origin, action⟩ := cue
  cases action <;> cases side
  case tone.start | hits.start | bend.start | bend.stop =>
    obtain ⟨_, rfl⟩ := causesFirst
    obtain ⟨_, rfl⟩ := causesSecond
    rfl
  case tone.stop | hits.stop =>
    obtain ⟨_, _, rfl⟩ := causesFirst
    obtain ⟨_, _, rfl⟩ := causesSecond
    rfl
  case meter.start | tempo.start => rw [causesFirst, causesSecond]
  case meter.stop | tempo.stop => cases causesFirst

section
variable {factor : Nat} (positive : 0 < factor) {cues : List Cue}

include positive

/-- A mark and its multiple yield the same event. -/
theorem Yields.finer {mark : Side × Mark} {part finerPart : Schedule}
    (roomy : mark.2.tick.Roomy factor) (fits : (mark.2.tick.times factor).whole ≤ 0xffffffff)
    (yields : Yields cues mark part)
    (finerYields : Yields cues (mark.1, mark.2.times factor) finerPart) :
    List.Forall₂ (Finer factor) part.events finerPart.events := by
  obtain ⟨cue, found, held⟩ := yields
  obtain ⟨_, foundAgain, finerHeld⟩ := finerYields
  cases Option.some.inj (found.symm.trans foundAgain)
  split at held
  next emits =>
    rw [if_pos emits] at finerHeld
    obtain ⟨event, single, causes, tick⟩ := held
    obtain ⟨finerEvent, finerSingle, finerCauses, finerTick⟩ := finerHeld
    rw [← Ticks.wholeClamped_eq] at tick finerTick
    rw [single, finerSingle]
    refine .cons ⟨causes.outline_eq finerCauses, ?_⟩ .nil
    rw [Int.ofNat_inj.mp tick, Int.ofNat_inj.mp finerTick]
    exact Ticks.wholeClamped_times positive roomy fits
  next silent =>
    rw [if_neg silent] at finerHeld
    rw [held, finerHeld]
    exact .nil

theorem events_finer {marks : List (Side × Mark)} {parts finerParts : List Schedule}
    (roomy : ∀ mark ∈ marks, mark.2.tick.Roomy factor)
    (fits : ∀ mark ∈ marks, (mark.2.tick.times factor).whole ≤ 0xffffffff)
    (yield : List.Forall₂ (Yields cues) marks parts)
    (finerYield : List.Forall₂ (Yields cues) (marks.map (Prod.map id (Mark.times factor)))
      finerParts) :
    List.Forall₂ (Finer factor) (parts.flatMap (·.events)) (finerParts.flatMap (·.events)) := by
  induction yield generalizing finerParts with
  | nil =>
      cases finerYield
      exact .nil
  | cons first _ ih =>
      cases finerYield with
      | cons finerFirst finerRest =>
          obtain ⟨roomyHere, roomyRest⟩ := List.forall_mem_cons.mp roomy
          obtain ⟨fitsHere, fitsRest⟩ := List.forall_mem_cons.mp fits
          rw [List.flatMap_cons, List.flatMap_cons]
          exact List.rel_append (first.finer positive roomyHere fitsHere finerFirst)
            (ih roomyRest fitsRest finerRest)

theorem schedule_finer (coarse fine : Resolution) {timeline : Timeline}
    (roomy : ∀ mark ∈ timeline.begins ++ timeline.ends, mark.tick.Roomy factor)
    (fits : ∀ mark ∈ timeline.begins ++ timeline.ends,
      (mark.tick.times factor).whole ≤ 0xffffffff) :
    List.Forall₂ (Finer factor) (schedule coarse cues timeline).events
      (schedule fine cues (timeline.times factor)).events := by
  have inside : ∀ mark ∈ (timeline.order cues).map sided,
      mark.2 ∈ timeline.begins ++ timeline.ends := by
    intro mark member
    obtain ⟨taken, takenMember, rfl⟩ := List.mem_map.mp member
    exact Timeline.mark_mem_of_mem_order takenMember
  refine events_finer positive (fun mark member => roomy _ (inside mark member))
    (fun mark member => fits _ (inside mark member))
    (emissions_yield coarse {} fun _ => Timeline.attached_of_mem_order) ?_
  have finerYield := @emissions_yield cues fine {} ((timeline.times factor).order cues)
    fun _ => Timeline.attached_of_mem_order
  rwa [Timeline.order_times positive roomy, List.map_map,
    ← show (Prod.map id (Mark.times factor)) ∘ sided = sided ∘ Prod.map id (Queued.times factor)
      from rfl, ← List.map_map, ← Timeline.order_times positive roomy] at finerYield

end

/-! ## Tracks -/

/-- The score at another resolution. -/
def Score.atResolution (score : Score) (resolution : Resolution) : Score :=
  { score with resolution := resolution }

/-- Expansion does not look at the resolution. -/
theorem Score.expand_atResolution (score : Score) (resolution : Resolution) (defaults : Defaults)
    (track : Track) :
    (score.atResolution resolution).expand defaults track = score.expand defaults track := by
  have run : ∀ (entries : List Entry) (index : Nat),
      (score.atResolution resolution).unrollFrom defaults index entries =
        score.unrollFrom defaults index entries := by
    intro entries
    induction entries with
    | nil => exact fun _ => rfl
    | cons entry entries ih =>
        intro index
        have first : (score.atResolution resolution).unrollEntry defaults index entry =
          score.unrollEntry defaults index entry := rfl
        rw [Score.unrollFrom, Score.unrollFrom, first, ih]
  exact congrArg (Except.map group) (run track.entries 0)

theorem Timeline.ofCues_times {coarse fine : Resolution} {factor : Nat}
    (finer : fine.perQuarter = factor * coarse.perQuarter) {cues : List Cue}
    (scales : ∀ cue ∈ cues, cue.Scales) (small : extent fine cues < 2 ^ 63 - 1) :
    Timeline.ofCues fine cues =
      ((Timeline.ofCues coarse cues).map (Timeline.times factor)).mapError
        (TrackError.times factor) := by
  have placed : placeFrom fine none cues = _ :=
    placeFrom_times finer (show ((none : Option Span).getD {}).Within 0 from Span.within_default 0)
      scales (by rw [Nat.zero_add, ← extent_scaled finer scales]; exact small)
  rw [Timeline.ofCues_eq, Timeline.ofCues_eq, place, place, placed]
  cases placeFrom coarse none cues with
  | ok placements => exact congrArg Except.ok (Timeline.ofPlacements_times factor placements)
  | error cause => rfl

section
variable {coarse : Resolution} {factor : Nat} (positive : 0 < factor) {cues : List Cue}
  (small : factor * extent coarse cues < 2 ^ 63 - 1)

include positive small

/-- The multiples of all marks of a track are in range. -/
theorem Timeline.roomy_of_ok {timeline : Timeline}
    (built : Timeline.ofCues coarse cues = .ok timeline) :
    ∀ mark ∈ timeline.begins ++ timeline.ends, mark.tick.Roomy factor := by
  intro mark member
  have grows : extent coarse cues ≤ factor * extent coarse cues :=
    Nat.le_mul_of_pos_left _ positive
  obtain ⟨placements, placed, rfl⟩ := Timeline.ofCues_eq_ok.mp built
  obtain ⟨first, last⟩ := Timeline.mark_bounds (place_placed (by omega) placed) member
  exact .of_le first last (by rw [← Int.natCast_mul]; omega)

/-- The multiples of the times in an error are in range. -/
theorem Timeline.roomy_of_error {cause : TrackError}
    (failed : Timeline.ofCues coarse cues = .error cause) :
    ∃ origin delay available, cause = .longDelay origin delay available ∧
      delay.Roomy factor ∧ available.Roomy factor := by
  have grows : extent coarse cues ≤ factor * extent coarse cues :=
    Nat.le_mul_of_pos_left _ positive
  have room : (factor : Int) * extent coarse cues < 2 ^ 63 - 1 := by
    rw [← Int.natCast_mul]
    omega
  obtain ⟨earlier, cue, ⟨before, after, split, -⟩, same⟩ :=
    placeFrom_firstOverrun .none (Span.within_default 0) (by omega) (map_eq_error.mp failed)
  have sounding : ∀ member ∈ [earlier, cue], member ∈ cues := by
    intro member inside
    refine List.mem_of_mem_filter (p := Cue.isSounding) ?_
    have whole : member ∈ soundingCues cues := by
      rw [show soundingCues cues = _ from split]
      simp only [List.mem_cons, List.not_mem_nil, or_false] at inside
      rcases inside with rfl | rfl
      · simp
      · simp
    exact whole
  have delayed := extent_le_of_mem coarse (sounding cue (by simp))
  have lasting := exactDuration_le_extent coarse (sounding earlier (by simp))
  unfold Cue.extent at delayed
  have delaySub := @NoteValue.sumTicks_sub coarse cue.delay (by omega)
  have availableSub := @Cue.duration_sub coarse earlier (by omega)
  exact ⟨_, _, _, same, .of_le (by omega) (by omega) room, .of_le (by omega) (by omega) room⟩

end

/-- The multiple of a mark. -/
def Mark.IsMultiple (factor : Nat) (coarse fine : Mark) : Prop :=
  fine.tick.sub = factor * coarse.tick.sub ∧ fine.sequence = coarse.sequence ∧
    fine.entry = coarse.entry

theorem Mark.forall₂_isMultiple {factor : Nat} {marks : List Mark}
    (roomy : ∀ mark ∈ marks, mark.tick.Roomy factor) :
    List.Forall₂ (Mark.IsMultiple factor) marks (marks.map (Mark.times factor)) := by
  rw [List.forall₂_map_right_iff, List.forall₂_same]
  intro mark member
  exact ⟨(roomy mark member).times_sub, rfl, rfl⟩

/-- The prologue stands at tick zero at any resolution. -/
theorem Score.prologue_finer {factor : Nat} (score : Score) (resolution : Resolution)
    (track : Track) : List.Forall₂ (Finer factor) (score.prologue track)
      ((score.atResolution resolution).prologue track) := by
  have start : ∀ event, Finer factor ⟨0, 0, event⟩ ⟨0, 0, event⟩ :=
    fun event => ⟨rfl, Nat.le_refl 0, Nat.zero_le _⟩
  unfold Score.prologue
  cases instrument : track.instrument with
  | drums => exact .cons (start _) (.cons (start _) .nil)
  | program number => exact .cons (start _) (.cons (start _) (.cons (start _) .nil))

/-- A track without drums at a resolution and at a multiple of it.  Both fail in expansion with the
same error, or both fail at the same delay, by multiples of the same times, or both succeed.  Then
every mark stands at the multiple of its time.  If no whole tick is cut off, the streams have the
same events in the same order, each on a tick that its coarse tick is divided into. -/
theorem compileTrack_at_multiple {score : Score} {fine : Resolution} {factor : Nat}
    (finer : fine.perQuarter = factor * score.resolution.perQuarter) (defaults : Defaults)
    (track : Track)
    (scales : ∀ cues, score.expand defaults track = .ok cues → ∀ cue ∈ cues, cue.Scales)
    (small : ∀ cues, score.expand defaults track = .ok cues → extent fine cues < 2 ^ 63 - 1) :
    (∃ cause, score.expand defaults track = .error cause ∧
        score.compileTrack defaults track = .error cause ∧
        (score.atResolution fine).compileTrack defaults track = .error cause) ∨
      (∃ origin delay available fineDelay fineAvailable,
        score.compileTrack defaults track = .error (.longDelay origin delay available) ∧
        (score.atResolution fine).compileTrack defaults track =
          .error (.longDelay origin fineDelay fineAvailable) ∧
        fineDelay.sub = factor * delay.sub ∧ fineAvailable.sub = factor * available.sub) ∨
      ∃ cues timeline fineTimeline stream fineStream,
        score.expand defaults track = .ok cues ∧
        Timeline.ofCues score.resolution cues = .ok timeline ∧
        Timeline.ofCues fine cues = .ok fineTimeline ∧
        score.compileTrack defaults track = .ok stream ∧
        (score.atResolution fine).compileTrack defaults track = .ok fineStream ∧
        List.Forall₂ (Mark.IsMultiple factor) timeline.begins fineTimeline.begins ∧
        List.Forall₂ (Mark.IsMultiple factor) timeline.ends fineTimeline.ends ∧
        ((∀ mark ∈ fineTimeline.begins ++ fineTimeline.ends, mark.tick.whole ≤ 0xffffffff) →
          List.Forall₂ (Finer factor) stream.events fineStream.events) := by
  have positive := factor_pos finer
  have again := score.expand_atResolution fine defaults track
  cases expanded : score.expand defaults track with
  | error cause =>
      rw [expanded] at again
      refine Or.inl ⟨cause, rfl, ?_, ?_⟩
      · rw [Score.compileTrack, expanded]
        rfl
      · rw [Score.compileTrack, again]
        rfl
  | ok cues =>
      rw [expanded] at again
      have bounded := small cues expanded
      have scaled := extent_scaled finer (scales cues expanded)
      have fineBuilt := Timeline.ofCues_times finer (scales cues expanded) bounded
      rw [Score.compileTrack_of_expand expanded, Score.compileTrack_of_expand again,
        Score.streamOf, Score.streamOf]
      simp only [Score.atResolution, fineBuilt]
      cases built : Timeline.ofCues score.resolution cues with
      | error cause =>
          obtain ⟨origin, delay, available, rfl, roomyDelay, roomyAvailable⟩ :=
            Timeline.roomy_of_error positive (scaled ▸ bounded) built
          exact Or.inr (Or.inl ⟨origin, delay, available, _, _, rfl, rfl, roomyDelay.times_sub,
            roomyAvailable.times_sub⟩)
      | ok timeline =>
          have roomy := Timeline.roomy_of_ok positive (scaled ▸ bounded) built
          obtain ⟨begins, ends⟩ := List.forall_mem_append.mp roomy
          rw [built] at fineBuilt
          refine Or.inr (Or.inr ⟨cues, timeline, timeline.times factor, _, _, rfl, built, fineBuilt,
            rfl, rfl, Mark.forall₂_isMultiple begins, Mark.forall₂_isMultiple ends, ?_⟩)
          intro fits
          refine List.rel_append (score.prologue_finer fine track)
            (schedule_finer positive _ _ roomy ?_)
          intro mark member
          refine fits (mark.times factor) ?_
          rw [Timeline.times, ← List.map_append]
          exact List.mem_map_of_mem member

/-- A triplet, a chord member that waits for half of it, a change of tempo and a bend. -/
def dancingTrack : Track where
  name := "dance"
  instrument := .program 5
  entries := [.note ⟨.c, some 4, some ⟨.quarter, .triplet⟩, 100, [], [⟨.eighth, .dotted⟩]⟩,
    .note ⟨.e, some 4, some .quarter, 90, [⟨.eighth, .triplet⟩], []⟩, .tempo 90.0,
    .bend ⟨100, [⟨.sixteenth, .triplet⟩, .chord], []⟩]

/-- A score of the one track above. -/
def dancingScore (resolution : Resolution) : Score where
  name := "song"
  resolution := resolution
  tracks := [dancingTrack]

theorem dancingTrack_finer : ∃ stream fineStream,
    (dancingScore ⟨1, by decide, by decide⟩).compileTrack {} dancingTrack = .ok stream ∧
      (dancingScore ⟨3, by decide, by decide⟩).compileTrack {} dancingTrack = .ok fineStream ∧
      List.Forall₂ (Finer 3) stream.events fineStream.events := by
  have multiple : (⟨3, by decide, by decide⟩ : Resolution).perQuarter = 3 * 1 := rfl
  have scales : ∀ cues,
      (dancingScore ⟨1, by decide, by decide⟩).expand {} dancingTrack = .ok cues →
        ∀ cue ∈ cues, cue.Scales := by
    intro cues expanded
    cases expanded
    decide
  have small : ∀ cues,
      (dancingScore ⟨1, by decide, by decide⟩).expand {} dancingTrack = .ok cues →
        extent ⟨3, by decide, by decide⟩ cues < 2 ^ 63 - 1 := by
    intro cues expanded
    cases expanded
    decide
  rcases compileTrack_at_multiple multiple {} dancingTrack scales small with
    ⟨_, failed, -⟩ | ⟨_, _, _, _, _, failed, -⟩ |
      ⟨cues, timeline, fineTimeline, stream, fineStream, expanded, -, fineBuilt, compiled,
        fineCompiled, -, -, events⟩
  · cases failed
  · cases failed
  · refine ⟨stream, fineStream, compiled, fineCompiled, events ?_⟩
    cases expanded
    cases fineBuilt
    decide

end MidiScore
