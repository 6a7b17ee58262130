import Mathlib.Data.List.Nodup
import MidiScore.Proofs.Emission
import MidiScore.Proofs.Placement

/-!
# Beginnings and ends in pairs

A track that does not reach the last representable time loses no mark, so its schedule holds one
event for the beginning of every cue and one for the end of every sounding cue.

*Sources.*  `Timeline.sources` lists the sides and indices of the cues in the order in which
their marks emit.  Every event stands for one source, and no source comes twice.

*Order.*  Marks are taken by time and ends go first.  So a cue begins before it ends exactly if
it has a positive duration: a cue without a length is released before it is struck.
-/

namespace MidiScore

/-! ## Sources -/

/-- A mark without its time: the side and the index of the cue. -/
def source (mark : Side × Mark) : Side × Nat := (mark.1, mark.2.entry)

/-- The sides and indices of cues in the order in which their marks emit. -/
def Timeline.sources (cues : List Cue) (timeline : Timeline) : List (Side × Nat) :=
  ((timeline.order cues).map sided).map source

/-- Whether an event stands for the given side of the cue at an index. -/
def StandsFor (cues : List Cue) (source : Side × Nat) (event : TimedEvent) : Prop :=
  ∃ cue, cues[source.2]? = some cue ∧ cue.Causes source.1 event.event

/-- Where no control has an end, every mark emits one event. -/
theorem events_standFor {cues : List Cue} {marks : List (Side × Mark)} {parts : List Schedule}
    (yield : List.Forall₂ (Yields cues) marks parts)
    (sounding : ∀ mark, (Side.stop, mark) ∈ marks →
      ∀ cue, cues[mark.entry]? = some cue → cue.isSounding = true) :
    List.Forall₂ (StandsFor cues) (marks.map source) (parts.flatMap (·.events)) := by
  induction yield with
  | nil => exact List.Forall₂.nil
  | @cons mark part marks parts first _ ih =>
      obtain ⟨cue, found, held⟩ := first
      have emits : mark.1 = .start ∨ cue.isSounding := by
        obtain ⟨side, mark⟩ := mark
        cases side with
        | start => exact Or.inl rfl
        | stop => exact Or.inr (sounding mark (List.mem_cons_self ..) cue found)
      rw [if_pos emits] at held
      obtain ⟨event, single, causes, -⟩ := held
      rw [List.map_cons, List.flatMap_cons, single]
      exact List.Forall₂.cons ⟨cue, found, causes⟩
        (ih fun mark member => sounding mark (List.mem_cons_of_mem _ member))

/-- A member is found at the index of its label. -/
theorem getElem?_idxOf_map {α β : Type} [BEq β] [LawfulBEq β] {label : α → β} {members : List α}
    (distinct : (members.map label).Nodup) {a : α} (member : a ∈ members) :
    members[(members.map label).idxOf (label a)]? = some a := by
  have inside := List.idxOf_lt_length_of_mem (List.mem_map_of_mem (f := label) member)
  have same := List.getElem_idxOf inside
  rw [List.getElem_map] at same
  exact List.getElem?_eq_some_iff.mpr ⟨by simpa using inside,
    List.inj_on_of_nodup_map distinct (List.getElem_mem _) member same⟩

/-- Of two members of a sorted list the one with the smaller index is related to the other. -/
theorem rel_of_idxOf_lt {α β : Type} [BEq β] [LawfulBEq β] {related : α → α → Prop} {label : α → β}
    {members : List α} (sorted : members.Pairwise related) (distinct : (members.map label).Nodup)
    {a b : α} (memberA : a ∈ members) (memberB : b ∈ members)
    (before : (members.map label).idxOf (label a) < (members.map label).idxOf (label b)) :
    related a b := by
  obtain ⟨insideA, atA⟩ := List.getElem?_eq_some_iff.mp (getElem?_idxOf_map distinct memberA)
  obtain ⟨insideB, atB⟩ := List.getElem?_eq_some_iff.mp (getElem?_idxOf_map distinct memberB)
  have ordered := List.pairwise_iff_getElem.mp sorted _ _ insideA insideB before
  rwa [atA, atB] at ordered

/-! ## Marks of placed cues -/

section
variable {cues : List Cue} {placements : List Placement}
  (fits : List.Forall₂ Fits cues placements)

include fits

theorem ofPlacements_pointsInto : (Timeline.ofPlacements placements).PointsInto cues := by
  intro mark member
  rw [fits.length_eq]
  rcases List.mem_append.mp member with begin | stop
  · obtain ⟨placement, found, -⟩ := Timeline.mem_begins.mp ⟨mark, begin, rfl, rfl⟩
    exact (List.getElem?_eq_some_iff.mp found).1
  · obtain ⟨placement, found, -⟩ := Timeline.mem_ends.mp ⟨mark, stop, rfl, rfl⟩
    exact (List.getElem?_eq_some_iff.mp found).1

theorem sounding_of_mem_ends {mark : Mark} (member : mark ∈ (Timeline.ofPlacements placements).ends)
    {cue : Cue} (found : cues[mark.entry]? = some cue) : cue.isSounding = true := by
  obtain ⟨placement, there, stop⟩ := Timeline.mem_ends.mp ⟨mark, member, rfl, rfl⟩
  obtain ⟨_, there', here⟩ := getElem?_of_forall₂ fits found
  cases Option.some.inj (there.symm.trans there')
  cases placement with
  | instant tick => cases stop
  | span span => exact here.1

/-- Every mark of placed cues that is taken emits one event. -/
theorem schedule_events_standFor (resolution : Resolution) :
    List.Forall₂ (StandsFor cues) ((Timeline.ofPlacements placements).sources cues)
      (schedule resolution cues (Timeline.ofPlacements placements)).events := by
  refine events_standFor (emissions_yield resolution {} fun _ => Timeline.attached_of_mem_order) ?_
  intro mark member cue found
  have taken := (Timeline.order_perm_sidedMarks (ofPlacements_pointsInto fits)).mem_iff.mp member
  exact sounding_of_mem_ends fits (by simpa [Timeline.sidedMarks] using taken) found

end

section
variable {resolution : Resolution} {reach : Nat} {cues : List Cue} {placements : List Placement}

theorem Placed.start_lt_latest {cue : Cue} {placement : Placement} (small : reach < 2 ^ 63 - 1)
    (placed : Placed resolution reach cue placement) : placement.start < .latest := by
  rw [Ticks.lt_iff, Ticks.latest_sub]
  cases placement with
  | instant tick =>
      have last := placed.2.2
      simp only [Placement.start]
      omega
  | span span =>
      obtain ⟨-, ⟨first, second, third⟩, -⟩ := placed
      simp only [Placement.start]
      omega

variable (placed : List.Forall₂ (Placed resolution reach) cues placements)

include placed

theorem fits_of_placed : List.Forall₂ Fits cues placements :=
  placed.imp fun _ _ => Placed.fits

/-- A sounding cue has two marks, its duration apart. -/
theorem marks_of_sounding {index : Nat} {cue : Cue} (found : cues[index]? = some cue)
    (sounding : cue.isSounding = true) :
    ∃ start ∈ (Timeline.ofPlacements placements).begins,
      ∃ stop ∈ (Timeline.ofPlacements placements).ends,
        start.entry = index ∧ stop.entry = index ∧
          stop.tick.sub = start.tick.sub + cue.exactDuration resolution := by
  obtain ⟨placement, there, here⟩ := getElem?_of_forall₂ placed found
  cases placement with
  | instant tick => exact absurd (sounding.symm.trans here.1) (by decide)
  | span span =>
      obtain ⟨-, -, length⟩ := here
      obtain ⟨start, begins, startTick, startEntry⟩ :=
        Timeline.mem_begins.mpr ⟨.span span, there, rfl⟩
      obtain ⟨stop, ends, stopTick, stopEntry⟩ := Timeline.mem_ends.mpr ⟨.span span, there, rfl⟩
      refine ⟨start, begins, stop, ends, startEntry, stopEntry, ?_⟩
      rw [startTick, stopTick]
      exact length

variable (small : reach < 2 ^ 63 - 1)

include small

/-- No mark is left out, since none is at the last representable time. -/
theorem sidedMarks_ofPlacements :
    (Timeline.ofPlacements placements).sidedMarks =
      (Timeline.ofPlacements placements).begins.map (Side.start, ·) ++
        (Timeline.ofPlacements placements).ends.map (Side.stop, ·) := by
  rw [Timeline.sidedMarks, List.filter_eq_self.mpr]
  intro mark member
  obtain ⟨placement, found, time⟩ := Timeline.mem_begins.mp ⟨mark, member, rfl, rfl⟩
  obtain ⟨cue, -, here⟩ := exists_of_forall₂_right placed (List.mem_of_getElem? found)
  rw [decide_eq_true_eq, ← time]
  exact Ticks.lt_latest_iff.mp (here.start_lt_latest small)

/-! ## One event for each side -/

theorem order_perm :
    (((Timeline.ofPlacements placements).order cues).map sided).Perm
      ((Timeline.ofPlacements placements).begins.map (Side.start, ·) ++
        (Timeline.ofPlacements placements).ends.map (Side.stop, ·)) := by
  rw [← sidedMarks_ofPlacements placed small]
  exact Timeline.order_perm_sidedMarks (ofPlacements_pointsInto (fits_of_placed placed))

theorem sources_perm :
    ((Timeline.ofPlacements placements).sources cues).Perm
      ((List.range cues.length).map (Side.start, ·) ++
        ((Timeline.ofPlacements placements).ends.map (·.entry)).map (Side.stop, ·)) := by
  refine ((order_perm placed small).map source).trans ?_
  rw [List.map_append, List.map_map, List.map_map, placed.length_eq,
    ← Timeline.begins_map_entry, List.map_map, List.map_map]
  exact List.Perm.refl _

theorem sources_nodup :
    ((Timeline.ofPlacements placements).sources cues).Nodup := by
  refine (sources_perm placed small).nodup_iff.mpr (List.Nodup.append ?_ ?_ ?_)
  · exact List.nodup_range.map (Prod.mk_right_injective Side.start)
  · exact (Timeline.ends_map_entry_nodup placements).map (Prod.mk_right_injective Side.stop)
  · intro both starts stops
    obtain ⟨_, -, rfl⟩ := List.mem_map.mp starts
    obtain ⟨_, -, same⟩ := List.mem_map.mp stops
    cases same

theorem start_mem_sources (index : Nat) :
    (Side.start, index) ∈ (Timeline.ofPlacements placements).sources cues ↔
      index < cues.length := by
  rw [(sources_perm placed small).mem_iff, List.mem_append]
  simp

theorem stop_mem_sources (index : Nat) :
    (Side.stop, index) ∈ (Timeline.ofPlacements placements).sources cues ↔
      ∃ cue, cues[index]? = some cue ∧ cue.isSounding = true := by
  have ended : (Side.stop, index) ∈ (Timeline.ofPlacements placements).sources cues ↔
      ∃ mark ∈ (Timeline.ofPlacements placements).ends, mark.entry = index := by
    rw [(sources_perm placed small).mem_iff, List.mem_append]
    simp
  rw [ended]
  constructor
  · rintro ⟨mark, member, rfl⟩
    have fits := fits_of_placed placed
    have inside := ofPlacements_pointsInto fits mark (List.mem_append_right _ member)
    have found := List.getElem?_eq_getElem inside
    exact ⟨_, found, sounding_of_mem_ends fits member found⟩
  · rintro ⟨cue, found, sounding⟩
    obtain ⟨_, _, stop, member, _, entry, _⟩ := marks_of_sounding placed found sounding
    exact ⟨stop, member, entry⟩

/-- A sounding cue begins before it ends exactly if it has a length. -/
theorem idxOf_start_lt_stop {index : Nat} {cue : Cue}
    (found : cues[index]? = some cue) (sounding : cue.isSounding = true) :
    ((Timeline.ofPlacements placements).sources cues).idxOf (.start, index) <
        ((Timeline.ofPlacements placements).sources cues).idxOf (.stop, index) ↔
      0 < cue.exactDuration resolution := by
  obtain ⟨start, begins, stop, ends, startEntry, rfl, length⟩ :=
    marks_of_sounding placed found sounding
  have sorted := (Timeline.ofPlacements placements).order_pairwise cues
  have distinct := sources_nodup placed small
  have startTaken := (order_perm placed small).mem_iff.mpr
    (List.mem_append_left _ (List.mem_map_of_mem begins))
  have stopTaken := (order_perm placed small).mem_iff.mpr
    (List.mem_append_right _ (List.mem_map_of_mem ends))
  rw [show (Side.start, stop.entry) = source (.start, start) by rw [source, startEntry]]
  constructor
  · intro before
    have ordered := rel_of_idxOf_lt sorted distinct startTaken stopTaken before
    have earlier := Ticks.lt_iff.mp (tick_lt_of_markKey_start_le ordered)
    omega
  · intro positive
    apply Nat.lt_of_not_le
    intro notBefore
    rcases Nat.lt_or_eq_of_le notBefore with after | same
    · have ordered := rel_of_idxOf_lt sorted distinct stopTaken startTaken after
      have notLater : stop.tick.sub ≤ start.tick.sub := tick_le_of_markKey_le ordered
      omega
    · have member : source (.stop, stop) ∈ (Timeline.ofPlacements placements).sources cues :=
        List.mem_map_of_mem stopTaken
      cases congrArg Prod.fst ((List.idxOf_inj member).mp same)

end

/-! ## The schedule of placed cues -/

/-- The schedule of a track below the last representable time has one event for the beginning of
every cue, one for the end of every sounding cue, and no other.  A tone or a group of hits is
released with the keys with which it was struck, as `Cue.Causes` states.  A sounding cue begins
before it ends if and only if its duration is positive. -/
theorem schedule_pairs_sides {resolution : Resolution} {cues : List Cue} {timeline : Timeline}
    (built : Timeline.ofCues resolution cues = .ok timeline)
    (small : extent resolution cues < 2 ^ 63 - 1) :
    List.Forall₂ (StandsFor cues) (timeline.sources cues)
        (schedule resolution cues timeline).events ∧
      (timeline.sources cues).Nodup ∧
      (∀ index, (Side.start, index) ∈ timeline.sources cues ↔ index < cues.length) ∧
      (∀ index, (Side.stop, index) ∈ timeline.sources cues ↔
        ∃ cue, cues[index]? = some cue ∧ cue.isSounding = true) ∧
      ∀ index cue, cues[index]? = some cue → cue.isSounding = true →
        ((timeline.sources cues).idxOf (.start, index) <
            (timeline.sources cues).idxOf (.stop, index) ↔
          0 < cue.duration resolution) := by
  obtain ⟨placements, success, rfl⟩ := Timeline.ofCues_eq_ok.mp built
  have placed := place_placed small success
  refine ⟨schedule_events_standFor (placeFrom_fits success) resolution,
    sources_nodup placed small, start_mem_sources placed small, stop_mem_sources placed small, ?_⟩
  intro index cue found sounding
  have short := exactDuration_le_extent resolution (List.mem_of_getElem? found)
  rw [idxOf_start_lt_stop placed small found sounding, Ticks.lt_iff,
    Cue.duration_sub (by omega)]
  exact Int.natCast_pos.symm

/-- A tone, a grace note without a length, a change of tempo and a bend over the tone. -/
def graceNote : List Cue :=
  [⟨⟨0, none⟩, .tone ⟨.c, 4, .quarter, 100, [], [.quarter]⟩⟩,
    ⟨⟨1, none⟩, .tone ⟨.d, 4, .chord, 100, [], []⟩⟩, ⟨⟨2, none⟩, .tempo 90.0⟩,
    ⟨⟨3, none⟩, .bend ⟨100, [⟨.eighth, .plain⟩, .quarter], [.chord]⟩⟩]

theorem graceNote_released_first : ∃ timeline,
    Timeline.ofCues ⟨4, by decide, by decide⟩ graceNote = .ok timeline ∧
      extent ⟨4, by decide, by decide⟩ graceNote < 2 ^ 63 - 1 ∧
      (Side.stop, 2) ∉ timeline.sources graceNote ∧
      (timeline.sources graceNote).idxOf (.start, 0) <
        (timeline.sources graceNote).idxOf (.stop, 0) ∧
      ¬(timeline.sources graceNote).idxOf (.start, 1) <
        (timeline.sources graceNote).idxOf (.stop, 1) := by
  have small : extent ⟨4, by decide, by decide⟩ graceNote < 2 ^ 63 - 1 := by decide
  refine ⟨_, rfl, small, ?_⟩
  obtain ⟨-, -, -, stops, order⟩ := schedule_pairs_sides rfl small
  refine ⟨?_, (order 0 _ rfl rfl).mpr (by decide), ?_⟩
  · rintro ended
    obtain ⟨cue, found, sounding⟩ := (stops 2).mp ended
    cases found
    cases sounding
  · intro before
    exact absurd ((order 1 _ rfl rfl).mp before) (by decide)

end MidiScore
