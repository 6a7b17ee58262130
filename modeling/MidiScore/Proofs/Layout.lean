import MidiScore.Proofs.Deltas
import MidiScore.Proofs.Overruns

/-!
# The layout of a timeline

What a timeline says about its cues, read off its marks alone.  `tickOf?` looks up the mark of a
cue, and `Timeline.span?` gives the two marks of a sounding one.

*Starts.*  `Cue.StartsAfter` states when a cue starts after the last sounding one: a delay later
than its start, a pause later than its end, or at its end for a control.  A step of placement starts
its cue so (`startAfter_startsAfter`).  Along a run the last sounding cue is the one that
`Timeline.spanBefore?` finds (`placeFrom_startsAfter`).

*Length.*  An end may come before an earlier one, so the latest end is not always the last.  Nothing
lies after it: a sounding cue ends after it starts, and a control stands at an end.  So the
schedule, which is ordered by time, stops at the length of the timeline.
-/

namespace MidiScore

/-! ## Reading marks -/

/-- The time of the mark of the cue at an index. -/
def tickOf? (marks : List Mark) (index : Nat) : Option Ticks :=
  (marks.find? (·.entry = index)).map (·.tick)

theorem tickOf?_eq_some {marks : List Mark} (distinct : (marks.map (·.entry)).Nodup) {index : Nat}
    {time : Ticks} :
    tickOf? marks index = some time ↔ ∃ mark ∈ marks, mark.tick = time ∧ mark.entry = index := by
  rw [tickOf?, Option.map_eq_some_iff]
  constructor
  · rintro ⟨mark, found, same⟩
    have entry : mark.entry = index := by simpa using List.find?_some found
    exact ⟨mark, List.mem_of_find?_eq_some found, same, entry⟩
  · rintro ⟨mark, member, same, rfl⟩
    have present : (marks.find? (·.entry = mark.entry)).isSome :=
      List.find?_isSome.mpr ⟨mark, member, by simp⟩
    obtain ⟨other, found⟩ := Option.isSome_iff_exists.mp present
    have entry : other.entry = mark.entry := by simpa using List.find?_some found
    cases List.inj_on_of_nodup_map distinct (List.mem_of_find?_eq_some found) member entry
    exact ⟨mark, found, same⟩

/-- The span of a placement of a sounding cue. -/
def Placement.span? : Placement → Option Span
  | .instant _ => none
  | .span s => some s

theorem Placement.span?_eq_some {placement : Placement} {span : Span} :
    placement.span? = some span ↔ placement = .span span := by
  cases placement with
  | instant tick => simp [Placement.span?]
  | span other => simp [Placement.span?]

namespace Timeline

/-- The two marks of the sounding cue at an index. -/
def span? (timeline : Timeline) (index : Nat) : Option Span :=
  (tickOf? timeline.begins index).bind fun start =>
    (tickOf? timeline.ends index).map fun stop => ⟨start, stop⟩

/-- The two marks of the last sounding cue before an index. -/
def spanBefore? (timeline : Timeline) (cues : List Cue) (index : Nat) : Option Span :=
  ((cues.take index).findIdxs (·.isSounding)).getLast?.bind timeline.span?

section
variable (placements : List Placement)

theorem begins_map_sequence :
    (ofPlacements placements).begins.map (·.sequence) = List.range placements.length := by
  rw [ofPlacements, List.map_map, List.range_eq_range']
  exact List.zipIdx_map_snd 0 placements

theorem ends_map_sequence :
    (ofPlacements placements).ends.map (·.sequence) =
      List.range (ofPlacements placements).ends.length := by
  rw [ofPlacements, List.map_map, List.range_eq_range', List.length_map, List.length_zipIdx]
  exact List.zipIdx_map_snd 0 _

theorem begins_map_entry_nodup : ((ofPlacements placements).begins.map (·.entry)).Nodup := by
  rw [begins_map_entry]
  exact List.nodup_range

variable (index : Nat)

/-- The mark of a beginning stands where the cue was placed. -/
theorem tickOf?_begins :
    tickOf? (ofPlacements placements).begins index = placements[index]?.map Placement.start := by
  apply Option.ext
  intro time
  rw [tickOf?_eq_some (begins_map_entry_nodup placements), mem_begins, Option.map_eq_some_iff]

/-- So does the mark of an end, if the cue has one. -/
theorem tickOf?_ends :
    tickOf? (ofPlacements placements).ends index = placements[index]?.bind Placement.stop? := by
  apply Option.ext
  intro time
  rw [tickOf?_eq_some (ends_map_entry_nodup placements), mem_ends, Option.bind_eq_some_iff]

theorem span?_ofPlacements :
    (ofPlacements placements).span? index = placements[index]?.bind Placement.span? := by
  rw [span?, tickOf?_begins, tickOf?_ends]
  cases placements[index]? with
  | none => rfl
  | some placement =>
      cases placement with
      | instant tick => rfl
      | span span => rfl

theorem span?_eq_some {span : Span} :
    (ofPlacements placements).span? index = some span ↔ placements[index]? = some (.span span) := by
  rw [span?_ofPlacements, Option.bind_eq_some_iff]
  constructor
  · rintro ⟨placement, found, isSpan⟩
    rwa [Placement.span?_eq_some.mp isSpan] at found
  · intro found
    exact ⟨_, found, rfl⟩

end

end Timeline

/-! ## The last sounding cue -/

/-- The last span of a list of placements. -/
def lastSpan? (placements : List Placement) : Option Span :=
  (placements.filterMap Placement.span?).getLast?

theorem lastSpan?_cons (placement : Placement) (placements : List Placement) :
    lastSpan? (placement :: placements) = (lastSpan? placements).or placement.span? := by
  unfold lastSpan?
  cases placement with
  | instant tick => simp [Placement.span?]
  | span span =>
      have found : (Placement.span span).span? = some span := rfl
      rw [List.filterMap_cons_some found, List.getLast?_cons, found]
      cases (placements.filterMap Placement.span?).getLast? with
      | none => rfl
      | some last => rfl

theorem lastSpan?_mem {placements : List Placement} {span : Span}
    (last : lastSpan? placements = some span) : .span span ∈ placements := by
  obtain ⟨placement, member, found⟩ := List.mem_filterMap.mp (List.mem_of_getLast? last)
  rwa [Placement.span?_eq_some.mp found] at member

section
variable {cues : List Cue} {placements : List Placement}
  (fits : List.Forall₂ Fits cues placements)

include fits

/-- The indices of sounding cues lead to the spans of their placements. -/
theorem findIdxs_map_span? :
    (cues.findIdxs (·.isSounding)).map (fun index => placements[index]?.bind Placement.span?) =
      (placements.filterMap Placement.span?).map some := by
  induction fits with
  | nil => rfl
  | @cons cue placement cues placements first _ ih =>
      have later : (cues.findIdxs (·.isSounding) 1).map
          (fun index => (placement :: placements)[index]?.bind Placement.span?) =
            (placements.filterMap Placement.span?).map some := by
        rw [List.findIdxs_start, List.map_map, ← ih]
        rfl
      cases placement with
      | instant tick =>
          have control : cue.isSounding = false := first
          rw [List.findIdxs_cons, if_neg (by simp [control]), later]
          rfl
      | span span =>
          rw [List.findIdxs_cons, if_pos first.1, List.map_cons, later]
          rfl

theorem Timeline.ends_map_entry :
    (ofPlacements placements).ends.map (·.entry) = cues.findIdxs (·.isSounding) := by
  have entries : (ofPlacements placements).ends.map (·.entry) =
      ((ofPlacements placements).ends.map fun mark => (mark.tick, mark.entry)).map Prod.snd := by
    rw [List.map_map]
    rfl
  rw [entries, ends_map]
  clear entries
  generalize 0 = start
  induction fits generalizing start with
  | nil => rfl
  | @cons cue placement cues placements first _ ih =>
      rw [List.zipIdx_cons, List.findIdxs_cons, ← ih (start + 1)]
      cases placement with
      | instant tick =>
          have control : cue.isSounding = false := first
          rw [if_neg (by simp [control])]
          rfl
      | span span =>
          rw [if_pos first.1]
          rfl

/-- The last sounding cue before an index has the last span among the placements before it. -/
theorem Timeline.spanBefore?_ofPlacements (index : Nat) :
    (ofPlacements placements).spanBefore? cues index = lastSpan? (placements.take index) := by
  have spans := findIdxs_map_span? (List.forall₂_take index fits)
  have here : ∀ found ∈ (cues.take index).findIdxs (·.isSounding),
      (ofPlacements placements).span? found =
        (placements.take index)[found]?.bind Placement.span? := by
    intro found member
    have inside := List.lt_add_of_mem_findIdxs found member
    rw [span?_ofPlacements, List.getElem?_take_of_lt (by rw [List.length_take] at inside; omega)]
  have last := congrArg List.getLast? spans
  rw [← List.map_congr_left here, List.getLast?_map, List.getLast?_map] at last
  have flat := congrArg (Option.bind · id) last
  simp only [Option.bind_map, Function.id_comp, Option.bind_fun_some] at flat
  exact flat

end

/-! ## Starts -/

/-- When a cue starts after the last sounding one.  Before the first sounding cue all counts from
zero. -/
def Cue.StartsAfter (resolution : Resolution) (cue : Cue) (last : Option Span) (start : Ticks) :
    Prop :=
  if cue.isSounding then
    if cue.delay = [] then
      start.sub = (last.getD {}).stop.sub + (NoteValue.sumTicks resolution cue.pause).sub
    else
      start.sub = (last.getD {}).start.sub + (NoteValue.sumTicks resolution cue.delay).sub ∧
        ∀ span ∈ last, start ≤ span.stop
  else start = (last.getD {}).stop

section
variable {resolution : Resolution}

/-- A delay that is accepted does not go past the end of the last sounding cue. -/
theorem startAfter_le_stop {span : Span} {delay pause start : Ticks} {reach : Nat}
    (within : span.Within reach) (small : reach < 2 ^ 63)
    (begun : start.sub = span.start.sub + delay.sub)
    (started : startAfter (some span) (some delay) pause = .ok start) : start ≤ span.stop := by
  obtain ⟨first, second, third⟩ := within
  rw [startAfter_some] at started
  split at started
  next => cases started
  next accepted =>
    rw [Ticks.lt_iff, Ticks.sub_sub (by omega) (by omega)] at accepted
    rw [Ticks.le_iff]
    omega

/-- The start that placement computes is the one that is stated. -/
theorem startAfter_startsAfter {cue : Cue} {previous : Option Span} {duration pause start : Ticks}
    {delay : Option Ticks} {reach : Nat} (within : (previous.getD {}).Within reach)
    (small : reach + cue.extent resolution < 2 ^ 63)
    (timing : cue.timing resolution = .span duration delay pause)
    (started : startAfter previous delay pause = .ok start) :
    cue.StartsAfter resolution previous start := by
  obtain ⟨-, delayed, paused⟩ := Cue.timing_sub (by omega) timing
  have begun := startAfter_sub within (by omega) (by omega)
    (by unfold Cue.extent at small; omega) started
  obtain ⟨sounding, -, written, rfl⟩ := Cue.timing_eq_span timing
  rw [Cue.StartsAfter, if_pos sounding]
  by_cases unwritten : cue.delay = []
  · rw [if_pos (List.isEmpty_iff.mpr unwritten)] at written
    subst written
    rw [if_pos unwritten]
    exact begun
  · rw [if_neg (mt List.isEmpty_iff.mp unwritten)] at written
    subst written
    rw [if_neg unwritten]
    refine ⟨begun, ?_⟩
    rintro span ⟨⟩
    exact startAfter_le_stop within (by omega) begun started

/-- Every cue of a run starts after the last sounding one before it. -/
theorem placeFrom_startsAfter {cues : List Cue} {previous : Option Span}
    {placements : List Placement} {reach : Nat} (within : (previous.getD {}).Within reach)
    (small : reach + extent resolution cues < 2 ^ 63 - 1)
    (placed : placeFrom resolution previous cues = .ok placements) {index : Nat} {cue : Cue}
    {placement : Placement} (found : cues[index]? = some cue)
    (there : placements[index]? = some placement) :
    cue.StartsAfter resolution ((lastSpan? (placements.take index)).or previous)
      placement.start := by
  induction cues generalizing previous placements reach index with
  | nil => cases found
  | cons first cues ih =>
      rw [extent_cons] at small
      rcases placeFrom_cons placed with ⟨timing, others, otherPlaced, rfl⟩ |
        ⟨duration, delay, pause, start, others, timing, started, otherPlaced, rfl⟩
      · cases index with
        | zero =>
            cases found
            cases there
            rw [Cue.StartsAfter, if_neg (by simp [Cue.timing_eq_instant.mp timing])]
            rfl
        | succ index =>
            rw [List.take_succ_cons, lastSpan?_cons, Option.or_assoc]
            exact ih within (by omega) otherPlaced found there
      · obtain ⟨inside, -⟩ := startAfter_within within (by omega) timing started
        cases index with
        | zero =>
            cases found
            cases there
            exact startAfter_startsAfter within (by omega) timing started
        | succ index =>
            -- the new span is the last one for the cues that follow, unless they have their own
            rw [List.take_succ_cons, lastSpan?_cons, Option.or_assoc]
            have after : ((some (Span.mk start (start + duration))).getD {}).Within
              (reach + first.extent resolution) := inside
            exact ih after (by omega) otherPlaced found there

end

/-! ## Lengths -/

instance : Std.LawfulOrderMax Ticks := by
  apply Std.LawfulOrderMax.of_max_le_iff
  · intro a b c
    simp only [Ticks.le_iff, Ticks.max_sub]
    omega
  · intro a b
    rcases Int.le_total a.sub b.sub with ordered | ordered
    · exact Or.inr (Ticks.ext (by rw [Ticks.max_sub]; omega))
    · exact Or.inl (Ticks.ext (by rw [Ticks.max_sub]; omega))

/-- The latest of some times is one of them, and none is later. -/
theorem Ticks.lastOf_cases (times : List Ticks) :
    times = [] ∧ lastOf times = 0 ∨ lastOf times ∈ times ∧ ∀ time ∈ times, time ≤ lastOf times := by
  unfold lastOf
  cases found : times.max? with
  | none => exact Or.inl ⟨List.max?_eq_none_iff.mp found, rfl⟩
  | some last =>
      refine Or.inr ⟨List.max?_mem found, ?_⟩
      exact (List.max?_le_iff found).mp (Int.le_refl last.sub)

namespace Timeline

/-- The length of a timeline is its latest end. -/
theorem end_le_length {timeline : Timeline} {mark : Mark} (member : mark ∈ timeline.ends) :
    mark.tick ≤ timeline.length := by
  rcases Ticks.lastOf_cases (timeline.ends.map (·.tick)) with ⟨none, -⟩ | ⟨-, latest⟩
  · rw [List.map_eq_nil_iff.mp none] at member
    cases member
  · exact latest _ (List.mem_map_of_mem member)

section
variable {resolution : Resolution} {cues : List Cue} {placements : List Placement}

theorem length_nonneg (placed : place resolution cues = .ok placements) :
    0 ≤ (ofPlacements placements).length.sub := by
  rcases Ticks.lastOf_cases ((ofPlacements placements).ends.map (·.tick)) with
    ⟨-, zero⟩ | ⟨member, -⟩
  · rw [length, zero]
    exact Int.le_refl 0
  · obtain ⟨mark, isEnd, same⟩ := List.mem_map.mp member
    rw [length, ← same]
    exact mark_nonneg placed (List.mem_append_right _ isEnd)

theorem stop_le_length {span : Span} (member : .span span ∈ placements) :
    span.stop ≤ (ofPlacements placements).length := by
  obtain ⟨index, inside, found⟩ := List.mem_iff_getElem.mp member
  obtain ⟨mark, isEnd, same, -⟩ := mem_ends.mpr
    ⟨.span span, List.getElem?_eq_some_iff.mpr ⟨inside, found⟩, rfl⟩
  rw [← same]
  exact end_le_length isEnd

variable (small : extent resolution cues < 2 ^ 63 - 1)
  (placed : place resolution cues = .ok placements)

include small placed

/-- Every cue starts after the last sounding one before it. -/
theorem place_startsAfter {index : Nat} {cue : Cue} {placement : Placement}
    (found : cues[index]? = some cue) (there : placements[index]? = some placement) :
    cue.StartsAfter resolution ((ofPlacements placements).spanBefore? cues index)
      placement.start := by
  have within : ((none : Option Span).getD {}).Within 0 := Span.within_default 0
  have starts := placeFrom_startsAfter within (by omega) placed found there
  rwa [Option.or_none, ← spanBefore?_ofPlacements (placeFrom_fits placed)] at starts

/-- Nothing lies after the latest end. -/
theorem mark_le_length {mark : Mark}
    (member : mark ∈ (ofPlacements placements).begins ++ (ofPlacements placements).ends) :
    mark.tick ≤ (ofPlacements placements).length := by
  rcases List.mem_append.mp member with begin | stop
  · obtain ⟨placement, there, same⟩ := mem_begins.mp ⟨mark, begin, rfl, rfl⟩
    have fits := placeFrom_fits placed
    obtain ⟨cue, found, here⟩ := getElem?_of_forall₂ fits.flip there
    have starts := place_startsAfter small placed found there
    rw [← same]
    cases placement with
    | span span =>
        exact Int.le_trans here.2 (stop_le_length (List.mem_of_getElem? there))
    | instant tick =>
        have control : cue.isSounding = false := here
        rw [Cue.StartsAfter, if_neg (by simp [control]), spanBefore?_ofPlacements fits] at starts
        rw [starts]
        cases last : lastSpan? (placements.take mark.entry) with
        | none => exact length_nonneg placed
        | some span => exact stop_le_length (List.mem_of_mem_take (lastSpan?_mem last))
  · exact end_le_length stop

end

end Timeline

/-! ## The last event -/

section
variable {resolution : Resolution} {cues : List Cue} {placements : List Placement}
  (placed : place resolution cues = .ok placements)

include placed

/-- Events have the ticks of their marks. -/
theorem schedule_ticks :
    (schedule resolution cues (Timeline.ofPlacements placements)).events.map (·.tick) =
      ((Timeline.ofPlacements placements).order cues).map (·.2.mark.tick.wholeClamped) := by
  let steps := withPrevious 0 (((Timeline.ofPlacements placements).order cues).map sided)
  have marks : steps.map Prod.snd = ((Timeline.ofPlacements placements).order cues).map sided :=
    List.map_snd_zip (by simp)
  have ticks : steps.map (·.2.2.tick.wholeClamped) =
      (schedule resolution cues (Timeline.ofPlacements placements)).events.map (·.tick) := by
    rw [← List.forall₂_eq_eq_eq, List.forall₂_map_left_iff, List.forall₂_map_right_iff]
    exact (schedule_counts placed).imp fun _ _ counts => counts.2.tick.symm
  calc
    _ = (steps.map Prod.snd).map (·.2.tick.wholeClamped) := by rw [← ticks, List.map_map]; rfl
    _ = _ := by rw [marks, List.map_map]; rfl

/-- No end is taken later than the last mark. -/
theorem end_le_order_last {taken : Side × Queued}
    (last : ((Timeline.ofPlacements placements).order cues).getLast? = some taken) {mark : Mark}
    (isEnd : mark ∈ (Timeline.ofPlacements placements).ends) : mark.tick ≤ taken.2.mark.tick := by
  have isTaken : (Side.stop, mark) ∈ ((Timeline.ofPlacements placements).order cues).map sided :=
    (Timeline.order_perm_sidedMarks (ofPlacements_pointsInto (placeFrom_fits placed))).mem_iff.mpr
      (List.mem_append_right _ (List.mem_map_of_mem isEnd))
  obtain ⟨⟨side, queued⟩, member, same⟩ := List.mem_map.mp isTaken
  cases same
  obtain ⟨before, order⟩ := List.getLast?_eq_some_iff.mp last
  have ordered := Timeline.order_ticks_pairwise cues (Timeline.ofPlacements placements)
  rw [order] at ordered member
  rcases List.mem_append.mp member with earlier | here
  · exact (List.pairwise_append.mp ordered).2.2 _ earlier taken (List.mem_singleton.mpr rfl)
  · cases List.mem_singleton.mp here
    exact Int.le_refl _

/-- The last mark that is taken lies at the length of the timeline. -/
theorem order_last (small : extent resolution cues < 2 ^ 63 - 1) {taken : Side × Queued}
    (last : ((Timeline.ofPlacements placements).order cues).getLast? = some taken) :
    taken.2.mark.tick = (Timeline.ofPlacements placements).length := by
  have member := Timeline.mark_mem_of_mem_order (List.mem_of_getLast? last)
  have notAfter := Timeline.mark_le_length small placed member
  have notBefore : (Timeline.ofPlacements placements).length ≤ taken.2.mark.tick := by
    rcases Ticks.lastOf_cases ((Timeline.ofPlacements placements).ends.map (·.tick)) with
      ⟨-, zero⟩ | ⟨latest, -⟩
    · rw [Timeline.length, zero]
      exact Timeline.mark_nonneg placed member
    · obtain ⟨mark, isEnd, same⟩ := List.mem_map.mp latest
      rw [Timeline.length, ← same]
      exact end_le_order_last placed last isEnd
  exact Ticks.ext (Int.le_antisymm notAfter notBefore)

/-- The last event lies in the last whole tick of the timeline, as far as ticks go. -/
theorem schedule_last_tick (small : extent resolution cues < 2 ^ 63 - 1) {event : TimedEvent}
    (last : (schedule resolution cues (Timeline.ofPlacements placements)).events.getLast? =
      some event) :
    (event.tick : Int) = min 0xffffffff (Timeline.ofPlacements placements).length.whole := by
  have ticks := congrArg List.getLast? (schedule_ticks placed)
  rw [List.getLast?_map, List.getLast?_map, last, Option.map_some] at ticks
  obtain ⟨taken, isLast, same⟩ := Option.map_eq_some_iff.mp ticks.symm
  have positive : 0 ≤ (Timeline.ofPlacements placements).length.whole :=
    Int.ediv_nonneg (Timeline.length_nonneg placed) (by decide)
  rw [← same, order_last placed small isLast, Ticks.wholeClamped]
  omega

end

/-! ## The whole layout -/

/-- How the marks of a timeline lie over the cues of its track. -/
structure Timeline.LaysOut (resolution : Resolution) (cues : List Cue) (timeline : Timeline) :
    Prop where
  /-- Every cue begins once, in order. -/
  begins : timeline.begins.map (·.entry) = List.range cues.length ∧
    timeline.begins.map (·.sequence) = List.range cues.length
  /-- The sounding cues, and only these, end once, in order. -/
  ends : timeline.ends.map (·.entry) = cues.findIdxs (·.isSounding) ∧
    timeline.ends.map (·.sequence) = List.range timeline.ends.length
  /-- A cue starts where the last sounding cue before it lets it start. -/
  starts : ∀ index cue, cues[index]? = some cue →
    ∃ start, tickOf? timeline.begins index = some start ∧
      cue.StartsAfter resolution (timeline.spanBefore? cues index) start
  /-- A sounding cue ends its duration after its start. -/
  stops : ∀ index cue, cues[index]? = some cue → cue.isSounding = true →
    ∃ span, timeline.span? index = some span ∧
      span.stop.sub = span.start.sub + (cue.duration resolution).sub
  /-- Sounding cues start one after another. -/
  ordered : ∀ first second earlier later, first ≤ second → timeline.span? first = some earlier →
    timeline.span? second = some later → earlier.start ≤ later.start
  /-- Every mark lies between zero and the length of the timeline. -/
  bounded : ∀ mark ∈ timeline.begins ++ timeline.ends,
    0 ≤ mark.tick ∧ mark.tick ≤ timeline.length

section
variable {resolution : Resolution} {cues : List Cue} {placements : List Placement}

theorem Timeline.starts_ordered (placed : place resolution cues = .ok placements)
    {first second : Nat} {earlier later : Span} (le : first ≤ second)
    (firstSpan : (ofPlacements placements).span? first = some earlier)
    (secondSpan : (ofPlacements placements).span? second = some later) :
    earlier.start ≤ later.start := by
  have starts := (place_starts placed).2
  rw [span?_eq_some] at firstSpan secondSpan
  rcases Nat.lt_or_eq_of_le le with before | rfl
  · obtain ⟨inside, found⟩ := List.getElem?_eq_some_iff.mp firstSpan
    obtain ⟨otherInside, otherFound⟩ := List.getElem?_eq_some_iff.mp secondSpan
    have after := List.pairwise_iff_getElem.mp starts _ _ inside otherInside before earlier found
    rwa [otherFound] at after
  · cases firstSpan.symm.trans secondSpan
    exact Int.le_refl _

theorem Timeline.laysOut (small : extent resolution cues < 2 ^ 63 - 1)
    (placed : place resolution cues = .ok placements) :
    (ofPlacements placements).LaysOut resolution cues where
  begins := by
    rw [begins_map_entry, begins_map_sequence, (placeFrom_fits placed).length_eq]
    exact ⟨rfl, rfl⟩
  ends := ⟨ends_map_entry (placeFrom_fits placed), ends_map_sequence placements⟩
  starts := by
    intro index cue found
    obtain ⟨placement, there, -⟩ := getElem?_of_forall₂ (placeFrom_fits placed) found
    refine ⟨placement.start, ?_, place_startsAfter small placed found there⟩
    rw [tickOf?_begins, there]
    rfl
  stops := by
    intro index cue found sounding
    have short := exactDuration_le_extent resolution (List.mem_of_getElem? found)
    obtain ⟨placement, there, here⟩ := getElem?_of_forall₂ (place_placed small placed) found
    cases placement with
    | instant tick => exact absurd (sounding.symm.trans here.1) (by decide)
    | span span =>
        refine ⟨span, (span?_eq_some placements index).mpr there, ?_⟩
        rw [Cue.duration_sub (by omega)]
        exact here.2.2
  ordered := fun _ _ _ _ => starts_ordered placed
  bounded := fun _ member => ⟨mark_nonneg placed member, mark_le_length small placed member⟩

end

/-- The timeline of a track below the last representable time.  Its marks are numbered in order, a
beginning for every cue and an end for every sounding one.  Every cue starts after the last sounding
one before it, by its delay or its pause, and a sounding cue ends its duration later.  Starts of
sounding cues never go back, every mark lies between zero and the length of the timeline, and the
last event of the schedule is at the whole ticks of that length. -/
theorem ofCues_laysOut {resolution : Resolution} {cues : List Cue} {timeline : Timeline}
    (built : Timeline.ofCues resolution cues = .ok timeline)
    (small : extent resolution cues < 2 ^ 63 - 1) :
    timeline.LaysOut resolution cues ∧
      ∀ event, (schedule resolution cues timeline).events.getLast? = some event →
        (event.tick : Int) = min 0xffffffff timeline.length.whole := by
  obtain ⟨placements, placed, rfl⟩ := Timeline.ofCues_eq_ok.mp built
  exact ⟨Timeline.laysOut small placed, fun _ => schedule_last_tick placed small⟩

/-- A half note after a leading delay, a shorter chord member, a change of tempo at the end of that
one, and a tone with a delay that ends before the half note does. -/
def nestedNotes : List Cue :=
  [⟨⟨0, none⟩, .tone ⟨.c, 4, ⟨.half, .plain⟩, 100, [⟨.eighth, .plain⟩], []⟩⟩,
    ⟨⟨1, none⟩, .tone ⟨.e, 4, .quarter, 100, [.chord], []⟩⟩, ⟨⟨2, none⟩, .tempo 90.0⟩,
    ⟨⟨3, none⟩, .tone ⟨.g, 4, .quarter, 100, [⟨.eighth, .plain⟩], []⟩⟩]

/-- The marks of the nested notes.  The first end is the latest. -/
def nestedMarks : Timeline where
  begins := [⟨.ofSub 192, 0, 0⟩, ⟨.ofSub 192, 1, 1⟩, ⟨.ofSub 576, 2, 2⟩, ⟨.ofSub 384, 3, 3⟩]
  ends := [⟨.ofSub 960, 0, 0⟩, ⟨.ofSub 576, 1, 1⟩, ⟨.ofSub 768, 2, 3⟩]

theorem nestedNotes_laysOut :
    Timeline.ofCues ⟨4, by decide, by decide⟩ nestedNotes = .ok nestedMarks ∧
      extent ⟨4, by decide, by decide⟩ nestedNotes < 2 ^ 63 - 1 ∧
      nestedMarks.LaysOut ⟨4, by decide, by decide⟩ nestedNotes ∧
      ∀ event,
        (schedule ⟨4, by decide, by decide⟩ nestedNotes nestedMarks).events.getLast? = some event →
          event.tick = 10 := by
  have built : Timeline.ofCues ⟨4, by decide, by decide⟩ nestedNotes = .ok nestedMarks := rfl
  have small : extent ⟨4, by decide, by decide⟩ nestedNotes < 2 ^ 63 - 1 := by decide
  obtain ⟨laysOut, lastTick⟩ := ofCues_laysOut built small
  exact ⟨built, small, laysOut, fun event last => Int.ofNat_inj.mp (lastTick event last)⟩

end MidiScore
