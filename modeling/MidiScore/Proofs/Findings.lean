import MidiScore.Proofs.Layout

/-!
# Findings are complete and exact

Scheduling records a finding wherever rounding down leaves out more than half a tick, and one for
every note of positive length that collapses.  The findings come from several places on the way to
an event.  Here they are read off the marks and the events alone, in order (`Timeline.report`).

*Rounding.*  Every event reports its tick.  The beginning of a sounding cue also reports its wait,
and the end its delta, the distance from the event before.  All three are exact integers, and one
rule holds for them (`reportRounding`).  A release has a delta, so its duration is never rounded.

*Collapse.*  The end of a note counts its start back from its own mark and compares whole ticks.
This start is the time of the other mark, and as long as ticks are in range the comparison is that
of the ticks of the two events (`Timeline.collapses_iff`).

One mark that is not earlier than the latest event reports what it should
(`Clock.schedule_findings`), and so does a run of marks in order of time (`emissions_findings`).
-/

namespace MidiScore

/-! ## What should be reported -/

/-- The report on an exact time in sub-ticks that is rounded down: one finding if more than half a
tick is left out. -/
def reportRounding (origin : Origin) (quantity : Quantity) (time : Int) : List Finding :=
  if 48 < time % 96 then [.rounding origin quantity (.ofSub time) (time / 96)] else []

namespace Cue

/-- The report on the length of a tone or a group of hits, given whether its two events are at the
same tick. -/
def reportCollapse (resolution : Resolution) (cue : Cue) (sameTick : Bool) : List Finding :=
  if cue.isBend = false ∧ 0 < cue.exactDuration resolution ∧ sameTick = true then
    [.collapsed cue.origin (.ofSub (cue.exactDuration resolution))]
  else []

/-- The report on the event of a mark after an event at the given time: on a collapse, then on the
wait or the delta, then on the tick.  A control has no wait. -/
def report (resolution : Resolution) (cue : Cue) (sameTick : Bool) (last : Ticks)
    (side : Side) (time : Ticks) : List Finding :=
  match side with
  | .start =>
    (if cue.isSounding then
      reportRounding cue.origin .wait
        (NoteValue.exactSum resolution cue.delay + NoteValue.exactSum resolution cue.pause)
    else []) ++ reportRounding cue.origin .tick time.sub
  | .stop =>
    cue.reportCollapse resolution sameTick ++
      reportRounding cue.origin .delta (time.sub - last.sub) ++
      reportRounding cue.origin .tick time.sub

/-- The report with the start counted back from the mark. -/
def reportCounted (resolution : Resolution) (cue : Cue) (last : Ticks) (side : Side)
    (time : Ticks) : List Finding :=
  cue.report resolution ((time - cue.duration resolution).whole = time.whole) last side time

end Cue

/-- The tick of the event for a side of the cue at an index. -/
def Timeline.eventTick? (resolution : Resolution) (cues : List Cue) (timeline : Timeline)
    (source : Side × Nat) : Option Nat :=
  (schedule resolution cues timeline).events[(timeline.sources cues).idxOf source]?.map (·.tick)

/-- The report on the event of a mark, given with the time of the event before. -/
def Timeline.report (resolution : Resolution) (cues : List Cue) (timeline : Timeline)
    (step : Ticks × Side × Mark) : List Finding :=
  cues[step.2.2.entry]?.elim [] fun cue =>
    cue.report resolution
      (timeline.eventTick? resolution cues (.start, step.2.2.entry) =
        timeline.eventTick? resolution cues (.stop, step.2.2.entry))
      step.1 step.2.1 step.2.2.tick

/-- What a finding says was rounded, if it does. -/
def Finding.quantity? : Finding → Option Quantity
  | .rounding _ quantity _ _ => some quantity
  | .collapsed _ _ => none

theorem quantity?_of_mem_reportRounding {origin : Origin} {quantity : Quantity} {time : Int}
    {finding : Finding} (member : finding ∈ reportRounding origin quantity time) :
    finding.quantity? = some quantity := by
  unfold reportRounding at member
  split at member
  · cases List.mem_singleton.mp member
    rfl
  · cases member

theorem Cue.quantity?_of_mem_reportCollapse {resolution : Resolution} {cue : Cue} {sameTick : Bool}
    {finding : Finding} (member : finding ∈ cue.reportCollapse resolution sameTick) :
    finding.quantity? = none := by
  unfold reportCollapse at member
  split at member
  · cases List.mem_singleton.mp member
    rfl
  · cases member

/-- A duration is never said to be rounded. -/
theorem Cue.quantity?_of_mem_report {resolution : Resolution} {cue : Cue} {sameTick : Bool}
    {last time : Ticks} {side : Side} {finding : Finding}
    (member : finding ∈ cue.report resolution sameTick last side time) :
    finding.quantity? ≠ some .duration := by
  cases side with
  | start =>
      rcases List.mem_append.mp member with wait | tick
      · split at wait
        · rw [quantity?_of_mem_reportRounding wait]
          decide
        · cases wait
      · rw [quantity?_of_mem_reportRounding tick]
        decide
  | stop =>
      rcases List.mem_append.mp member with first | tick
      · rcases List.mem_append.mp first with collapse | delta
        · rw [Cue.quantity?_of_mem_reportCollapse collapse]
          decide
        · rw [quantity?_of_mem_reportRounding delta]
          decide
      · rw [quantity?_of_mem_reportRounding tick]
        decide

theorem Timeline.quantity?_of_mem_report {resolution : Resolution} {cues : List Cue}
    {timeline : Timeline} {step : Ticks × Side × Mark} {finding : Finding}
    (member : finding ∈ timeline.report resolution cues step) :
    finding.quantity? ≠ some .duration := by
  unfold report at member
  cases found : cues[step.2.2.entry]? with
  | none =>
      rw [found] at member
      cases member
  | some cue =>
      rw [found] at member
      exact Cue.quantity?_of_mem_report member

/-! ## Single values -/

theorem Ticks.ofSub_self (time : Ticks) : ofSub time.sub = time := by
  have lower := time.lower
  have upper := time.upper
  exact Ticks.ext (Ticks.ofSub_sub (by omega) (by omega))

theorem Ticks.roundClamped_findings (time : Ticks) (quantity : Quantity) (origin : Origin) :
    (time.roundClamped quantity origin).findings = reportRounding origin quantity time.sub := by
  have half : Ticks.scale < time.remainder * 2 ↔ 48 < time.sub % 96 := by
    unfold Ticks.remainder Ticks.scale
    omega
  simp only [Ticks.roundClamped, Ticks.round, half, reportRounding, Ticks.ofSub_self]
  rfl

section
variable {resolution : Resolution} {cue : Cue}

/-- The beginning of a sounding cue reports its wait, and a control nothing. -/
theorem Cue.startEvent_findings (small : cue.extent resolution < 2 ^ 63) :
    (cue.startEvent resolution).findings =
      if cue.isSounding then
        reportRounding cue.origin .wait
          (NoteValue.exactSum resolution cue.delay + NoteValue.exactSum resolution cue.pause)
      else [] := by
  have wait := Ticks.roundClamped_findings (cue.wait resolution) .wait cue.origin
  rw [Cue.wait_sub small] at wait
  obtain ⟨origin, action⟩ := cue
  cases action with
  | tone tone => exact wait
  | hits group => exact wait
  | bend bend => exact wait
  | meter meter => rfl
  | tempo bpm => rfl

theorem Cue.collapse_eq (short : cue.exactDuration resolution < 2 ^ 63)
    (pitched : cue.isBend = false) (stop : Ticks) :
    cue.collapse (cue.duration resolution) (stop - cue.duration resolution) stop =
      cue.reportCollapse resolution ((stop - cue.duration resolution).whole = stop.whole) := by
  have duration : cue.duration resolution = .ofSub (cue.exactDuration resolution) := by
    rw [← Cue.duration_sub short, Ticks.ofSub_self]
  have positive : 0 < cue.duration resolution ↔ 0 < cue.exactDuration resolution := by
    rw [Ticks.lt_iff, Cue.duration_sub short, Ticks.zero_sub, Int.natCast_pos]
  simp only [Cue.collapse, Cue.reportCollapse, positive, pitched, true_and, decide_eq_true_eq,
    ← duration]

/-- A release with a delta reports it. -/
theorem Cue.release_findings {duration delta : Ticks} (forward : 0 ≤ delta.sub) :
    (cue.release duration delta).findings = reportRounding cue.origin .delta delta.sub := by
  have positive : delta.isNegative = false := decide_eq_false (Int.not_lt.mpr forward)
  simp only [Cue.release, positive]
  exact Ticks.roundClamped_findings delta .delta cue.origin

/-- The end of a sounding cue that is not before the latest event reports a collapse and its
delta. -/
theorem Cue.stopEvent?_findings {stop delta : Ticks} {event : Rounded Event}
    (short : cue.exactDuration resolution < 2 ^ 63) (forward : 0 ≤ delta.sub)
    (found : cue.stopEvent? resolution stop delta = some event) :
    event.findings =
      cue.reportCollapse resolution ((stop - cue.duration resolution).whole = stop.whole) ++
        reportRounding cue.origin .delta delta.sub := by
  have collapse := @Cue.collapse_eq resolution cue short
  have release := @Cue.release_findings cue (cue.duration resolution) delta forward
  obtain ⟨origin, action⟩ := cue
  cases action with
  | tone tone =>
      cases found
      rw [← collapse rfl, ← release]
      rfl
  | hits group =>
      cases found
      rw [← collapse rfl, ← release]
      rfl
  | bend bend =>
      have positive : delta.isNegative = false := decide_eq_false (Int.not_lt.mpr forward)
      cases found
      simp only [Cue.bendEnd, positive]
      exact Ticks.roundClamped_findings delta .delta origin
  | meter meter => cases found
  | tempo bpm => cases found

/-! ## Steps -/

/-- A mark that is not earlier than the latest event reports what it should. -/
theorem Clock.schedule_findings {clock : Clock} {last : Ticks} {side : Side} {queued : Queued}
    (stands : clock.StandsAt last) (positive : 0 ≤ last.sub) (later : last ≤ queued.mark.tick)
    (sounding : side = .stop → queued.cue.isSounding = true)
    (small : queued.cue.extent resolution < 2 ^ 63) :
    (clock.schedule resolution side queued).findings =
      queued.cue.reportCounted resolution last side queued.mark.tick := by
  have tick := Ticks.roundClamped_findings queued.mark.tick .tick queued.cue.origin
  cases side with
  | start =>
      have emitted : (clock.schedule resolution .start queued).findings =
          (queued.cue.startEvent resolution).findings ++
            (queued.mark.tick.roundClamped .tick queued.cue.origin).findings := rfl
      rw [emitted, Cue.startEvent_findings small, tick]
      rfl
  | stop =>
      have short : queued.cue.exactDuration resolution < 2 ^ 63 := by
        unfold Cue.extent at small
        omega
      have distance : (clock.delta queued.mark.tick).sub = queued.mark.tick.sub - last.sub := by
        rw [← Ticks.distance_sub positive later, ← stands.1]
        rfl
      obtain ⟨event, found, -⟩ := @Cue.stopEvent?_of_sounding resolution _ (sounding rfl)
        queued.mark.tick (clock.delta queued.mark.tick)
      have forward : 0 ≤ (clock.delta queued.mark.tick).sub := by
        rw [distance]
        exact Int.sub_nonneg_of_le later
      have emitted : (clock.schedule resolution .stop queued).findings =
          event.findings ++ (queued.mark.tick.roundClamped .tick queued.cue.origin).findings := by
        rw [Clock.schedule_stop, found]
        rfl
      rw [emitted, Cue.stopEvent?_findings short forward found, tick, distance]
      rfl

end

/-! ## Runs -/

/-- Marks in order of time report one after another. -/
theorem emissions_findings {resolution : Resolution} {cues : List Cue}
    (small : extent resolution cues < 2 ^ 63) {clock : Clock} {last : Ticks}
    {taken : List (Side × Queued)} (stands : clock.StandsAt last) (positive : 0 ≤ last.sub)
    (later : ∀ mark ∈ taken, last ≤ mark.2.mark.tick)
    (ordered : taken.Pairwise fun a b => a.2.mark.tick ≤ b.2.mark.tick)
    (attached : ∀ mark ∈ taken, mark.2.Attached cues)
    (sounding : ∀ mark ∈ taken, mark.1 = .stop → mark.2.cue.isSounding = true) :
    (emissions resolution clock taken).flatMap (·.findings) =
      (withPrevious last (taken.map sided)).flatMap fun step =>
        cues[step.2.2.entry]?.elim [] fun cue =>
          cue.reportCounted resolution step.1 step.2.1 step.2.2.tick := by
  induction taken generalizing clock last with
  | nil => rfl
  | cons mark rest ih =>
      obtain ⟨side, queued⟩ := mark
      obtain ⟨first, others⟩ := List.pairwise_cons.mp ordered
      obtain ⟨here, -⟩ := List.forall_mem_cons.mp later
      obtain ⟨isAttached, restAttached⟩ := List.forall_mem_cons.mp attached
      obtain ⟨sounds, restSounding⟩ := List.forall_mem_cons.mp sounding
      have pointed : cues[queued.mark.entry]? = some queued.cue := isAttached
      have within := extent_le_of_mem resolution (List.mem_of_getElem? pointed)
      have short : queued.cue.extent resolution < 2 ^ 63 := by omega
      rw [emissions_cons, List.flatMap_cons, List.map_cons, withPrevious_cons, List.flatMap_cons,
        Clock.schedule_findings stands positive here sounds short,
        ih (stands.advance here sounds) (Int.le_trans positive here) first others restAttached
          restSounding]
      simp only [sided, pointed, Option.elim_some]

/-! ## Ticks of events -/

theorem Timeline.report_of_getElem? {resolution : Resolution} {cues : List Cue}
    {timeline : Timeline} {last : Ticks} {side : Side} {mark : Mark} {cue : Cue}
    (found : cues[mark.entry]? = some cue) :
    timeline.report resolution cues (last, side, mark) =
      cue.report resolution
        (timeline.eventTick? resolution cues (.start, mark.entry) =
          timeline.eventTick? resolution cues (.stop, mark.entry)) last side mark.tick := by
  rw [report, found]
  rfl

theorem Ticks.wholeClamped_inj {a b : Ticks} (first : 0 ≤ a.sub) (second : 0 ≤ b.sub)
    (small : a.whole ≤ 0xffffffff) (other : b.whole ≤ 0xffffffff) :
    a.wholeClamped = b.wholeClamped ↔ a.whole = b.whole := by
  simp only [Ticks.wholeClamped, Ticks.whole, Ticks.scale] at small other ⊢
  omega

section
variable {resolution : Resolution} {cues : List Cue} {placements : List Placement}
  (placed : place resolution cues = .ok placements)
  (small : extent resolution cues < 2 ^ 63 - 1)

include placed small

/-- The event of a mark is at its tick. -/
theorem Timeline.eventTick?_of_mem {mark : Side × Mark}
    (member : mark ∈ (ofPlacements placements).begins.map (Side.start, ·) ++
      (ofPlacements placements).ends.map (Side.stop, ·)) :
    (ofPlacements placements).eventTick? resolution cues (source mark) =
      some mark.2.tick.wholeClamped := by
  have inside := place_placed small placed
  have taken := (order_perm inside small).mem_iff.mpr member
  have position := getElem?_idxOf_map (sources_nodup inside small) taken
  have ticks := congrArg (·[((ofPlacements placements).sources cues).idxOf (source mark)]?)
    (schedule_ticks placed)
  rw [List.getElem?_map] at position
  simp only [List.getElem?_map] at ticks
  obtain ⟨queued, found, rfl⟩ := Option.map_eq_some_iff.mp position
  rw [eventTick?, ticks, sources, found]
  rfl

/-- A note collapses where its two events are at the same tick. -/
theorem Timeline.collapses_iff
    (inRange : ∀ mark ∈ (ofPlacements placements).begins ++ (ofPlacements placements).ends,
      mark.tick.whole ≤ 0xffffffff)
    {mark : Mark} (isEnd : mark ∈ (ofPlacements placements).ends) {cue : Cue}
    (found : cues[mark.entry]? = some cue) :
    (mark.tick - cue.duration resolution).whole = mark.tick.whole ↔
      (ofPlacements placements).eventTick? resolution cues (.start, mark.entry) =
        (ofPlacements placements).eventTick? resolution cues (.stop, mark.entry) := by
  have sounding := sounding_of_mem_ends (placeFrom_fits placed) isEnd found
  obtain ⟨start, isBegin, stop, isStop, startEntry, stopEntry, length⟩ :=
    marks_of_sounding (place_placed small placed) found sounding
  cases List.inj_on_of_nodup_map (ends_map_entry_nodup placements) isStop isEnd stopEntry
  have short := exactDuration_le_extent resolution (List.mem_of_getElem? found)
  have begins := List.mem_append_left (ofPlacements placements).ends isBegin
  have ends := List.mem_append_right (ofPlacements placements).begins isEnd
  have first := mark_nonneg placed begins
  have last := mark_nonneg placed ends
  have duration := Cue.duration_sub (show cue.exactDuration resolution < 2 ^ 63 by omega)
  -- the start that is counted back is the time of the other mark
  have counted : mark.tick - cue.duration resolution = start.tick := by
    have upper := start.tick.upper
    apply Ticks.ext
    rw [Ticks.sub_sub (by omega) (by omega), duration]
    omega
  have struck := eventTick?_of_mem placed small
    (List.mem_append_left _ (List.mem_map_of_mem (f := (Side.start, ·)) isBegin))
  have released := eventTick?_of_mem placed small
    (List.mem_append_right _ (List.mem_map_of_mem (f := (Side.stop, ·)) isEnd))
  rw [source, startEntry] at struck
  rw [source] at released
  rw [counted, struck, released, Option.some.injEq,
    Ticks.wholeClamped_inj first last (inRange start begins) (inRange mark ends)]

theorem schedule_findings_of_place
    (inRange : ∀ mark ∈ (Timeline.ofPlacements placements).begins ++
      (Timeline.ofPlacements placements).ends, mark.tick.whole ≤ 0xffffffff) :
    (schedule resolution cues (Timeline.ofPlacements placements)).findings =
      (withPrevious 0 (((Timeline.ofPlacements placements).order cues).map sided)).flatMap
        ((Timeline.ofPlacements placements).report resolution cues) := by
  have run := @emissions_findings resolution cues (by omega) _ _
    ((Timeline.ofPlacements placements).order cues) Clock.standsAt_default (Int.le_refl 0)
    (fun mark member =>
      Timeline.mark_nonneg placed (Timeline.mark_mem_of_mem_order member))
    (Timeline.order_ticks_pairwise cues _) (fun _ => Timeline.attached_of_mem_order)
    (fun _ => Timeline.sounding_of_mem_order placed)
  refine run.trans (List.flatMap_congr ?_)
  rintro ⟨last, _⟩ member
  obtain ⟨⟨side, queued⟩, taken, rfl⟩ := List.mem_map.mp (List.of_mem_zip member).2
  have pointed : cues[queued.mark.entry]? = some queued.cue := Timeline.attached_of_mem_order taken
  rw [sided, Timeline.report_of_getElem? pointed]
  simp only [pointed, Option.elim_some, Cue.reportCounted]
  cases side with
  | start => rfl
  | stop =>
      rw [decide_eq_decide.mpr
        (Timeline.collapses_iff placed small inRange (Timeline.mark_mem_ends taken) pointed)]

end

/-- The findings of the schedule of an accepted track, with its ticks in range, are exactly those
that its events call for, in the order of the events.  A tone or a group of hits of positive length
is reported as collapsed if and only if its two events are at the same tick.  A tick, the wait of a
beginning and the delta of an end are reported if and only if rounding down leaves out more than
half a tick.  No duration is. -/
theorem schedule_reports_exactly {resolution : Resolution} {cues : List Cue} {timeline : Timeline}
    (built : Timeline.ofCues resolution cues = .ok timeline)
    (small : extent resolution cues < 2 ^ 63 - 1)
    (inRange : ∀ mark ∈ timeline.begins ++ timeline.ends, mark.tick.whole ≤ 0xffffffff) :
    timeline.sources cues = (timeline.sortedMarks cues).map source ∧
      List.Forall₂ (StandsFor cues) (timeline.sources cues)
        (schedule resolution cues timeline).events ∧
      (schedule resolution cues timeline).findings =
        (withPrevious 0 (timeline.sortedMarks cues)).flatMap (timeline.report resolution cues) ∧
      ∀ finding ∈ (schedule resolution cues timeline).findings,
        finding.quantity? ≠ some .duration := by
  obtain ⟨placements, placed, rfl⟩ := Timeline.ofCues_eq_ok.mp built
  have fits := placeFrom_fits placed
  have sorted := Timeline.order_map_sided (ofPlacements_pointsInto fits)
  have findings := schedule_findings_of_place placed small inRange
  rw [sorted] at findings
  refine ⟨by rw [Timeline.sources, sorted], schedule_events_standFor fits resolution, findings, ?_⟩
  intro finding member
  rw [findings] at member
  obtain ⟨step, -, reported⟩ := List.mem_flatMap.mp member
  exact Timeline.quantity?_of_mem_report reported

/-- An eighth, and a triplet after a pause that is as long. -/
def hurriedNotes : List Cue :=
  [⟨⟨0, none⟩, .tone ⟨.c, 4, ⟨.eighth, .plain⟩, 100, [], []⟩⟩,
    ⟨⟨1, none⟩, .tone ⟨.e, 4, ⟨.quarter, .triplet⟩, 100, [], [⟨.quarter, .triplet⟩]⟩⟩]

/-- The marks of the two notes if a quarter is one tick. -/
def hurriedMarks : Timeline where
  begins := [⟨0, 0, 0⟩, ⟨.ofSub 112, 1, 1⟩]
  ends := [⟨.ofSub 48, 0, 0⟩, ⟨.ofSub 176, 1, 1⟩]

/-- The four marks in order of time. -/
def hurriedOrder : List (Side × Mark) :=
  [(.start, ⟨0, 0, 0⟩), (.stop, ⟨.ofSub 48, 0, 0⟩), (.start, ⟨.ofSub 112, 1, 1⟩),
    (.stop, ⟨.ofSub 176, 1, 1⟩)]

theorem hurriedNotes_together {index : Nat} (below : index < 2) :
    hurriedMarks.eventTick? ⟨1, by decide, by decide⟩ hurriedNotes (.start, index) =
      hurriedMarks.eventTick? ⟨1, by decide, by decide⟩ hurriedNotes (.stop, index) := by
  have built : Timeline.ofCues ⟨1, by decide, by decide⟩ hurriedNotes = .ok hurriedMarks := rfl
  obtain ⟨placements, placed, same⟩ := Timeline.ofCues_eq_ok.mp built
  have tick : ∀ mark ∈ hurriedMarks.begins.map (Side.start, ·) ++
      hurriedMarks.ends.map (Side.stop, ·),
      hurriedMarks.eventTick? ⟨1, by decide, by decide⟩ hurriedNotes (source mark) =
        some mark.2.tick.wholeClamped := by
    intro mark member
    rw [← same] at member ⊢
    exact Timeline.eventTick?_of_mem placed (by decide) member
  obtain rfl | rfl : index = 0 ∨ index = 1 := by omega
  · exact (tick (.start, ⟨0, 0, 0⟩) (by decide)).trans
      (tick (.stop, ⟨.ofSub 48, 0, 0⟩) (by decide)).symm
  · exact (tick (.start, ⟨.ofSub 112, 1, 1⟩) (by decide)).trans
      (tick (.stop, ⟨.ofSub 176, 1, 1⟩) (by decide)).symm

/-- Both notes collapse.  Half a tick is left out of the first delta, and this is not reported. -/
theorem hurriedNotes_findings :
    Timeline.ofCues ⟨1, by decide, by decide⟩ hurriedNotes = .ok hurriedMarks ∧
      extent ⟨1, by decide, by decide⟩ hurriedNotes < 2 ^ 63 - 1 ∧
      (∀ mark ∈ hurriedMarks.begins ++ hurriedMarks.ends, mark.tick.whole ≤ 0xffffffff) ∧
      (schedule ⟨1, by decide, by decide⟩ hurriedNotes hurriedMarks).findings =
        [.collapsed ⟨0, none⟩ (.ofSub 48), .rounding ⟨1, none⟩ .wait (.ofSub 64) 0,
          .collapsed ⟨1, none⟩ (.ofSub 64), .rounding ⟨1, none⟩ .delta (.ofSub 64) 0,
          .rounding ⟨1, none⟩ .tick (.ofSub 176) 1] := by
  have built : Timeline.ofCues ⟨1, by decide, by decide⟩ hurriedNotes = .ok hurriedMarks := rfl
  have small : extent ⟨1, by decide, by decide⟩ hurriedNotes < 2 ^ 63 - 1 := by decide
  have inRange : ∀ mark ∈ hurriedMarks.begins ++ hurriedMarks.ends,
      mark.tick.whole ≤ 0xffffffff := by decide
  have sorted : hurriedMarks.sortedMarks hurriedNotes = hurriedOrder :=
    (Timeline.eq_sortedMarks (by decide) (by decide)).symm
  obtain ⟨-, -, findings, -⟩ := schedule_reports_exactly built small inRange
  have entries : ∀ step ∈ withPrevious 0 hurriedOrder, step.2.2.entry < 2 := by decide
  have reports : ∀ step ∈ withPrevious 0 hurriedOrder,
      hurriedMarks.report ⟨1, by decide, by decide⟩ hurriedNotes step =
        hurriedNotes[step.2.2.entry]?.elim [] fun cue =>
          cue.report ⟨1, by decide, by decide⟩ true step.1 step.2.1 step.2.2.tick := by
    intro step member
    simp only [Timeline.report, hurriedNotes_together (entries step member), decide_true]
  refine ⟨built, small, inRange, ?_⟩
  rw [findings, sorted, List.flatMap_congr reports]
  rfl

end MidiScore
