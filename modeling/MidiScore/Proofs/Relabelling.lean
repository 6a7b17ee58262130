import MidiScore.Compile
import MidiScore.Proofs.Success

/-!
# Origins do not matter

Items, cues, findings and errors carry the place in the score that they come from.  Changing all
origins by one function is a relabelling.  Every stage after unrolling commutes with it:

* grouping looks at items and cues only (`group_relabel`),
* placement reads the origin of a cue only to name it in an error (`placeFrom_relabel`),
* marks are ordered by tick, rank and numbers (`Timeline.order_relabel`),
* events are made from actions, and findings pass the origin on (`emissions_relabel`).

So the stream of relabelled cues has the same events, and its findings or its error are relabelled
(`Score.streamOf_relabel`).
-/

namespace MidiScore

variable (change : Origin → Origin)

/-- An item from another place. -/
def Played.relabel (played : Played) : Played := { played with origin := change played.origin }

/-- A cue from another place. -/
def Cue.relabel (cue : Cue) : Cue := { cue with origin := change cue.origin }

/-- A mark with its cue from another place. -/
def Queued.relabel (queued : Queued) : Queued := { queued with cue := queued.cue.relabel change }

/-- A finding about another place. -/
def Finding.relabel : Finding → Finding
  | .rounding origin quantity exact emitted => .rounding (change origin) quantity exact emitted
  | .collapsed origin exact => .collapsed (change origin) exact

/-- A rounded value whose findings are about other places. -/
def Rounded.relabel {α : Type} (rounded : Rounded α) : Rounded α :=
  ⟨rounded.value, rounded.findings.map (Finding.relabel change)⟩

/-- A part of a schedule whose findings are about other places. -/
def Schedule.relabel (part : Schedule) : Schedule :=
  ⟨part.events, part.findings.map (Finding.relabel change)⟩

/-- An error at another place. -/
def TrackError.relabel : TrackError → TrackError
  | .undeclaredPattern pattern origin => .undeclaredPattern pattern (change origin)
  | .repeatCount pattern count origin => .repeatCount pattern count (change origin)
  | .longDelay origin delay available => .longDelay (change origin) delay available

/-- A stream whose findings are about other places. -/
def CompiledTrack.relabel (stream : CompiledTrack) : CompiledTrack :=
  { stream with findings := stream.findings.map (Finding.relabel change) }

namespace Cue

variable (cue : Cue) (resolution : Resolution)

@[simp] theorem relabel_origin : (cue.relabel change).origin = change cue.origin := rfl

@[simp] theorem relabel_action : (cue.relabel change).action = cue.action := rfl

@[simp] theorem relabel_keys : (cue.relabel change).keys = cue.keys := rfl

@[simp] theorem relabel_isChordMarked :
    (cue.relabel change).isChordMarked = cue.isChordMarked := rfl

@[simp] theorem relabel_duration :
    (cue.relabel change).duration resolution = cue.duration resolution := rfl

@[simp] theorem relabel_timing :
    (cue.relabel change).timing resolution = cue.timing resolution := rfl

@[simp] theorem relabel_wait : (cue.relabel change).wait resolution = cue.wait resolution := rfl

end Cue

/-! ## Grouping -/

/-- Whether an item joins the last cue depends on what both do, not on where they come from. -/
theorem Played.addTo_relabel (cues : List Cue) (played : Played) :
    (played.relabel change).addTo (cues.map (Cue.relabel change)) =
      (played.addTo cues).map (Cue.relabel change) := by
  obtain ⟨origin, item⟩ := played
  cases item with
  | hit hit =>
      cases cues with
      | nil => rfl
      | cons cue cues =>
          obtain ⟨place, action⟩ := cue
          cases action with
          | hits group =>
              simp only [Played.relabel, Cue.relabel, Played.addTo, List.map_cons]
              split
              · rfl
              · rfl
          | tone tone => rfl
          | bend bend => rfl
          | meter meter => rfl
          | tempo bpm => rfl
  | tone tone => rfl
  | bend bend => rfl
  | meter meter => rfl
  | tempo bpm => rfl

/-- Grouping goes item by item, so it commutes with a relabelling. -/
theorem group_relabel (items : List Played) :
    group (items.map (Played.relabel change)) = (group items).map (Cue.relabel change) := by
  have run : ∀ cues : List Cue,
      (items.map (Played.relabel change)).foldl Played.addTo (cues.map (Cue.relabel change)) =
        (items.foldl Played.addTo cues).map (Cue.relabel change) := by
    induction items with
    | nil => exact fun _ => rfl
    | cons played items ih =>
        intro cues
        rw [List.map_cons, List.foldl_cons, List.foldl_cons, Played.addTo_relabel, ih]
  rw [group, group, List.map_reverse, ← run []]
  rfl

/-! ## Placement -/

/-- Cues from other places are placed alike, or refused with the error relabelled. -/
theorem placeFrom_relabel (resolution : Resolution) (cues : List Cue) (previous : Option Span) :
    placeFrom resolution previous (cues.map (Cue.relabel change)) =
      (placeFrom resolution previous cues).mapError (TrackError.relabel change) := by
  induction cues generalizing previous with
  | nil => rfl
  | cons cue cues ih =>
      have alike : (cue.relabel change).timing resolution = cue.timing resolution := rfl
      rw [List.map_cons]
      cases timing : cue.timing resolution with
      | instant =>
          rw [placeFrom_of_instant (alike.trans timing), placeFrom_of_instant timing, ih]
          cases placeFrom resolution previous cues with
          | ok others => rfl
          | error cause => rfl
      | span duration delay pause =>
          cases started : startAfter previous delay pause with
          | error available =>
              rw [placeFrom_of_refused (alike.trans timing) started,
                placeFrom_of_refused timing started]
              rfl
          | ok start =>
              rw [placeFrom_of_started (alike.trans timing) started,
                placeFrom_of_started timing started, ih]
              cases placeFrom resolution (some ⟨start, start + duration⟩) cues with
              | ok others => rfl
              | error cause => rfl

/-! ## Order -/

theorem attachCues_relabel (cues : List Cue) (marks : List Mark) :
    attachCues (cues.map (Cue.relabel change)) marks =
      (attachCues cues marks).map (Queued.relabel change) := by
  simp only [attachCues, List.map_filterMap, List.getElem?_toArray, List.getElem?_map,
    Option.map_map]
  rfl

/-- Marks are sorted by what they are, whatever cues are attached to them. -/
theorem queue_relabel (cues : List Cue) (marks : List Mark) :
    queue (cues.map (Cue.relabel change)) marks =
      (queue cues marks).map (Queued.relabel change) := by
  rw [queue, queue, attachCues_relabel]
  refine (List.map_mergeSort ?_).symm
  intro a _ b _
  rfl

/-- The merge compares marks alone. -/
theorem merge_relabel (starts stops : List Queued) :
    merge (starts.map (Queued.relabel change)) (stops.map (Queued.relabel change)) =
      (merge starts stops).map (Prod.map id (Queued.relabel change)) := by
  fun_induction merge starts stops with
  | case1 => simp [merge]
  | case2 stop stops ih => simpa [merge] using ih
  | case3 start starts early ih => simpa [merge, Queued.relabel, early] using ih
  | case4 start starts late => simp [merge, Queued.relabel, late]
  | case5 start starts stop stops early ih => simpa [merge, Queued.relabel, early] using ih
  | case6 start starts stop stops late ih => simpa [merge, Queued.relabel, late] using ih

theorem Timeline.order_relabel (cues : List Cue) (timeline : Timeline) :
    timeline.order (cues.map (Cue.relabel change)) =
      (timeline.order cues).map (Prod.map id (Queued.relabel change)) := by
  rw [Timeline.order, Timeline.order, queue_relabel, queue_relabel, merge_relabel]

/-! ## Emission -/

/-- Rounding passes the origin on to its finding and does nothing else with it. -/
theorem Ticks.roundClamped_relabel (time : Ticks) (quantity : Quantity) (origin : Origin) :
    time.roundClamped quantity (change origin) =
      (time.roundClamped quantity origin).relabel change := by
  simp only [Ticks.roundClamped, Ticks.round, Rounded.relabel]
  split
  · rfl
  · rfl

/-- The event of a beginning is the same, and its findings are relabelled. -/
theorem Cue.startEvent_relabel (resolution : Resolution) (cue : Cue) :
    (cue.relabel change).startEvent resolution = (cue.startEvent resolution).relabel change := by
  simp only [Cue.startEvent_eq, Cue.startAfterWait, Cue.relabel_wait, Cue.relabel_origin,
    Cue.relabel_keys, Cue.relabel_action, Ticks.roundClamped_relabel]
  cases cue.action with
  | tone tone => rfl
  | hits group => rfl
  | bend bend => rfl
  | meter meter => rfl
  | tempo bpm => rfl

theorem Cue.collapse_relabel (cue : Cue) (duration start stop : Ticks) :
    (cue.relabel change).collapse duration start stop =
      (cue.collapse duration start stop).map (Finding.relabel change) := by
  unfold Cue.collapse
  split
  · rfl
  · rfl

theorem Cue.release_relabel (cue : Cue) (duration delta : Ticks) :
    (cue.relabel change).release duration delta =
      (cue.release duration delta).relabel change := by
  simp only [Cue.release, Cue.relabel_isChordMarked, Cue.relabel_keys, Cue.relabel_origin,
    Ticks.roundClamped_relabel]
  split
  · split
    · rfl
    · rfl
  · rfl

theorem Cue.noteEnd_relabel (resolution : Resolution) (cue : Cue) (stop delta : Ticks) :
    (cue.relabel change).noteEnd resolution stop delta =
      (cue.noteEnd resolution stop delta).relabel change := by
  simp only [Cue.noteEnd_eq, Cue.relabel_duration, Cue.release_relabel, Cue.collapse_relabel]
  simp [Rounded.relabel]

theorem Cue.bendEnd_relabel (cue : Cue) (delta : Ticks) :
    (cue.relabel change).bendEnd delta = (cue.bendEnd delta).relabel change := by
  simp only [Cue.bendEnd, Cue.relabel_origin, Ticks.roundClamped_relabel]
  split
  · rfl
  · rfl

/-- So it is with the event of an end, if there is one. -/
theorem Cue.stopEvent?_relabel (resolution : Resolution) (cue : Cue) (stop delta : Ticks) :
    (cue.relabel change).stopEvent? resolution stop delta =
      (cue.stopEvent? resolution stop delta).map (Rounded.relabel change) := by
  rw [Cue.stopEvent?_eq, Cue.stopEvent?_eq, Cue.relabel_action, Cue.noteEnd_relabel,
    Cue.bendEnd_relabel]
  cases cue.action with
  | tone tone => rfl
  | hits group => rfl
  | bend bend => rfl
  | meter meter => rfl
  | tempo bpm => rfl

theorem Clock.emit_relabel (clock : Clock) (time : Ticks) (origin : Origin)
    (event : Rounded Event) :
    clock.emit time (change origin) (event.relabel change) =
      (clock.emit time origin event).relabel change := by
  simp [Clock.emit, Ticks.roundClamped_relabel, Rounded.relabel, Schedule.relabel]

/-- One mark is scheduled alike. -/
theorem Clock.schedule_relabel (clock : Clock) (resolution : Resolution) (side : Side)
    (queued : Queued) :
    clock.schedule resolution side (queued.relabel change) =
      (clock.schedule resolution side queued).relabel change := by
  cases side with
  | start =>
      simp only [Clock.schedule_start, Queued.relabel, Cue.startEvent_relabel, Cue.relabel_origin]
      exact Clock.emit_relabel ..
  | stop =>
      simp only [Clock.schedule_stop, Queued.relabel, Cue.stopEvent?_relabel, Cue.relabel_origin]
      cases queued.cue.stopEvent? resolution queued.mark.tick (clock.delta queued.mark.tick) with
      | none => rfl
      | some event => exact Clock.emit_relabel ..

/-- A run of marks is scheduled alike: the clock never sees an origin. -/
theorem emissions_relabel (resolution : Resolution) (taken : List (Side × Queued)) (clock : Clock) :
    emissions resolution clock (taken.map (Prod.map id (Queued.relabel change))) =
      (emissions resolution clock taken).map (Schedule.relabel change) := by
  induction taken generalizing clock with
  | nil => rfl
  | cons first taken ih =>
      obtain ⟨side, queued⟩ := first
      have advance : clock.advance side (queued.relabel change) = clock.advance side queued := rfl
      simp only [List.map_cons, Prod.map_apply, id_eq, emissions_cons, Clock.schedule_relabel,
        advance, ih]

/-- The whole schedule has the same events, and its findings are relabelled. -/
theorem schedule_relabel (resolution : Resolution) (cues : List Cue) (timeline : Timeline) :
    schedule resolution (cues.map (Cue.relabel change)) timeline =
      (schedule resolution cues timeline).relabel change := by
  rw [schedule_eq, schedule_eq, Timeline.order_relabel, emissions_relabel]
  simp [Schedule.concat, Schedule.relabel, List.flatMap_map, List.map_flatMap]

/-! ## Streams -/

/-- The stream of a track from its cues. -/
def Score.streamOf (score : Score) (track : Track) (cues : List Cue) :
    Except TrackError CompiledTrack :=
  (Timeline.ofCues score.resolution cues).map fun timeline =>
    let scheduled := schedule score.resolution cues timeline
    { name := track.name
      kind := track.kind
      events := score.prologue track ++ scheduled.events
      findings := scheduled.findings }

/-- A track is compiled from its cues alone. -/
theorem Score.compileTrack_of_expand {score : Score} {defaults : Defaults} {track : Track}
    {cues : List Cue} (expanded : score.expand defaults track = .ok cues) :
    score.compileTrack defaults track = score.streamOf track cues := by
  rw [Score.compileTrack, expanded, Score.streamOf]
  cases built : Timeline.ofCues score.resolution cues with
  | ok timeline => simp only [built, bind, Except.bind, Except.map]; rfl
  | error cause => simp only [built, bind, Except.bind, Except.map]

theorem Score.compileTrack_of_unroll {score : Score} {defaults : Defaults} {track : Track}
    {items : List Played} (unrolled : score.unroll defaults track = .ok items) :
    score.compileTrack defaults track = score.streamOf track (group items) :=
  Score.compileTrack_of_expand (map_eq_ok.mpr ⟨items, unrolled, rfl⟩)

/-- Relabelled cues give the same events, with relabelled findings, or fail alike. -/
theorem Score.streamOf_relabel (score : Score) (track : Track) (cues : List Cue) :
    score.streamOf track (cues.map (Cue.relabel change)) =
      ((score.streamOf track cues).map (CompiledTrack.relabel change)).mapError
        (TrackError.relabel change) := by
  simp only [Score.streamOf, Timeline.ofCues_eq, place, placeFrom_relabel, schedule_relabel]
  cases placeFrom score.resolution none cues with
  | ok placements => rfl
  | error cause => rfl

end MidiScore
