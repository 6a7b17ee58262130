import MidiScore.Cue.Expansion

/-!
# Timelines

Placement gives every cue its exact time.  A sounding cue with a delay starts that long after
the start of the sounding cue before it, and the delay must not go past the end of that one.
Without a delay it starts its pause after the end of the sounding cue before it.  A control
stands at the end of the sounding cue before it.  Time starts at zero.

Placement adds and subtracts times, so it is written as a `Traced` computation.

A timeline lists the beginnings and the ends as marks.  Every cue has a mark where it begins,
and every sounding cue one where it ends; each list is numbered in order of creation.
-/

namespace MidiScore

/-! ## Placement -/

/-- A stretch of time. -/
structure Span where
  start : Ticks := 0
  stop : Ticks := 0
  deriving DecidableEq

/-- The time of one cue. -/
inductive Placement where
  | instant (tick : Ticks)
  | span (span : Span)
  deriving DecidableEq

namespace Placement

/-- When the cue begins. -/
def start : Placement → Ticks
  | .instant tick => tick
  | .span s => s.start

/-- When the cue ends, if it is a sounding one. -/
def stop? : Placement → Option Ticks
  | .instant _ => none
  | .span s => some s.stop

end Placement

/-- When a sounding cue starts after the given one, or the available time that its delay
exceeds, with the operations on the way. -/
def startAfterTraced (previous : Option Span) (delay : Option Ticks) (pause : Ticks) :
    Traced (Except Ticks Ticks) :=
  let last := previous.getD {}
  match delay with
  | none => do
    let start ← .perform (.sum last.stop pause)
    return .ok start
  | some delay => do
    let available ← .perform (.difference last.stop last.start)
    if previous.isSome ∧ available < delay then return .error available
    else
      let start ← .perform (.sum last.start delay)
      return .ok start

/-- When a sounding cue starts after the given one, or the available time that its delay
exceeds. -/
def startAfter (previous : Option Span) (delay : Option Ticks) (pause : Ticks) :
    Except Ticks Ticks :=
  (startAfterTraced previous delay pause).value

theorem startAfter_paused (previous : Option Span) (pause : Ticks) :
    startAfter previous none pause = .ok ((previous.getD {}).stop + pause) := rfl

theorem startAfter_delayed (previous : Option Span) (delay pause : Ticks) :
    startAfter previous (some delay) pause =
      if previous.isSome ∧ (previous.getD {}).stop - (previous.getD {}).start < delay then
        .error ((previous.getD {}).stop - (previous.getD {}).start)
      else .ok ((previous.getD {}).start + delay) :=
  Traced.ite_value _ _

/-- Places cues after the given sounding one, with the operations on the way. -/
def placeFromTraced (resolution : Resolution) :
    Option Span → List Cue → Traced (Except TrackError (List Placement))
  | _, [] => return .ok []
  | previous, cue :: rest => do
    match ← cue.timingTraced resolution with
    | .instant =>
      Except.map (.instant (previous.getD {}).stop :: ·) <$>
        placeFromTraced resolution previous rest
    | .span duration delay pause =>
      match ← startAfterTraced previous delay pause with
      | .error available => return .error (.longDelay cue.origin (delay.getD 0) available)
      | .ok start =>
        let stop ← .perform (.sum start duration)
        Except.map (.span ⟨start, stop⟩ :: ·) <$>
          placeFromTraced resolution (some ⟨start, stop⟩) rest

/-- Places cues after the given sounding one. -/
def placeFrom (resolution : Resolution) (previous : Option Span) (cues : List Cue) :
    Except TrackError (List Placement) :=
  (placeFromTraced resolution previous cues).value

section
variable {resolution : Resolution} {previous : Option Span} {cue : Cue}

theorem placeFrom_nil : placeFrom resolution previous [] = .ok [] := rfl

/-- A control stands at the end of the last sounding cue. -/
theorem placeFrom_of_instant (timing : cue.timing resolution = .instant) (cues : List Cue) :
    placeFrom resolution previous (cue :: cues) =
      (placeFrom resolution previous cues).map (.instant (previous.getD {}).stop :: ·) := by
  unfold Cue.timing at timing
  rw [placeFrom, placeFromTraced, Traced.bind_value, timing]
  rfl

/-- A sounding cue is the last one for the cues that follow. -/
theorem placeFrom_of_started {duration pause start : Ticks} {delay : Option Ticks}
    (timing : cue.timing resolution = .span duration delay pause)
    (started : startAfter previous delay pause = .ok start) (cues : List Cue) :
    placeFrom resolution previous (cue :: cues) =
      (placeFrom resolution (some ⟨start, start + duration⟩) cues).map
        (.span ⟨start, start + duration⟩ :: ·) := by
  unfold Cue.timing at timing
  unfold startAfter at started
  rw [placeFrom, placeFromTraced, Traced.bind_value, timing, Traced.bind_value, started]
  rfl

/-- A delay that is too long ends placement. -/
theorem placeFrom_of_refused {duration pause available : Ticks} {delay : Option Ticks}
    (timing : cue.timing resolution = .span duration delay pause)
    (refused : startAfter previous delay pause = .error available) (cues : List Cue) :
    placeFrom resolution previous (cue :: cues) =
      .error (.longDelay cue.origin (delay.getD 0) available) := by
  unfold Cue.timing at timing
  unfold startAfter at refused
  rw [placeFrom, placeFromTraced, Traced.bind_value, timing, Traced.bind_value, refused]
  rfl

end

/-- Places the cues of a track. -/
def place (resolution : Resolution) (cues : List Cue) : Except TrackError (List Placement) :=
  placeFrom resolution none cues

/-! ## Marks -/

/-- The beginning or the end of one cue. -/
structure Mark where
  tick : Ticks
  /-- The order of creation among marks of its side. -/
  sequence : Nat
  /-- The index of the cue. -/
  entry : Nat
  deriving DecidableEq

/-- The marks of a track. -/
structure Timeline where
  begins : List Mark
  ends : List Mark
  deriving DecidableEq

namespace Timeline

/-- The latest end, or zero if nothing sounds. -/
def length (timeline : Timeline) : Ticks := .lastOf (timeline.ends.map (·.tick))

/-- The marks of placed cues. -/
def ofPlacements (placements : List Placement) : Timeline where
  begins := placements.zipIdx.map fun (placement, index) => ⟨placement.start, index, index⟩
  ends :=
    let stops := placements.zipIdx.filterMap fun (placement, index) =>
      placement.stop?.map fun stop => (stop, index)
    stops.zipIdx.map fun ((stop, index), sequence) => ⟨stop, sequence, index⟩

/-- The timeline of a list of cues, with the operations of placement. -/
def ofCuesTraced (resolution : Resolution) (cues : List Cue) :
    Traced (Except TrackError Timeline) :=
  Except.map ofPlacements <$> placeFromTraced resolution none cues

/-- The timeline of a list of cues. -/
def ofCues (resolution : Resolution) (cues : List Cue) : Except TrackError Timeline :=
  (ofCuesTraced resolution cues).value

/-- The timeline of a list of cues has the marks of the placed cues. -/
theorem ofCues_eq (resolution : Resolution) (cues : List Cue) :
    ofCues resolution cues = (place resolution cues).map ofPlacements := rfl

end Timeline

end MidiScore
