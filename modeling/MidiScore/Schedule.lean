import MidiScore.Event.Basic
import MidiScore.Finding
import MidiScore.Timeline

/-!
# Schedules

Scheduling turns the marks of a timeline into one stream of events.

*Order.*  The marks of each side wait in a queue, ordered by tick, rank, sequence and cue.
The earlier of the two heads goes first, and on the same tick the end goes before the
beginning, so that a note is released before the next one is struck.  An empty queue counts
as one whose head is at the last representable tick.  A beginning at that very tick is
therefore never taken once no end is left, and the merge stops there.

*Emission.*  Each mark in turn emits its event, and rounding may leave findings.  The wait of
a beginning is its delay and pause.  The delta of an end is counted from the latest event;
should that lie after the end, a note gives its duration instead.  A mark for the end of a
control emits nothing.
-/

namespace MidiScore

/-! ## Queues -/

/-- Which side of a cue a mark stands for. -/
inductive Side where
  | start
  | stop
  deriving DecidableEq, Repr

/-- The order among marks on the same tick: what has a pause of its own comes last, except
bends and chord members. -/
def Cue.rank (cue : Cue) : Nat :=
  if cue.isBend ∨ cue.isChordMarked ∨ cue.pause.isEmpty then 0 else 1

/-- A mark that waits for its turn, with its cue. -/
structure Queued where
  mark : Mark
  cue : Cue
  deriving DecidableEq

namespace Queued

/-- The order of a queue: by tick, then rank, then sequence, then cue. -/
def le (a b : Queued) : Bool :=
  if a.mark.tick ≠ b.mark.tick then a.mark.tick < b.mark.tick
  else if a.cue.rank ≠ b.cue.rank then a.cue.rank < b.cue.rank
  else if a.mark.sequence ≠ b.mark.sequence then a.mark.sequence < b.mark.sequence
  else a.mark.entry ≤ b.mark.entry

end Queued

/-- The marks with their cues.  A mark that points to no cue is left out. -/
def attachCues (cues : List Cue) (marks : List Mark) : List Queued :=
  let table := cues.toArray
  marks.filterMap fun mark => table[mark.entry]?.map fun cue => ⟨mark, cue⟩

/-- The queue of the marks of one side. -/
def queue (cues : List Cue) (marks : List Mark) : List Queued :=
  (attachCues cues marks).mergeSort Queued.le

/-- Takes the marks of two queues in turn. -/
def merge : List Queued → List Queued → List (Side × Queued)
  | [], [] => []
  | [], stop :: stops => (.stop, stop) :: merge [] stops
  | start :: starts, [] =>
    if start.mark.tick < .latest then (.start, start) :: merge starts [] else []
  | start :: starts, stop :: stops =>
    if start.mark.tick < stop.mark.tick then (.start, start) :: merge starts (stop :: stops)
    else (.stop, stop) :: merge (start :: starts) stops
termination_by starts stops => starts.length + stops.length

/-- The marks of a timeline in the order in which they emit. -/
def Timeline.order (cues : List Cue) (timeline : Timeline) : List (Side × Queued) :=
  merge (queue cues timeline.begins) (queue cues timeline.ends)

/-! ## Emission -/

/-- What has been emitted so far. -/
structure Clock where
  /-- The exact time of the latest beginning. -/
  latestStart : Ticks := 0
  /-- The exact time of the latest end. -/
  latestStop : Ticks := 0
  /-- The tick of the latest event. -/
  lastTick : Nat := 0
  deriving DecidableEq

/-- Events with the findings that came up on the way to them. -/
structure Schedule where
  events : List TimedEvent := []
  findings : List Finding := []
  deriving DecidableEq

namespace Cue

/-- The delay and the pause of a cue together, with the sums on the way to it. -/
def delayAndPauseTraced (resolution : Resolution) (cue : Cue) : Traced Ticks := do
  let delay ← NoteValue.sumTraced resolution cue.delay
  let pause ← NoteValue.sumTraced resolution cue.pause
  .perform (.sum delay pause)

/-- The exact time that a cue waits for, with the sums on the way to it.  A bend has no pause, and
a control does not wait. -/
def waitTraced (resolution : Resolution) (cue : Cue) : Traced Ticks :=
  match cue.action with
  | .tone _ => cue.delayAndPauseTraced resolution
  | .hits _ => cue.delayAndPauseTraced resolution
  | .bend bend => NoteValue.sumTraced resolution bend.delay
  | .meter _ => return 0
  | .tempo _ => return 0

/-- The exact time that a cue waits for. -/
def wait (resolution : Resolution) (cue : Cue) : Ticks := (cue.waitTraced resolution).value

/-- The event at the beginning of a cue that waits for a time. -/
def startAfterWait (cue : Cue) (exact : Ticks) : Rounded Event :=
  let wait := exact.roundClamped .wait cue.origin
  match cue.action with
  | .tone tone => ⟨.noteOn cue.keys tone.velocity wait.value, wait.findings⟩
  | .hits group => ⟨.noteOn cue.keys group.leader.velocity wait.value, wait.findings⟩
  | .bend bend => ⟨.bendBegin bend.amount wait.value, wait.findings⟩
  | .meter meter => ⟨.meter meter, []⟩
  | .tempo bpm => ⟨.tempo bpm, []⟩

/-- The event at the beginning of a cue, with the sums on the way to it. -/
def startEventTraced (resolution : Resolution) (cue : Cue) : Traced (Rounded Event) :=
  cue.startAfterWait <$> cue.waitTraced resolution

/-- The event at the beginning of a cue. -/
def startEvent (resolution : Resolution) (cue : Cue) : Rounded Event :=
  (cue.startEventTraced resolution).value

theorem startEvent_eq (resolution : Resolution) (cue : Cue) :
    cue.startEvent resolution = cue.startAfterWait (cue.wait resolution) := rfl

/-- The finding for a note of positive length that ends in the tick in which it starts. -/
def collapse (cue : Cue) (duration start stop : Ticks) : List Finding :=
  if 0 < duration ∧ start.whole = stop.whole then [.collapsed cue.origin duration] else []

/-- The release of the keys of a cue, the given time after the latest event. -/
def release (cue : Cue) (duration delta : Ticks) : Rounded Event :=
  if delta.isNegative then
    if cue.isChordMarked then ⟨.noteOff cue.keys 0 none, []⟩
    else
      let duration := duration.roundClamped .duration cue.origin
      ⟨.noteOff cue.keys duration.value none, duration.findings⟩
  else
    let delta := delta.roundClamped .delta cue.origin
    ⟨.noteOff cue.keys 0 (some delta.value), delta.findings⟩

/-- The end of a tone or a group of hits, the given time after the latest event, with the
operations on the way to it. -/
def noteEndTraced (resolution : Resolution) (cue : Cue) (stop delta : Ticks) :
    Traced (Rounded Event) := do
  let duration ← cue.durationTraced resolution
  let start ← .perform (.difference stop duration)
  let release := cue.release duration delta
  return ⟨release.value, cue.collapse duration start stop ++ release.findings⟩

/-- The end of a tone or a group of hits, the given time after the latest event. -/
def noteEnd (resolution : Resolution) (cue : Cue) (stop delta : Ticks) : Rounded Event :=
  (cue.noteEndTraced resolution stop delta).value

theorem noteEnd_eq (resolution : Resolution) (cue : Cue) (stop delta : Ticks) :
    cue.noteEnd resolution stop delta =
      ⟨(cue.release (cue.duration resolution) delta).value,
        cue.collapse (cue.duration resolution) (stop - cue.duration resolution) stop ++
          (cue.release (cue.duration resolution) delta).findings⟩ := rfl

/-- The end of a bend, the given time after the latest event. -/
def bendEnd (cue : Cue) (delta : Ticks) : Rounded Event :=
  if delta.isNegative then ⟨.bendEnd none, []⟩
  else
    let delta := delta.roundClamped .delta cue.origin
    ⟨.bendEnd (some delta.value), delta.findings⟩

/-- The event at the end of a sounding cue, the given time after the latest event, with the
operations on the way to it. -/
def stopEventTraced (resolution : Resolution) (cue : Cue) (stop delta : Ticks) :
    Traced (Option (Rounded Event)) :=
  match cue.action with
  | .tone _ => some <$> cue.noteEndTraced resolution stop delta
  | .hits _ => some <$> cue.noteEndTraced resolution stop delta
  | .bend _ => return some (cue.bendEnd delta)
  | .meter _ => return none
  | .tempo _ => return none

/-- The event at the end of a sounding cue, the given time after the latest event. -/
def stopEvent? (resolution : Resolution) (cue : Cue) (stop delta : Ticks) :
    Option (Rounded Event) :=
  (cue.stopEventTraced resolution stop delta).value

theorem stopEvent?_eq (resolution : Resolution) (cue : Cue) (stop delta : Ticks) :
    cue.stopEvent? resolution stop delta =
      match cue.action with
      | .tone _ => some (cue.noteEnd resolution stop delta)
      | .hits _ => some (cue.noteEnd resolution stop delta)
      | .bend _ => some (cue.bendEnd delta)
      | .meter _ => none
      | .tempo _ => none := by
  unfold stopEvent? stopEventTraced
  cases cue.action <;> rfl

end Cue

namespace Clock

/-- The schedule of one event at an exact time. -/
def emit (clock : Clock) (time : Ticks) (origin : Origin) (event : Rounded Event) : Schedule :=
  let tick := time.roundClamped .tick origin
  { events := [⟨tick.value, tick.value - clock.lastTick, event.value⟩]
    findings := event.findings ++ tick.findings }

/-- The time between the latest event and the given time, as the difference that is formed. -/
def deltaTraced (clock : Clock) (time : Ticks) : Traced Ticks :=
  .perform (.difference time (max clock.latestStart clock.latestStop))

/-- The time between the latest event and the given time. -/
def delta (clock : Clock) (time : Ticks) : Ticks := (clock.deltaTraced time).value

/-- What a mark emits, with the operations on the way to it. -/
def scheduleTraced (clock : Clock) (resolution : Resolution) (side : Side) (queued : Queued) :
    Traced Schedule :=
  let time := queued.mark.tick
  match side with
  | .start => clock.emit time queued.cue.origin <$> queued.cue.startEventTraced resolution
  | .stop => do
    let delta ← clock.deltaTraced time
    (·.elim {} (clock.emit time queued.cue.origin)) <$>
      queued.cue.stopEventTraced resolution time delta

/-- What a mark emits. -/
def schedule (clock : Clock) (resolution : Resolution) (side : Side) (queued : Queued) :
    Schedule :=
  (clock.scheduleTraced resolution side queued).value

section
variable (clock : Clock) (resolution : Resolution) (queued : Queued)

theorem schedule_start :
    clock.schedule resolution .start queued =
      clock.emit queued.mark.tick queued.cue.origin (queued.cue.startEvent resolution) := rfl

theorem schedule_stop :
    clock.schedule resolution .stop queued =
      (queued.cue.stopEvent? resolution queued.mark.tick (clock.delta queued.mark.tick)).elim {}
        (clock.emit queued.mark.tick queued.cue.origin) := rfl

end

/-- The clock after a mark has emitted. -/
def advance (clock : Clock) (side : Side) (queued : Queued) : Clock :=
  let time := queued.mark.tick
  match side with
  | .start => { clock with latestStart := time, lastTick := time.wholeClamped }
  | .stop =>
    if queued.cue.isSounding then { clock with latestStop := time, lastTick := time.wholeClamped }
    else clock

end Clock

/-- What marks emit one after another, with the operations on the way. -/
def emissionsTraced (resolution : Resolution) :
    Clock → List (Side × Queued) → Traced (List Schedule)
  | _, [] => return []
  | clock, (side, queued) :: rest => do
    let part ← clock.scheduleTraced resolution side queued
    (part :: ·) <$> emissionsTraced resolution (clock.advance side queued) rest

/-- What marks emit one after another. -/
def emissions (resolution : Resolution) (clock : Clock) (taken : List (Side × Queued)) :
    List Schedule :=
  (emissionsTraced resolution clock taken).value

/-- The first mark is scheduled by the clock as it stands, and the others after it has moved on. -/
theorem emissions_cons (resolution : Resolution) (clock : Clock) (side : Side) (queued : Queued)
    (rest : List (Side × Queued)) :
    emissions resolution clock ((side, queued) :: rest) =
      clock.schedule resolution side queued ::
        emissions resolution (clock.advance side queued) rest := rfl

/-- The schedules of several marks in one. -/
def Schedule.concat (parts : List Schedule) : Schedule where
  events := parts.flatMap (·.events)
  findings := parts.flatMap (·.findings)

/-- The events of a timeline over a list of cues, with the operations of scheduling. -/
def scheduleTraced (resolution : Resolution) (cues : List Cue) (timeline : Timeline) :
    Traced Schedule :=
  .concat <$> emissionsTraced resolution {} (timeline.order cues)

/-- The events of a timeline over a list of cues. -/
def schedule (resolution : Resolution) (cues : List Cue) (timeline : Timeline) : Schedule :=
  (scheduleTraced resolution cues timeline).value

/-- A schedule puts together what the marks emit in order. -/
theorem schedule_eq (resolution : Resolution) (cues : List Cue) (timeline : Timeline) :
    schedule resolution cues timeline =
      .concat (emissions resolution {} (timeline.order cues)) := rfl

end MidiScore
