import MidiScore.Proofs.Gaps
import MidiScore.Proofs.MidiRoundTrip

/-!
# Gaps of events and deltas of messages

Two loops count time.  Scheduling gives every event its gap, counted from the event before it.
Writing a file leaves the gaps aside and counts the delta of every message from the latest tick at
which a message was written.  An event without messages would keep the two apart, and so would a
tick that goes back.

*Messages.*  A compiled track has no event without messages, since a tone has one key and a group of
hits at least that of its leader (`Score.heard_ne_nil`).

*Deltas.*  The two loops share one invariant: the latest tick of the writer is the tick from which
the stream is paced.  So the first message of an event is written after the gap of the event, and
the others right after the first (`Midi.eventStream_blocks`).

*Files.*  A reader finds the messages with the deltas that were written, so it finds the gaps
(`CompiledScore.file_heardInTime`).
-/

namespace MidiScore

open Midi

/-! ## Events have messages -/

theorem Cue.keys_ne_nil {cue : Cue} (sounding : cue.isSounding = true)
    (pitched : cue.isBend = false) : cue.keys ≠ [] := by
  obtain ⟨origin, action⟩ := cue
  cases action with
  | tone tone => simp [Cue.keys]
  | hits group => simp [Cue.keys, HitGroup.keys, HitGroup.hits]
  | bend bend => cases pitched
  | meter meter => cases sounding
  | tempo bpm => cases sounding

/-- Whatever a cue emits has at least one message. -/
theorem Cue.Causes.heard_ne_nil {cue : Cue} {side : Side} {event : Event}
    (causes : cue.Causes side event) (channel : Nat) : event.heard channel ≠ [] := by
  have keys := @Cue.keys_ne_nil cue
  obtain ⟨origin, action⟩ := cue
  cases action with
  | tone _ | hits _ =>
      cases side with
      | start =>
          obtain ⟨wait, rfl⟩ := causes
          simpa [Event.heard] using keys rfl rfl
      | stop =>
          obtain ⟨duration, delta, rfl⟩ := causes
          simpa [Event.heard] using keys rfl rfl
  | bend _ =>
      cases side with
      | start =>
          obtain ⟨wait, rfl⟩ := causes
          simp [Event.heard]
      | stop =>
          obtain ⟨delta, rfl⟩ := causes
          simp [Event.heard]
  | meter _ | tempo _ =>
      cases side with
      | start =>
          cases causes
          simp [Event.heard]
      | stop => exact causes.elim

theorem Score.prologue_heard_ne_nil {score : Score} {track : Track} {event : TimedEvent}
    (member : event ∈ score.prologue track) (channel : Nat) : event.event.heard channel ≠ [] := by
  unfold Score.prologue at member
  cases instrument : track.instrument with
  | drums =>
      simp only [instrument, List.append_nil, List.mem_cons, List.not_mem_nil, or_false] at member
      rcases member with rfl | rfl <;> simp [Event.heard]
  | program number =>
      simp only [instrument, List.mem_append, List.mem_cons, List.not_mem_nil, or_false] at member
      rcases member with (rfl | rfl) | rfl <;> simp [Event.heard]

/-- So has every event of a compiled track. -/
theorem Score.heard_ne_nil {score : Score} {defaults : Defaults} {track : Track}
    {stream : CompiledTrack} (compiled : score.compileTrack defaults track = .ok stream)
    {event : TimedEvent} (member : event ∈ stream.events) (channel : Nat) :
    event.event.heard channel ≠ [] := by
  rcases Score.mem_stream compiled member with early | ⟨cues, cue, side, -, -, causes⟩
  · exact Score.prologue_heard_ne_nil early channel
  · exact causes.heard_ne_nil channel

/-! ## Deltas of messages -/

namespace Midi

/-- The messages of an event with their deltas: at least one, the first after the gap of the event,
and the others right after it. -/
structure KeepsTime (channel : Channel) (event : TimedEvent) (block : List TimedMessage) :
    Prop where
  messages : event.event.messages channel = .ok (block.map (·.message))
  deltas : ∃ first others, block = first :: others ∧ first.delta.value = event.gap ∧
    ∀ timed ∈ others, timed.delta.value = 0

/-- Once the writer has reached a tick, the messages there have no deltas. -/
theorem timeMessages_reached {messages : List Message} {last tick : Nat}
    {stream : List TimedMessage} (reached : tick ≤ last)
    (timed : timeMessages last tick messages = .ok stream) :
    stream.map (·.message) = messages ∧ ∀ timed ∈ stream, timed.delta.value = 0 := by
  induction messages generalizing last stream with
  | nil =>
      cases timed
      simp
  | cons message messages ih =>
      obtain ⟨delta, deltaStep, rest⟩ := bind_eq_ok.mp timed
      obtain ⟨others, otherSteps, whole⟩ := bind_eq_ok.mp rest
      cases whole
      have value := ofNat_eq_ok deltaStep
      obtain ⟨same, zero⟩ := ih (by omega) otherSteps
      refine ⟨by simp [same], ?_⟩
      intro later member
      rcases List.mem_cons.mp member with rfl | inside
      · simp only
        omega
      · exact zero later inside

/-- The first message at a tick takes the writer there. -/
theorem timeMessages_ahead {message : Message} {messages : List Message} {last tick : Nat}
    {stream : List TimedMessage}
    (timed : timeMessages last tick (message :: messages) = .ok stream) :
    stream.map (·.message) = message :: messages ∧ ∃ first others, stream = first :: others ∧
      first.delta.value = tick - last ∧ ∀ timed ∈ others, timed.delta.value = 0 := by
  obtain ⟨delta, deltaStep, rest⟩ := bind_eq_ok.mp timed
  obtain ⟨others, otherSteps, whole⟩ := bind_eq_ok.mp rest
  cases whole
  obtain ⟨same, zero⟩ := timeMessages_reached (Nat.le_max_left tick last) otherSteps
  exact ⟨by simp [same], ⟨delta, message⟩, others, rfl, ofNat_eq_ok deltaStep, zero⟩

/-- A paced stream of events that all have messages is written in blocks that keep time. -/
theorem eventStream_blocks {channel : Channel} {last : Nat} {events : List TimedEvent}
    {stream : List TimedMessage} (paced : Paced last events)
    (audible : ∀ event ∈ events, event.event.heard channel.val ≠ [])
    (streamed : eventStream channel last events = .ok stream) :
    ∃ blocks, stream = blocks.flatten ∧ List.Forall₂ (KeepsTime channel) events blocks := by
  induction paced generalizing stream with
  | nil =>
      cases streamed
      exact ⟨[], rfl, List.Forall₂.nil⟩
  | @cons last event events step _ ih =>
      obtain ⟨messages, messageStep, rest⟩ := bind_eq_ok.mp streamed
      obtain ⟨block, blockStep, rest⟩ := bind_eq_ok.mp rest
      obtain ⟨others, otherSteps, whole⟩ := bind_eq_ok.mp rest
      cases whole
      cases messages with
      | nil =>
          have heard := messages_heard messageStep
          exact absurd heard.symm (audible event (List.mem_cons_self ..))
      | cons message messages =>
          obtain ⟨same, first, further, rfl, gap, zero⟩ := timeMessages_ahead blockStep
          -- the writer has reached the tick of the event, where the rest is paced from
          have reached : max event.tick last = event.tick := by omega
          simp only [List.isEmpty_cons, Bool.false_eq_true, if_false, reached] at otherSteps
          obtain ⟨blocks, rfl, keep⟩ := ih
            (fun other later => audible other (List.mem_cons_of_mem _ later)) otherSteps
          refine ⟨(first :: further) :: blocks, rfl, List.Forall₂.cons ⟨?_, ?_⟩ keep⟩
          · rw [same]
            exact messageStep
          · exact ⟨first, further, rfl, by omega, zero⟩

/-- The messages of a track: its name, if names are written, then a block for every event, and the
end.  All blocks keep time. -/
def TrackKeepsTime (trackNames : Bool) (track : CompiledTrack) (stream : List TimedMessage) :
    Prop :=
  ∃ name blocks, nameStream trackNames track.name = .ok name ∧
    stream = name ++ blocks.flatten ++ [TimedMessage.close] ∧
    List.Forall₂ (KeepsTime track.kind.channel) track.events blocks

end Midi

theorem Score.trackStream_keepsTime {score : Score} {defaults : Defaults} {track : Track}
    {stream : CompiledTrack} (compiled : score.compileTrack defaults track = .ok stream)
    {trackNames : Bool} {messages : List TimedMessage}
    (streamed : trackStream trackNames stream = .ok messages) :
    TrackKeepsTime trackNames stream messages := by
  obtain ⟨name, nameStep, rest⟩ := bind_eq_ok.mp streamed
  obtain ⟨events, eventStep, whole⟩ := bind_eq_ok.mp rest
  cases whole
  obtain ⟨blocks, rfl, keep⟩ := eventStream_blocks (Score.compileTrack_paced compiled)
    (fun event member => Score.heard_ne_nil compiled member _) eventStep
  exact ⟨name, blocks, nameStep, rfl, keep⟩

/-- Whatever tracks of a compiled score are written as, they keep time. -/
theorem Score.tracks_keepTime {score : Score} {fallback : Defaults} {compiled : CompiledScore}
    (compiles : score.compile fallback = .ok compiled) {trackNames : Bool}
    {streams : List (List TimedMessage)}
    (streamed : List.Forall₂ (fun track stream => trackStream trackNames track = .ok stream)
      compiled.tracks streams) :
    List.Forall₂ (TrackKeepsTime trackNames) compiled.tracks streams := by
  refine List.forall₂_iff_zip.mpr ⟨streamed.length_eq, ?_⟩
  intro stream messages zipped
  obtain ⟨track, -, built⟩ := exists_of_forall₂_right (Score.compile_eq_ok compiles)
    (List.of_mem_zip zipped).1
  exact Score.trackStream_keepsTime built (List.forall₂_zip streamed zipped)

namespace Midi

/-- The messages of an event as a reader finds them: at least one, the first after the gap of the
event, and the others right after it. -/
structure HeardInTime (channel : Nat) (event : TimedEvent) (block : List HeardAfter) : Prop where
  messages : block.map (·.message) = event.event.heard channel
  deltas : ∃ first others, block = first :: others ∧ first.delta = event.gap ∧
    ∀ later ∈ others, later.delta = 0

/-- A track as a reader finds it: its name, if names are written, then a block for every event, and
the end.  All blocks are in time. -/
def TrackHeardInTime (trackNames : Bool) (track : CompiledTrack) (found : List HeardAfter) : Prop :=
  ∃ blocks, found = (if trackNames then [⟨0, .trackName track.name.toUTF8.data.toList⟩] else []) ++
      blocks.flatten ++ [⟨0, .endOfTrack⟩] ∧
    List.Forall₂ (HeardInTime track.kind.channelNumber) track.events blocks

/-- What was written in time is heard in time. -/
theorem KeepsTime.heard {channel : Channel} {event : TimedEvent} {block : List TimedMessage}
    (keeps : KeepsTime channel event block) :
    HeardInTime channel.val event (block.map TimedMessage.heard) := by
  obtain ⟨messages, first, others, rfl, gap, zero⟩ := keeps
  refine ⟨?_, first.heard, others.map TimedMessage.heard, rfl, gap, ?_⟩
  · rw [← messages_heard messages, List.map_map, List.map_map]
    rfl
  · exact List.forall_mem_map.mpr zero

theorem TrackKeepsTime.heard {trackNames : Bool} {track : CompiledTrack}
    {stream : List TimedMessage} (keeps : TrackKeepsTime trackNames track stream) :
    TrackHeardInTime trackNames track (stream.map TimedMessage.heard) := by
  obtain ⟨name, blocks, named, rfl, keep⟩ := keeps
  refine ⟨blocks.map (List.map TimedMessage.heard), ?_, ?_⟩
  · rw [List.map_append, List.map_append, nameStream_heard named, List.map_flatten]
    rfl
  · rw [← channelNumber_eq]
    exact List.forall₂_map_right_iff.mpr (keep.imp fun _ _ => KeepsTime.heard)

end Midi

/-- A reader of the file finds the gaps of the events as the deltas before their first messages, and
no delta before the others. -/
theorem CompiledScore.file_heardInTime {score : Score} {fallback : Defaults}
    {compiled : CompiledScore} (compiles : score.compile fallback = .ok compiled)
    {trackNames : Bool} {bytes : List UInt8} (written : compiled.toMidi trackNames = .ok bytes)
    (short : ∀ track ∈ compiled.tracks, bodyLength trackNames track < 2 ^ 32) :
    ∃ tracks, ByteReader.file bytes =
        some ⟨1, compiled.tracks.length, compiled.resolution.perQuarter, tracks⟩ ∧
      List.Forall₂ (TrackHeardInTime trackNames) compiled.tracks tracks := by
  obtain ⟨streams, streamed, -, read⟩ := CompiledScore.file_eq_heard written short
  have keep := Score.tracks_keepTime compiles streamed
  exact ⟨_, read, List.forall₂_map_right_iff.mpr (keep.imp fun _ _ => TrackKeepsTime.heard)⟩

end MidiScore
