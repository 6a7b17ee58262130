import MidiScore.Proofs.MidiRoundTrip
import MidiScore.Proofs.Writability

/-!
# Which scores can be written

Writing a compiled score fails in four places: at the number of tracks, at the name of a track, at
the value of an event, and at a gap in time before a message.  Each place has a condition that can
be read off the score, without the loop that gets there, and together they decide whether there is a
file.

*Events.*  `Event.Writable` says what an event must satisfy by itself.  An event without pitches has
no message, but its velocity is looked at all the same.

*Gaps.*  The loop keeps the latest tick of the messages so far.  `Steps` follows it over the ticks
of the messages alone (`eventStream_succeeds_iff`), and `steps_iff` tells what it means: no message
is farther than a variable-length quantity from the latest one before it.  An event without messages
leaves the latest tick where it is.
-/

namespace MidiScore

open Midi

/-! ## Events -/

/-- Whether an event can be written by itself: values in range, and a tempo with a length of a
quarter note in 24 bits of microseconds. -/
def Event.Writable : Event → Prop
  | .tempo bpm => isWritableTempo bpm = true
  | event => event.InRange

namespace Midi

theorem DataByte.ofByte_succeeds_iff (field : DataField) {value : UInt8} :
    (∃ byte, DataByte.ofByte field value = .ok byte) ↔ value ≤ 127 := by
  unfold DataByte.ofByte
  split
  next small => exact iff_of_true ⟨_, rfl⟩ small
  next large => exact iff_of_false not_exists_error_eq_ok large

theorem VarLength.ofNat_succeeds_iff {n : Nat} :
    (∃ quantity, VarLength.ofNat n = .ok quantity) ↔ n ≤ 0x0FFFFFFF := by
  unfold VarLength.ofNat
  split
  next small => exact iff_of_true ⟨_, rfl⟩ small
  next large => exact iff_of_false not_exists_error_eq_ok large

end Midi

/-- An event has messages on every channel exactly if it can be written by itself. -/
theorem Event.messages_succeeds_iff (channel : Channel) (event : Event) :
    (∃ messages, event.messages channel = .ok messages) ↔ event.Writable := by
  cases event with
  | programChange program =>
      refine Iff.trans ⟨?_, ?_⟩ (DataByte.ofByte_succeeds_iff .program)
      · rintro ⟨messages, sent⟩
        obtain ⟨byte, step, -⟩ := bind_eq_ok.mp sent
        exact ⟨byte, step⟩
      · rintro ⟨byte, step⟩
        exact ⟨_, bind_eq_ok.mpr ⟨byte, step, rfl⟩⟩
  | meter meter =>
      have unfolded : (Event.meter meter).messages channel =
          if meter.denominator = 0 then .error (.meter meter)
          else .ok [.timeSignature meter.numerator (denominatorPower meter.denominator)] := rfl
      rw [unfolded]
      split
      next zero => exact iff_of_false not_exists_error_eq_ok fun nonzero => nonzero zero
      next nonzero => exact iff_of_true ⟨_, rfl⟩ nonzero
  | tempo bpm =>
      have unfolded : (Event.tempo bpm).messages channel =
          if isWritableTempo bpm then .ok [.tempo (quarterMicros bpm)]
          else .error (.tempo bpm) := rfl
      rw [unfolded]
      split
      next fits => exact iff_of_true ⟨_, rfl⟩ fits
      next slow => exact iff_of_false not_exists_error_eq_ok slow
  | noteOn pitches velocity wait =>
      have values : (Event.noteOn pitches velocity wait).Writable ↔
          (∃ byte, DataByte.ofByte .velocity velocity = .ok byte) ∧
            ∃ keys, pitches.mapM (DataByte.ofByte .key) = .ok keys := by
        simp only [exists_mapM_eq_ok, DataByte.ofByte_succeeds_iff]
        exact Iff.rfl
      rw [values]
      constructor
      · rintro ⟨messages, sent⟩
        obtain ⟨force, forceStep, rest⟩ := bind_eq_ok.mp sent
        obtain ⟨keys, keySteps, -⟩ := bind_eq_ok.mp rest
        exact ⟨⟨force, forceStep⟩, keys, keySteps⟩
      · rintro ⟨⟨force, forceStep⟩, keys, keySteps⟩
        exact ⟨_, bind_eq_ok.mpr ⟨force, forceStep, bind_eq_ok.mpr ⟨keys, keySteps, rfl⟩⟩⟩
  | noteOff pitches duration delta =>
      have values : (Event.noteOff pitches duration delta).Writable ↔
          ∃ keys, pitches.mapM (DataByte.ofByte .key) = .ok keys := by
        simp only [exists_mapM_eq_ok, DataByte.ofByte_succeeds_iff]
        exact Iff.rfl
      rw [values]
      constructor
      · rintro ⟨messages, sent⟩
        obtain ⟨keys, keySteps, -⟩ := bind_eq_ok.mp sent
        exact ⟨keys, keySteps⟩
      · rintro ⟨keys, keySteps⟩
        exact ⟨_, bind_eq_ok.mpr ⟨keys, keySteps, rfl⟩⟩
  | bendBegin amount wait => exact iff_of_true ⟨_, rfl⟩ trivial
  | bendEnd delta => exact iff_of_true ⟨_, rfl⟩ trivial

/-! ## Gaps -/

namespace Midi

/-- Whether no tick goes ahead of the latest one so far, at first the given one, by more than a
variable-length quantity holds. -/
def Steps : Nat → List Nat → Prop
  | _, [] => True
  | last, tick :: rest => tick - last ≤ 0x0FFFFFFF ∧ Steps (max last tick) rest

theorem steps_append {last : Nat} {first second : List Nat} :
    Steps last (first ++ second) ↔ Steps last first ∧ Steps (first.foldl max last) second := by
  induction first generalizing last with
  | nil => simp [Steps]
  | cons tick first ih => simp [Steps, ih, and_assoc]

/-- Every tick is compared with the latest one before it. -/
theorem steps_iff {last : Nat} {ticks : List Nat} :
    Steps last ticks ↔ ∀ before tick after, ticks = before ++ tick :: after →
      tick ≤ before.foldl max last + 0x0FFFFFFF := by
  constructor
  · rintro steps before tick after rfl
    have here := (steps_append.mp steps).2.1
    omega
  · intro near
    induction ticks generalizing last with
    | nil => trivial
    | cons tick ticks ih =>
        have first := near [] tick ticks rfl
        rw [List.foldl_nil] at first
        refine ⟨by omega, ih ?_⟩
        rintro before later after rfl
        exact near (tick :: before) later after rfl

/-- Messages of one tick take the latest tick there, if there are any. -/
theorem foldl_max_tick {α : Type} (messages : List α) (last tick : Nat) :
    (messages.map fun _ => tick).foldl max last =
      if messages.isEmpty then last else max tick last := by
  induction messages generalizing last with
  | nil => rfl
  | cons message messages ih =>
      rw [List.map_cons, List.foldl_cons, ih]
      cases messages with
      | nil => exact Nat.max_comm last tick
      | cons second messages =>
          simp only [List.isEmpty_cons, Bool.false_eq_true, if_false]
          omega

theorem timeMessages_succeeds_iff {messages : List Message} {last tick : Nat} :
    (∃ stream, timeMessages last tick messages = .ok stream) ↔
      Steps last (messages.map fun _ => tick) := by
  induction messages generalizing last with
  | nil => exact iff_of_true ⟨_, rfl⟩ trivial
  | cons message messages ih =>
      rw [List.map_cons, Steps, ← VarLength.ofNat_succeeds_iff, Nat.max_comm, ← ih]
      constructor
      · rintro ⟨stream, timed⟩
        obtain ⟨delta, deltaStep, rest⟩ := bind_eq_ok.mp timed
        obtain ⟨others, otherSteps, -⟩ := bind_eq_ok.mp rest
        exact ⟨⟨delta, deltaStep⟩, others, otherSteps⟩
      · rintro ⟨⟨delta, deltaStep⟩, others, otherSteps⟩
        exact ⟨_, bind_eq_ok.mpr ⟨delta, deltaStep, bind_eq_ok.mpr ⟨others, otherSteps, rfl⟩⟩⟩

/-- The ticks of the messages of events. -/
def messageTicks (channel : Nat) (events : List TimedEvent) : List Nat :=
  (heardEvents channel events).map Prod.fst

theorem messageTicks_cons (channel : Nat) (timed : TimedEvent) (events : List TimedEvent) :
    messageTicks channel (timed :: events) =
      ((timed.event.heard channel).map fun _ => timed.tick) ++ messageTicks channel events := by
  rw [messageTicks, heardEvents, List.flatMap_cons, List.map_append, List.map_map]
  rfl

theorem eventStream_succeeds_iff {channel : Channel} {last : Nat} {events : List TimedEvent} :
    (∃ stream, eventStream channel last events = .ok stream) ↔
      (∀ timed ∈ events, timed.event.Writable) ∧
        Steps last (messageTicks channel.val events) := by
  induction events generalizing last with
  | nil => exact iff_of_true ⟨_, rfl⟩ ⟨by simp, trivial⟩
  | cons timed events ih =>
      rw [List.forall_mem_cons, ← Event.messages_succeeds_iff channel, messageTicks_cons]
      -- the messages of the event, once there are some, have its ticks and move the latest tick
      have here : ∀ messages, timed.event.messages channel = .ok messages →
          (Steps last (((timed.event.heard channel.val).map fun _ => timed.tick) ++
              messageTicks channel.val events) ↔
            Steps last (messages.map fun _ => timed.tick) ∧
              Steps (if messages.isEmpty then last else max timed.tick last)
                (messageTicks channel.val events)) := by
        intro messages sent
        rw [← messages_heard sent, List.map_map, steps_append, Function.comp_def, foldl_max_tick]
      constructor
      · rintro ⟨stream, streamed⟩
        obtain ⟨messages, messageStep, rest⟩ := bind_eq_ok.mp streamed
        obtain ⟨first, firstStep, rest⟩ := bind_eq_ok.mp rest
        obtain ⟨others, otherSteps, -⟩ := bind_eq_ok.mp rest
        obtain ⟨writable, steps⟩ := ih.mp ⟨others, otherSteps⟩
        exact ⟨⟨⟨messages, messageStep⟩, writable⟩, (here messages messageStep).mpr
          ⟨timeMessages_succeeds_iff.mp ⟨first, firstStep⟩, steps⟩⟩
      · rintro ⟨⟨⟨messages, messageStep⟩, writable⟩, steps⟩
        obtain ⟨now, later⟩ := (here messages messageStep).mp steps
        obtain ⟨first, firstStep⟩ := timeMessages_succeeds_iff.mpr now
        obtain ⟨others, otherSteps⟩ := ih.mpr ⟨writable, later⟩
        exact ⟨_, bind_eq_ok.mpr ⟨messages, messageStep, bind_eq_ok.mpr ⟨first, firstStep,
          bind_eq_ok.mpr ⟨others, otherSteps, rfl⟩⟩⟩⟩

/-! ## Tracks -/

/-- Only the low 32 bits of the length of a name are looked at. -/
theorem nameStream_succeeds_iff {trackNames : Bool} {name : String} :
    (∃ stream, nameStream trackNames name = .ok stream) ↔
      (trackNames = true → name.utf8ByteSize % 2 ^ 32 ≤ 0x0FFFFFFF) := by
  cases trackNames with
  | false => exact iff_of_true ⟨_, rfl⟩ nofun
  | true =>
      have size : wrappedLength name.toUTF8.data.toList = name.utf8ByteSize % 2 ^ 32 := rfl
      constructor
      · rintro ⟨stream, named⟩ -
        obtain ⟨text, textStep, -⟩ := bind_eq_ok.mp named
        simp only [MetaText.ofString] at textStep
        split at textStep
        next fits => exact size ▸ fits
        next => cases textStep
      · intro fits
        have text : MetaText.ofString name = .ok ⟨_, size ▸ fits rfl⟩ := dif_pos _
        exact ⟨_, bind_eq_ok.mpr ⟨_, text, rfl⟩⟩

end Midi

/-- Whether a track can be written. -/
structure CompiledTrack.Writable (trackNames : Bool) (track : CompiledTrack) : Prop where
  /-- The name, if it is written, is not too long. -/
  name : trackNames = true → track.name.utf8ByteSize ≤ 0x0FFFFFFF
  /-- Every event can be written by itself. -/
  events : ∀ timed ∈ track.events, timed.event.Writable
  /-- No message is too far from the latest one before it, or from the start. -/
  gaps : ∀ before tick after,
    messageTicks track.kind.channelNumber track.events = before ++ tick :: after →
      tick ≤ before.foldl max 0 + 0x0FFFFFFF

theorem Midi.trackStream_succeeds_iff {trackNames : Bool} {track : CompiledTrack}
    (short : track.name.utf8ByteSize < 2 ^ 32) :
    (∃ stream, trackStream trackNames track = .ok stream) ↔ track.Writable trackNames := by
  have named := @nameStream_succeeds_iff trackNames track.name
  rw [Nat.mod_eq_of_lt short] at named
  constructor
  · rintro ⟨stream, streamed⟩
    obtain ⟨name, nameStep, rest⟩ := bind_eq_ok.mp streamed
    obtain ⟨events, eventStep, -⟩ := bind_eq_ok.mp rest
    obtain ⟨writable, steps⟩ := eventStream_succeeds_iff.mp ⟨events, eventStep⟩
    rw [channelNumber_eq] at steps
    exact ⟨named.mp ⟨name, nameStep⟩, writable, steps_iff.mp steps⟩
  · rintro ⟨fits, writable, near⟩
    have steps := steps_iff.mpr near
    rw [← channelNumber_eq] at steps
    obtain ⟨name, nameStep⟩ := named.mpr fits
    obtain ⟨events, eventStep⟩ := eventStream_succeeds_iff.mpr ⟨writable, steps⟩
    exact ⟨_, bind_eq_ok.mpr ⟨name, nameStep, bind_eq_ok.mpr ⟨events, eventStep, rfl⟩⟩⟩

/-- A compiled score with names of less than `2 ^ 32` bytes can be written as a file if and only if
it has at most 65535 tracks and every track can be written. -/
theorem toMidi_succeeds_iff (score : CompiledScore) (trackNames : Bool)
    (short : ∀ track ∈ score.tracks, track.name.utf8ByteSize < 2 ^ 32) :
    (∃ bytes, score.toMidi trackNames = .ok bytes) ↔
      score.tracks.length ≤ 65535 ∧ ∀ track ∈ score.tracks, track.Writable trackNames := by
  have tracks : (∃ streams, score.tracks.mapM (trackStream trackNames) = .ok streams) ↔
      ∀ track ∈ score.tracks, track.Writable trackNames := by
    rw [exists_mapM_eq_ok]
    exact forall₂_congr fun track member => trackStream_succeeds_iff (short track member)
  rw [← tracks]
  constructor
  · rintro ⟨bytes, written⟩
    obtain ⟨few, streams, steps, -⟩ := CompiledScore.toMidi_eq_ok.mp written
    exact ⟨few, streams, steps⟩
  · rintro ⟨few, streams, steps⟩
    exact ⟨_, CompiledScore.toMidi_eq_ok.mpr ⟨few, streams, steps, rfl⟩⟩

/-- A strike of no pitches, and a release one tick farther from the start than a quantity holds. -/
def farRelease (resolution : Resolution) : CompiledScore where
  name := "song"
  resolution := resolution
  tracks := [⟨"kit", .percussive, [⟨0x0FFFFFFF, 0, .noteOn [] 100 0⟩,
    ⟨0x10000000, 0, .noteOff [35] 0 none⟩], []⟩]

/-- The strike does not bring the release nearer. -/
theorem farRelease_refused :
    (∀ track ∈ (farRelease ⟨4, by decide, by decide⟩).tracks, track.name.utf8ByteSize < 2 ^ 32) ∧
      ¬∃ bytes, (farRelease ⟨4, by decide, by decide⟩).toMidi = .ok bytes := by
  have short : ∀ track ∈ (farRelease ⟨4, by decide, by decide⟩).tracks,
      track.name.utf8ByteSize < 2 ^ 32 := by decide
  refine ⟨short, fun accepted => ?_⟩
  obtain ⟨-, writable⟩ := (toMidi_succeeds_iff _ true short).mp accepted
  have near := (writable _ (List.mem_singleton_self _)).gaps [] 0x10000000 [] rfl
  exact absurd near (by decide)

end MidiScore
