import MidiScore.Proofs.MidiBytes
import MidiScore.Proofs.Success

/-!
# Reading what was written: files

A compiled score that was written as a MIDI file is recovered by a reader.

*What is written.*  `Event.heard` gives the meaning of the messages of an event, and
`CompiledTrack.written` lists all messages of a track at the ticks of their events.  Events need
not be in order of time.  A file cannot go back, so a message stands at the latest tick of all
messages up to it; `latestSoFar` moves them there.

*What is read.*  A reader finds the ticks between messages.  `absolute` adds them up.

The two agree for every event (`eventStream_absolute`), so for every track, and the chunks of the
tracks are read back one after another up to the end of the file.
-/

namespace MidiScore

open Midi

/-! ## What is written -/

/-- The meaning of the messages of an event on a channel. -/
def Event.heard (channel : Nat) : Event → List Heard
  | .programChange program => [.programChange channel program.toNat]
  | .meter m => [.timeSignature m.numerator.toNat (denominatorPower m.denominator).toNat 24 8]
  | .tempo bpm => [.tempo (quarterMicros bpm).val]
  | .noteOn pitches velocity _ => pitches.map fun key => .noteOn channel key.toNat velocity.toNat
  | .noteOff pitches _ _ => pitches.map fun key => .noteOff channel key.toNat 64
  | .bendBegin amount _ => [.pitchBend channel (bendValue amount).val]
  | .bendEnd _ => [.pitchBend channel 8192]

/-- The channel of a track of a kind, as a number. -/
def TrackKind.channelNumber : TrackKind → Nat
  | .melodic => 0
  | .percussive => 9

/-- The meaning of the messages of events, each at the tick of its event. -/
def heardEvents (channel : Nat) (events : List TimedEvent) : List (Nat × Heard) :=
  events.flatMap fun timed => (timed.event.heard channel).map (timed.tick, ·)

/-- The meaning of all messages of a track before its end. -/
def CompiledTrack.written (trackNames : Bool) (track : CompiledTrack) : List (Nat × Heard) :=
  (if trackNames then [(0, .trackName track.name.toUTF8.data.toList)] else []) ++
    heardEvents track.kind.channelNumber track.events

namespace Midi

/-- Moves every message to the latest tick so far. -/
def latestSoFar : Nat → List (Nat × Heard) → List (Nat × Heard)
  | _, [] => []
  | last, (tick, message) :: rest =>
    (max last tick, message) :: latestSoFar (max last tick) rest

/-- Messages at their ticks, counted from the given one. -/
def absolute : Nat → List HeardAfter → List (Nat × Heard)
  | _, [] => []
  | now, ⟨delta, message⟩ :: rest => (now + delta, message) :: absolute (now + delta) rest

/-- What a reader finds of a track: its messages at the latest ticks so far, and right after them
the end. -/
def Recovers (trackNames : Bool) (track : CompiledTrack) (found : List HeardAfter) : Prop :=
  ∃ body, found = body ++ [⟨0, .endOfTrack⟩] ∧
    absolute 0 body = latestSoFar 0 (track.written trackNames)

/-- The length of the body of a track's chunk; a track that cannot be written has none. -/
def bodyLength (trackNames : Bool) (track : CompiledTrack) : Nat :=
  match trackStream trackNames track with
  | .ok stream => (stream.flatMap TimedMessage.bytes).length
  | .error _ => 0

/-- The last message of every track. -/
def TimedMessage.close : TimedMessage := ⟨.zero, .endOfTrack⟩

/-! ## Messages of events -/

/-- A message as a reader finds it. -/
def TimedMessage.heard (timed : TimedMessage) : HeardAfter :=
  ⟨timed.delta.value, timed.message.heard⟩

theorem ofByte_eq_ok {field : DataField} {byte : UInt8} {data : DataByte}
    (accepted : DataByte.ofByte field byte = .ok data) : data.value = byte := by
  unfold DataByte.ofByte at accepted
  split at accepted
  · cases accepted
    rfl
  · cases accepted

/-- Keys that are accepted are written as they are. -/
theorem map_heard_keys {field : DataField} (message : DataByte → Message) (meaning : UInt8 → Heard)
    (same : ∀ data, (message data).heard = meaning data.value) {pitches : List UInt8}
    {keys : List DataByte} (accepted : pitches.mapM (DataByte.ofByte field) = .ok keys) :
    (keys.map message).map Message.heard = pitches.map meaning := by
  have steps := mapM_eq_ok.mp accepted
  clear accepted
  induction steps with
  | nil => rfl
  | cons step _ ih =>
      rw [List.map_cons, List.map_cons, List.map_cons, ih, same, ofByte_eq_ok step]

theorem channelNumber_eq (kind : TrackKind) : kind.channel.val = kind.channelNumber := by
  cases kind with
  | melodic => rfl
  | percussive => rfl

/-- The messages of an event mean what the event says. -/
theorem messages_heard {channel : Channel} {event : Event} {messages : List Message}
    (accepted : event.messages channel = .ok messages) :
    messages.map Message.heard = event.heard channel.val := by
  cases event with
  | programChange program =>
      obtain ⟨data, step, same⟩ := bind_eq_ok.mp accepted
      cases same
      rw [List.map_singleton, Message.heard, ofByte_eq_ok step]
      rfl
  | meter m =>
      simp only [Event.messages] at accepted
      split at accepted
      · cases accepted
      · cases accepted
        rfl
  | tempo bpm =>
      simp only [Event.messages] at accepted
      split at accepted
      · cases accepted
        rfl
      · cases accepted
  | noteOn pitches velocity wait =>
      obtain ⟨force, forceStep, rest⟩ := bind_eq_ok.mp accepted
      obtain ⟨keys, keySteps, same⟩ := bind_eq_ok.mp rest
      cases same
      refine map_heard_keys _ _ (fun data => ?_) keySteps
      rw [Message.heard, ofByte_eq_ok forceStep]
  | noteOff pitches duration delta =>
      obtain ⟨keys, keySteps, same⟩ := bind_eq_ok.mp accepted
      cases same
      exact map_heard_keys _ _ (fun data => rfl) keySteps
  | bendBegin amount wait =>
      cases accepted
      rfl
  | bendEnd delta =>
      cases accepted
      rfl

/-! ## Ticks of messages -/

theorem ofNat_eq_ok {n : Nat} {quantity : VarLength} (fits : VarLength.ofNat n = .ok quantity) :
    quantity.value = n := by
  unfold VarLength.ofNat at fits
  split at fits
  · cases fits
    rfl
  · cases fits

/-- The messages of one tick stand at the latest tick so far, and the next ones count from it. -/
theorem timeMessages_absolute : ∀ {messages : List Message} {last tick : Nat}
    {stream : List TimedMessage}, timeMessages last tick messages = .ok stream →
      ∀ (later : List HeardAfter) (rest : List (Nat × Heard)),
        absolute (if messages.isEmpty then last else max tick last) later =
          latestSoFar (if messages.isEmpty then last else max tick last) rest →
        absolute last (stream.map TimedMessage.heard ++ later) =
          latestSoFar last ((messages.map Message.heard).map (tick, ·) ++ rest)
  | [], last, tick, stream, timed, later, rest, same => by
      cases timed
      exact same
  | message :: messages, last, tick, stream, timed, later, rest, same => by
      obtain ⟨delta, deltaStep, others⟩ := bind_eq_ok.mp timed
      obtain ⟨othersStream, otherSteps, whole⟩ := bind_eq_ok.mp others
      cases whole
      have value := ofNat_eq_ok deltaStep
      have next : last + delta.value = max last tick := by omega
      have after : (if messages.isEmpty then max tick last else max tick (max tick last)) =
          max tick last := by
        split
        · rfl
        · omega
      have ih := timeMessages_absolute otherSteps later rest (by rw [after]; exact same)
      rw [List.map_cons, List.cons_append, List.map_cons, List.map_cons, List.cons_append]
      simp only [TimedMessage.heard, absolute, latestSoFar]
      rw [next, Nat.max_comm last tick]
      exact congrArg _ ih

/-- The messages of events stand at the latest ticks so far. -/
theorem eventStream_absolute {channel : Channel} : ∀ {events : List TimedEvent} {last : Nat}
    {stream : List TimedMessage}, eventStream channel last events = .ok stream →
      absolute last (stream.map TimedMessage.heard) =
        latestSoFar last (heardEvents channel.val events)
  | [], last, stream, streamed => by
      cases streamed
      rfl
  | timed :: events, last, stream, streamed => by
      obtain ⟨messages, messageStep, rest⟩ := bind_eq_ok.mp streamed
      obtain ⟨first, firstStep, rest⟩ := bind_eq_ok.mp rest
      obtain ⟨others, otherSteps, whole⟩ := bind_eq_ok.mp rest
      cases whole
      have later := eventStream_absolute otherSteps
      have read := timeMessages_absolute firstStep _ _ later
      rw [messages_heard messageStep] at read
      rw [List.map_append]
      exact read

/-! ## Tracks -/

/-- The name of a track, if it is written, is found at the start. -/
theorem nameStream_heard {trackNames : Bool} {name : String} {stream : List TimedMessage}
    (named : nameStream trackNames name = .ok stream) :
    stream.map TimedMessage.heard =
      if trackNames then [⟨0, .trackName name.toUTF8.data.toList⟩] else [] := by
  cases trackNames with
  | false =>
      cases named
      rfl
  | true =>
      obtain ⟨text, textStep, same⟩ := bind_eq_ok.mp named
      cases same
      simp only [MetaText.ofString] at textStep
      split at textStep
      · cases textStep
        rfl
      · cases textStep

/-- The messages of a track stand at the latest ticks so far, and its end follows them. -/
theorem trackStream_absolute {trackNames : Bool} {track : CompiledTrack}
    {stream : List TimedMessage} (streamed : trackStream trackNames track = .ok stream) :
    ∃ body, stream = body ++ [TimedMessage.close] ∧
      absolute 0 (body.map TimedMessage.heard) = latestSoFar 0 (track.written trackNames) := by
  obtain ⟨name, nameStep, rest⟩ := bind_eq_ok.mp streamed
  obtain ⟨events, eventStep, whole⟩ := bind_eq_ok.mp rest
  cases whole
  refine ⟨name ++ events, rfl, ?_⟩
  have read := eventStream_absolute eventStep
  rw [channelNumber_eq] at read
  rw [List.map_append, nameStream_heard nameStep, CompiledTrack.written]
  cases trackNames with
  | false => exact read
  | true => exact congrArg _ read

theorem absolute_map_snd : ∀ (now : Nat) (found : List HeardAfter),
    (absolute now found).map Prod.snd = found.map (·.message)
  | _, [] => rfl
  | now, ⟨delta, message⟩ :: found => congrArg (message :: ·) (absolute_map_snd (now + delta) found)

theorem latestSoFar_map_snd : ∀ (last : Nat) (written : List (Nat × Heard)),
    (latestSoFar last written).map Prod.snd = written.map Prod.snd
  | _, [] => rfl
  | last, (tick, message) :: written =>
      congrArg (message :: ·) (latestSoFar_map_snd (max last tick) written)

theorem heard_ne_endOfTrack {channel : Nat} {event : Event} {message : Heard}
    (member : message ∈ event.heard channel) : message ≠ .endOfTrack := by
  rintro rfl
  cases event <;> simp [Event.heard] at member

/-- No message of a track before its end is the end. -/
theorem written_ne_endOfTrack {trackNames : Bool} {track : CompiledTrack} {tick : Nat}
    {message : Heard} (member : (tick, message) ∈ track.written trackNames) :
    message ≠ .endOfTrack := by
  rcases List.mem_append.mp member with name | event
  · cases trackNames with
    | false => cases name
    | true =>
        cases List.mem_singleton.mp name
        intro same
        cases same
  · obtain ⟨timed, -, sent⟩ := List.mem_flatMap.mp event
    obtain ⟨heard, heardMember, same⟩ := List.mem_map.mp sent
    cases same
    exact heard_ne_endOfTrack heardMember

end Midi

namespace Midi.ByteReader

/-- The bytes of messages, with the end of the track after them, are read back. -/
theorem trackBody_bytes : ∀ {body : List TimedMessage} {most : Nat},
    (∀ timed ∈ body, timed.message.heard ≠ .endOfTrack) →
      (∀ timed ∈ body, timed.message.bytes.length < 2 ^ 32) → body.length < most →
      trackBody most ((body ++ [TimedMessage.close]).flatMap TimedMessage.bytes) =
        some (body.map TimedMessage.heard ++ [⟨0, .endOfTrack⟩])
  | _, 0, _, _, room => absurd room (Nat.not_lt_zero _)
  | [], most + 1, _, _, _ => rfl
  | timed :: body, most + 1, inner, short, room => by
      obtain ⟨here, later⟩ := List.forall_mem_cons.mp short
      have others := trackBody_bytes
        (fun other member => inner other (List.mem_cons_of_mem _ member)) later
        (Nat.lt_of_succ_lt_succ room)
      rw [List.cons_append, List.flatMap_cons, TimedMessage.bytes, List.append_assoc, trackBody]
      simp only [quantity_bytes, message_bytes timed.message here, bind, Option.bind, others]
      rw [if_neg (inner timed (List.mem_cons_self ..))]
      rfl

/-- A message is no longer than the stream that it is part of. -/
theorem length_bytes_le_flatMap {stream : List TimedMessage} {timed : TimedMessage}
    (member : timed ∈ stream) :
    timed.bytes.length ≤ (stream.flatMap TimedMessage.bytes).length := by
  obtain ⟨before, after, rfl⟩ := List.append_of_mem member
  rw [List.flatMap_append, List.flatMap_cons, List.length_append, List.length_append]
  omega

theorem length_le_flatMap_bytes : ∀ stream : List TimedMessage,
    stream.length ≤ (stream.flatMap TimedMessage.bytes).length
  | [] => Nat.le_refl 0
  | timed :: stream => by
      have others := length_le_flatMap_bytes stream
      have positive : 0 < timed.message.bytes.length := by
        cases timed.message <;> simp [Message.bytes]
      rw [List.length_cons, List.flatMap_cons, List.length_append, TimedMessage.bytes,
        List.length_append]
      omega

/-- The body of a written track is read back message by message. -/
theorem trackBody_trackStream {trackNames : Bool} {track : CompiledTrack}
    {stream : List TimedMessage} (streamed : trackStream trackNames track = .ok stream)
    (short : (stream.flatMap TimedMessage.bytes).length < 2 ^ 32) :
    trackBody (stream.flatMap TimedMessage.bytes).length (stream.flatMap TimedMessage.bytes) =
      some (stream.map TimedMessage.heard) := by
  obtain ⟨body, rfl, read⟩ := trackStream_absolute streamed
  have inner : ∀ timed ∈ body, timed.message.heard ≠ .endOfTrack := by
    intro timed member
    -- what is read has the same messages as what was written
    have messages := congrArg (List.map Prod.snd) read
    rw [absolute_map_snd, latestSoFar_map_snd, List.map_map] at messages
    have heard : timed.message.heard ∈ (track.written trackNames).map Prod.snd := by
      rw [← messages]
      exact List.mem_map_of_mem member
    obtain ⟨⟨tick, message⟩, written, same⟩ := List.mem_map.mp heard
    rw [← same]
    exact written_ne_endOfTrack written
  have parts : ∀ timed ∈ body, timed.message.bytes.length < 2 ^ 32 := by
    intro timed member
    have part := length_bytes_le_flatMap (List.mem_append_left [TimedMessage.close] member)
    rw [TimedMessage.bytes, List.length_append] at part
    omega
  have room := length_le_flatMap_bytes (body ++ [TimedMessage.close])
  rw [List.length_append, List.length_singleton] at room
  rw [trackBody_bytes inner parts (by omega), List.map_append]
  rfl

/-! ## Files -/

/-- Track chunks are read back one after another. -/
theorem trackChunks_bytes {trackNames : Bool} {tracks : List CompiledTrack}
    {streams : List (List TimedMessage)}
    (streamed : List.Forall₂ (fun track stream => trackStream trackNames track = .ok stream) tracks
      streams)
    (short : ∀ stream ∈ streams, (stream.flatMap TimedMessage.bytes).length < 2 ^ 32)
    (rest : List UInt8) :
    trackChunks streams.length (streams.flatMap trackBytes ++ rest) =
      some (streams.map (List.map TimedMessage.heard), rest) := by
  induction streamed with
  | nil => rfl
  | cons step _ ih =>
      obtain ⟨here, later⟩ := List.forall_mem_cons.mp short
      rw [List.length_cons, List.flatMap_cons, List.append_assoc, trackChunks, trackBytes]
      have body := chunkBody_chunk (by decide : "MTrk".toUTF8.data.toList = trackType) rfl here
      simp only [body, trackBody_trackStream step here, ih later, bind, Option.bind]
      rfl

/-- The header chunk is read back, and the tracks that it announces are read after it. -/
theorem file_header {count division : Nat} (few : count ≤ 65535) (small : division ≤ 128)
    (rest : List UInt8) :
    file (headerBytes count division ++ rest) = (trackChunks count rest).bind fun (tracks, rest) =>
      if rest.isEmpty then some ⟨1, count, division, tracks⟩ else none := by
  have body := chunkBody_chunk (by decide : "MThd".toUTF8.data.toList = headerType) rfl
    (by simp [bigEndian_length] :
      (bigEndian 2 1 ++ bigEndian 2 count ++ bigEndian 2 division).length < 2 ^ 32) rest
  have last := number_bigEndian (by omega : division < 256 ^ 2) []
  rw [List.append_nil] at last
  rw [headerBytes, file, body]
  simp only [bind, Option.bind, List.append_assoc, number_bigEndian (by omega : 1 < 256 ^ 2),
    number_bigEndian (by omega : count < 256 ^ 2), last]
  cases trackChunks count rest with
  | none => rfl
  | some found => simp

end Midi.ByteReader

/-- A score is written exactly if it has few enough tracks and each of them can be written, and the
file is laid out from the messages of the tracks. -/
theorem CompiledScore.toMidi_eq_ok {score : CompiledScore} {trackNames : Bool}
    {bytes : List UInt8} :
    score.toMidi trackNames = .ok bytes ↔ score.tracks.length ≤ 65535 ∧ ∃ streams,
      score.tracks.mapM (trackStream trackNames) = .ok streams ∧
        fileBytes score.resolution.perQuarter streams = bytes := by
  rw [CompiledScore.toMidi_eq]
  split
  next many => exact iff_of_false (by simp) fun accepted => Nat.not_le_of_lt many accepted.1
  next few =>
    rw [and_iff_right (Nat.le_of_not_lt few), bind_eq_ok]
    simp only [pure, Except.pure, Except.ok.injEq]

/-- The messages of a written file are read back with their deltas, track by track. -/
theorem CompiledScore.file_eq_heard {score : CompiledScore} {trackNames : Bool}
    {bytes : List UInt8} (written : score.toMidi trackNames = .ok bytes)
    (short : ∀ track ∈ score.tracks, bodyLength trackNames track < 2 ^ 32) :
    ∃ streams, List.Forall₂ (fun track stream => trackStream trackNames track = .ok stream)
        score.tracks streams ∧
      bytes = fileBytes score.resolution.perQuarter streams ∧
      ByteReader.file bytes = some ⟨1, score.tracks.length, score.resolution.perQuarter,
        streams.map (List.map TimedMessage.heard)⟩ := by
  obtain ⟨few, streams, steps, rfl⟩ := CompiledScore.toMidi_eq_ok.mp written
  have streamed := mapM_eq_ok.mp steps
  have count := streamed.length_eq
  have read := ByteReader.trackChunks_bytes streamed (by
    intro stream member
    obtain ⟨track, trackMember, step⟩ := exists_of_forall₂_right streamed member
    have length := short track trackMember
    rwa [bodyLength, step] at length) []
  refine ⟨streams, streamed, rfl, ?_⟩
  rw [List.append_nil] at read
  rw [fileBytes, ByteReader.file_header (by omega) score.resolution.small, read, count]
  rfl

/-- A file that was written is read to its end, and what is found is what was written: format 1,
the number of tracks, the resolution, and the messages of every track. -/
theorem CompiledScore.file_toMidi {score : CompiledScore} {trackNames : Bool} {bytes : List UInt8}
    (written : score.toMidi trackNames = .ok bytes)
    (short : ∀ track ∈ score.tracks, bodyLength trackNames track < 2 ^ 32) :
    ∃ tracks, ByteReader.file bytes =
        some ⟨1, score.tracks.length, score.resolution.perQuarter, tracks⟩ ∧
      List.Forall₂ (Recovers trackNames) score.tracks tracks := by
  obtain ⟨streams, streamed, -, read⟩ := CompiledScore.file_eq_heard written short
  refine ⟨_, read, List.forall₂_map_right_iff.mpr (streamed.imp ?_)⟩
  intro track stream step
  obtain ⟨body, rfl, found⟩ := trackStream_absolute step
  exact ⟨body.map TimedMessage.heard, List.map_append, found⟩

/-- A track whose events go back in time, and one without a name. -/
def unorderedKit : CompiledScore where
  name := "unordered"
  resolution := ⟨4, by decide, by decide⟩
  tracks :=
    [⟨"kit", .percussive, [⟨300, 300, .noteOn [35, 38] 100 0⟩, ⟨200, 0, .noteOff [35, 38] 0 none⟩,
        ⟨301, 1, .tempo 120.0⟩], []⟩,
      ⟨"", .melodic, [⟨0, 0, .bendBegin 0.5 0⟩, ⟨3, 3, .bendEnd none⟩], []⟩]

/-- The file of `unorderedKit`. -/
def unorderedKitBytes : List UInt8 :=
  [0x4D, 0x54, 0x68, 0x64, 0, 0, 0, 6, 0, 1, 0, 2, 0, 4,
    0x4D, 0x54, 0x72, 0x6B, 0, 0, 0, 35, 0, 0xFF, 0x03, 3, 0x6B, 0x69, 0x74,
    0x82, 0x2C, 0x99, 35, 100, 0, 0x99, 38, 100, 0, 0x89, 35, 64, 0, 0x89, 38, 64,
    1, 0xFF, 0x51, 3, 0x07, 0xA1, 0x20, 0, 0xFF, 0x2F, 0,
    0x4D, 0x54, 0x72, 0x6B, 0, 0, 0, 16, 0, 0xFF, 0x03, 0, 0, 0xE0, 0x00, 0x60,
    3, 0xE0, 0x00, 0x40, 0, 0xFF, 0x2F, 0]

theorem unorderedKit_read :
    unorderedKit.toMidi = .ok unorderedKitBytes ∧
      ∃ tracks, ByteReader.file unorderedKitBytes = some ⟨1, 2, 4, tracks⟩ ∧
        List.Forall₂ (Recovers true) unorderedKit.tracks tracks := by
  have written : unorderedKit.toMidi = .ok unorderedKitBytes := by decide +kernel
  exact ⟨written, CompiledScore.file_toMidi written (by decide +kernel)⟩

end MidiScore
