import Mathlib.Tactic.Ring
import MidiScore.Proofs.MidiReader

/-!
# Reading what was written: bytes

Each piece that a MIDI file is laid out from is read back from the front of any bytes, and what
follows it is left as it is.

*Quantities.*  A quantity is written as groups of seven bits.  Read in order, the groups above
the lowest add up to a number, and the lowest group ends the quantity (`quantity_bytes`).

*Numbers.*  A number in a fixed count of bytes is read back if it fits (`number_bigEndian`).

*Messages.*  `Message.heard` is what a message means to a reader, and by `message_bytes` a
reader finds just that.
-/

namespace MidiScore.Midi

namespace VarLength

/-! ## Groups of seven bits -/

/-- The number that groups denote, lowest first. -/
def groupsValue (groups : List Nat) : Nat := groups.foldr (fun group high => high * 128 + group) 0

/-- A group has seven bits. -/
theorem fill_lt : ∀ {slots n : Nat} {groups : List Nat}, fill slots n = some groups →
    ∀ group ∈ groups, group < 128
  | 0, _, _, filled => by cases filled
  | slots + 1, n, groups, filled => by
      rw [fill] at filled
      split at filled
      · cases filled
        simp only [List.mem_singleton, forall_eq]
        omega
      · obtain ⟨higher, rest, rfl⟩ := Option.map_eq_some_iff.mp filled
        exact List.forall_mem_cons.mpr ⟨by omega, fill_lt rest⟩

theorem fill_length_le : ∀ {slots n : Nat} {groups : List Nat}, fill slots n = some groups →
    groups.length ≤ slots
  | 0, _, _, filled => by cases filled
  | slots + 1, n, groups, filled => by
      rw [fill] at filled
      split at filled
      · cases filled
        exact Nat.succ_le_succ (Nat.zero_le slots)
      · obtain ⟨higher, rest, rfl⟩ := Option.map_eq_some_iff.mp filled
        exact Nat.succ_le_succ (fill_length_le rest)

/-- The groups of a number denote it. -/
theorem groupsValue_fill : ∀ {slots n : Nat} {groups : List Nat}, fill slots n = some groups →
    groupsValue groups = n
  | 0, _, _, filled => by cases filled
  | slots + 1, n, groups, filled => by
      rw [fill] at filled
      split at filled
      next single =>
        cases filled
        simp only [groupsValue, List.foldr_cons, List.foldr_nil]
        omega
      next =>
        obtain ⟨higher, rest, rfl⟩ := Option.map_eq_some_iff.mp filled
        have high := groupsValue_fill rest
        simp only [groupsValue, List.foldr_cons] at high ⊢
        rw [high]
        omega

/-- There is always a lowest group. -/
theorem groups_ne_nil (n : VarLength) : n.groups ≠ [] := by
  intro empty
  have filled := n.fill_eq_groups
  rw [empty, fill] at filled
  split at filled
  · cases filled
  · obtain ⟨_, -, same⟩ := Option.map_eq_some_iff.mp filled
    cases same

end VarLength

namespace ByteReader

/-! ## Quantities -/

/-- Bytes with a set high bit are added to the number so far. -/
theorem quantityFrom_high : ∀ (groups : List Nat) (most high : Nat) (rest : List UInt8),
    (∀ group ∈ groups, group < 128) →
      quantityFrom (groups.length + most) high
          (groups.map (fun group => UInt8.ofNat (group + 128)) ++ rest) =
        quantityFrom most (groups.foldl (fun n group => n * 128 + group) high) rest
  | [], most, high, rest, _ => by simp
  | group :: groups, most, high, rest, small => by
      have fits : group < 128 := small group (List.mem_cons_self ..)
      have byte : (UInt8.ofNat (group + 128)).toNat = group + 128 :=
        UInt8.toNat_ofNat'.trans (Nat.mod_eq_of_lt (by omega))
      rw [List.length_cons, Nat.add_right_comm, List.map_cons, List.cons_append, quantityFrom,
        byte, if_neg (by omega), Nat.add_sub_cancel, List.foldl_cons]
      exact quantityFrom_high groups most _ rest fun other member =>
        small other (List.mem_cons_of_mem _ member)

/-- A quantity is read back. -/
theorem quantity_bytes (n : VarLength) (rest : List UInt8) :
    quantity (n.bytes ++ rest) = some (n.value, rest) := by
  have small := VarLength.fill_lt n.fill_eq_groups
  have short := VarLength.fill_length_le n.fill_eq_groups
  have value := VarLength.groupsValue_fill n.fill_eq_groups
  rw [quantity, VarLength.bytes]
  cases split : n.groups with
  | nil => exact absurd split n.groups_ne_nil
  | cons lowest higher =>
      rw [split] at small short value
      have fits : lowest < 128 := small lowest (List.mem_cons_self ..)
      have byte : (UInt8.ofNat lowest).toNat = lowest :=
        UInt8.toNat_ofNat'.trans (Nat.mod_eq_of_lt (by omega))
      have room : 4 = higher.reverse.length + (3 - higher.length + 1) := by
        rw [List.length_reverse]
        rw [List.length_cons] at short
        omega
      rw [VarLength.groupBytes, List.append_assoc, room, quantityFrom_high _ _ _ _ (by
        intro group member
        exact small group (List.mem_cons_of_mem _ (List.mem_reverse.mp member)))]
      rw [List.cons_append, List.nil_append, quantityFrom, byte, if_pos fits, List.foldl_reverse,
        ← value]
      rfl

/-! ## Numbers -/

theorem take_append (front rest : List UInt8) :
    take front.length (front ++ rest) = some (front, rest) := by
  rw [take, if_pos (by rw [List.length_append]; omega), List.take_left, List.drop_left]

theorem bigEndian_succ (count n : Nat) :
    bigEndian (count + 1) n = UInt8.ofNat (n / 256 ^ count) :: bigEndian count n := by
  simp [bigEndian, List.range_succ]

theorem bigEndian_length (count n : Nat) : (bigEndian count n).length = count := by
  simp [bigEndian]

/-- The bytes of a number denote its low part. -/
theorem numberOf_bigEndian (n : Nat) : ∀ count high : Nat,
    numberOf high (bigEndian count n) = high * 256 ^ count + n % 256 ^ count
  | 0, high => by simp [bigEndian, numberOf, Nat.mod_one]
  | count + 1, high => by
      have others := numberOf_bigEndian n count (high * 256 + n / 256 ^ count % 256)
      rw [bigEndian_succ, numberOf, List.foldl_cons, UInt8.toNat_ofNat']
      refine others.trans ?_
      rw [Nat.pow_succ, Nat.mod_mul, Nat.add_mul]
      ring

/-- A number that fits is read back. -/
theorem number_bigEndian {count n : Nat} (fits : n < 256 ^ count) (rest : List UInt8) :
    number count (bigEndian count n ++ rest) = some (n, rest) := by
  have taken := take_append (bigEndian count n) rest
  rw [bigEndian_length] at taken
  have value := numberOf_bigEndian n count 0
  rw [Nat.mod_eq_of_lt fits, Nat.zero_mul, Nat.zero_add] at value
  simp only [number, taken, Option.map_some, value]

/-! ## Chunks -/

/-- The body of a chunk is read back if its length fits. -/
theorem chunkBody_chunk {type : String} {name body : List UInt8}
    (named : type.toUTF8.data.toList = name) (four : name.length = 4) (short : body.length < 2 ^ 32)
    (rest : List UInt8) : chunkBody type (chunk name body ++ rest) = some (body, rest) := by
  have found := take_append name (bigEndian 4 body.length ++ (body ++ rest))
  rw [four] at found
  have length : number 4 (bigEndian 4 body.length ++ (body ++ rest)) = some _ :=
    number_bigEndian (by omega) _
  simp only [chunkBody, chunk, List.append_assoc, found, named, Option.bind_eq_bind,
    Option.bind_some, if_true, length, take_append]

end ByteReader

/-! ## Messages -/

/-- What a message means to a reader. -/
def Message.heard : Message → Heard
  | .trackName text => .trackName text.bytes
  | .timeSignature numerator power => .timeSignature numerator.toNat power.toNat 24 8
  | .tempo micros => .tempo micros.val
  | .programChange channel program => .programChange channel.val program.value.toNat
  | .noteOn channel key velocity => .noteOn channel.val key.value.toNat velocity.value.toNat
  | .noteOff channel key => .noteOff channel.val key.value.toNat 64
  | .pitchBend channel value => .pitchBend channel.val value.val
  | .endOfTrack => .endOfTrack

theorem DataByte.toNat_lt (byte : DataByte) : byte.value.toNat < 128 :=
  Nat.lt_succ_of_le (UInt8.le_iff_toNat_le.mp byte.small)

/-- A status byte keeps its kind and its channel apart. -/
theorem Message.status_toNat {kind : Nat} (small : kind ≤ 0xE) (channel : Channel) :
    (status (kind * 16) channel).toNat = kind * 16 + channel.val := by
  have := channel.isLt
  exact UInt8.toNat_ofNat'.trans (Nat.mod_eq_of_lt (by omega))

namespace ByteReader

theorem data_cons {byte : UInt8} (small : byte.toNat < 128) (rest : List UInt8) :
    data (byte :: rest) = some (byte.toNat, rest) := if_pos small

theorem oneData_cons (meaning : Nat → Heard) {first : UInt8} (small : first.toNat < 128)
    (rest : List UInt8) : oneData meaning (first :: rest) = some (meaning first.toNat, rest) := by
  rw [oneData, data_cons small]
  rfl

theorem twoData_cons (meaning : Nat → Nat → Heard) {first second : UInt8}
    (smallFirst : first.toNat < 128) (smallSecond : second.toNat < 128) (rest : List UInt8) :
    twoData meaning (first :: second :: rest) = some (meaning first.toNat second.toNat, rest) := by
  rw [twoData]
  simp only [data_cons smallFirst, data_cons smallSecond, bind, Option.bind]
  rfl

/-- A status byte below `0xF0` starts a channel message. -/
theorem message_status (kind : Nat) (small : kind ≤ 0xE) (channel : Channel) (rest : List UInt8) :
    message (Message.status (kind * 16) channel :: rest) =
      channelMessage channel.val kind rest := by
  have := channel.isLt
  have low : (kind * 16 + channel.val) % 16 = channel.val := by omega
  have high : (kind * 16 + channel.val) / 16 = kind := by omega
  rw [message, Message.status_toNat small, if_neg (by omega), if_neg (by omega), low, high]

/-- A meta message with its text. -/
theorem message_meta (type : UInt8) (length : VarLength) (text : List UInt8)
    (counts : text.length = length.value) (rest : List UInt8) :
    message (0xFF :: type :: (length.bytes ++ (text ++ rest))) =
      some (.ofMeta type.toNat text, rest) := by
  have body : counted (length.bytes ++ (text ++ rest)) = some (text, rest) := by
    rw [counted, quantity_bytes, ← counts]
    exact take_append text rest
  rw [message, if_pos (by decide)]
  simp only [byte, body, bind, Option.bind]
  rfl

/-- A message of less than `2 ^ 32` bytes is read back as what it means.  The length of a longer
text would have wrapped. -/
theorem message_bytes (sent : Message) (short : sent.bytes.length < 2 ^ 32) (rest : List UInt8) :
    message (sent.bytes ++ rest) = some (sent.heard, rest) := by
  cases sent with
  | trackName text =>
      have counts : text.bytes.length = text.length.value := by
        rw [Message.bytes, List.length_append] at short
        exact (Nat.mod_eq_of_lt (by omega)).symm
      rw [Message.bytes, List.append_assoc, List.append_assoc]
      exact message_meta 0x03 text.length text.bytes counts rest
  | timeSignature numerator power =>
      exact message_meta 0x58 ⟨4, by decide⟩ [numerator, power, 24, 8] rfl rest
  | tempo micros =>
      have := micros.isLt
      refine (message_meta 0x51 ⟨3, by decide⟩ [_, _, _] rfl rest).trans ?_
      have value : numberOf 0 [UInt8.ofNat (micros.val / 65536),
          UInt8.ofNat (micros.val / 256 % 256), UInt8.ofNat (micros.val % 256)] = micros.val := by
        simp only [numberOf, List.foldl_cons, List.foldl_nil, UInt8.toNat_ofNat']
        omega
      exact congrArg (fun n => some (Heard.tempo n, rest)) value
  | programChange channel program =>
      exact (message_status 0xC (by decide) channel _).trans
        (oneData_cons _ program.toNat_lt rest)
  | noteOn channel key velocity =>
      exact (message_status 0x9 (by decide) channel _).trans
        (twoData_cons _ key.toNat_lt velocity.toNat_lt rest)
  | noteOff channel key =>
      exact (message_status 0x8 (by decide) channel _).trans
        (twoData_cons _ key.toNat_lt (by decide : Message.releaseVelocity.toNat < 128) rest)
  | pitchBend channel value =>
      have := value.isLt
      have low : (UInt8.ofNat (value.val % 128)).toNat = value.val % 128 :=
        UInt8.toNat_ofNat'.trans (Nat.mod_eq_of_lt (by omega))
      have high : (UInt8.ofNat (value.val / 128)).toNat = value.val / 128 :=
        UInt8.toNat_ofNat'.trans (Nat.mod_eq_of_lt (by omega))
      refine (message_status 0xE (by decide) channel _).trans ?_
      refine (twoData_cons (fun low high => .pitchBend channel.val (high * 128 + low))
        (low.trans_lt (by omega)) (high.trans_lt (by omega)) rest).trans ?_
      rw [low, high, Nat.div_add_mod']
      rfl
  | endOfTrack => exact message_meta 0x2F .zero [] rfl rest

end ByteReader

end MidiScore.Midi
