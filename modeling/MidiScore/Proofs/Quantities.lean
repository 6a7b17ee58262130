import Mathlib.Order.Bounds.Basic
import MidiScore.Proofs.MidiBytes

/-!
# Writing a variable-length quantity

A number is split into groups of seven bits, lowest first, in four slots, and the groups are written
highest first.  A number that is too large is refused before anything is written.

*Length.*  As many groups as it takes, and never one more (`groups_isLeast`).

*Bytes.*  All bytes but the last have their high bit set (`bytes_marked`), which is how a reader
finds the end.
-/

namespace MidiScore.Midi

namespace VarLength

-- the first number above the limit has five groups
example : fill 4 0x10000000 = none ∧ fill 5 0x10000000 = some [0, 0, 0, 0, 1] := by decide

/-! ## Length -/

/-- The groups of a number hold it. -/
theorem lt_pow_of_fill : ∀ {slots n : Nat} {groups : List Nat}, fill slots n = some groups →
    n < 128 ^ groups.length
  | 0, _, _, filled => by cases filled
  | slots + 1, n, groups, filled => by
      rw [fill] at filled
      split at filled
      next single =>
        cases filled
        rw [List.length_singleton]
        omega
      next =>
        obtain ⟨others, rest, rfl⟩ := Option.map_eq_some_iff.mp filled
        have higher := lt_pow_of_fill rest
        rwa [Nat.div_lt_iff_lt_mul (by decide), ← Nat.pow_succ] at higher

/-- No fewer groups hold it. -/
theorem fill_length_le_of_lt_pow : ∀ {slots n count : Nat} {groups : List Nat},
    fill slots n = some groups → 1 ≤ count → n < 128 ^ count → groups.length ≤ count
  | 0, _, _, _, filled, _, _ => by cases filled
  | slots + 1, n, count + 1, groups, filled, _, fits => by
      rw [fill] at filled
      split at filled
      next =>
        cases filled
        exact Nat.succ_le_succ (Nat.zero_le count)
      next more =>
        obtain ⟨others, rest, rfl⟩ := Option.map_eq_some_iff.mp filled
        have high : n / 128 < 128 ^ count := by
          rwa [Nat.div_lt_iff_lt_mul (by decide), ← Nat.pow_succ]
        have positive : 1 ≤ count := by
          cases count with
          | zero => exact absurd (Nat.lt_one_iff.mp high) more
          | succ count => exact Nat.succ_le_succ (Nat.zero_le count)
        exact Nat.succ_le_succ (fill_length_le_of_lt_pow rest positive high)

/-- A quantity has the fewest groups that hold it, and at least one. -/
theorem groups_isLeast (n : VarLength) :
    IsLeast {count | 1 ≤ count ∧ n.value < 2 ^ (7 * count)} n.groups.length := by
  have bits : ∀ count, 2 ^ (7 * count) = 128 ^ count := fun count => Nat.pow_mul 2 7 count
  refine ⟨⟨List.length_pos_iff.mpr n.groups_ne_nil, ?_⟩, ?_⟩
  · rw [bits]
    exact lt_pow_of_fill n.fill_eq_groups
  · rintro count ⟨positive, holds⟩
    rw [bits] at holds
    exact fill_length_le_of_lt_pow n.fill_eq_groups positive holds

/-! ## Bytes -/

theorem groupBytes_length (groups : List Nat) : (groupBytes groups).length = groups.length := by
  cases groups with
  | nil => rfl
  | cons lowest higher => simp [groupBytes]

/-- The high bit tells the last byte from the others. -/
theorem bytes_marked (n : VarLength) : ∃ front last, n.bytes = front ++ [last] ∧
    (∀ byte ∈ front, 128 ≤ byte.toNat) ∧ last.toNat < 128 := by
  have small := fill_lt n.fill_eq_groups
  cases split : n.groups with
  | nil => exact absurd split n.groups_ne_nil
  | cons lowest higher =>
      rw [split] at small
      obtain ⟨fits, others⟩ := List.forall_mem_cons.mp small
      refine ⟨_, _, by rw [bytes, split, groupBytes], ?_, ?_⟩
      · intro byte member
        obtain ⟨group, inside, rfl⟩ := List.mem_map.mp member
        have bound := others group (List.mem_reverse.mp inside)
        rw [UInt8.toNat_ofNat', Nat.mod_eq_of_lt (by omega)]
        omega
      · rw [UInt8.toNat_ofNat', Nat.mod_eq_of_lt (by omega)]
        exact fits

/-- How a number stands in bytes as a variable-length quantity. -/
structure Encodes (n : Nat) (bytes : List UInt8) : Prop where
  /-- There are one to four bytes. -/
  length : 1 ≤ bytes.length ∧ bytes.length ≤ 4
  /-- With seven bits each, fewer bytes do not hold the number. -/
  least : IsLeast {count | 1 ≤ count ∧ n < 2 ^ (7 * count)} bytes.length
  /-- Four slots hold a group for each byte. -/
  slots : ∃ groups, fill 4 n = some groups ∧ groups.length = bytes.length ∧
    groupBytes groups = bytes
  /-- The high bit is set on all bytes but the last. -/
  marked : ∃ front last, bytes = front ++ [last] ∧ (∀ byte ∈ front, 128 ≤ byte.toNat) ∧
    last.toNat < 128
  /-- A reader finds the number, and leaves whatever follows. -/
  reads : ∀ rest, ByteReader.quantity (bytes ++ rest) = some (n, rest)

theorem encodes (n : VarLength) : Encodes n.value n.bytes := by
  have length : n.bytes.length = n.groups.length := groupBytes_length _
  have least := groups_isLeast n
  have filled := n.fill_eq_groups
  refine ⟨?_, ?_, ⟨_, filled, length.symm, rfl⟩, bytes_marked n, ByteReader.quantity_bytes n⟩
  · rw [length]
    exact ⟨least.1.1, fill_length_le filled⟩
  · rwa [length]

end VarLength

/-! ## Buffers -/

theorem putBytes_run (bytes buffer : List UInt8) :
    (bytes.forM putByte).run buffer = .ok () (buffer ++ bytes) := by
  induction bytes generalizing buffer with
  | nil => rw [List.append_nil]; rfl
  | cons byte bytes ih =>
      have first : ((byte :: bytes).forM putByte).run buffer =
          (bytes.forM putByte).run (buffer ++ [byte]) := rfl
      rw [first, ih, List.append_assoc, List.singleton_append]

theorem putQuantity_run_of_fits (quantity : VarLength) (buffer : List UInt8) :
    (putQuantity quantity.value).run buffer = .ok () (buffer ++ quantity.bytes) := by
  have accepted : VarLength.ofNat quantity.value = .ok quantity := dif_pos quantity.fits
  rw [← putBytes_run, putQuantity, accepted]
  rfl

theorem putQuantity_run_of_large {n : Nat} (large : 0x0FFFFFFF < n) (buffer : List UInt8) :
    (putQuantity n).run buffer = .error (.quantity n) buffer := by
  have refused : VarLength.ofNat n = .error (.quantity n) := dif_neg (Nat.not_le.mpr large)
  rw [putQuantity, refused]
  rfl

/-- A number above the limit, and no other, is refused with the buffer as it was.  Any other number
is written at the end of the buffer, in the fewest groups of seven bits that hold it, and read back
from there whatever follows. -/
theorem putQuantity_exact (n : Nat) (buffer : List UInt8) :
    ((putQuantity n).run buffer = .error (.quantity n) buffer ↔ 0x0FFFFFFF < n) ∧
      ((∃ bytes, (putQuantity n).run buffer = .ok () (buffer ++ bytes) ∧
        VarLength.Encodes n bytes) ↔ n ≤ 0x0FFFFFFF) := by
  rcases Nat.lt_or_ge 0x0FFFFFFF n with large | small
  · rw [putQuantity_run_of_large large]
    refine ⟨iff_of_true rfl large, iff_of_false ?_ (Nat.not_le.mpr large)⟩
    rintro ⟨bytes, written, -⟩
    cases written
  · have written := putQuantity_run_of_fits ⟨n, small⟩ buffer
    rw [written]
    refine ⟨iff_of_false (fun failed => by cases failed) (Nat.not_lt.mpr small), ?_⟩
    exact iff_of_true ⟨_, rfl, VarLength.encodes ⟨n, small⟩⟩ small

end MidiScore.Midi
