import Mathlib.Data.Nat.Bitwise
import Mathlib.Tactic.IntervalCases
import WasmStream.Proofs.Numerals

/-! Fields read into a machine word. While the bytes announce others the word holds the number that
they spell. Of the last byte only the payload is looked at, against the bits that are left for it,
but that decides as well whether the whole number is in range. -/

namespace WasmStream.Leb128

private theorem and_ne_zero_iff {byte mask : UInt8} {index : Nat}
    (single : mask.toNat = 2 ^ index) :
    byte &&& mask ≠ 0 ↔ byte.toNat / 2 ^ index % 2 = 1 := by
  rw [ne_eq, ← UInt8.toNat_inj, UInt8.toNat_and, single, Nat.and_two_pow,
    Nat.testBit_eq_decide_div_mod_eq]
  simp

theorem and_continuation_iff (byte : UInt8) : byte &&& 0x80 ≠ 0 ↔ 128 ≤ byte.toNat := by
  have bound := byte.toNat_lt
  have single : (0x80 : UInt8).toNat = 2 ^ 7 := rfl
  rw [and_ne_zero_iff single]
  omega

theorem and_sign_iff (byte : UInt8) : byte &&& 0x40 ≠ 0 ↔ 64 ≤ payload byte := by
  have single : (0x40 : UInt8).toNat = 2 ^ 6 := rfl
  rw [and_ne_zero_iff single, payload]
  omega

theorem toNat_and_payload (byte : UInt8) : (byte &&& 0x7f).toNat = payload byte :=
  (UInt8.toNat_and _ _).trans (Nat.and_two_pow_sub_one_eq_mod _ 7)

theorem toNat_payload_word (byte : UInt8) : (byte &&& 0x7f).toUInt64.toNat = payload byte := by
  rw [UInt8.toNat_toUInt64, toNat_and_payload]

theorem toNat_amount {count : Nat} (inside : count < 64) :
    (UInt64.ofNat count).toNat % 64 = count := by
  rw [UInt64.toNat_ofNat']
  omega

/-- Bits set above all others add up with them. What lies beyond the word is lost. -/
theorem toNat_or_shiftLeft {bits : UInt64} {count : Nat} (below : bits.toNat < 2 ^ count)
    (inside : count < 64) (more : UInt64) :
    (bits ||| more <<< UInt64.ofNat count).toNat =
      (bits.toNat + more.toNat * 2 ^ count) % 2 ^ 64 := by
  have word : bits.toNat = bits.toNat % 2 ^ 64 := (Nat.mod_eq_of_lt bits.toNat_lt).symm
  rw [UInt64.toNat_or, UInt64.toNat_shiftLeft, toNat_amount inside, word, ← Nat.or_mod_two_pow,
    Nat.or_comm, ← Nat.shiftLeft_add_eq_or_of_lt below, Nat.shiftLeft_eq, Nat.add_comm, ← word]

/-- The tally holds the number that the bytes read so far spell. -/
structure Counts (read : List UInt8) (tally : Tally) : Prop where
  count : tally.count = 7 * read.length
  bits : tally.bits.toNat = magnitude read

theorem counts_nil : Counts [] {} where
  count := rfl
  bits := rfl

namespace Counts

variable {read : List UInt8} {tally : Tally}

theorem below (counts : Counts read tally) : tally.bits.toNat < 2 ^ tally.count := by
  rw [counts.bits, counts.count]
  exact magnitude_lt read

theorem count_add (counts : Counts read tally) (byte : UInt8) :
    tally.count + 7 = 7 * (read ++ [byte]).length := by
  rw [List.length_append, List.length_singleton, Nat.mul_add, ← counts.count]

theorem toNat_push (counts : Counts read tally) (inside : tally.count < 64) (byte : UInt8) :
    (tally.push byte).bits.toNat = magnitude (read ++ [byte]) % 2 ^ 64 := by
  rw [Tally.push, toNat_or_shiftLeft counts.below inside, toNat_payload_word, magnitude_concat,
    counts.bits, counts.count]

theorem push (counts : Counts read tally) {byte : UInt8} (inside : tally.count < 64)
    (fits : magnitude (read ++ [byte]) < 2 ^ 64) : Counts (read ++ [byte]) (tally.push byte) where
  count := counts.count_add byte
  bits := by rw [counts.toNat_push inside, Nat.mod_eq_of_lt fits]

end Counts

section
variable {α : Type} {representation : Representation α} {width : Nat} {read : List UInt8}
  {tally : Tally} {byte : UInt8}

theorem turn_more (representation : Representation α) (counts : Counts read tally)
    (room : tally.count + 7 < width) (word : width ≤ 64) (goes : 128 ≤ byte.toNat) :
    turn representation width tally byte = .more (tally.push byte) ∧
      Counts (read ++ [byte]) (tally.push byte) := by
  have length := counts.count_add byte
  refine ⟨?_, counts.push (by omega) (magnitude_lt_of_narrow (by omega))⟩
  rw [turn, if_neg (by omega), if_pos ((and_continuation_iff byte).mpr goes)]

theorem turn_tooLong (full : width ≤ tally.count + 7) (goes : 128 ≤ byte.toNat) :
    turn representation width tally byte = .fault .tooLong := by
  rw [turn, if_pos (by omega), if_pos ((and_continuation_iff byte).mpr goes)]

/-- Tallies of a field stand for the numbers that its bytes spell, and the last payload is found
too wide where the number is out of range. -/
structure Stands (representation : Representation α) (width : Nat) (value : List UInt8 → α)
    (Fits : α → Prop) : Prop where
  exceeds : ∀ {read tally} byte, Counts read tally → tally.count < width →
    width < tally.count + 7 → (representation.exceeds (width - tally.count) (byte &&& 0x7f) = true ↔
      ¬ Fits (value (read ++ [byte])))
  narrow : ∀ {read tally} byte, Counts read tally → tally.count + 7 ≤ width →
    Fits (value (read ++ [byte]))
  result : ∀ {read tally} byte, Counts read tally → tally.count < width →
    Fits (value (read ++ [byte])) →
    representation.result (tally.push byte) byte = value (read ++ [byte])

theorem turn_stops {value : List UInt8 → α} {Fits : α → Prop} [DecidablePred Fits]
    (stands : Stands representation width value Fits) (counts : Counts read tally)
    (within : tally.count < width) (stops : byte.toNat < 128) :
    turn representation width tally byte =
      if Fits (value (read ++ [byte])) then .value (value (read ++ [byte]))
      else .fault .overflow := by
  have last : ¬ (byte &&& 0x80 ≠ 0) := (and_continuation_iff byte).not.mpr (by omega)
  simp only [turn, last, if_false]
  by_cases room : tally.count + 7 ≤ width
  · have fits := stands.narrow byte counts room
    rw [if_neg (c := width - tally.count < 7 ∧ _) (by omega), ite_self, if_pos fits,
      stands.result byte counts within fits]
  · have exceeds := stands.exceeds byte counts within (by omega)
    rw [if_pos (by omega)]
    by_cases fits : Fits (value (read ++ [byte]))
    · rw [if_neg fun wide => exceeds.mp wide.2 fits, if_pos fits,
        stands.result byte counts within fits]
    · rw [if_pos ⟨by omega, exceeds.mpr fits⟩, if_neg fits]

end

private theorem Counts.width_eq {read : List UInt8} {tally : Tally} {width : Nat}
    (counts : Counts read tally) (within : tally.count < width) :
    width = 7 * read.length + (width - tally.count) := by
  rw [← counts.count]
  omega

theorem stands_unsigned {width : Nat} (word : width ≤ 64) :
    Stands .unsigned width magnitude (· < 2 ^ width) where
  exceeds {read tally} byte counts within last := by
    have inside : width - tally.count < 64 := by omega
    have top : Representation.unsigned.exceeds (width - tally.count) (byte &&& 0x7f) = true ↔
        payload byte / 2 ^ (width - tally.count) ≠ 0 := by
      rw [Representation.unsigned, bne_iff_ne, ne_eq, ← UInt64.toNat_inj, UInt64.toNat_shiftRight,
        toNat_amount inside, toNat_payload_word, Nat.shiftRight_eq_div_pow]
      rfl
    rw [top, Nat.div_ne_zero_iff, and_iff_right (Nat.two_pow_pos _).ne', counts.width_eq within,
      magnitude_concat_lt_iff, Nat.not_lt]
    simp [counts.count]
  narrow {read tally} byte counts room := by
    exact magnitude_lt_of_narrow (counts.count_add byte ▸ room)
  result {read tally} byte counts within fits := by
    have inside : magnitude (read ++ [byte]) < 2 ^ 64 :=
      fits.trans_le (Nat.pow_le_pow_right (by omega) word)
    exact (counts.push (by omega) inside).bits

private theorem signed_exceeds_iff {above : Nat} (few : above < 6) (byte : UInt8) :
    Representation.signed.exceeds (above + 1) (byte &&& 0x7f) = true ↔
      ¬ (-2 ^ above ≤ leading byte ∧ leading byte < 2 ^ above) := by
  have amount : (UInt8.ofNat above).toNat % 8 = above := by
    rw [UInt8.toNat_ofNat']
    omega
  have top : Representation.signed.exceeds (above + 1) (byte &&& 0x7f) = true ↔
      payload byte / 2 ^ above ≠ 0 ∧ payload byte / 2 ^ above ≠ 127 / 2 ^ above := by
    simp only [Representation.signed, Nat.add_sub_cancel, Bool.and_eq_true, bne_iff_ne, ne_eq,
      ← UInt8.toNat_inj, UInt8.toNat_shiftRight, amount, toNat_and_payload,
      Nat.shiftRight_eq_div_pow]
    rfl
  have small := payload_lt byte
  rw [top, leading_eq]
  interval_cases above <;> split <;> omega

/-- Filling the word subtracts, up to multiples of what the word can hold, the power of two that
the sign bit stands for. -/
private theorem dvd_signExtend {read : List UInt8} {tally : Tally} (counts : Counts read tally)
    (inside : tally.count < 64) (byte : UInt8) :
    (2 ^ 64 : Int) ∣ twosComplement (read ++ [byte]) - ((tally.push byte).signExtend byte).toNat := by
  have length := counts.count
  have count : (tally.push byte).count = 7 * read.length + 7 := congrArg (· + 7) length
  rw [twosComplement_eq_sub, Tally.signExtend, count]
  simp only [and_sign_iff]
  by_cases filled : 7 * read.length + 7 < 64 ∧ 64 ≤ payload byte
  · obtain ⟨room, sign⟩ := filled
    have wider := counts.count_add byte
    have narrow : magnitude (read ++ [byte]) < 2 ^ 64 := magnitude_lt_of_narrow (by omega)
    have pushed := counts.push inside narrow
    have minusOne : (-1 : UInt64).toNat = 2 ^ 64 - 1 := rfl
    rw [if_neg (Nat.not_lt.mpr sign), if_pos ⟨room, sign⟩,
      toNat_or_shiftLeft (count ▸ pushed.below) room, pushed.bits, minusOne]
    push_cast
    generalize (2 : Int) ^ (7 * read.length + 7) = unit
    omega
  · rw [if_neg filled, counts.toNat_push inside]
    split
    · omega
    · have beyond : (2 : Int) ^ 64 ∣ 2 ^ (7 * read.length + 7) := pow_dvd_pow 2 (by omega)
      push_cast
      omega

theorem stands_signed {width : Nat} (word : width ≤ 64) :
    Stands .signed width twosComplement
      (fun value => -2 ^ (width - 1) ≤ value ∧ value < 2 ^ (width - 1)) where
  exceeds {read tally} byte counts within last := by
    obtain ⟨above, left⟩ : ∃ above, width - tally.count = above + 1 :=
      ⟨width - tally.count - 1, by omega⟩
    have split : width - 1 = 7 * read.length + above := by
      rw [← counts.count]
      omega
    rw [left, signed_exceeds_iff (by omega), split, le_twosComplement_concat_iff,
      twosComplement_concat_lt_iff]
  narrow {read tally} byte counts room := by
    exact twosComplement_mem_of_narrow (counts.count_add byte ▸ room)
  result {read tally} byte counts within fits := by
    have range : (2 : Int) ^ (width - 1) ≤ 2 ^ 63 := pow_le_pow_right₀ (by omega) (by omega)
    have same := dvd_signExtend counts (by omega) byte
    refine (BitVec.toInt_eq_toNat_bmod _).trans ?_
    rw [Int.bmod_eq_iff (by omega)]
    exact ⟨by omega, by omega, same⟩

end WasmStream.Leb128
