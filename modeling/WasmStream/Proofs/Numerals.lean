import Mathlib.Algebra.Order.Floor.Div
import Mathlib.Data.Nat.Digits.Defs
import Mathlib.GroupTheory.GroupAction.Ring
import WasmStream.Leb128

/-! The numbers that bytes spell in base 128, without regard to who reads them. The payloads are the
digits, the first of them the lowest, and the last one decides in which range the number lies. -/

namespace WasmStream.Leb128

def payload (byte : UInt8) : Nat := byte.toNat % 128

theorem payload_lt (byte : UInt8) : payload byte < 128 := Nat.mod_lt _ (by omega)

def magnitude (bytes : List UInt8) : Nat := Nat.ofDigits 128 (bytes.map payload)

/-- The number that the payloads are in two's complement of as many bits as they have together. -/
def twosComplement (bytes : List UInt8) : Int :=
  (magnitude bytes : Int).bmod (2 ^ (7 * bytes.length))

theorem magnitude_lt (bytes : List UInt8) : magnitude bytes < 2 ^ (7 * bytes.length) := by
  have small : ∀ digit ∈ bytes.map payload, digit < 128 := by
    simp only [List.mem_map]
    rintro digit ⟨byte, -, rfl⟩
    exact payload_lt byte
  have bound := Nat.ofDigits_lt_base_pow_length (by omega) small
  rwa [List.length_map, show 128 = 2 ^ 7 from rfl, ← Nat.pow_mul] at bound

def leading (byte : UInt8) : Int := Int.bmod (payload byte) 128

theorem leading_eq (byte : UInt8) :
    leading byte = if payload byte < 64 then (payload byte : Int) else payload byte - 128 := by
  have small := payload_lt byte
  rw [leading]
  split
  · exact Int.bmod_eq_of_le (by omega) (by omega)
  · rw [Int.bmod_eq_iff (by omega)]
    omega

theorem magnitude_concat (bytes : List UInt8) (last : UInt8) :
    magnitude (bytes ++ [last]) = magnitude bytes + payload last * 2 ^ (7 * bytes.length) := by
  rw [magnitude, magnitude, List.map_append, Nat.ofDigits_append, List.length_map, Nat.pow_mul]
  simp [Nat.mul_comm]

private theorem bmod_add_mul {low unit : Nat} (below : low < unit) (digit : Int) :
    ((low : Int) + digit * unit).bmod (unit * 128) = low + digit.bmod 128 * unit := by
  have least := Int.le_bmod (x := digit) (m := 128) (by omega)
  have most := Int.bmod_lt (x := digit) (m := 128) (by omega)
  have split : digit * unit = (digit.bmod 128 + 128 * digit.bdiv 128) * unit :=
    congrArg (· * (unit : Int)) (Int.bmod_add_bdiv digit 128).symm
  have bottom : -64 * (unit : Int) ≤ digit.bmod 128 * unit :=
    Int.mul_le_mul_of_nonneg_right (by omega) (by omega)
  have top : digit.bmod 128 * unit ≤ 63 * (unit : Int) :=
    Int.mul_le_mul_of_nonneg_right (by omega) (by omega)
  rw [Int.bmod_eq_iff (by omega)]
  push_cast
  refine ⟨by omega, by omega, -digit.bdiv 128, ?_⟩
  rw [split]
  ring

theorem twosComplement_concat (bytes : List UInt8) (last : UInt8) :
    twosComplement (bytes ++ [last]) =
      magnitude bytes + leading last * 2 ^ (7 * bytes.length) := by
  have wider : 2 ^ (7 * (bytes ++ [last]).length) = 2 ^ (7 * bytes.length) * 128 := by
    rw [List.length_append, List.length_singleton, Nat.mul_add, Nat.pow_add]
  have reduced := bmod_add_mul (magnitude_lt bytes) (payload last)
  rw [twosComplement, wider, magnitude_concat, leading]
  exact_mod_cast reduced

/-- A set sign bit takes the power of two away that is the first to lie beyond the payloads. -/
theorem twosComplement_eq_sub (bytes : List UInt8) (last : UInt8) :
    twosComplement (bytes ++ [last]) = magnitude (bytes ++ [last]) -
      if payload last < 64 then 0 else 2 ^ (7 * bytes.length + 7) := by
  rw [twosComplement_concat, magnitude_concat, leading_eq, pow_add]
  push_cast
  split <;> ring

theorem magnitude_concat_lt_iff (bytes : List UInt8) (last : UInt8) (left : Nat) :
    magnitude (bytes ++ [last]) < 2 ^ (7 * bytes.length + left) ↔ payload last < 2 ^ left := by
  have high : magnitude (bytes ++ [last]) / 2 ^ (7 * bytes.length) = payload last := by
    rw [magnitude_concat, Nat.add_mul_div_right _ _ (Nat.two_pow_pos _),
      Nat.div_eq_of_lt (magnitude_lt bytes), Nat.zero_add]
  rw [← high, Nat.div_lt_iff_lt_mul (Nat.two_pow_pos _), Nat.pow_add, Nat.mul_comm]

private theorem twosComplement_concat_ediv (bytes : List UInt8) (last : UInt8) :
    twosComplement (bytes ++ [last]) / 2 ^ (7 * bytes.length) = leading last := by
  have below : (magnitude bytes : Int) < 2 ^ (7 * bytes.length) := mod_cast magnitude_lt bytes
  rw [twosComplement_concat, Int.add_mul_ediv_right _ _ (by positivity),
    Int.ediv_eq_zero_of_lt (by omega) below, Int.zero_add]

theorem twosComplement_concat_lt_iff (bytes : List UInt8) (last : UInt8) (left : Nat) :
    twosComplement (bytes ++ [last]) < 2 ^ (7 * bytes.length + left) ↔ leading last < 2 ^ left := by
  rw [← twosComplement_concat_ediv bytes last, Int.ediv_lt_iff_lt_mul (by positivity), pow_add,
    mul_comm]

theorem le_twosComplement_concat_iff (bytes : List UInt8) (last : UInt8) (left : Nat) :
    -2 ^ (7 * bytes.length + left) ≤ twosComplement (bytes ++ [last]) ↔
      -2 ^ left ≤ leading last := by
  rw [← twosComplement_concat_ediv bytes last, Int.le_ediv_iff_mul_le (by positivity), pow_add,
    neg_mul, mul_comm]

theorem lt_ceilDiv_seven_iff {length width : Nat} : length < width ⌈/⌉ 7 ↔ 7 * length < width := by
  rw [← not_le, ceilDiv_le_iff_le_mul (by omega), not_le]

theorem magnitude_lt_of_narrow {bytes : List UInt8} {width : Nat}
    (narrow : 7 * bytes.length ≤ width) : magnitude bytes < 2 ^ width :=
  (magnitude_lt bytes).trans_le (Nat.pow_le_pow_right (by omega) narrow)

theorem twosComplement_mem_of_narrow {bytes : List UInt8} {width : Nat}
    (narrow : 7 * bytes.length ≤ width) :
    -2 ^ (width - 1) ≤ twosComplement bytes ∧ twosComplement bytes < 2 ^ (width - 1) := by
  rcases List.eq_nil_or_concat' bytes with rfl | ⟨front, last, rfl⟩
  · exact ⟨neg_nonpos.mpr (by positivity), (by positivity : (0 : Int) < _)⟩
  · have room : (2 : Int) ^ (7 * front.length + 6) ≤ 2 ^ (width - 1) := by
      refine pow_le_pow_right₀ (by omega) ?_
      rw [List.length_append, List.length_singleton] at narrow
      omega
    have small := payload_lt last
    have low := le_twosComplement_concat_iff front last 6
    have high := twosComplement_concat_lt_iff front last 6
    rw [leading_eq] at low high
    constructor
    · refine (neg_le_neg room).trans (low.mpr ?_)
      split <;> omega
    · refine (high.mpr ?_).trans_le room
      split <;> omega

end WasmStream.Leb128
