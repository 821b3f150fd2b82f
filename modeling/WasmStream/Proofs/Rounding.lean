import Mathlib.Tactic.NormNum
import WasmStream.Ieee.Nearest
import WasmStream.Proofs.Decimals

/-! Rounding a decimal to a format. The nearest magnitude depends on the quotient alone and not
on how it is written, every finite magnitude is the nearest to itself, and no decimal is
settled by its size alone unless rounding would settle it likewise. -/

namespace WasmStream.Ieee

private theorem roundQuotient_mul_right (numerator denominator : Nat) {factor : Nat}
    (positive : 0 < factor) :
    roundQuotient (numerator * factor) (denominator * factor) =
      roundQuotient numerator denominator := by
  have quotient : numerator * factor / (denominator * factor) = numerator / denominator :=
    Nat.mul_div_mul_right numerator denominator positive
  have rest : numerator * factor % (denominator * factor) = numerator % denominator * factor :=
    Nat.mul_mod_mul_right factor numerator denominator
  have less : 2 * (numerator % denominator * factor) < denominator * factor ↔
      2 * (numerator % denominator) < denominator := by
    rw [← Nat.mul_assoc, Nat.mul_lt_mul_right positive]
  have half : 2 * (numerator % denominator * factor) = denominator * factor ↔
      2 * (numerator % denominator) = denominator := by
    rw [← Nat.mul_assoc, Nat.mul_left_inj positive.ne']
  simp only [roundQuotient, quotient, rest, less, half]

private theorem div_le_roundQuotient (numerator denominator : Nat) :
    numerator / denominator ≤ roundQuotient numerator denominator := by
  unfold roundQuotient
  dsimp only
  split
  · exact Nat.le_refl _
  · exact Nat.le_succ _

private theorem roundQuotient_mul_self (quotient : Nat) {denominator : Nat}
    (positive : 0 < denominator) :
    roundQuotient (quotient * denominator) denominator = quotient := by
  simp [roundQuotient, Nat.mul_div_cancel _ positive, positive]

namespace Format

variable (format : Format)

theorem nearest_mul_right (numerator denominator : Nat) {factor : Nat} (positive : 0 < factor) :
    format.nearest (numerator * factor) (denominator * factor) =
      format.nearest numerator denominator := by
  simp only [nearest, Nat.mul_div_mul_right _ _ positive, Nat.mul_right_comm _ factor,
    roundQuotient_mul_right _ _ positive]

private theorem nearest_congr {numerator denominator numerator' denominator' : Nat}
    (positive : 0 < denominator) (positive' : 0 < denominator')
    (same : (numerator : ℚ) / denominator = (numerator' : ℚ) / denominator') :
    format.nearest numerator denominator = format.nearest numerator' denominator' := by
  have cross : numerator * denominator' = numerator' * denominator := by
    rw [div_eq_div_iff (Nat.cast_ne_zero.mpr positive.ne') (Nat.cast_ne_zero.mpr positive'.ne')]
      at same
    exact_mod_cast same
  rw [← format.nearest_mul_right numerator denominator positive', cross, Nat.mul_comm denominator,
    format.nearest_mul_right numerator' denominator' positive]

private theorem log2_units {significand : Nat} (low : 2 ^ format.fractionBits ≤ significand)
    (high : significand < 2 ^ (format.fractionBits + 1)) (exponent : Nat) :
    (significand * 2 ^ exponent).log2 = exponent + format.fractionBits := by
  have positive : 0 < 2 ^ exponent := Nat.two_pow_pos exponent
  have some' : significand * 2 ^ exponent ≠ 0 :=
    (Nat.mul_pos ((Nat.two_pow_pos _).trans_le low) positive).ne'
  rw [Nat.log2_eq_iff some']
  constructor
  · rw [Nat.pow_add, Nat.mul_comm]
    exact Nat.mul_le_mul_right _ low
  · rw [Nat.add_assoc, Nat.pow_add, Nat.mul_comm (2 ^ exponent)]
    exact Nat.mul_lt_mul_of_pos_right high positive

/-- Every finite magnitude is what its own number of units is rounded to. -/
theorem nearest_units {magnitude : Nat} (finite : magnitude < format.infinity) :
    format.nearest (format.units magnitude) 1 = magnitude := by
  have split := Nat.div_add_mod magnitude (2 ^ format.fractionBits)
  have inside := Nat.mod_lt magnitude (Nat.two_pow_pos format.fractionBits)
  simp only [nearest, units, Nat.pow_eq, Nat.div_one, Nat.one_mul]
  cases exponent : magnitude / 2 ^ format.fractionBits with
  | zero =>
    rw [exponent, Nat.mul_zero, Nat.zero_add] at split
    have shift : magnitude.log2 - format.fractionBits = 0 := by
      by_cases none : magnitude = 0
      · subst none
        simp
      · exact Nat.sub_eq_zero_of_le ((Nat.log2_lt none).mpr (split ▸ inside)).le
    have whole := roundQuotient_mul_self magnitude Nat.one_pos
    rw [Nat.mul_one] at whole
    simp [split, shift, whole, finite.le]
  | succ exponent' =>
    rw [exponent] at split
    generalize magnitude % 2 ^ format.fractionBits = fraction at split inside
    have low : 2 ^ format.fractionBits ≤ 2 ^ format.fractionBits + fraction :=
      Nat.le_add_right _ _
    have log := format.log2_units low (by omega) exponent'
    simp only [Nat.add_one_ne_zero, if_false, Nat.add_sub_cancel, log,
      roundQuotient_mul_self _ (Nat.two_pow_pos exponent')]
    have back : exponent' * 2 ^ format.fractionBits + (2 ^ format.fractionBits + fraction) =
        magnitude := by
      rw [← split, Nat.mul_succ, Nat.mul_comm, Nat.add_assoc]
    rw [back]
    exact Nat.min_eq_left finite.le

theorem nearest_le_infinity (numerator denominator : Nat) :
    format.nearest numerator denominator ≤ format.infinity := Nat.min_le_right _ _

private theorem nearest_eq_zero {numerator denominator : Nat}
    (small : 2 * numerator < denominator) :
    format.nearest numerator denominator = 0 := by
  have below : numerator < denominator := by omega
  simp [nearest, roundQuotient, Nat.div_eq_of_lt below, Nat.mod_eq_of_lt below, small]

/-- The number of units of the power of two next to the largest finite value. -/
def overflow : Nat := 2 ^ (format.fractionBits + (2 ^ format.exponentBits - 2))

private theorem nearest_eq_infinity {numerator denominator : Nat}
    (large : format.overflow ≤ numerator / denominator) :
    format.nearest numerator denominator = format.infinity := by
  refine Nat.min_eq_right ?_
  generalize quotient : numerator / denominator = whole at large
  have some' : whole ≠ 0 := by
    have positive : 0 < format.overflow := Nat.two_pow_pos _
    omega
  have size := (Nat.le_log2 some').mpr large
  have bound := Nat.log2_self_le some'
  have steps : 2 ^ format.exponentBits - 2 ≤ whole.log2 - format.fractionBits := by omega
  have significand : 2 ^ format.fractionBits ≤
      roundQuotient numerator (denominator * 2 ^ (whole.log2 - format.fractionBits)) := by
    refine le_trans ?_ (div_le_roundQuotient _ _)
    rw [← Nat.div_div_eq_div_mul, quotient, Nat.le_div_iff_mul_le (Nat.two_pow_pos _), ← Nat.pow_add]
    convert bound using 2
    omega
  simp only [infinity, Nat.pow_eq]
  calc (2 ^ format.exponentBits - 1) * 2 ^ format.fractionBits
      ≤ (2 ^ format.exponentBits - 2 + 1) * 2 ^ format.fractionBits :=
        Nat.mul_le_mul_right _ (by omega)
    _ = (2 ^ format.exponentBits - 2) * 2 ^ format.fractionBits + 2 ^ format.fractionBits :=
        Nat.succ_mul _ _
    _ ≤ _ := Nat.add_le_add (Nat.mul_le_mul_right _ steps) significand

private theorem overflow_le : format.overflow ≤ 10 ^ format.largestExponent * 2 ^ format.scale := by
  have double : 2 ^ format.exponentBits ≤ 2 * 2 ^ (format.exponentBits - 1) := by
    rw [← Nat.pow_succ']
    exact Nat.pow_le_pow_right (by omega) (by omega)
  have exponents : format.fractionBits + (2 ^ format.exponentBits - 2) ≤
      3 * format.largestExponent + format.scale := by
    simp only [largestExponent, scale, Nat.pow_eq]
    omega
  calc format.overflow ≤ 2 ^ (3 * format.largestExponent + format.scale) :=
        Nat.pow_le_pow_right (by omega) exponents
    _ = 8 ^ format.largestExponent * 2 ^ format.scale := by rw [Nat.pow_add, Nat.pow_mul]
    _ ≤ _ := Nat.mul_le_mul_right _ (Nat.pow_le_pow_left (by omega) _)

private theorem small_units {decimal : Decimal}
    (small : decimal.exponent + Decimal.digitCount decimal.coefficient < -(format.scale : Int)) :
    decimal.value * 2 ^ format.scale < 1 / 2 := by
  have bound : decimal.value < 10 ^ (-((format.scale + 1 : Nat) : Int)) :=
    decimal.value_lt.trans_le (zpow_le_zpow_right₀ (by norm_num) (by omega))
  have powers : (2 : ℚ) ^ format.scale ≤ 10 ^ format.scale :=
    pow_le_pow_left₀ (by norm_num) (by norm_num) _
  calc decimal.value * 2 ^ format.scale
      < 10 ^ (-((format.scale + 1 : Nat) : Int)) * 2 ^ format.scale :=
        mul_lt_mul_of_pos_right bound (by positivity)
    _ ≤ 10 ^ (-((format.scale + 1 : Nat) : Int)) * 10 ^ format.scale :=
        mul_le_mul_of_nonneg_left powers (zpow_pos (by norm_num) _).le
    _ = 1 / 10 := by
        rw [zpow_neg, zpow_natCast, pow_succ]
        field_simp
    _ < 1 / 2 := by norm_num

private theorem large_units {decimal : Decimal} (some' : decimal.coefficient ≠ 0)
    (large : (format.largestExponent : Int) <
      decimal.exponent + Decimal.digitCount decimal.coefficient) :
    (format.overflow : ℚ) ≤ decimal.value * 2 ^ format.scale := by
  have bound : (10 : ℚ) ^ format.largestExponent ≤ decimal.value := by
    refine le_trans ?_ (Decimal.le_value some')
    rw [← zpow_natCast]
    exact zpow_le_zpow_right₀ (by norm_num) (by omega)
  calc (format.overflow : ℚ) ≤ 10 ^ format.largestExponent * 2 ^ format.scale := by
        exact_mod_cast format.overflow_le
    _ ≤ _ := mul_le_mul_of_nonneg_right bound (by positivity)

theorem ofDecimal_eq_nearest {decimal : Decimal} {numerator denominator : Nat}
    (positive : 0 < denominator)
    (exact : (numerator : ℚ) / denominator = decimal.value * 2 ^ format.scale) :
    format.ofDecimal decimal = format.nearest numerator denominator := by
  have positive' : (0 : ℚ) < denominator := Nat.cast_pos.mpr positive
  unfold ofDecimal
  dsimp only
  split
  next small =>
    symm
    apply nearest_eq_zero
    have half : (numerator : ℚ) / denominator < 1 / 2 := by
      rw [exact]
      rcases small with none | small
      · simp [Decimal.value, none]
      · exact format.small_units small
    rw [div_lt_div_iff₀ positive' (by norm_num)] at half
    have whole : numerator * 2 < 1 * denominator := by exact_mod_cast half
    omega
  next sizable =>
    obtain ⟨some', -⟩ := not_or.mp sizable
    split
    next large =>
      symm
      apply nearest_eq_infinity
      have bound := format.large_units some' large
      rw [← exact, le_div_iff₀ positive'] at bound
      rw [Nat.le_div_iff_mul_le positive]
      exact_mod_cast bound
    next =>
      obtain ⟨coefficient, exponent⟩ := decimal
      cases exponent with
      | ofNat zeros =>
        apply format.nearest_congr Nat.one_pos positive
        rw [exact]
        simp only [Decimal.value, Nat.pow_eq, Int.ofNat_eq_natCast, zpow_natCast]
        push_cast
        ring
      | negSucc places =>
        apply format.nearest_congr (Nat.pow_pos (by omega)) positive
        rw [exact]
        simp only [Decimal.value, Nat.pow_eq, zpow_negSucc]
        push_cast
        field_simp

end Format
end WasmStream.Ieee
