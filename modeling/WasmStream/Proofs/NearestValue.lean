import Mathlib.Algebra.Order.Ring.Abs
import Mathlib.Data.Nat.Cast.Order.Field
import Mathlib.Order.Monotone.Basic
import Mathlib.Tactic.Linarith
import WasmStream.Proofs.Rounding

/-! The values that magnitudes stand for, and rounding as a statement about them. A number is rounded
to the finite value closest to it, to the even significand if there are two, and to infinity from
half a unit in the last place beyond the largest finite value. Every number is rounded to one
magnitude only, and that is the one a decimal of its value is read as. -/

namespace WasmStream.Ieee

/-- The place on a grid closest to a number, of two the even one. -/
structure Closest (grid : Nat → ℚ) (number : ℚ) (place : Nat) : Prop where
  closest : ∀ other, |grid place - number| ≤ |grid other - number|
  even : ∀ other, other ≠ place → |grid other - number| = |grid place - number| → Even place

section Grid
variable {grid : Nat → ℚ} {number : ℚ} {below : Nat}

private theorem far_low (rising : StrictMono grid) (low : grid below ≤ number) {other : Nat}
    (before : other < below) : |grid below - number| < |grid other - number| := by
  have step := rising before
  rw [abs_sub_comm, abs_of_nonneg (by linarith), abs_sub_comm, abs_of_nonneg (by linarith)]
  linarith

private theorem far_high (rising : StrictMono grid) (high : number ≤ grid below) {other : Nat}
    (after : below < other) : |grid below - number| < |grid other - number| := by
  have step := rising after
  rw [abs_of_nonneg (by linarith), abs_of_nonneg (by linarith)]
  linarith

theorem Closest.of_between (rising : StrictMono grid) (low : grid below ≤ number)
    (high : number ≤ grid (below + 1)) {place : Nat} (side : place = below ∨ place = below + 1)
    (near : |grid place - number| ≤ |grid below - number|)
    (near' : |grid place - number| ≤ |grid (below + 1) - number|)
    (tie : |grid below - number| = |grid (below + 1) - number| → Even place) :
    Closest grid number place := by
  have sides : ∀ other, other < below ∨ other = below ∨ other = below + 1 ∨ below + 1 < other := by
    omega
  constructor
  · intro other
    rcases sides other with before | same | same | after
    · exact near.trans (far_low rising low before).le
    · exact same ▸ near
    · exact same ▸ near'
    · exact near'.trans (far_high rising high after).le
  · intro other different equal
    rcases sides other with before | same | same | after
    · exact absurd equal (near.trans_lt (far_low rising low before)).ne'
    · subst same
      have above := side.resolve_left different.symm
      exact tie (above ▸ equal)
    · subst same
      have under := side.resolve_right different.symm
      exact tie (under ▸ equal.symm)
    · exact absurd equal (near'.trans_lt (far_high rising high after)).ne'

/-- The closest place lies beyond an odd one from halfway to the next place on. Right at the half the
odd place is as close, but the tie is not for it. -/
private theorem Closest.lt_iff (rising : StrictMono grid) {place : Nat}
    (closest : Closest grid number place) (odd : ¬ Even below) :
    below < place ↔ grid below + grid (below + 1) ≤ 2 * number := by
  have step := rising (Nat.lt_succ_self below)
  constructor
  · intro beyond
    by_contra small
    rw [not_le] at small
    have above := rising.monotone (Nat.succ_le_of_lt beyond)
    have near := closest.closest below
    rw [abs_of_nonneg (by linarith)] at near
    rcases abs_cases (grid below - number) with ⟨same, -⟩ | ⟨same, -⟩
    · linarith
    · linarith
  · intro large
    by_contra within
    have under := rising.monotone (Nat.le_of_not_lt within)
    have near := closest.closest (below + 1)
    have distance : |grid place - number| = number - grid place := by
      rw [abs_sub_comm, abs_of_nonneg (by linarith)]
    have tie : |grid (below + 1) - number| = number - grid below := by
      rw [distance] at near
      rcases abs_cases (grid (below + 1) - number) with ⟨same, -⟩ | ⟨same, -⟩
      · linarith
      · linarith
    have alone : place = below := by
      apply rising.injective
      linarith
    subst alone
    apply odd
    apply closest.even (place + 1) (Nat.succ_ne_self place)
    rw [distance, tie]

private theorem Closest.of_multiples (rising : StrictMono grid) {base quotient place : Nat}
    {unit : ℚ} (even : Even base) (positive : 0 < unit)
    (below : grid (base + quotient) = quotient * unit)
    (above : grid (base + quotient + 1) = (quotient + 1) * unit) (low : quotient ≤ number)
    (high : number ≤ quotient + 1) (side : place = quotient ∨ place = quotient + 1)
    (closest : Closest (fun place => (place : ℚ)) number place) :
    Closest grid (number * unit) (base + place) := by
  have distance : ∀ value : ℚ, |value * unit - number * unit| = |value - number| * unit := by
    intro value
    rw [← sub_mul, abs_mul, abs_of_pos positive]
  have value : grid (base + place) = place * unit := by
    rcases side with same | same
    · rw [same, below]
    · rw [same, ← Nat.add_assoc, above]
      push_cast
      rfl
  have near := closest.closest quotient
  have near' := closest.closest (quotient + 1)
  push_cast at near'
  apply Closest.of_between rising (below ▸ mul_le_mul_of_nonneg_right low positive.le)
    (above ▸ mul_le_mul_of_nonneg_right high positive.le)
  · omega
  · rw [value, below, distance, distance]
    exact mul_le_mul_of_nonneg_right near positive.le
  · rw [value, above, distance, distance]
    exact mul_le_mul_of_nonneg_right near' positive.le
  · rw [below, above, distance, distance, mul_left_inj' positive.ne']
    intro tie
    apply even.add
    rcases side with same | same
    · subst same
      apply closest.even (place + 1) (Nat.succ_ne_self place)
      push_cast
      exact tie.symm
    · subst same
      apply closest.even quotient (Nat.succ_ne_self quotient).symm
      push_cast
      exact tie

end Grid

private theorem roundQuotient_eq_or (numerator denominator : Nat) :
    roundQuotient numerator denominator = numerator / denominator ∨
      roundQuotient numerator denominator = numerator / denominator + 1 := by
  unfold roundQuotient
  dsimp only
  split
  · exact .inl rfl
  · exact .inr rfl

section Quotient
variable (numerator : Nat) {denominator : Nat}

theorem div_eq_add_mod (positive : 0 < denominator) : (numerator : ℚ) / denominator =
    (numerator / denominator : Nat) + (numerator % denominator : Nat) / denominator := by
  have split : (numerator : ℚ) = denominator * (numerator / denominator : Nat) +
      (numerator % denominator : Nat) := mod_cast (Nat.div_add_mod _ _).symm
  have some' : (denominator : ℚ) ≠ 0 := Nat.cast_ne_zero.mpr positive.ne'
  nth_rewrite 1 [split]
  field_simp

private theorem distance_div (positive : 0 < denominator) :
    |((numerator / denominator : Nat) : ℚ) - numerator / denominator| =
      (numerator % denominator : Nat) / denominator := by
  have nonneg : (0 : ℚ) ≤ (numerator % denominator : Nat) / denominator := by positivity
  rw [div_eq_add_mod numerator positive, abs_sub_comm, add_sub_cancel_left, abs_of_nonneg nonneg]

theorem div_le_add_one (positive : 0 < denominator) :
    (numerator : ℚ) / denominator ≤ (numerator / denominator : Nat) + 1 := by
  have inside := Nat.mod_lt numerator positive
  rw [div_eq_add_mod numerator positive, add_le_add_iff_left,
    div_le_one (Nat.cast_pos.mpr positive), Nat.cast_le]
  exact inside.le

private theorem distance_div_add_one (positive : 0 < denominator) :
    |((numerator / denominator + 1 : Nat) : ℚ) - numerator / denominator| =
      1 - (numerator % denominator : Nat) / denominator := by
  have above := div_le_add_one numerator positive
  have split := div_eq_add_mod numerator positive
  push_cast
  rw [abs_of_nonneg (by linarith)]
  linarith

theorem closest_roundQuotient (positive : 0 < denominator) :
    Closest (fun place => (place : ℚ)) ((numerator : ℚ) / denominator)
      (roundQuotient numerator denominator) := by
  have positive' : (0 : ℚ) < denominator := Nat.cast_pos.mpr positive
  have less : 2 * ((numerator % denominator : Nat) / denominator : ℚ) < 1 ↔
      2 * (numerator % denominator) < denominator := by
    rw [← mul_div_assoc, div_lt_one positive']
    exact_mod_cast Iff.rfl
  have half : 2 * ((numerator % denominator : Nat) / denominator : ℚ) = 1 ↔
      2 * (numerator % denominator) = denominator := by
    rw [← mul_div_assoc, div_eq_one_iff_eq positive'.ne']
    exact_mod_cast Iff.rfl
  have between := @Closest.of_between _ _ _ Nat.strictMono_cast
    (Nat.cast_div_le (α := ℚ) (m := numerator) (n := denominator))
    (mod_cast div_le_add_one numerator positive)
  have below := distance_div numerator positive
  have above := distance_div_add_one numerator positive
  simp only [below, above] at between
  simp only [roundQuotient, ← less, ← half]
  generalize ((numerator % denominator : Nat) / denominator : ℚ) = rest at below above between ⊢
  split
  next nearer =>
    apply between (.inl rfl)
    · exact below.le
    · rcases nearer with small | ⟨tie, -⟩
      · linarith
      · linarith
    · intro tie
      rcases nearer with small | ⟨-, even⟩
      · linarith
      · exact Nat.even_iff.mpr even
  next farther =>
    obtain ⟨large, odd⟩ := not_or.mp farther
    apply between (.inr rfl)
    · linarith
    · exact above.le
    · intro tie
      rw [Nat.even_add_one, Nat.even_iff]
      intro even
      exact odd ⟨by linarith, even⟩

end Quotient

namespace Format

variable (format : Format)

/-- The exponent field is not too narrow for a bias, nor is the fraction empty. -/
structure Wide : Prop where
  fraction : 1 ≤ format.fractionBits
  exponent : 2 ≤ format.exponentBits

theorem wide_binary32 : binary32.Wide := by
  constructor <;> simp [binary32]

theorem wide_binary64 : binary64.Wide := by
  constructor <;> simp [binary64]

def significand (magnitude : Nat) : Nat :=
  if magnitude / 2 ^ format.fractionBits = 0 then magnitude % 2 ^ format.fractionBits
  else 2 ^ format.fractionBits + magnitude % 2 ^ format.fractionBits

def bias : Int := 2 ^ (format.exponentBits - 1) - 1

/-- The unit in the last place of a magnitude. Subnormal magnitudes share that of the least normal
ones. -/
def ulp (magnitude : Nat) : ℚ :=
  2 ^ (max ((magnitude / 2 ^ format.fractionBits : Nat) : Int) 1 - format.bias -
    format.fractionBits)

def value (magnitude : Nat) : ℚ := format.significand magnitude * format.ulp magnitude

/-- The finite magnitude whose value is closest to a number, of two the one with the even
significand. -/
structure IsNearest (number : ℚ) (magnitude : Nat) : Prop where
  finite : magnitude < format.infinity
  closest : ∀ other < format.infinity,
    |format.value magnitude - number| ≤ |format.value other - number|
  even : ∀ other < format.infinity, other ≠ magnitude →
    |format.value other - number| = |format.value magnitude - number| →
      Even (format.significand magnitude)

/-- Half a unit in the last place beyond the largest finite value. -/
def limit : ℚ := format.value (format.infinity - 1) + format.ulp (format.infinity - 1) / 2

example : binary32.value 1 = 1 / 2 ^ 149 ∧ binary32.limit = 2 ^ 128 - 2 ^ 103 := by decide +kernel

inductive Rounded (number : ℚ) : Nat → Prop where
  | finite {magnitude} (small : number < format.limit) (nearest : format.IsNearest number magnitude) :
      Rounded number magnitude
  | infinite (large : format.limit ≤ number) : Rounded number format.infinity

/-- A magnitude as a significand with so many zeros behind it. -/
structure Shifted (magnitude shift significand : Nat) : Prop where
  magnitude : magnitude = shift * 2 ^ format.fractionBits + significand
  below : significand < 2 ^ (format.fractionBits + 1)
  normal : shift = 0 ∨ 2 ^ format.fractionBits ≤ significand

theorem exists_shifted (magnitude : Nat) :
    ∃ shift significand, format.Shifted magnitude shift significand := by
  have split := Nat.div_add_mod magnitude (2 ^ format.fractionBits)
  have inside := Nat.mod_lt magnitude (Nat.two_pow_pos format.fractionBits)
  have double := Nat.pow_succ (n := 2) (m := format.fractionBits)
  rcases exponent : magnitude / 2 ^ format.fractionBits with _ | shift
  · exact ⟨0, magnitude, by simp, by rw [exponent] at split; omega, .inl rfl⟩
  · rw [exponent, Nat.mul_comm, Nat.succ_mul] at split
    exact ⟨shift, 2 ^ format.fractionBits + magnitude % 2 ^ format.fractionBits, by omega, by omega,
      .inr (by omega)⟩

variable {format}

section Shifted
variable {magnitude shift significand : Nat}

/-- The fields of a magnitude. Only a significand without the leading one leaves the exponent at
zero, and then it stands for the same unit as an exponent of one. -/
theorem Shifted.fields (shifted : format.Shifted magnitude shift significand) :
    (magnitude / 2 ^ format.fractionBits = 0 ∧ shift = 0 ∧
      magnitude % 2 ^ format.fractionBits = significand) ∨
    (magnitude / 2 ^ format.fractionBits = shift + 1 ∧
      2 ^ format.fractionBits + magnitude % 2 ^ format.fractionBits = significand) := by
  obtain ⟨same, below, normal⟩ := shifted
  have positive := Nat.two_pow_pos format.fractionBits
  rw [Nat.pow_succ] at below
  rcases Nat.lt_or_ge significand (2 ^ format.fractionBits) with subnormal | normal'
  · have none' := normal.resolve_right (Nat.not_le.mpr subnormal)
    rw [none', Nat.zero_mul, Nat.zero_add] at same
    rw [same]
    exact .inl ⟨Nat.div_eq_of_lt subnormal, none', Nat.mod_eq_of_lt subnormal⟩
  · obtain ⟨fraction, split⟩ := Nat.exists_eq_add_of_le normal'
    have inside : fraction < 2 ^ format.fractionBits := by omega
    have fields : magnitude = fraction + (shift + 1) * 2 ^ format.fractionBits := by
      rw [same, split, Nat.succ_mul]
      omega
    rw [fields, Nat.add_mul_div_right _ _ positive, Nat.div_eq_of_lt inside,
      Nat.add_mul_mod_self_right, Nat.mod_eq_of_lt inside]
    exact .inr ⟨Nat.zero_add _, split.symm⟩

theorem Shifted.significand_eq (shifted : format.Shifted magnitude shift significand) :
    format.significand magnitude = significand := by
  unfold Format.significand
  rcases shifted.fields with ⟨subnormal, -, same⟩ | ⟨normal, same⟩
  · rw [if_pos subnormal, same]
  · rw [if_neg (by omega), same]

theorem Shifted.ulp_eq (shifted : format.Shifted magnitude shift significand)
    (wide : format.Wide) : format.ulp magnitude = 2 ^ ((shift : Int) - format.scale) := by
  have room : 2 ≤ 2 ^ (format.exponentBits - 1) :=
    Nat.le_self_pow (Nat.sub_ne_zero_of_lt wide.exponent) 2
  have exponent : max ((magnitude / 2 ^ format.fractionBits : Nat) : Int) 1 = shift + 1 := by
    rcases shifted.fields with ⟨subnormal, none', -⟩ | ⟨normal, -⟩
    · omega
    · omega
  have scale : (format.scale : Int) = 2 ^ (format.exponentBits - 1) - 2 + format.fractionBits := by
    simp only [Format.scale, Nat.pow_eq]
    push_cast [room]
    rfl
  rw [ulp, exponent, scale, bias]
  congr 1
  omega

theorem Shifted.value_eq (shifted : format.Shifted magnitude shift significand)
    (wide : format.Wide) :
    format.value magnitude = significand * 2 ^ ((shift : Int) - format.scale) := by
  rw [value, shifted.significand_eq, shifted.ulp_eq wide]

/-- A significand that grows to a power of two carries into the exponent, and the value grows by one
unit in the last place all the same. -/
theorem Shifted.value_succ (shifted : format.Shifted magnitude shift significand)
    (wide : format.Wide) :
    format.value (magnitude + 1) = (significand + 1) * 2 ^ ((shift : Int) - format.scale) := by
  obtain ⟨same, below, normal⟩ := shifted
  have double := Nat.pow_succ (n := 2) (m := format.fractionBits)
  rcases Nat.lt_or_ge (significand + 1) (2 ^ (format.fractionBits + 1)) with inside | carry
  · have next : format.Shifted (magnitude + 1) shift (significand + 1) :=
      ⟨by omega, inside, by omega⟩
    rw [next.value_eq wide]
    push_cast
    rfl
  · have next : format.Shifted (magnitude + 1) (shift + 1) (2 ^ format.fractionBits) :=
      ⟨by rw [Nat.succ_mul]; omega, by omega, .inr (Nat.le_refl _)⟩
    have full : (significand : ℚ) + 1 = 2 ^ format.fractionBits * 2 := by
      exact_mod_cast (by omega : significand + 1 = 2 ^ format.fractionBits * 2)
    have exponent : ((shift + 1 : Nat) : Int) - format.scale = shift - format.scale + 1 := by
      push_cast
      ring
    rw [next.value_eq wide, full, exponent, zpow_add_one₀ two_ne_zero]
    push_cast
    ring

end Shifted

theorem value_succ (wide : format.Wide) (magnitude : Nat) :
    format.value (magnitude + 1) = format.value magnitude + format.ulp magnitude := by
  obtain ⟨shift, significand, shifted⟩ := format.exists_shifted magnitude
  rw [shifted.value_succ wide, shifted.value_eq wide, shifted.ulp_eq wide]
  ring

private theorem ulp_pos (magnitude : Nat) : 0 < format.ulp magnitude := zpow_pos two_pos _

theorem strictMono_value (wide : format.Wide) : StrictMono format.value := by
  apply strictMono_nat_of_lt_succ
  intro magnitude
  rw [value_succ wide]
  exact lt_add_of_pos_right _ (ulp_pos magnitude)

theorem even_two_pow {exponent : Nat} (positive : 1 ≤ exponent) : Even (2 ^ exponent) :=
  even_two.pow_of_ne_zero (Nat.one_le_iff_ne_zero.mp positive)

theorem even_significand_iff (wide : format.Wide) {magnitude : Nat} :
    Even (format.significand magnitude) ↔ Even magnitude := by
  obtain ⟨shift, significand, shifted⟩ := format.exists_shifted magnitude
  have shift' : Even (shift * 2 ^ format.fractionBits) := (even_two_pow wide.fraction).mul_left _
  rw [shifted.significand_eq, shifted.magnitude, Nat.even_add, iff_true_left shift']

private theorem even_infinity (wide : format.Wide) : Even format.infinity :=
  (even_two_pow wide.fraction).mul_left _

private theorem infinity_pos (wide : format.Wide) : 0 < format.infinity := by
  have room : 2 ≤ 2 ^ format.exponentBits :=
    Nat.le_self_pow (Nat.ne_of_gt (Nat.lt_of_succ_lt wide.exponent)) 2
  apply Nat.mul_pos
  · simp only [Nat.pow_eq]
    omega
  · exact Nat.two_pow_pos _

private theorem infinity_le_iff (wide : format.Wide) {number : ℚ} {place : Nat}
    (closest : Closest format.value number place) :
    format.infinity ≤ place ↔ format.limit ≤ number := by
  obtain ⟨last, next⟩ := Nat.exists_eq_add_one.mpr (infinity_pos wide)
  have odd : ¬ Even last := by
    have even := even_infinity wide
    rwa [next, Nat.even_add_one] at even
  rw [limit, next, Nat.add_sub_cancel, Nat.succ_le_iff, closest.lt_iff (strictMono_value wide) odd,
    value_succ wide]
  constructor
  · intro half
    linarith
  · intro half
    linarith

/-- The place at or below a quotient of units, as the rounding finds it. -/
private theorem shifted_quotient (numerator denominator : Nat) :
    let shift := (numerator / denominator).log2 - format.fractionBits
    let quotient := numerator / (denominator * 2 ^ shift)
    format.Shifted (shift * 2 ^ format.fractionBits + quotient) shift quotient := by
  intro shift quotient
  have split : quotient = numerator / denominator / 2 ^ shift :=
    (Nat.div_div_eq_div_mul _ _ _).symm
  have positive := Nat.two_pow_pos shift
  constructor
  · rfl
  · rw [split, Nat.div_lt_iff_lt_mul positive, ← Nat.pow_add]
    exact Nat.lt_log2_self.trans_le (Nat.pow_le_pow_right two_pos (by omega))
  · by_cases none' : shift = 0
    · exact .inl none'
    · have some' : numerator / denominator ≠ 0 := by
        intro zero
        apply none'
        simp [shift, zero]
      apply Or.inr
      rw [split, Nat.le_div_iff_mul_le positive, ← Nat.pow_add]
      have size : format.fractionBits + shift = (numerator / denominator).log2 := by omega
      exact size ▸ Nat.log2_self_le some'

/-- Rounding at the spacing of the values around a quotient finds the closest of all of them. -/
theorem exists_closest (wide : format.Wide) (numerator : Nat) {denominator : Nat}
    (positive : 0 < denominator) :
    ∃ place, format.nearest numerator denominator = min place format.infinity ∧
      Closest format.value ((numerator : ℚ) / denominator / 2 ^ format.scale) place := by
  have shifted := format.shifted_quotient numerator denominator
  dsimp only at shifted
  refine ⟨_, rfl, ?_⟩
  simp only [Nat.pow_eq]
  generalize (numerator / denominator).log2 - format.fractionBits = shift at shifted
  have room : 0 < denominator * 2 ^ shift := Nat.mul_pos positive (Nat.two_pow_pos shift)
  have number : (numerator : ℚ) / denominator / 2 ^ format.scale =
      numerator / (denominator * 2 ^ shift : Nat) * 2 ^ ((shift : Int) - format.scale) := by
    rw [zpow_sub₀ two_ne_zero, zpow_natCast, zpow_natCast]
    push_cast
    field_simp
  rw [number]
  exact (closest_roundQuotient numerator room).of_multiples (strictMono_value wide)
    ((even_two_pow wide.fraction).mul_left _) (zpow_pos two_pos _) (shifted.value_eq wide)
    (shifted.value_succ wide) Nat.cast_div_le (div_le_add_one numerator room)
    (roundQuotient_eq_or numerator _)

theorem rounded_nearest (wide : format.Wide) (numerator : Nat) {denominator : Nat}
    (positive : 0 < denominator) :
    format.Rounded ((numerator : ℚ) / denominator / 2 ^ format.scale)
      (format.nearest numerator denominator) := by
  obtain ⟨place, same, closest⟩ := exists_closest wide numerator positive
  rw [same]
  by_cases large : format.infinity ≤ place
  · rw [Nat.min_eq_right large]
    exact .infinite ((infinity_le_iff wide closest).mp large)
  · have finite := Nat.lt_of_not_le large
    have small := lt_of_not_ge (mt (infinity_le_iff wide closest).mpr large)
    rw [Nat.min_eq_left finite.le]
    refine .finite small ⟨finite, fun other _ => closest.closest other, fun other _ different tie => ?_⟩
    exact (even_significand_iff wide).mpr (closest.even other different tie)

/-- Two values as close to a number lie next to one another, so that one of them is odd. -/
theorem IsNearest.unique (wide : format.Wide) {number : ℚ} {magnitude magnitude' : Nat}
    (nearest : format.IsNearest number magnitude) (nearest' : format.IsNearest number magnitude') :
    magnitude = magnitude' := by
  by_contra different
  wlog order : magnitude < magnitude' generalizing magnitude magnitude'
  · exact this nearest' nearest (Ne.symm different) (by omega)
  have rising := strictMono_value wide
  have apart := rising order
  have tie := le_antisymm (nearest.closest magnitude' nearest'.finite)
    (nearest'.closest magnitude nearest.finite)
  have middle : format.value magnitude ≤ number ∧ number ≤ format.value magnitude' := by
    rcases abs_eq_abs.mp tie with same | same
    · linarith
    · constructor
      · linarith
      · linarith
  have next : magnitude' = magnitude + 1 := by
    by_contra beyond
    have inside : magnitude + 1 < magnitude' := by omega
    have low := rising (Nat.lt_succ_self magnitude)
    have high := rising inside
    have close := nearest.closest (magnitude + 1) (inside.trans nearest'.finite)
    rw [tie, abs_of_nonneg (by linarith)] at close
    rw [abs_of_nonpos (by linarith), abs_of_nonneg (by linarith)] at tie
    rcases abs_cases (format.value (magnitude + 1) - number) with ⟨same, -⟩ | ⟨same, -⟩
    · linarith
    · linarith
  have even := nearest.even magnitude' nearest'.finite (Ne.symm different) tie.symm
  have even' := nearest'.even magnitude nearest.finite different tie
  rw [even_significand_iff wide] at even even'
  rw [next, Nat.even_add_one] at even'
  exact even' even

theorem Rounded.unique (wide : format.Wide) {number : ℚ} {magnitude magnitude' : Nat}
    (rounded : format.Rounded number magnitude) (rounded' : format.Rounded number magnitude') :
    magnitude = magnitude' := by
  cases rounded with
  | finite small nearest =>
    cases rounded' with
    | finite _ nearest' => exact nearest.unique wide nearest'
    | infinite large => exact absurd small large.not_gt
  | infinite large =>
    cases rounded' with
    | finite small => exact absurd small large.not_gt
    | infinite => rfl

theorem rounded_iff (wide : format.Wide) {decimal : Decimal} {magnitude : Nat} :
    format.Rounded decimal.value magnitude ↔ magnitude = format.ofDecimal decimal := by
  have rounded : format.Rounded decimal.value (format.ofDecimal decimal) := by
    have nonneg : 0 ≤ decimal.value * 2 ^ format.scale :=
      mul_nonneg (mul_nonneg (Nat.cast_nonneg _) (zpow_pos (by norm_num) _).le) (by positivity)
    generalize units : decimal.value * 2 ^ format.scale = exact' at nonneg
    have quotient : (exact'.num.toNat : ℚ) / exact'.den = exact' := by
      have whole : (exact'.num.toNat : ℚ) = exact'.num :=
        mod_cast Int.toNat_of_nonneg (Rat.num_nonneg.mpr nonneg)
      rw [whole, Rat.num_div_den]
    have nearest := rounded_nearest wide exact'.num.toNat exact'.den_pos
    rw [← format.ofDecimal_eq_nearest exact'.den_pos (quotient.trans units.symm), quotient,
      ← units, mul_div_cancel_right₀ _ (by positivity)] at nearest
    exact nearest
  constructor
  · intro rounded'
    exact rounded'.unique wide rounded
  · intro same
    exact same ▸ rounded

end Format
end WasmStream.Ieee
