import WasmStream.Ieee.Text
import WasmStream.Proofs.Rounding

/-! Floating-point numbers come back from their text with every bit, except that all patterns
that are no number come back as one. -/

namespace WasmStream.Ieee.Format

variable (format : Format)

/-- The pattern itself if it is a number, and otherwise the one that stands for none. -/
def quiet (bits : Nat) : Nat :=
  if format.infinity < bits % format.signBit then format.quietNaN else bits

private theorem readsBack_exact {magnitude : Nat} (finite : magnitude < format.infinity) :
    format.ReadsBack magnitude (format.exactCoefficient magnitude) := by
  have positive : 0 < 5 ^ format.scale := Nat.pow_pos (by omega)
  have units := format.nearest_mul_right (format.units magnitude) 1 positive
  rw [Nat.one_mul] at units
  exact units.trans (format.nearest_units finite)

private theorem readsBack_neighbour {magnitude step coefficient : Nat}
    (found : format.neighbour? magnitude step = some coefficient) :
    format.ReadsBack magnitude (coefficient * step) := by
  simp only [neighbour?] at found
  split at found
  next fits =>
    cases found
    exact fits.1
  next =>
    split at found
    next fits =>
      cases found
      exact fits
    next => cases found

private theorem readsBack_shortestFrom {magnitude : Nat} (finite : magnitude < format.infinity)
    (dropped : Nat) : ∃ coefficient places : Nat,
      format.shortestFrom magnitude dropped = ⟨coefficient, (places : Int) - format.scale⟩ ∧
      format.ReadsBack magnitude (coefficient * 10 ^ places) := by
  induction dropped with
  | zero =>
    refine ⟨format.exactCoefficient magnitude, 0, by simp [shortestFrom], ?_⟩
    rw [Nat.pow_zero, Nat.mul_one]
    exact format.readsBack_exact finite
  | succ dropped ih =>
    rw [shortestFrom]
    split
    next coefficient found => exact ⟨coefficient, dropped + 1, rfl, format.readsBack_neighbour found⟩
    next => exact ih

/-- Any decimal of the value that is written is rounded to the magnitude it was written for. -/
theorem ofDecimal_shortest {magnitude : Nat} (finite : magnitude < format.infinity)
    {decimal : Decimal} (same : decimal.value = (format.shortest magnitude).value) :
    format.ofDecimal decimal = magnitude := by
  obtain ⟨coefficient, places, written, reads⟩ := format.readsBack_shortestFrom finite
    (Decimal.digitCount (format.exactCoefficient magnitude) - 1)
  have value : decimal.value = coefficient * 10 ^ ((places : Int) - format.scale) := by
    rw [same, shortest, written]
    rfl
  refine (format.ofDecimal_eq_nearest (Nat.pow_pos (by omega)) ?_).trans reads
  rw [value, zpow_sub₀ (by norm_num), zpow_natCast, zpow_natCast]
  have powers : (10 : ℚ) ^ format.scale = 2 ^ format.scale * 5 ^ format.scale := by
    rw [← mul_pow]
    norm_num
  rw [powers]
  push_cast [Nat.pow_eq]
  field_simp

private theorem toLower_of_isDigit {char : Char} (digit : char.isDigit = true) :
    char.toLower = char := by
  simp only [Char.isDigit, Bool.and_eq_true, decide_eq_true_eq] at digit
  unfold Char.toLower
  split
  next letter => exact absurd (UInt32.le_trans letter.1 digit.2) (by decide)
  · rfl

theorem ofName?_eq_none {text : List Char} {digit : Char} (member : digit ∈ text)
    (isDigit : digit.isDigit = true) :
    format.ofName? (String.ofList (text.map Char.toLower)) = none := by
  have kept : digit ∈ (String.ofList (text.map Char.toLower)).toList := by
    rw [String.toList_ofList, List.mem_map]
    exact ⟨digit, member, toLower_of_isDigit isDigit⟩
  have other : ∀ name ∈ ["nan", "inf", "infinity", "-inf", "-infinity"],
      String.ofList (text.map Char.toLower) ≠ name := by
    intro name listed same
    have letters : ∀ name ∈ ["nan", "inf", "infinity", "-inf", "-infinity"],
        name.toList.any Char.isDigit = false := by decide
    have none' := List.any_eq_false.mp (letters name listed) digit (same ▸ kept)
    exact none' isDigit
  simp only [List.mem_cons, List.not_mem_nil, or_false, forall_eq_or_imp, forall_eq] at other
  simp [ofName?, other]

private theorem ofText?_positional {text : List Char} {decimal : Decimal}
    (positional : Decimal.Positional text decimal) (negative : Bool) :
    format.ofText? (if negative then '-' :: text else text) =
      some (format.withSign negative (format.ofDecimal decimal)) := by
  obtain ⟨first, rest, same, digit⟩ := positional.exists_first
  have split : Decimal.splitSign (if negative then '-' :: text else text) = (negative, text) := by
    cases negative with
    | true => rfl
    | false => rw [same]; exact Decimal.splitSign_of_isDigit digit rest
  have member : first ∈ (if negative then '-' :: text else text) := by
    cases negative <;> simp [same]
  have signed : format.ofSigned? (if negative then '-' :: text else text) =
      some (format.withSign negative (format.ofDecimal decimal)) := by
    simp only [ofSigned?, split, positional.ofText?, Option.map_some]
  rw [ofText?, format.ofName?_eq_none member digit, signed]
  rfl

private theorem ofText?_magnitudeText {magnitude : Nat} (number : magnitude ≤ format.infinity)
    (negative : Bool) :
    format.ofText? (if negative then '-' :: format.magnitudeText magnitude
      else format.magnitudeText magnitude) = some (format.withSign negative magnitude) := by
  unfold magnitudeText
  by_cases infinite : magnitude = format.infinity
  · subst infinite
    rw [if_pos rfl]
    cases negative <;> rfl
  · obtain ⟨decimal, positional, value⟩ := Decimal.exists_positional (format.shortest magnitude)
    have finite := Nat.lt_of_le_of_ne number infinite
    rw [if_neg infinite, format.ofText?_positional positional,
      format.ofDecimal_shortest finite value]

/-- Reading what was written gives the same pattern, or the one for no number. -/
theorem ofText?_text {bits : Nat} (fits : bits < 2 * format.signBit) :
    format.ofText? (format.text bits) = some (format.quiet bits) := by
  simp only [text, quiet]
  by_cases number : format.infinity < bits % format.signBit
  · rw [if_pos number, if_pos number]
    rfl
  · rw [if_neg number, if_neg number]
    have sign := format.ofText?_magnitudeText (Nat.le_of_not_lt number)
      (decide (format.signBit ≤ bits))
    by_cases negative : format.signBit ≤ bits
    · have magnitude : bits % format.signBit = bits - format.signBit := by
        rw [Nat.mod_eq_sub_mod negative, Nat.mod_eq_of_lt (by omega)]
      simp only [negative, decide_true, if_true, withSign] at sign ⊢
      rw [sign, magnitude, Nat.add_sub_cancel' negative]
    · have magnitude : bits % format.signBit = bits := Nat.mod_eq_of_lt (Nat.lt_of_not_le negative)
      simpa [negative, withSign, magnitude] using sign

private theorem infinity_lt_signBit : format.infinity < format.signBit := by
  have positive := Nat.two_pow_pos format.fractionBits
  have positive' := Nat.two_pow_pos format.exponentBits
  simp only [infinity, signBit, Nat.pow_eq, Nat.pow_add]
  rw [Nat.mul_comm (2 ^ format.fractionBits)]
  exact Nat.mul_lt_mul_of_pos_right (by omega) positive

private theorem quietNaN_le_signBit : format.quietNaN ≤ format.signBit := by
  have positive := Nat.two_pow_pos format.exponentBits
  have half : 2 ^ (format.fractionBits - 1) ≤ 2 ^ format.fractionBits :=
    Nat.pow_le_pow_right (by omega) (by omega)
  have next : format.signBit = format.infinity + 2 ^ format.fractionBits := by
    simp only [infinity, signBit, Nat.pow_eq, Nat.pow_add]
    rw [← Nat.succ_mul, Nat.mul_comm, Nat.succ_eq_add_one, Nat.sub_add_cancel positive]
  rw [next]
  exact Nat.add_le_add_left half _

private theorem ofDecimal_le_infinity (decimal : Decimal) :
    format.ofDecimal decimal ≤ format.infinity := by
  unfold ofDecimal
  dsimp only
  split
  · exact Nat.zero_le _
  · split
    · exact Nat.le_refl _
    · split <;> exact format.nearest_le_infinity _ _

private theorem quiet_withSign {magnitude : Nat} (number : magnitude ≤ format.infinity)
    (negative : Bool) : format.withSign negative magnitude < 2 * format.signBit ∧
      format.quiet (format.withSign negative magnitude) = format.withSign negative magnitude := by
  have below := Nat.lt_of_le_of_lt number format.infinity_lt_signBit
  have same : format.withSign negative magnitude % format.signBit = magnitude := by
    cases negative <;> simp [withSign, Nat.mod_eq_of_lt below]
  refine ⟨?_, ?_⟩
  · cases negative <;> simp only [withSign, Bool.false_eq_true, if_false, if_true] <;> omega
  · rw [quiet, same, if_neg (Nat.not_lt.mpr number)]

/-- What is read is a pattern of the format, and among those for no number it is the one. -/
theorem quiet_of_ofText? {text : List Char} {bits : Nat} (read : format.ofText? text = some bits) :
    bits < 2 * format.signBit ∧ format.quiet bits = bits := by
  rw [ofText?, Option.orElse_eq_some] at read
  rcases read with named | ⟨_, signed⟩
  · unfold ofName? at named
    split at named
    · cases named
      have bound := format.quietNaN_le_signBit
      have positive := Nat.two_pow_pos (format.fractionBits + format.exponentBits)
      refine ⟨?_, ?_⟩
      · simp only [signBit, Nat.pow_eq] at bound ⊢
        omega
      · unfold quiet
        split <;> rfl
    · split at named
      · cases named
        exact format.quiet_withSign (Nat.le_refl _) false
      · split at named
        · cases named
          exact format.quiet_withSign (Nat.le_refl _) true
        · cases named
  · unfold ofSigned? at signed
    obtain ⟨decimal, _, same⟩ := Option.map_eq_some_iff.mp signed
    exact same ▸ format.quiet_withSign (format.ofDecimal_le_infinity decimal) _

end WasmStream.Ieee.Format
