import Mathlib.Algebra.Order.Field.Basic
import Mathlib.Algebra.Order.Ring.Rat
import Mathlib.Data.List.DropRight
import Mathlib.Tactic.FieldSimp
import Mathlib.Tactic.Positivity
import Mathlib.Tactic.Ring
import WasmStream.Decimal

/-! Numbers come back from their text. Integers come back as they were. A decimal comes
back with the same value, although its digits may be split differently between the
coefficient and the exponent. -/

namespace WasmStream

namespace Text

theorem takeWhile_append {p : Char → Bool} {run : List Char} (inside : ∀ char ∈ run, p char = true)
    (rest : List Char) (ended : ∀ char ∈ rest.head?, p char = false) :
    (run ++ rest).takeWhile p = run := by
  rw [List.takeWhile_append_of_pos inside]
  cases rest with
  | nil => simp
  | cons first rest => simp [ended first rfl]

theorem dropWhile_append {p : Char → Bool} {run : List Char} (inside : ∀ char ∈ run, p char = true)
    (rest : List Char) (ended : ∀ char ∈ rest.head?, p char = false) :
    (run ++ rest).dropWhile p = rest := by
  rw [List.dropWhile_append_of_pos inside]
  cases rest with
  | nil => rfl
  | cons first rest => simp [ended first rfl]

end Text

namespace Decimal

def value (decimal : Decimal) : ℚ := decimal.coefficient * 10 ^ decimal.exponent

def AllDigits (text : List Char) : Prop := ∀ char ∈ text, char.isDigit = true

theorem allDigits_digits (value : Nat) : AllDigits (digits value) :=
  fun _ member => Nat.isDigit_of_mem_toDigits (by omega) (by omega) member

theorem digits_ne_nil (value : Nat) : digits value ≠ [] := Nat.toDigits_ne_nil

theorem ofDigits_digits (value : Nat) : ofDigits (digits value) = value :=
  Nat.ofDigitChars_ten_toDigits

theorem ofDigits_append (high low : List Char) :
    ofDigits (high ++ low) = ofDigits high * 10 ^ low.length + ofDigits low := by
  rw [ofDigits, Nat.ofDigitChars_append, Nat.ofDigitChars_eq_ofDigitChars_zero, Nat.mul_comm]
  rfl

private theorem ofDigits_zeros (count : Nat) : ofDigits (List.replicate count '0') = 0 := by
  rw [ofDigits, Nat.ofDigitChars_replicate_zero, Nat.mul_zero]

theorem natural?_of_allDigits {text : List Char} (written : AllDigits text) (some' : text ≠ []) :
    natural? text = some (ofDigits text) := by
  have all : text.all Char.isDigit = true := List.all_eq_true.mpr written
  simp [natural?, all, some']

theorem natural?_digits (value : Nat) : natural? (digits value) = some value := by
  rw [natural?_of_allDigits (allDigits_digits value) (digits_ne_nil value), ofDigits_digits]

theorem splitSign_minus (text : List Char) : splitSign ('-' :: text) = (true, text) := rfl

theorem splitSign_of_isDigit {first : Char} (digit : first.isDigit = true) (rest : List Char) :
    splitSign (first :: rest) = (false, first :: rest) := by
  unfold splitSign
  split
  next same =>
    cases same
    cases digit
  next same =>
    cases same
    cases digit
  · rfl

private theorem splitSign_digits (value : Nat) :
    splitSign (digits value) = (false, digits value) := by
  obtain ⟨first, rest, same⟩ := List.exists_cons_of_ne_nil (digits_ne_nil value)
  have digit : first.isDigit = true :=
    allDigits_digits value first (same ▸ List.mem_cons_self)
  rw [same, splitSign_of_isDigit digit]

theorem integer?_integer (value : Int) : integer? (integer value) = some value := by
  cases value with
  | ofNat value => simp [integer?, integer, splitSign_digits, natural?_digits]
  | negSucc value =>
    simp [integer?, integer, splitSign_minus, natural?_digits, Int.negSucc_eq]

private theorem coefficient_lt (coefficient : Nat) : coefficient < 10 ^ digitCount coefficient :=
  (Nat.length_toDigits_le_iff (by omega) Nat.length_toDigits_pos).mp (Nat.le_refl _)

private theorem le_coefficient {coefficient : Nat} (some' : coefficient ≠ 0) :
    10 ^ (digitCount coefficient - 1) ≤ coefficient := by
  by_contra fewer
  rw [Nat.not_le] at fewer
  rcases Nat.eq_zero_or_pos (digitCount coefficient - 1) with single | more
  · rw [single] at fewer
    omega
  · have short : digitCount coefficient ≤ digitCount coefficient - 1 :=
      (Nat.length_toDigits_le_iff (by omega) more).mpr fewer
    omega

/-- The digits tell the size of the number up to a factor of ten. -/
theorem value_lt (decimal : Decimal) :
    decimal.value < 10 ^ (decimal.exponent + digitCount decimal.coefficient) := by
  have bound : (decimal.coefficient : ℚ) < 10 ^ digitCount decimal.coefficient := by
    exact_mod_cast coefficient_lt decimal.coefficient
  rw [zpow_add₀ (by norm_num), zpow_natCast, mul_comm]
  exact mul_lt_mul_of_pos_right bound (zpow_pos (by norm_num) _)

theorem le_value {decimal : Decimal} (some' : decimal.coefficient ≠ 0) :
    (10 : ℚ) ^ (decimal.exponent + digitCount decimal.coefficient - 1) ≤ decimal.value := by
  have positive : 0 < digitCount decimal.coefficient := Nat.length_toDigits_pos
  have bound : (10 : ℚ) ^ (digitCount decimal.coefficient - 1) ≤ decimal.coefficient := by
    exact_mod_cast le_coefficient some'
  have exponent : decimal.exponent + digitCount decimal.coefficient - 1 =
      decimal.exponent + ((digitCount decimal.coefficient - 1 : Nat) : Int) := by omega
  rw [exponent, zpow_add₀ (by norm_num), zpow_natCast, mul_comm]
  exact mul_le_mul_of_nonneg_right bound (zpow_pos (by norm_num) _).le

inductive Positional : List Char → Decimal → Prop where
  | whole {whole} (written : AllDigits whole) (some' : whole ≠ []) :
      Positional whole ⟨ofDigits whole, 0⟩
  | point {whole fraction} (written : AllDigits whole) (some' : whole ≠ [])
      (written' : AllDigits fraction) :
      Positional (whole ++ '.' :: fraction) ⟨ofDigits (whole ++ fraction), -fraction.length⟩

theorem Positional.ofText? {text : List Char} {decimal : Decimal}
    (positional : Positional text decimal) : ofText? text = some decimal := by
  cases positional with
  | whole written some' =>
    have taken := Text.takeWhile_append written [] (by simp)
    have dropped := Text.dropWhile_append written [] (by simp)
    rw [List.append_nil] at taken dropped
    simp [Decimal.ofText?, taken, dropped, some', exponent?]
  | @point whole fraction written some' written' =>
    have taken := Text.takeWhile_append written ('.' :: fraction) (by simp)
    have dropped := Text.dropWhile_append written ('.' :: fraction) (by simp)
    have taken' := Text.takeWhile_append written' [] (by simp)
    have dropped' := Text.dropWhile_append written' [] (by simp)
    rw [List.append_nil] at taken' dropped'
    simp [Decimal.ofText?, taken, dropped, taken', dropped', some', exponent?]

private theorem dropTrailingZeros_append (fraction : List Char) :
    ∃ count, fraction = dropTrailingZeros fraction ++ List.replicate count '0' := by
  have zeros : fraction.rtakeWhile (· == '0') =
      List.replicate (fraction.rtakeWhile (· == '0')).length '0' := by
    apply List.eq_replicate_of_mem
    intro char member
    simpa using List.mem_rtakeWhile_imp member
  exact ⟨_, zeros ▸ List.rdropWhile_append_rtakeWhile.symm⟩

private theorem value_mul_pow (coefficient places zeros : Nat) :
    value ⟨coefficient * 10 ^ zeros, -((places + zeros : Nat) : Int)⟩ =
      value ⟨coefficient, -(places : Int)⟩ := by
  simp only [value]
  push_cast
  rw [neg_add, zpow_add₀ (by norm_num), zpow_neg (10 : ℚ) zeros, zpow_natCast]
  field_simp

private theorem positional_withPoint (coefficient places : Nat) :
    ∃ decimal, Positional (withPoint coefficient places) decimal ∧
      decimal.value = value ⟨coefficient, -(places : Int)⟩ := by
  unfold withPoint
  dsimp only
  generalize padding : List.replicate (places + 1 - (digits coefficient).length) '0' = zeros
  have written : AllDigits (zeros ++ digits coefficient) := by
    intro char member
    rcases List.mem_append.mp member with zero | digit
    · rw [← padding] at zero
      rw [List.eq_of_mem_replicate zero]
      rfl
    · exact allDigits_digits coefficient char digit
  have number : ofDigits (zeros ++ digits coefficient) = coefficient := by
    rw [ofDigits_append, ← padding, ofDigits_zeros, ofDigits_digits]
    simp
  have long : places < (zeros ++ digits coefficient).length := by
    rw [← padding, List.length_append, List.length_replicate]
    omega
  generalize zeros ++ digits coefficient = padded at written number long
  generalize whole' : padded.take (padded.length - places) = whole
  obtain ⟨count, trimmed⟩ := dropTrailingZeros_append (padded.drop (padded.length - places))
  generalize dropTrailingZeros (padded.drop (padded.length - places)) = fraction at trimmed
  have split : padded = whole ++ (fraction ++ List.replicate count '0') := by
    rw [← whole', ← trimmed, List.take_append_drop]
  have size : places = fraction.length + count := by
    have length := congrArg List.length trimmed
    rw [List.length_drop, List.length_append, List.length_replicate] at length
    omega
  have some' : whole ≠ [] := by
    rw [← whole', ← List.length_pos_iff, List.length_take]
    omega
  have same : value ⟨coefficient, -(places : Int)⟩ =
      value ⟨ofDigits (whole ++ fraction), -(fraction.length : Int)⟩ := by
    rw [← number, split, size, ← List.append_assoc, ofDigits_append, ofDigits_zeros,
      List.length_replicate, Nat.add_zero, value_mul_pow]
  have wholeDigits : AllDigits whole := fun char member => written char (by simp [split, member])
  have fractionDigits : AllDigits fraction := fun char member =>
    written char (by simp [split, member])
  rw [same]
  cases fraction with
  | nil => exact ⟨_, .whole wholeDigits some', by simp⟩
  | cons => exact ⟨_, .point wholeDigits some' fractionDigits, rfl⟩

theorem exists_positional (decimal : Decimal) :
    ∃ read, Positional decimal.text read ∧ read.value = decimal.value := by
  obtain ⟨coefficient, exponent⟩ := decimal
  cases exponent with
  | ofNat zeros =>
    refine ⟨⟨ofDigits (digits (coefficient * 10 ^ zeros)), 0⟩,
      .whole (allDigits_digits _) (digits_ne_nil _), ?_⟩
    simp [value, ofDigits_digits]
  | negSucc places => exact positional_withPoint coefficient (places + 1)

theorem Positional.exists_first {text : List Char} {decimal : Decimal}
    (positional : Positional text decimal) :
    ∃ first rest, text = first :: rest ∧ first.isDigit = true := by
  cases positional with
  | whole written some' =>
    obtain ⟨first, rest, same⟩ := List.exists_cons_of_ne_nil some'
    exact ⟨first, rest, same, written first (same ▸ List.mem_cons_self)⟩
  | @point whole fraction written some' =>
    obtain ⟨first, rest, same⟩ := List.exists_cons_of_ne_nil some'
    exact ⟨first, rest ++ '.' :: fraction, by simp [same],
      written first (same ▸ List.mem_cons_self)⟩

theorem Positional.mem {text : List Char} {decimal : Decimal} {char : Char}
    (positional : Positional text decimal) (member : char ∈ text) :
    char.isDigit = true ∨ char = '.' := by
  cases positional with
  | whole written => exact .inl (written char member)
  | point written some' written' =>
    rcases List.mem_append.mp member with before | after
    · exact .inl (written char before)
    · rcases List.mem_cons.mp after with point | after
      · exact .inr point
      · exact .inl (written' char after)

end Decimal
end WasmStream
