import WasmStream.Proofs.NearestValue
import WasmStream.Proofs.OperandGrammar

/-! What a floating-point constant may be spelled as: a name in any letter case, or a number with an
optional sign, point and exponent. A number is read as its exact value first and rounded to the
format of the constant once; the sign stays beside it, so that zero keeps its own. -/

namespace WasmStream

namespace Decimal

/-- Digits with an optional point and fraction, or a point and digits, and the number they spell. No
digit need follow the point if some stand in front. -/
inductive Mantissa : List Char → ℚ → Prop where
  | whole {whole value} (natural : IsNatural whole value) : Mantissa whole value
  | point {whole fraction value} (natural : IsNatural whole value) (digits : AllDigits fraction) :
      Mantissa (whole ++ '.' :: fraction) (value + positional fraction / 10 ^ fraction.length)
  | fraction {fraction value} (natural : IsNatural fraction value) :
      Mantissa ('.' :: fraction) (value / 10 ^ fraction.length)

inductive Exponent : List Char → Int → Prop where
  | none : Exponent [] 0
  | some {mark text value} (marked : mark = 'e' ∨ mark = 'E') (integer : IsInteger text value) :
      Exponent (mark :: text) value

inductive Unsigned : List Char → ℚ → Prop where
  | scaled {mantissa tail number exponent} (spelled : Mantissa mantissa number)
      (power : Exponent tail exponent) : Unsigned (mantissa ++ tail) (number * 10 ^ exponent)

def Written (text : List Char) (negative : Bool) (number : ℚ) : Prop :=
  ∃ written, Sign text negative written ∧ Unsigned written number

theorem exponent?_eq_some_iff {text : List Char} {value : Int} :
    exponent? text = some value ↔ Exponent text value := by
  constructor
  · intro read
    unfold exponent? at read
    split at read
    next =>
      cases read
      exact .none
    next =>
      split at read
      next marked => exact .some marked (integer?_eq_some_iff.mp read)
      next => cases read
  · intro power
    cases power with
    | none => rfl
    | some marked integer => rw [exponent?, if_pos marked, integer?_eq_some_iff.mpr integer]

/-- An exponent cannot be mistaken for more digits or for a point. -/
theorem Exponent.head {text : List Char} {value : Int} (power : Exponent text value) :
    ∀ char ∈ text.head?, char.isDigit = false ∧ char ≠ '.' := by
  intro char first
  cases power with
  | none => cases first
  | some marked =>
    cases first
    rcases marked with same | same
    all_goals
      subst same
      exact ⟨rfl, by simp⟩

theorem positional_nil : positional [] = 0 := rfl

theorem value_digits (whole fraction : List Char) (exponent : Int) :
    value ⟨ofDigits (whole ++ fraction), exponent - fraction.length⟩ =
      (positional whole + positional fraction / 10 ^ fraction.length) * 10 ^ exponent := by
  rw [value, ofDigits_append, ofDigits_eq_positional, ofDigits_eq_positional,
    zpow_sub₀ (by norm_num), zpow_natCast]
  push_cast
  field_simp

theorem value_whole (whole : List Char) (exponent : Int) :
    value ⟨ofDigits whole, exponent⟩ = positional whole * 10 ^ exponent := by
  rw [value, ofDigits_eq_positional]

private theorem exists_digits (text : List Char) : ∃ run rest, text = run ++ rest ∧ AllDigits run ∧
    text.takeWhile Char.isDigit = run ∧ text.dropWhile Char.isDigit = rest :=
  ⟨_, _, List.takeWhile_append_dropWhile.symm, fun _ member => List.mem_takeWhile_imp member, rfl,
    rfl⟩

private theorem unsigned_of_ofText? {text : List Char} {decimal : Decimal}
    (read : ofText? text = some decimal) : Unsigned text decimal.value := by
  obtain ⟨whole, rest, split, digits, taken, dropped⟩ := exists_digits text
  unfold ofText? at read
  rw [taken, dropped] at read
  rw [split]
  dsimp only at read
  split at read
  next behind =>
    obtain ⟨fraction, tail, split', digits', taken', dropped'⟩ := exists_digits behind
    rw [taken', dropped'] at read
    split at read
    next => cases read
    next some' =>
      obtain ⟨exponent, power, same⟩ := Option.map_eq_some_iff.mp read
      rw [← same, value_digits, split']
      by_cases none' : whole = []
      · have natural : IsNatural fraction (positional fraction) :=
          ⟨digits', by simpa [none'] using some', rfl⟩
        rw [none', positional_nil, Nat.cast_zero, zero_add]
        exact @Unsigned.scaled ('.' :: fraction) _ _ _ (.fraction natural)
          (exponent?_eq_some_iff.mp power)
      · have natural : IsNatural whole (positional whole) := ⟨digits, none', rfl⟩
        rw [← List.cons_append, ← List.append_assoc]
        exact .scaled (.point natural digits') (exponent?_eq_some_iff.mp power)
  next =>
    split at read
    next => cases read
    next some' =>
      obtain ⟨exponent, power, same⟩ := Option.map_eq_some_iff.mp read
      have natural : IsNatural whole (positional whole) := ⟨digits, by simpa using some', rfl⟩
      rw [← same, value_whole]
      exact .scaled (.whole natural) (exponent?_eq_some_iff.mp power)

private theorem ofText?_whole {whole tail : List Char} {exponent : Int} (digits : AllDigits whole)
    (some' : whole ≠ []) (power : Exponent tail exponent) :
    ofText? (whole ++ tail) = some ⟨ofDigits whole, exponent⟩ := by
  have ended := fun char first => (power.head char first).1
  have taken := Text.takeWhile_append digits tail ended
  have dropped := Text.dropWhile_append digits tail ended
  have read := exponent?_eq_some_iff.mpr power
  unfold ofText?
  rw [taken, dropped]
  dsimp only
  split
  next => exact absurd rfl (power.head _ rfl).2
  next => simp [some', read]

private theorem ofText?_point {whole fraction tail : List Char} {exponent : Int}
    (digits : AllDigits whole) (digits' : AllDigits fraction) (some' : whole ≠ [] ∨ fraction ≠ [])
    (power : Exponent tail exponent) :
    ofText? (whole ++ '.' :: (fraction ++ tail)) =
      some ⟨ofDigits (whole ++ fraction), exponent - fraction.length⟩ := by
  have ended := fun char first => (power.head char first).1
  have taken := Text.takeWhile_append digits ('.' :: (fraction ++ tail)) (by simp)
  have dropped := Text.dropWhile_append digits ('.' :: (fraction ++ tail)) (by simp)
  have taken' := Text.takeWhile_append digits' tail ended
  have dropped' := Text.dropWhile_append digits' tail ended
  have read := exponent?_eq_some_iff.mpr power
  have number : (whole.isEmpty && fraction.isEmpty) = false := by
    rcases some' with some' | some'
    · simp [some']
    · simp [some']
  unfold ofText?
  rw [taken, dropped]
  simp only [taken', dropped', number, read]
  rfl

theorem unsigned_iff {text : List Char} {number : ℚ} :
    Unsigned text number ↔ ∃ decimal, ofText? text = some decimal ∧ decimal.value = number := by
  constructor
  · intro ⟨mantissa, power⟩
    cases mantissa with
    | whole natural =>
      refine ⟨_, ofText?_whole natural.digits natural.nonempty power, ?_⟩
      rw [value_whole, natural.value]
    | point natural digits =>
      have read := ofText?_point natural.digits digits (.inl natural.nonempty) power
      rw [← List.cons_append, ← List.append_assoc] at read
      refine ⟨_, read, ?_⟩
      rw [value_digits, natural.value]
    | fraction natural =>
      have nothing : AllDigits [] := by simp [AllDigits]
      refine ⟨_, ofText?_point nothing natural.digits (.inr natural.nonempty) power, ?_⟩
      rw [value_digits, natural.value, positional_nil, Nat.cast_zero, zero_add]
  · intro ⟨decimal, read, same⟩
    exact same ▸ unsigned_of_ofText? read

private theorem IsNatural.exists_first {text : List Char} {value : Nat}
    (natural : IsNatural text value) :
    ∃ first rest, text = first :: rest ∧ first.isDigit = true := by
  obtain ⟨first, rest, same⟩ := List.exists_cons_of_ne_nil natural.nonempty
  exact ⟨first, rest, same, natural.digits first (same ▸ List.mem_cons_self)⟩

/-- A number has a digit, and begins with it or with a point. -/
theorem Unsigned.exists_digit {text : List Char} {number : ℚ} (spelled : Unsigned text number) :
    (∃ digit ∈ text, digit.isDigit = true) ∧
      ∃ first rest, text = first :: rest ∧ (first.isDigit = true ∨ first = '.') := by
  obtain ⟨mantissa, -⟩ := spelled
  cases mantissa with
  | whole natural | point natural | fraction natural =>
    obtain ⟨first, rest, same, digit⟩ := natural.exists_first
    simp [same, digit]

private theorem Unsigned.unsigned {text : List Char} {number : ℚ} (spelled : Unsigned text number) :
    ∀ char ∈ text.head?, char ≠ '+' ∧ char ≠ '-' := by
  obtain ⟨-, first, rest, same, start⟩ := spelled.exists_digit
  intro char head
  rw [same] at head
  cases head
  rcases start with digit | point
  · exact unsigned_of_isDigit digit
  · subst point
    simp

private theorem Written.exists_digit {text : List Char} {negative : Bool} {number : ℚ}
    (written : Written text negative number) : ∃ digit ∈ text, digit.isDigit = true := by
  obtain ⟨_, sign, spelled⟩ := written
  obtain ⟨⟨digit, member, isDigit⟩, -⟩ := spelled.exists_digit
  refine ⟨digit, ?_, isDigit⟩
  cases sign with
  | none => exact member
  | plus | minus => exact List.mem_cons_of_mem _ member

end Decimal

namespace Ieee.Format

def IsName (text : List Char) (name : String) : Prop := text.map Char.toLower = name.toList

variable (format : Format)

/-- The bits that a name stands for. Only infinity has a name with a sign. -/
inductive Named (text : List Char) : Nat → Prop where
  | nan (name : IsName text "nan") : Named text format.quietNaN
  | infinity (name : IsName text "inf" ∨ IsName text "infinity") : Named text format.infinity
  | negativeInfinity (name : IsName text "-inf" ∨ IsName text "-infinity") :
      Named text (format.withSign true format.infinity)

inductive Spelled (text : List Char) : Nat → Prop where
  | name {bits} (named : format.Named text bits) : Spelled text bits
  | number {negative number magnitude} (written : Decimal.Written text negative number)
      (rounded : format.Rounded number magnitude) : Spelled text (format.withSign negative magnitude)

variable {format}

private theorem isName_iff {text : List Char} {name : String} :
    String.ofList (text.map Char.toLower) = name ↔ IsName text name := by
  unfold IsName
  constructor
  · intro same
    rw [← same, String.toList_ofList]
  · intro same
    rw [same, String.ofList_toList]

theorem ofName?_eq_some_iff {text : List Char} {bits : Nat} :
    format.ofName? (String.ofList (text.map Char.toLower)) = some bits ↔ format.Named text bits := by
  constructor
  · intro read
    unfold ofName? at read
    split at read
    next name =>
      cases read
      exact .nan (isName_iff.mp name)
    next =>
      split at read
      next name =>
        cases read
        exact .infinity (name.imp isName_iff.mp isName_iff.mp)
      next =>
        split at read
        next name =>
          cases read
          exact .negativeInfinity (name.imp isName_iff.mp isName_iff.mp)
        next => cases read
  · intro named
    cases named with
    | nan name => simp [ofName?, isName_iff.mpr name]
    | infinity name | negativeInfinity name =>
      rcases name with name | name
      · simp [ofName?, isName_iff.mpr name]
      · simp [ofName?, isName_iff.mpr name]

private theorem ofSigned?_eq_some_iff (wide : format.Wide) {text : List Char} {bits : Nat} :
    format.ofSigned? text = some bits ↔ ∃ negative number magnitude,
      Decimal.Written text negative number ∧ format.Rounded number magnitude ∧
        bits = format.withSign negative magnitude := by
  constructor
  · intro read
    have sign := Decimal.sign_splitSign text
    unfold ofSigned? at read
    generalize Decimal.splitSign text = split at sign read
    obtain ⟨negative, written⟩ := split
    obtain ⟨decimal, read, same⟩ := Option.map_eq_some_iff.mp read
    exact ⟨negative, decimal.value, format.ofDecimal decimal,
      ⟨written, sign, Decimal.unsigned_iff.mpr ⟨decimal, read, rfl⟩⟩, (rounded_iff wide).mpr rfl,
      same.symm⟩
  · intro ⟨negative, number, magnitude, ⟨written, sign, spelled⟩, rounded, same⟩
    obtain ⟨decimal, read, value⟩ := Decimal.unsigned_iff.mp spelled
    rw [← value, rounded_iff wide] at rounded
    rw [ofSigned?, sign.splitSign_eq spelled.unsigned]
    simp [read, same, rounded]

theorem ofText?_eq_some_iff (wide : format.Wide) {text : List Char} {bits : Nat} :
    format.ofText? text = some bits ↔ format.Spelled text bits := by
  rw [ofText?, Option.orElse_eq_some, ofName?_eq_some_iff]
  constructor
  · intro read
    rcases read with named | ⟨_, read⟩
    · exact .name named
    · obtain ⟨_, _, _, written, rounded, same⟩ := (ofSigned?_eq_some_iff wide).mp read
      exact same ▸ .number written rounded
  · intro spelled
    cases spelled with
    | name named => exact .inl named
    | number written rounded =>
      obtain ⟨digit, member, isDigit⟩ := written.exists_digit
      refine .inr ⟨format.ofName?_eq_none member isDigit, ?_⟩
      exact (ofSigned?_eq_some_iff wide).mpr ⟨_, _, _, written, rounded, rfl⟩

theorem exists_spelled_iff (wide : format.Wide) {text : List Char} :
    (∃ bits, format.Spelled text bits) ↔
      (∃ name ∈ ["nan", "inf", "infinity", "-inf", "-infinity"], IsName text name) ∨
      ∃ negative number, Decimal.Written text negative number := by
  simp only [List.mem_cons, List.not_mem_nil, or_false, exists_eq_or_imp, exists_eq_left]
  constructor
  · intro ⟨bits, spelled⟩
    cases spelled with
    | name named =>
      apply Or.inl
      cases named with
      | nan name => exact .inl name
      | infinity name => exact .inr (name.imp_right .inl)
      | negativeInfinity name => exact .inr (.inr (.inr name))
    | number written => exact .inr ⟨_, _, written⟩
  · intro either
    rcases either with (name | name | name | name | name) | ⟨negative, number, written⟩
    · exact ⟨_, .name (.nan name)⟩
    · exact ⟨_, .name (.infinity (.inl name))⟩
    · exact ⟨_, .name (.infinity (.inr name))⟩
    · exact ⟨_, .name (.negativeInfinity (.inl name))⟩
    · exact ⟨_, .name (.negativeInfinity (.inr name))⟩
    · have ⟨_, _, spelled⟩ := written
      obtain ⟨decimal, _, value⟩ := Decimal.unsigned_iff.mp spelled
      exact ⟨_, .number written (value ▸ (rounded_iff wide).mpr rfl)⟩

end Ieee.Format

namespace Assembly
open Ieee

inductive IsConstant : Opcode → Format → Nat → Prop where
  | single : IsConstant .f32Const binary32 4
  | double : IsConstant .f64Const binary64 8

private theorem IsConstant.wide {opcode : Opcode} {format : Format} {size : Nat}
    (constant : IsConstant opcode format size) : format.Wide := by
  cases constant with
  | single => exact Format.wide_binary32
  | double => exact Format.wide_binary64

private theorem IsConstant.operands? {opcode : Opcode} {format : Format} {size : Nat}
    (constant : IsConstant opcode format size) (word : String) :
    (operands? opcode [word]).map opcode.encode =
      (format.ofText? word.toList).map (opcode.code :: LittleEndian.encode size ·) := by
  cases constant with
  | single =>
    simp only [Assembly.operands?, Opcode.immediateKind, Immediate.ofWords?, Immediate.f32?]
    cases read : binary32.ofText? word.toList with
    | none => rfl
    | some bits =>
      have fits : bits < UInt32.size := (binary32.quiet_of_ofText? read).1
      simp [Opcode.encode, Immediate.encode, Nat.mod_eq_of_lt fits]
  | double =>
    simp only [Assembly.operands?, Opcode.immediateKind, Immediate.ofWords?, Immediate.f64?]
    cases read : binary64.ofText? word.toList with
    | none => rfl
    | some bits =>
      have fits : bits < UInt64.size := (binary64.quiet_of_ofText? read).1
      simp [Opcode.encode, Immediate.encode, Nat.mod_eq_of_lt fits]

/-- A floating-point constant is accepted exactly when its word is a name or a number. The bytes are
those of the bits that it spells, which for a number are its exact value rounded once. -/
theorem accepted_iff_rounded {opcode : Opcode} {format : Format} {size : Nat}
    (constant : IsConstant opcode format size) {text : String} {line : List Char} {word : String}
    (single : Text.lines text.toList = [line])
    (read : Line.ofText? line = some (.instruction opcode.mnemonic [word])) :
    ((∃ bytes, assemble text = .ok bytes) ↔
      (∃ name ∈ ["nan", "inf", "infinity", "-inf", "-infinity"], Format.IsName word.toList name) ∨
      ∃ negative number, Decimal.Written word.toList negative number) ∧
    ∀ bytes, assemble text = .ok bytes ↔ ∃ bits, format.Spelled word.toList bits ∧
      bytes = opcode.code :: LittleEndian.encode size bits := by
  have bits : ∀ bytes, assemble text = .ok bytes ↔ ∃ bits, format.Spelled word.toList bits ∧
      bytes = opcode.code :: LittleEndian.encode size bits := by
    intro bytes
    rw [assemble_eq_ok_iff single read, constant.operands?, Option.map_eq_some_iff]
    simp only [Format.ofText?_eq_some_iff constant.wide, eq_comm]
  refine ⟨?_, bits⟩
  rw [← Format.exists_spelled_iff constant.wide]
  constructor
  · intro ⟨bytes, assembled⟩
    obtain ⟨pattern, spelled, -⟩ := (bits bytes).mp assembled
    exact ⟨pattern, spelled⟩
  · intro ⟨pattern, spelled⟩
    exact ⟨_, (bits _).mpr ⟨pattern, spelled, rfl⟩⟩

/-- A number just above the middle between two single-precision values. In double precision it would
be rounded to the middle, and that to the lower, even one. -/
theorem accepted_iff_rounded_once :
    IsConstant .f32Const binary32 4 ∧
    Text.lines "f32.const +1.00000005960464477539062500001E0".toList =
      ["f32.const +1.00000005960464477539062500001E0".toList] ∧
    Line.ofText? "f32.const +1.00000005960464477539062500001E0".toList =
      some (.instruction Opcode.f32Const.mnemonic ["+1.00000005960464477539062500001E0"]) ∧
    (∃ bits, binary32.Spelled "+1.00000005960464477539062500001E0".toList bits ∧
      [0x43, 0x01, 0x00, 0x80, 0x3f] = Opcode.f32Const.code :: LittleEndian.encode 4 bits) ∧
    assemble "f64.const +1.00000005960464477539062500001E0" =
      .ok [0x44, 0x00, 0x00, 0x00, 0x10, 0x00, 0x00, 0xf0, 0x3f] ∧
    assemble "f32.const +1.000000059604644775390625" = .ok [0x43, 0x00, 0x00, 0x80, 0x3f] := by
  have single : Text.lines "f32.const +1.00000005960464477539062500001E0".toList =
      ["f32.const +1.00000005960464477539062500001E0".toList] := by decide
  have read : Line.ofText? "f32.const +1.00000005960464477539062500001E0".toList =
      some (.instruction Opcode.f32Const.mnemonic ["+1.00000005960464477539062500001E0"]) := by
    decide +kernel
  obtain ⟨-, bits⟩ := accepted_iff_rounded .single single read
  exact ⟨.single, single, read, (bits _).mp (by decide +kernel), by decide +kernel,
    by decide +kernel⟩

end Assembly
end WasmStream
