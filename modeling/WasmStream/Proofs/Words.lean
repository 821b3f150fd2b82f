import WasmStream.Assembly.Line
import WasmStream.Immediate.Words
import WasmStream.Proofs.Floats
import WasmStream.Proofs.Operands

/-! Operands come back from their words. Only a constant that is no number changes, into the
one pattern that is written for all of them; whatever was read once is written and read
without any change. -/

namespace WasmStream

namespace Assembly.Line

structure IsWord (letter : Char → Bool) (word : List Char) : Prop where
  nonempty : word ≠ []
  letters : ∀ char ∈ word, letter char = true

theorem IsWord.of_all {letter : Char → Bool} {word : List Char} (nonempty : word ≠ [])
    (all : word.all letter = true) : IsWord letter word := ⟨nonempty, List.all_eq_true.mp all⟩

/-- White space and the characters that open comments are all outside of this range. -/
theorem isOperandChar_of_visible {char : Char} (low : 36 ≤ char.toNat) (high : char.toNat ≤ 126)
    (other : char.toNat ≠ 59) : isOperandChar char = true := by
  have mark : ∀ mark : Char, mark.toNat = 59 ∨ mark.toNat < 36 → char ≠ mark := by
    intro mark outside same
    subst same
    omega
  simp only [isOperandChar, Text.isWhiteSpace, Text.inBlocks, Text.whiteSpaceBlocks, List.any_cons,
    List.any_nil, Bool.or_false, Bool.and_eq_true, Bool.not_eq_true', Bool.or_eq_false_iff,
    Bool.and_eq_false_iff, decide_eq_false_iff_not, bne_iff_ne]
  exact ⟨⟨by omega, mark ';' (by decide)⟩, mark '#' (by decide)⟩

theorem isOperandChar_of_isDigit {char : Char} (digit : char.isDigit = true) :
    isOperandChar char = true := by
  have bounds : 48 ≤ char.toNat ∧ char.toNat ≤ 57 := by
    simpa [Char.isDigit, UInt32.le_iff_toNat_le] using digit
  apply isOperandChar_of_visible <;> omega

theorem isWord_digits (value : Nat) : IsWord isOperandChar (Decimal.digits value) where
  nonempty := Decimal.digits_ne_nil value
  letters char member := isOperandChar_of_isDigit (Decimal.allDigits_digits value char member)

theorem IsWord.minus {word : List Char} (isWord : IsWord isOperandChar word) :
    IsWord isOperandChar ('-' :: word) where
  nonempty := List.cons_ne_nil _ _
  letters := List.forall_mem_cons.mpr ⟨by decide, isWord.letters⟩

private theorem isWord_integer (value : Int) : IsWord isOperandChar (Decimal.integer value) := by
  cases value with
  | ofNat value => exact isWord_digits value
  | negSucc value => exact (isWord_digits (value + 1)).minus

private theorem isWord_decimal (decimal : Decimal) : IsWord isOperandChar decimal.text := by
  obtain ⟨read, positional, _⟩ := Decimal.exists_positional decimal
  obtain ⟨first, rest, same, _⟩ := positional.exists_first
  refine ⟨same ▸ List.cons_ne_nil _ _, ?_⟩
  intro char member
  rcases positional.mem member with digit | point
  · exact isOperandChar_of_isDigit digit
  · exact point ▸ by decide

private theorem isWord_float (format : Ieee.Format) (bits : Nat) :
    IsWord isOperandChar (format.text bits) := by
  have magnitude : ∀ magnitude, IsWord isOperandChar (format.magnitudeText magnitude) := by
    intro magnitude
    unfold Ieee.Format.magnitudeText
    split
    · exact .of_all (by decide) (by decide)
    · exact isWord_decimal _
  simp only [Ieee.Format.text]
  split
  · exact .of_all (by decide) (by decide)
  · split
    · exact (magnitude _).minus
    · exact magnitude _

end Assembly.Line

namespace Immediate
open Assembly.Line

/-- A single-precision pattern, or `0x7fc00000` for one that is no number. -/
def quiet32 (bits : UInt32) : UInt32 :=
  if 0x7f800000 < bits % 0x80000000 then 0x7fc00000 else bits

/-- A double-precision pattern, or `0x7ff8000000000000` for one that is no number. -/
def quiet64 (bits : UInt64) : UInt64 :=
  if 0x7ff0000000000000 < bits % 0x8000000000000000 then 0x7ff8000000000000 else bits

def quiet : Immediate → Immediate
  | f32Const bits => f32Const (quiet32 bits)
  | f64Const bits => f64Const (quiet64 bits)
  | immediate => immediate

theorem isWord_words {immediate : Immediate} {word : String} (member : word ∈ immediate.words) :
    IsWord isOperandChar word.toList := by
  have index : ∀ index, IsWord isOperandChar (indexWord index).toList := by
    intro index
    rw [indexWord, String.toList_ofList]
    exact isWord_digits _
  have integer : ∀ value, IsWord isOperandChar (integerWord value).toList := by
    intro value
    rw [integerWord, String.toList_ofList]
    exact isWord_integer _
  cases immediate with
  | blockType result =>
    cases result with
    | none => simp [words] at member
    | some result =>
      simp only [words, List.mem_singleton] at member
      subst member
      cases result <;> exact .of_all (by decide) (by decide)
  | branchTable labels fallback =>
    simp only [words, List.mem_append, List.mem_map, List.mem_singleton] at member
    rcases member with ⟨label, _, same⟩ | same
    · exact same ▸ index label
    · exact same ▸ index fallback
  | i32Const | i64Const =>
    simp only [words, List.mem_singleton] at member
    exact member ▸ integer _
  | f32Const | f64Const =>
    simp only [words, List.mem_singleton] at member
    rw [member, String.toList_ofList]
    exact isWord_float _ _
  | indirectCall | memoryAccess =>
    simp only [words, List.mem_cons, List.not_mem_nil, or_false] at member
    rcases member with same | same
    · exact same ▸ index _
    · exact same ▸ index _
  | _ =>
    simp only [words, List.mem_singleton] at member
    exact member ▸ index _

theorem index?_indexWord (index : UInt32) : index? (indexWord index) = some index := by
  have bound : index.toNat < UInt32.size := index.toNat_lt
  simp [index?, indexWord, Decimal.natural?_digits, bound]

private theorem reserved?_indexWord {index : UInt32} (bit : index.toNat < 2) :
    reserved? (indexWord index) = some index := by
  have small : index ≤ 1 := UInt32.le_iff_toNat_le.mpr (Nat.le_of_lt_succ bit)
  simp [reserved?, index?_indexWord, small]

private theorem mapM_indexWord (indices : List UInt32) :
    (indices.map indexWord).mapM index? = some indices := by
  induction indices with
  | nil => rfl
  | cons index indices ih => simp [index?_indexWord, ih]

private theorem i32?_integerWord (value : Int32) : i32? (integerWord value.toInt) = some value := by
  have bounds : Int32.minValue.toInt ≤ value.toInt ∧ value.toInt ≤ Int32.maxValue.toInt :=
    ⟨value.minValue_le_toInt, value.toInt_le⟩
  simp only [i32?, integerWord, String.toList_ofList, Decimal.integer?_integer, Option.bind_some,
    if_pos bounds, Int32.ofInt_toInt]

private theorem i64?_integerWord (value : Int64) : i64? (integerWord value.toInt) = some value := by
  have bounds : Int64.minValue.toInt ≤ value.toInt ∧ value.toInt ≤ Int64.maxValue.toInt :=
    ⟨value.minValue_le_toInt, value.toInt_le⟩
  simp only [i64?, integerWord, String.toList_ofList, Decimal.integer?_integer, Option.bind_some,
    if_pos bounds, Int64.ofInt_toInt]

theorem binary32_quiet (bits : UInt32) :
    Ieee.binary32.quiet bits.toNat = (quiet32 bits).toNat := by
  have infinity : Ieee.binary32.infinity = 0x7f800000 := by decide
  have signBit : Ieee.binary32.signBit = 0x80000000 := by decide
  have quietNaN : Ieee.binary32.quietNaN = 0x7fc00000 := by decide
  have same : 0x7f800000 < bits % 0x80000000 ↔ 0x7f800000 < bits.toNat % 0x80000000 := by
    rw [UInt32.lt_iff_toNat_lt, UInt32.toNat_mod]
    rfl
  rw [Ieee.Format.quiet, infinity, signBit, quietNaN, quiet32]
  by_cases number : 0x7f800000 < bits.toNat % 0x80000000
  · rw [if_pos number, if_pos (same.mpr number)]
    rfl
  · rw [if_neg number, if_neg (mt same.mp number)]

theorem binary64_quiet (bits : UInt64) :
    Ieee.binary64.quiet bits.toNat = (quiet64 bits).toNat := by
  have infinity : Ieee.binary64.infinity = 0x7ff0000000000000 := by decide
  have signBit : Ieee.binary64.signBit = 0x8000000000000000 := by decide
  have quietNaN : Ieee.binary64.quietNaN = 0x7ff8000000000000 := by decide
  have same : 0x7ff0000000000000 < bits % 0x8000000000000000 ↔
      0x7ff0000000000000 < bits.toNat % 0x8000000000000000 := by
    rw [UInt64.lt_iff_toNat_lt, UInt64.toNat_mod]
    rfl
  rw [Ieee.Format.quiet, infinity, signBit, quietNaN, quiet64]
  by_cases number : 0x7ff0000000000000 < bits.toNat % 0x8000000000000000
  · rw [if_pos number, if_pos (same.mpr number)]
    rfl
  · rw [if_neg number, if_neg (mt same.mp number)]

private theorem f32?_text (bits : UInt32) :
    f32? (String.ofList (Ieee.binary32.text bits.toNat)) = some (quiet32 bits) := by
  have fits : bits.toNat < 2 * Ieee.binary32.signBit := bits.toNat_lt
  rw [f32?, String.toList_ofList, Ieee.binary32.ofText?_text fits, binary32_quiet, Option.map_some,
    UInt32.ofNat_toNat]

private theorem f64?_text (bits : UInt64) :
    f64? (String.ofList (Ieee.binary64.text bits.toNat)) = some (quiet64 bits) := by
  have fits : bits.toNat < 2 * Ieee.binary64.signBit := bits.toNat_lt
  rw [f64?, String.toList_ofList, Ieee.binary64.ofText?_text fits, binary64_quiet, Option.map_some,
    UInt64.ofNat_toNat]

theorem branchTable?_words (labels : List UInt32) (fallback : UInt32) :
    branchTable? (labels.map indexWord ++ [indexWord fallback]) =
      some (branchTable labels fallback) := by
  have indices : (labels.map indexWord ++ [indexWord fallback]).mapM index? =
      some (labels ++ [fallback]) := by
    rw [← List.map_singleton, ← List.map_append, mapM_indexWord]
  simp [branchTable?, indices]

theorem ofWords?_words {immediate : Immediate} (encodable : immediate.Encodable) :
    ofWords? immediate.kind immediate.words = some immediate.quiet := by
  cases immediate with
  | blockType result =>
    cases result with
    | none => rfl
    | some result => simp [kind, words, ofWords?, ValueType.ofName?_name, quiet]
  | branchTable labels fallback => exact branchTable?_words labels fallback
  | indirectCall signature table =>
    simp [kind, words, ofWords?, index?_indexWord, reserved?_indexWord encodable, quiet]
  | memorySize memory => simp [kind, words, ofWords?, reserved?_indexWord encodable, quiet]
  | i32Const value => simp [kind, words, ofWords?, i32?_integerWord, quiet]
  | i64Const value => simp [kind, words, ofWords?, i64?_integerWord, quiet]
  | f32Const bits => simp [kind, words, ofWords?, f32?_text, quiet]
  | f64Const bits => simp [kind, words, ofWords?, f64?_text, quiet]
  | _ => simp [kind, words, ofWords?, index?_indexWord, quiet]

/-- Operands as they are read from words. Only a table may be too long to be encoded. -/
structure Read (kind : Kind) (immediate : Immediate) : Prop where
  kind_eq : immediate.kind = kind
  quiet_eq : immediate.quiet = immediate
  encodable : immediate.Counted → immediate.Encodable

private theorem reserved?_lt {word : String} {index : UInt32} (read : reserved? word = some index) :
    index.toNat < 2 := by
  obtain ⟨_, bit⟩ := Option.filter_eq_some_iff.mp read
  have small : index.toNat ≤ 1 := UInt32.le_iff_toNat_le.mp (of_decide_eq_true bit)
  omega

private theorem f32?_quiet {word : String} {bits : UInt32} (read : f32? word = some bits) :
    quiet32 bits = bits := by
  obtain ⟨pattern, text, same⟩ := Option.map_eq_some_iff.mp read
  obtain ⟨fits, settled⟩ := Ieee.binary32.quiet_of_ofText? text
  have bound : bits.toNat = pattern := by
    rw [← same]
    exact UInt32.toNat_ofNat_of_lt' fits
  rw [← UInt32.toNat_inj, ← binary32_quiet, bound, settled]

private theorem f64?_quiet {word : String} {bits : UInt64} (read : f64? word = some bits) :
    quiet64 bits = bits := by
  obtain ⟨pattern, text, same⟩ := Option.map_eq_some_iff.mp read
  obtain ⟨fits, settled⟩ := Ieee.binary64.quiet_of_ofText? text
  have bound : bits.toNat = pattern := by
    rw [← same]
    exact UInt64.toNat_ofNat_of_lt' fits
  rw [← UInt64.toNat_inj, ← binary64_quiet, bound, settled]

private theorem read_of_map {α : Type} {kind : Kind} {make : α → Immediate} {field : Option α}
    {immediate : Immediate} (read : field.map make = some immediate)
    (each : ∀ value, field = some value → Read kind (make value)) : Read kind immediate := by
  obtain ⟨value, found, same⟩ := Option.map_eq_some_iff.mp read
  exact same ▸ each value found

/-- Operands that are read are of the kind asked for, and nothing but a long table keeps them
from being encoded. -/
theorem read_ofWords? {kind : Kind} {words : List String} {immediate : Immediate}
    (read : ofWords? kind words = some immediate) : Read kind immediate := by
  unfold ofWords? at read
  split at read
  -- Most kinds put no condition on a word that was read; a reserved index, the labels of a table
  -- and the constants with more than one pattern for no number do.
  case h_1 | h_9 =>
    cases read
    exact ⟨rfl, rfl, fun _ => trivial⟩
  case h_2 | h_3 | h_5 | h_8 | h_10 | h_14 | h_15 =>
    exact read_of_map read fun _ _ => ⟨rfl, rfl, fun _ => trivial⟩
  case h_4 =>
    obtain ⟨indices, _, read⟩ := Option.bind_eq_some_iff.mp read
    obtain ⟨fallback, _, same⟩ := Option.bind_eq_some_iff.mp read
    cases same
    exact ⟨rfl, rfl, id⟩
  case h_6 => exact read_of_map read fun _ _ => ⟨rfl, rfl, fun _ => Nat.zero_lt_two⟩
  case h_7 =>
    obtain ⟨signature, _, read⟩ := Option.bind_eq_some_iff.mp read
    obtain ⟨table, reserved, same⟩ := Option.bind_eq_some_iff.mp read
    cases same
    exact ⟨rfl, rfl, fun _ => reserved?_lt reserved⟩
  case h_11 =>
    obtain ⟨align, _, read⟩ := Option.bind_eq_some_iff.mp read
    obtain ⟨offset, _, same⟩ := Option.bind_eq_some_iff.mp read
    cases same
    exact ⟨rfl, rfl, fun _ => trivial⟩
  case h_12 =>
    cases read
    exact ⟨rfl, rfl, fun _ => Nat.zero_lt_two⟩
  case h_13 => exact read_of_map read fun _ reserved => ⟨rfl, rfl, fun _ => reserved?_lt reserved⟩
  case h_16 =>
    refine read_of_map read fun bits text => ⟨rfl, ?_, fun _ => trivial⟩
    rw [quiet, f32?_quiet text]
  case h_17 =>
    refine read_of_map read fun bits text => ⟨rfl, ?_, fun _ => trivial⟩
    rw [quiet, f64?_quiet text]
  case h_18 => cases read

end Immediate
end WasmStream
