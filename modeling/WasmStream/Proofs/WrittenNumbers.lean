import Mathlib.Data.List.Induction
import Mathlib.Data.Nat.Digits.Defs
import WasmStream.Immediate.Words
import WasmStream.Proofs.Decimals

/-! The numbers that digits spell, without regard to who reads them: a row of digits is a number in
base ten, and a sign may stand in front. A word is read as an index or as an integer constant exactly
when it spells one in range, and then as the very number it spells. -/

namespace WasmStream

namespace Decimal

def digit (char : Char) : Nat := char.toNat - '0'.toNat

def positional (written : List Char) : Nat := Nat.ofDigits 10 (written.reverse.map digit)

structure IsNatural (written : List Char) (value : Nat) : Prop where
  digits : AllDigits written
  nonempty : written ≠ []
  value : value = positional written

/-- An optional sign, whether it is a minus, and what it stands in front of. -/
inductive Sign : List Char → Bool → List Char → Prop where
  | none (written) : Sign written false written
  | plus (written) : Sign ('+' :: written) false written
  | minus (written) : Sign ('-' :: written) true written

inductive IsInteger : List Char → Int → Prop where
  | positive {text written value} (sign : Sign text false written)
      (natural : IsNatural written value) : IsInteger text value
  | negative {text written value} (sign : Sign text true written)
      (natural : IsNatural written value) : IsInteger text (-value)

theorem ofDigits_eq_positional (written : List Char) : ofDigits written = positional written := by
  induction written using List.reverseRec with
  | nil => rfl
  | append_singleton written last ih =>
    have alone : ofDigits [last] = digit last := by simp [ofDigits, Nat.ofDigitChars, digit]
    rw [ofDigits_append, ih, alone, positional, positional, List.reverse_concat, List.map_cons,
      Nat.ofDigits_cons, List.length_singleton]
    ring

theorem natural?_eq_some_iff {written : List Char} {value : Nat} :
    natural? written = some value ↔ IsNatural written value := by
  constructor
  · intro read
    unfold natural? at read
    split at read
    next both =>
      cases read
      obtain ⟨nonempty, digits⟩ := Bool.and_eq_true_iff.mp both
      refine ⟨List.all_eq_true.mp digits, ?_, ofDigits_eq_positional written⟩
      simpa using nonempty
    next => cases read
  · intro ⟨digits, nonempty, same⟩
    rw [natural?_of_allDigits digits nonempty, same, ofDigits_eq_positional]

theorem sign_splitSign (text : List Char) : Sign text (splitSign text).1 (splitSign text).2 := by
  unfold splitSign
  split
  · exact .minus _
  · exact .plus _
  · exact .none _

/-- A sign is split off if none stands behind it. -/
theorem Sign.splitSign_eq {text written : List Char} {negative : Bool}
    (sign : Sign text negative written)
    (unsigned : ∀ char ∈ written.head?, char ≠ '+' ∧ char ≠ '-') :
    splitSign text = (negative, written) := by
  cases sign with
  | plus | minus => rfl
  | none =>
    unfold splitSign
    split
    next => exact absurd rfl (unsigned _ rfl).2
    next => exact absurd rfl (unsigned _ rfl).1
    next => rfl

theorem unsigned_of_isDigit {char : Char} (digit : char.isDigit = true) :
    char ≠ '+' ∧ char ≠ '-' := by
  constructor
  all_goals
    intro same
    subst same
    cases digit

private theorem IsNatural.unsigned {written : List Char} {value : Nat}
    (natural : IsNatural written value) :
    ∀ char ∈ written.head?, char ≠ '+' ∧ char ≠ '-' := by
  intro char first
  exact unsigned_of_isDigit (natural.digits char (List.mem_of_mem_head? first))

theorem integer?_eq_some_iff {text : List Char} {value : Int} :
    integer? text = some value ↔ IsInteger text value := by
  constructor
  · intro read
    have sign := sign_splitSign text
    unfold integer? at read
    generalize splitSign text = split at sign read
    obtain ⟨negative, written⟩ := split
    obtain ⟨_, found, same⟩ := Option.map_eq_some_iff.mp read
    obtain ⟨magnitude, found, cast⟩ := Option.bind_eq_some_iff.mp found
    have natural := natural?_eq_some_iff.mp found
    cases cast
    subst same
    cases negative with
    | false => exact .positive sign natural
    | true => exact .negative sign natural
  · intro spelled
    cases spelled with
    | positive sign natural =>
      simp [integer?, sign.splitSign_eq natural.unsigned, natural?_eq_some_iff.mpr natural]
    | negative sign natural =>
      simp [integer?, sign.splitSign_eq natural.unsigned, natural?_eq_some_iff.mpr natural]

end Decimal

namespace Immediate
open Decimal

def IsIndex (word : String) (index : UInt32) : Prop := IsNatural word.toList index.toNat

structure IsReserved (word : String) (index : UInt32) : Prop where
  isIndex : IsIndex word index
  bit : index.toNat ≤ 1

theorem index?_eq_some_iff {word : String} {index : UInt32} :
    index? word = some index ↔ IsIndex word index := by
  rw [IsIndex, ← natural?_eq_some_iff, index?, Option.bind_eq_some_iff]
  constructor
  · intro ⟨value, natural, read⟩
    split at read
    next fits =>
      cases read
      rw [natural, UInt32.toNat_ofNat_of_lt' fits]
    next => cases read
  · intro natural
    exact ⟨index.toNat, natural, by rw [if_pos index.toNat_lt, UInt32.ofNat_toNat]⟩

theorem reserved?_eq_some_iff {word : String} {index : UInt32} :
    reserved? word = some index ↔ IsReserved word index := by
  rw [reserved?, Option.filter_eq_some_iff, index?_eq_some_iff, decide_eq_true_iff,
    UInt32.le_iff_toNat_le]
  exact ⟨fun ⟨isIndex, bit⟩ => ⟨isIndex, bit⟩, fun ⟨isIndex, bit⟩ => ⟨isIndex, bit⟩⟩

theorem i32?_eq_some_iff {word : String} {value : Int32} :
    i32? word = some value ↔ IsInteger word.toList value.toInt := by
  rw [← integer?_eq_some_iff, i32?, Option.bind_eq_some_iff]
  constructor
  · intro ⟨number, integer, read⟩
    split at read
    next fits =>
      cases read
      rw [integer, Int32.toInt_ofInt_of_le fits.1 (Int.lt_add_one_of_le fits.2)]
    next => cases read
  · intro integer
    have fits := And.intro value.minValue_le_toInt value.toInt_le
    exact ⟨value.toInt, integer, by rw [if_pos fits, Int32.ofInt_toInt]⟩

theorem i64?_eq_some_iff {word : String} {value : Int64} :
    i64? word = some value ↔ IsInteger word.toList value.toInt := by
  rw [← integer?_eq_some_iff, i64?, Option.bind_eq_some_iff]
  constructor
  · intro ⟨number, integer, read⟩
    split at read
    next fits =>
      cases read
      rw [integer, Int64.toInt_ofInt_of_le fits.1 (Int.lt_add_one_of_le fits.2)]
    next => cases read
  · intro integer
    have fits := And.intro value.minValue_le_toInt value.toInt_le
    exact ⟨value.toInt, integer, by rw [if_pos fits, Int64.ofInt_toInt]⟩

end Immediate
end WasmStream
