import WasmStream.Proofs.FieldWriting
import WasmStream.Proofs.Operands

/-! Operands that are written and read again as the kind they are of. They come back unless an
index that is reserved has more than its one bit, and then the field of that index is what is
refused. -/

namespace WasmStream.Immediate
open Leb128

/-- The index that is reserved, behind the bytes of the operands before it. -/
def reservedIndex? : Immediate → Option (List UInt8 × UInt32)
  | indirectCall signature table => some (encodeIndex signature, table)
  | memorySize memory => some ([], memory)
  | _ => none

private theorem encode_of_reserved {immediate : Immediate} {front : List UInt8} {index : UInt32}
    (reserved : immediate.reservedIndex? = some (front, index)) :
    immediate.encode = front ++ encodeIndex index := by
  cases immediate with
  | indirectCall | memorySize =>
    cases reserved
    rfl
  | _ => cases reserved

/-- Only a reserved index keeps operands with labels that can be counted from being encoded. -/
theorem encodable_iff {immediate : Immediate} (counted : immediate.Counted) :
    immediate.Encodable ↔ ∀ field ∈ immediate.reservedIndex?, field.2 ≤ 1 := by
  cases immediate with
  | indirectCall | memorySize =>
    simp only [Encodable, reservedIndex?, Option.mem_some_iff, forall_eq', UInt32.le_iff_toNat_le]
    exact Nat.lt_succ_iff
  | branchTable => exact iff_of_true counted (by simp [reservedIndex?])
  | _ => simp [Encodable, reservedIndex?]

private theorem readReserved_encodeIndex {index : UInt32} (wide : 1 < index) (start : Nat)
    (back : List UInt8) : ∃ after, readReserved ⟨start, encodeIndex index ++ back⟩ =
      .error (.malformedVarint start 1 (if index < 128 then .overflow else .tooLong)) after := by
  have misfits : ¬ magnitude (encodeIndex index) < 2 ^ reservedWidth := by
    rw [encodeIndex, magnitude_encodeUnsigned]
    exact Nat.not_lt.mpr wide
  obtain ⟨after, refused⟩ := (answers_unsigned (by decide) (by decide)).refuses unsigned_short
    (chained_encodeUnsigned index.toNat) misfits start back
  have longer : reservedWidth ⌈/⌉ 7 < (encodeUnsigned index.toNat).length ↔ ¬ index < 128 := by
    have oneByte : reservedWidth ⌈/⌉ 7 = 1 := rfl
    rw [oneByte, one_lt_length_encodeUnsigned_iff, ← Nat.not_lt]
    rfl
  have fault : (if index < 128 then VarintFault.overflow else .tooLong) =
      if reservedWidth ⌈/⌉ 7 < (encodeUnsigned index.toNat).length then .tooLong
      else .overflow := by
    rw [if_congr longer rfl rfl, ite_not]
  exact ⟨after, Reader.bind_eq_error.mpr (.inl (fault ▸ refused))⟩

private theorem read_of_wide {immediate : Immediate} {front : List UInt8} {index : UInt32}
    (reserved : immediate.reservedIndex? = some (front, index)) (wide : 1 < index) (start : Nat)
    (back : List UInt8) : ∃ after, read immediate.kind ⟨start, immediate.encode ++ back⟩ =
      .error (.malformedVarint (start + front.length) 1
        (if index < 128 then .overflow else .tooLong)) after := by
  cases immediate with
  | indirectCall signature table =>
    cases reserved
    obtain ⟨after, refused⟩ := readReserved_encodeIndex wide
      (start + (encodeIndex signature).length) back
    have before := reads_index.ahead (indexField_encode signature) start (encodeIndex index ++ back)
    rw [encode, List.append_assoc]
    exact ⟨after, Reader.bind_eq_error.mpr (.inr ⟨signature, _, before,
      Reader.bind_eq_error.mpr (.inl refused)⟩)⟩
  | memorySize memory =>
    cases reserved
    obtain ⟨after, refused⟩ := readReserved_encodeIndex wide start back
    exact ⟨after, Reader.bind_eq_error.mpr (.inl refused)⟩
  | _ => cases reserved

/-- Operands come back from their bytes, whatever follows those, exactly if an index that is
reserved has no more than one bit; otherwise its field is what is refused. Of two byte strings that
are operands of a kind as a whole, none begins the other. -/
theorem read_encode (immediate : Immediate) (counted : immediate.Counted) (start : Nat)
    (back : List UInt8) :
    (read immediate.kind ⟨start, immediate.encode ++ back⟩ =
        .ok immediate ⟨start + immediate.encode.length, back⟩ ↔
      ∀ field ∈ immediate.reservedIndex?, field.2 ≤ 1) ∧
    (∀ front index, immediate.reservedIndex? = some (front, index) → 1 < index →
      immediate.encode = front ++ encodeIndex index ∧
      ∃ after, read immediate.kind ⟨start, immediate.encode ++ back⟩ =
        .error (.malformedVarint (start + front.length) 1
          (if index < 128 then .overflow else .tooLong)) after) ∧
    ∀ kind first second result result',
      read kind (Cursor.ofBytes first) = .ok result ⟨first.length, []⟩ →
      read kind (Cursor.ofBytes second) = .ok result' ⟨second.length, []⟩ →
      first <+: second → first = second := by
  refine ⟨?_, ?_, ?_⟩
  · rw [← encodable_iff counted]
    constructor
    · intro read
      obtain ⟨bytes, -, operands⟩ := (reads_operands _ _ _ _).mp read
      exact operands.encodable
    · intro encodable
      exact (reads_operands _).ahead (operands_encode encodable) start back
  · intro front index reserved wide
    exact ⟨encode_of_reserved reserved, read_of_wide reserved wide start back⟩
  · intro kind first second result result' read read'
    have reads := reads_operands kind
    exact reads.eq_of_prefix (reads.whole_iff.mp read) (reads.whole_iff.mp read')

/-- A table index of one bit, of one byte and of two, behind an index of two bytes. -/
theorem read_encode_indirectCall :
    (indirectCall 1000 1).Counted ∧ (indirectCall 1000 5).Counted ∧
    (indirectCall 1000 200).Counted ∧
    read .indirectCall ⟨3, [0xe8, 0x07, 0x01, 0x2a]⟩ = .ok (indirectCall 1000 1) ⟨6, [0x2a]⟩ ∧
    (∃ after, read .indirectCall ⟨3, [0xe8, 0x07, 0x05, 0x2a]⟩ =
      .error (.malformedVarint 5 1 .overflow) after) ∧
    ∃ after, read .indirectCall ⟨3, [0xe8, 0x07, 0xc8, 0x01, 0x2a]⟩ =
      .error (.malformedVarint 5 1 .tooLong) after := by
  obtain ⟨fits, -⟩ := read_encode (indirectCall 1000 1) trivial 3 [0x2a]
  obtain ⟨-, overflows, -⟩ := read_encode (indirectCall 1000 5) trivial 3 [0x2a]
  obtain ⟨-, tooLong, -⟩ := read_encode (indirectCall 1000 200) trivial 3 [0x2a]
  have one : (indirectCall 1000 1).encode = [0xe8, 0x07, 0x01] := by decide +kernel
  have five : (indirectCall 1000 5).encode = [0xe8, 0x07, 0x05] := by decide +kernel
  have more : (indirectCall 1000 200).encode = [0xe8, 0x07, 0xc8, 0x01] := by decide +kernel
  have front : encodeIndex 1000 = [0xe8, 0x07] := by decide +kernel
  refine ⟨trivial, trivial, trivial, ?_, ?_, ?_⟩
  · have read := fits.mpr (by simp [reservedIndex?])
    rw [one] at read
    exact read
  · have refused := (overflows _ 5 rfl (by decide)).2
    rw [five, front] at refused
    exact refused
  · have refused := (tooLong _ 200 rfl (by decide)).2
    rw [more, front] at refused
    exact refused

end WasmStream.Immediate
