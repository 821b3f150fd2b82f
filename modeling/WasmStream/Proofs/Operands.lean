import Mathlib.Data.List.Forall2
import WasmStream.Immediate.Binary
import WasmStream.Proofs.Varint

/-! The operand bytes of every kind of instruction, as a relation to the operands
they spell. Reading a kind accepts exactly its byte strings, and encoding picks
the shortest of those that spell the same operands. -/

namespace WasmStream

namespace LittleEndian

theorem decode_eq_ofDigits (bytes : List UInt8) :
    decode bytes = Nat.ofDigits 256 (bytes.map UInt8.toNat) := by
  induction bytes with
  | nil => rfl
  | cons byte rest ih => rw [decode, ih, List.map_cons, Nat.ofDigits_cons]

private theorem decode_lt (bytes : List UInt8) : decode bytes < 2 ^ (8 * bytes.length) := by
  induction bytes with
  | nil => simp [decode]
  | cons byte rest ih =>
    have low := byte.toNat_lt
    have wider : 2 ^ (8 * (byte :: rest).length) = 256 * 2 ^ (8 * rest.length) := by
      rw [List.length_cons, Nat.mul_add, Nat.pow_add]
      omega
    rw [decode, wider]
    omega

private theorem encode_decode (bytes : List UInt8) :
    encode bytes.length (decode bytes) = bytes := by
  induction bytes with
  | nil => rfl
  | cons byte rest ih =>
    have low := byte.toNat_lt
    have head : (byte.toNat + 256 * decode rest) % 256 = byte.toNat := by omega
    have tail : (byte.toNat + 256 * decode rest) / 256 = decode rest := by omega
    rw [List.length_cons, decode, encode, head, tail, ih, UInt8.ofNat_toNat]

def Word (size : Nat) : Form Nat := fun bytes value =>
  bytes.length = size ∧ Nat.ofDigits 256 (bytes.map UInt8.toNat) = value

private theorem word_encode {size value : Nat} (fits : value < 256 ^ size) :
    Word size (encode size value) value := by
  refine ⟨length_encode size value, ?_⟩
  rw [← decode_eq_ofDigits, decode_encode, Nat.pow_eq, Nat.mod_eq_of_lt fits]

private theorem Word.encode_eq {size value : Nat} {bytes : List UInt8}
    (word : Word size bytes value) :
    encode size value = bytes := by
  obtain ⟨rfl, rfl⟩ := word
  rw [← decode_eq_ofDigits, encode_decode]

end LittleEndian

namespace Immediate
open Leb128

inductive BlockSignature : UInt8 → BlockType → Prop where
  | empty : BlockSignature 0x40 none
  | i32 : BlockSignature 0x7f (some .i32)
  | i64 : BlockSignature 0x7e (some .i64)
  | f32 : BlockSignature 0x7d (some .f32)
  | f64 : BlockSignature 0x7c (some .f64)

def IndexField : Form UInt32 := fun bytes index => UnsignedField 32 bytes index.toNat

def ReservedField : Form UInt32 := fun bytes index => UnsignedField 1 bytes index.toNat

/-- The byte strings that hold the operands of a kind. A branch table is a
count, so many labels, and the label taken when none of them is. -/
inductive Operands : Kind → Form Immediate where
  | blockType {byte result} (signature : BlockSignature byte result) :
      Operands .blockType [byte] (.blockType result)
  | branchTarget {bytes label} (field : IndexField bytes label) :
      Operands .branchTarget bytes (.branchTarget label)
  | branchTable {count fields last labels fallback}
      (counted : UnsignedField 32 count labels.length)
      (each : List.Forall₂ IndexField fields labels) (final : IndexField last fallback) :
      Operands .branchTable (count ++ fields.flatten ++ last) (.branchTable labels fallback)
  | callTarget {bytes function} (field : IndexField bytes function) :
      Operands .callTarget bytes (.callTarget function)
  | indirectCall {first second signature table} (field : IndexField first signature)
      (reserved : ReservedField second table) :
      Operands .indirectCall (first ++ second) (.indirectCall signature table)
  | variableIndex {bytes index} (field : IndexField bytes index) :
      Operands .variableIndex bytes (.variableIndex index)
  | memoryAccess {first second align offset} (field : IndexField first align)
      (field' : IndexField second offset) :
      Operands .memoryAccess (first ++ second) (.memoryAccess align offset)
  | memorySize {bytes memory} (reserved : ReservedField bytes memory) :
      Operands .memorySize bytes (.memorySize memory)
  | i32Const {bytes value} (field : SignedField 32 bytes value.toInt) :
      Operands .i32Const bytes (.i32Const value)
  | i64Const {bytes value} (field : SignedField 64 bytes value.toInt) :
      Operands .i64Const bytes (.i64Const value)
  | f32Const {bytes bits} (word : LittleEndian.Word 4 bytes bits.toNat) :
      Operands .f32Const bytes (.f32Const bits)
  | f64Const {bytes bits} (word : LittleEndian.Word 8 bytes bits.toNat) :
      Operands .f64Const bytes (.f64Const bits)

theorem ofTag?_eq_some_iff {byte : UInt8} {result : BlockType} :
    BlockType.ofTag? byte = some result ↔ BlockSignature byte result := by
  constructor
  · intro found
    unfold BlockType.ofTag? at found
    split at found
    next empty =>
      subst empty
      cases found
      exact .empty
    next =>
      obtain ⟨type, coded, rfl⟩ := Option.map_eq_some_iff.mp found
      have code : type.code = byte := by simpa using List.find?_some coded
      subst code
      cases type <;> constructor
  · intro signature
    cases signature <;> rfl

private theorem BlockSignature.tag_eq {byte : UInt8} {result : BlockType}
    (signature : BlockSignature byte result) : result.tag = byte := by
  cases signature <;> rfl

private theorem BlockSignature.lt {byte : UInt8} {result : BlockType}
    (signature : BlockSignature byte result) : byte.toNat < 128 := by
  cases signature <;> decide

private theorem unsignedField_ofNat {width : Nat} (narrow : width ≤ 32) (bytes : List UInt8)
    (index : UInt32) :
    (∃ value, UnsignedField width bytes value ∧ index = UInt32.ofNat value) ↔
      UnsignedField width bytes index.toNat := by
  refine ⟨?_, ?_⟩
  · intro read
    obtain ⟨value, field, rfl⟩ := read
    have bound : value < 2 ^ 32 := field.fits.trans_le (Nat.pow_le_pow_right (by omega) narrow)
    rwa [UInt32.toNat_ofNat_of_lt' bound]
  · intro field
    exact ⟨index.toNat, field, UInt32.ofNat_toNat.symm⟩

theorem reads_index : Reader.Reads readIndex IndexField :=
  ((reads_unsigned (by decide) (by decide)).map UInt32.ofNat).congr (unsignedField_ofNat (Nat.le_refl 32))

private theorem reads_reserved : Reader.Reads readReserved ReservedField :=
  ((reads_unsigned (by decide) (by decide)).map UInt32.ofNat).congr
    (unsignedField_ofNat (by simp [reservedWidth]))

theorem signedField_seven_iff {bytes : List UInt8} {value : Int} :
    SignedField 7 bytes value ↔
      ∃ byte, bytes = [byte] ∧ byte.toNat < 128 ∧ (byte.toNat : Int).bmod 128 = value := by
  constructor
  · intro field
    obtain ⟨chained, short, spells, -⟩ := field
    cases chained with
    | @last byte stops =>
      refine ⟨byte, rfl, stops, ?_⟩
      simpa [twosComplement, magnitude, payload_of_stops stops] using spells
    | more goes chained =>
      have more := List.length_pos_iff.mpr chained.ne_nil
      rw [Nat.ceilDiv_eq_add_pred_div, List.length_cons] at short
      omega
  · intro spelled
    obtain ⟨byte, single, stops, spells⟩ := spelled
    subst single
    have low := Int.le_bmod (x := byte.toNat) (m := 128) (by omega)
    have high := Int.bmod_lt (x := byte.toNat) (m := 128) (by omega)
    refine ⟨.last stops, Nat.le_refl 1, ?_, ?_⟩
    · simpa [twosComplement, magnitude, payload_of_stops stops] using spells
    · simp only [Nat.reduceSub, Int.reducePow, Int.reduceNeg]
      omega

theorem tag_of_stops {byte : UInt8} (stops : byte.toNat < 128) :
    UInt8.ofNat ((byte.toNat : Int).bmod 128 % 128).toNat = byte := by
  have same : (byte.toNat : Int).bmod 128 % 128 = byte.toNat % 128 := Int.bmod_emod
  have back : ((byte.toNat : Int).bmod 128 % 128).toNat = byte.toNat := by omega
  rw [back, UInt8.ofNat_toNat]

private theorem reads_blockType : Reader.Reads readBlockType
    (fun bytes result => ∃ byte, bytes = [byte] ∧ BlockSignature byte result) := by
  refine Reader.reads_after_look (fun cursor => ⟨cursor.position, rfl⟩) fun offset => ?_
  refine (@Reader.Reads.bind _ _ _ _ _
    (fun value rest result =>
      rest = [] ∧ BlockType.ofTag? (UInt8.ofNat (value % 128).toNat) = some result)
    (reads_signed (by decide) (by decide)) fun value => ?_).congr ?_
  · dsimp only
    cases BlockType.ofTag? (UInt8.ofNat (value % 128).toNat) with
    | some result => simpa only [Option.some.injEq, eq_comm] using Reader.reads_pure result
    | none => simpa only [reduceCtorEq, and_false] using Reader.reads_throw _
  intro bytes result
  simp only [ofTag?_eq_some_iff]
  constructor
  · intro ⟨value, left, right, both, field, rest, signature⟩
    obtain ⟨byte, single, stops, spells⟩ := signedField_seven_iff.mp field
    subst rest spells single
    rw [tag_of_stops stops] at signature
    exact ⟨byte, both, signature⟩
  · intro ⟨byte, single, signature⟩
    refine ⟨_, [byte], [], single, signedField_seven_iff.mpr ⟨byte, rfl, signature.lt, rfl⟩, rfl, ?_⟩
    rwa [tag_of_stops signature.lt]

theorem reads_labels (count : Nat) (labels : Array UInt32) :
    Reader.Reads (readLabelsInto readIndex count labels) (fun bytes result => ∃ fields more,
      bytes = List.flatten fields ∧ List.Forall₂ IndexField fields more ∧ more.length = count ∧
        result = labels ++ more.toArray) := by
  induction count generalizing labels with
  | zero =>
    apply (Reader.reads_pure labels).congr
    intro bytes result
    constructor
    · intro ⟨nothing, same⟩
      exact ⟨[], [], nothing, .nil, rfl, by simpa using same⟩
    · intro ⟨fields, more, flat, each, counted, same⟩
      obtain rfl := List.eq_nil_of_length_eq_zero counted
      cases each
      exact ⟨flat, by simpa using same⟩
  | succ count ih =>
    apply (reads_index.bind fun label => ih (labels.push label)).congr
    intro bytes result
    constructor
    · intro ⟨label, left, right, both, field, fields, more, flat, each, counted, same⟩
      refine ⟨left :: fields, label :: more, ?_, .cons field each, congrArg (· + 1) counted, ?_⟩
      · rw [both, flat, List.flatten_cons]
      · simpa using same
    · intro ⟨fields, more, flat, each, counted, same⟩
      cases each with
      | nil => cases counted
      | @cons left label fields more field each =>
        refine ⟨label, left, fields.flatten, flat, field, fields, more, rfl, each,
          Nat.succ.inj counted, ?_⟩
        simpa using same

private theorem reads_branchTable : Reader.Reads readBranchTable (Operands .branchTable) := by
  apply ((reads_unsigned (by decide : 0 < indexWidth) (by decide)).bind fun count =>
    Reader.reads_after_look (fun cursor => ⟨cursor.remaining, rfl⟩) fun left =>
      (reads_labels count #[]).bind fun labels =>
        reads_index.map (branchTable labels.toList)).congr
  intro bytes result
  constructor
  · intro ⟨count, first, rest, both, counted, labels, second, last, both', ⟨fields, more, flat, each,
      length, same⟩, fallback, final, spelled⟩
    subst both both' flat same spelled length
    rw [← List.append_assoc]
    simpa using Operands.branchTable counted each final
  · intro operands
    cases operands with
    | @branchTable count fields last labels fallback counted each final =>
      refine ⟨labels.length, count, fields.flatten ++ last, List.append_assoc .., counted,
        labels.toArray, fields.flatten, last, rfl, ⟨fields, labels, rfl, each, rfl, ?_⟩,
        fallback, final, rfl⟩
      simp

private theorem decode_toNat {bytes : List UInt8} {size bits : Nat} (length : bytes.length = size)
    (wide : 8 * size ≤ bits) : LittleEndian.decode bytes < 2 ^ bits := by
  have bound := LittleEndian.decode_lt bytes
  rw [length] at bound
  exact bound.trans_le (Nat.pow_le_pow_right (by omega) wide)

theorem reads_f32 :
    Reader.Reads readF32 (fun bytes bits => LittleEndian.Word 4 bytes bits.toNat) := by
  apply (Reader.reads_bytes 4).wrap
  · intro bytes taken spelled
    obtain ⟨length, rfl⟩ := spelled
    refine ⟨length, ?_⟩
    rw [UInt32.toNat_ofNat_of_lt' (decode_toNat length (Nat.le_refl 32)),
      LittleEndian.decode_eq_ofDigits]
  · intro bytes bits word
    obtain ⟨length, digits⟩ := word
    refine ⟨bytes, ⟨length, rfl⟩, ?_⟩
    rw [LittleEndian.decode_eq_ofDigits, digits, UInt32.ofNat_toNat]

theorem reads_f64 :
    Reader.Reads readF64 (fun bytes bits => LittleEndian.Word 8 bytes bits.toNat) := by
  apply (Reader.reads_bytes 8).wrap
  · intro bytes taken spelled
    obtain ⟨length, rfl⟩ := spelled
    refine ⟨length, ?_⟩
    rw [UInt64.toNat_ofNat_of_lt' (decode_toNat length (Nat.le_refl 64)),
      LittleEndian.decode_eq_ofDigits]
  · intro bytes bits word
    obtain ⟨length, digits⟩ := word
    refine ⟨bytes, ⟨length, rfl⟩, ?_⟩
    rw [LittleEndian.decode_eq_ofDigits, digits, UInt64.ofNat_toNat]

/-- Reading a kind of operands accepts exactly the byte strings of that kind. -/
theorem reads_operands (kind : Kind) : Reader.Reads (read kind) (Operands kind) := by
  cases kind with
  | blockType =>
    apply reads_blockType.wrap
    · intro bytes result spelled
      obtain ⟨byte, rfl, signature⟩ := spelled
      exact .blockType signature
    · intro bytes result operands
      cases operands with
      | blockType signature => exact ⟨_, ⟨_, rfl, signature⟩, rfl⟩
  | branchTarget =>
    apply reads_index.wrap Operands.branchTarget
    intro bytes result operands
    cases operands with
    | branchTarget field => exact ⟨_, field, rfl⟩
  | branchTable => exact reads_branchTable
  | callTarget =>
    apply reads_index.wrap Operands.callTarget
    intro bytes result operands
    cases operands with
    | callTarget field => exact ⟨_, field, rfl⟩
  | indirectCall =>
    apply (reads_index.bind fun signature => reads_reserved.map (indirectCall signature)).congr
    intro bytes result
    refine ⟨?_, ?_⟩
    · intro fields
      obtain ⟨signature, first, second, rfl, field, table, reserved, rfl⟩ := fields
      exact .indirectCall field reserved
    · intro operands
      cases operands with
      | indirectCall field reserved => exact ⟨_, _, _, rfl, field, _, reserved, rfl⟩
  | variableIndex =>
    apply reads_index.wrap Operands.variableIndex
    intro bytes result operands
    cases operands with
    | variableIndex field => exact ⟨_, field, rfl⟩
  | memoryAccess =>
    apply (reads_index.bind fun align => reads_index.map (memoryAccess align)).congr
    intro bytes result
    refine ⟨?_, ?_⟩
    · intro fields
      obtain ⟨align, first, second, rfl, field, offset, field', rfl⟩ := fields
      exact .memoryAccess field field'
    · intro operands
      cases operands with
      | memoryAccess field field' => exact ⟨_, _, _, rfl, field, _, field', rfl⟩
  | memorySize =>
    apply reads_reserved.wrap Operands.memorySize
    intro bytes result operands
    cases operands with
    | memorySize reserved => exact ⟨_, reserved, rfl⟩
  | i32Const =>
    apply (reads_signed (by decide) (by decide)).wrap
    · intro bytes number field
      apply Operands.i32Const
      rwa [Int32.toInt_ofInt_of_le field.fits.1 field.fits.2]
    · intro bytes result operands
      cases operands with
      | @i32Const _ value field =>
        exact ⟨value.toInt, field, congrArg i32Const (Int32.ofInt_toInt value).symm⟩
  | i64Const =>
    apply (reads_signed (by decide) (by decide)).wrap
    · intro bytes number field
      apply Operands.i64Const
      rwa [Int64.toInt_ofInt_of_le field.fits.1 field.fits.2]
    · intro bytes result operands
      cases operands with
      | @i64Const _ value field =>
        exact ⟨value.toInt, field, congrArg i64Const (Int64.ofInt_toInt value).symm⟩
  | f32Const =>
    apply reads_f32.wrap Operands.f32Const
    intro bytes result operands
    cases operands with
    | f32Const word => exact ⟨_, word, rfl⟩
  | f64Const =>
    apply reads_f64.wrap Operands.f64Const
    intro bytes result operands
    cases operands with
    | f64Const word => exact ⟨_, word, rfl⟩

def Counted : Immediate → Prop
  | branchTable labels _ => labels.length < 2 ^ 32
  | _ => True

/-- What the decoder's widths demand of operands: reserved indices are one bit
wide, and the number of labels is an index. -/
def Encodable : Immediate → Prop
  | branchTable labels _ => labels.length < 2 ^ 32
  | indirectCall _ table => table.toNat < 2
  | memorySize memory => memory.toNat < 2
  | _ => True

theorem indexField_encode (index : UInt32) : IndexField (encodeIndex index) index :=
  unsignedField_encode (by omega) index.toNat_lt

private theorem encodeLabels (labels : List UInt32) :
    List.Forall₂ IndexField (labels.map encodeIndex) labels := by
  induction labels with
  | nil => exact .nil
  | cons label labels ih => exact .cons (indexField_encode label) ih

theorem operands_encode {immediate : Immediate} (encodable : immediate.Encodable) :
    Operands immediate.kind immediate.encode immediate := by
  have reserved : ∀ {index : UInt32}, index.toNat < 2 → ReservedField (encodeIndex index) index :=
    fun small => unsignedField_encode (by omega) small
  cases immediate with
  | blockType result => exact .blockType (ofTag?_eq_some_iff.mp (BlockType.ofTag?_tag result))
  | branchTarget label => exact .branchTarget (indexField_encode label)
  | branchTable labels fallback =>
    rw [encode, List.flatMap_def]
    exact .branchTable (unsignedField_encode (by omega) encodable) (encodeLabels labels)
      (indexField_encode fallback)
  | callTarget function => exact .callTarget (indexField_encode function)
  | indirectCall signature table =>
    exact .indirectCall (indexField_encode signature) (reserved encodable)
  | variableIndex index => exact .variableIndex (indexField_encode index)
  | memoryAccess align offset =>
    exact .memoryAccess (indexField_encode align) (indexField_encode offset)
  | memorySize memory => exact .memorySize (reserved encodable)
  | i32Const value =>
    exact .i32Const (signedField_encode (by omega) value.le_toInt value.toInt_lt)
  | i64Const value =>
    exact .i64Const (signedField_encode (by omega) value.le_toInt value.toInt_lt)
  | f32Const bits => exact .f32Const (LittleEndian.word_encode bits.toNat_lt)
  | f64Const bits => exact .f64Const (LittleEndian.word_encode bits.toNat_lt)

theorem Operands.kind_eq {kind : Kind} {bytes : List UInt8} {immediate : Immediate}
    (operands : Operands kind bytes immediate) : immediate.kind = kind := by
  cases operands <;> rfl

theorem Operands.ne_nil {kind : Kind} {bytes : List UInt8} {immediate : Immediate}
    (operands : Operands kind bytes immediate) : bytes ≠ [] := by
  cases operands with
  | blockType => exact List.cons_ne_nil _ _
  | branchTarget field | callTarget field | variableIndex field | memorySize field
  | i32Const field | i64Const field => exact field.chained.ne_nil
  | branchTable counted =>
    exact List.append_ne_nil_of_left_ne_nil
      (List.append_ne_nil_of_left_ne_nil counted.chained.ne_nil _) _
  | indirectCall field | memoryAccess field =>
    exact List.append_ne_nil_of_left_ne_nil field.chained.ne_nil _
  | f32Const word | f64Const word => exact List.ne_nil_of_length_eq_add_one word.1

theorem Operands.encodable {kind : Kind} {bytes : List UInt8} {immediate : Immediate}
    (operands : Operands kind bytes immediate) : immediate.Encodable := by
  cases operands with
  | branchTable counted => exact counted.fits
  | indirectCall _ reserved => exact reserved.fits
  | memorySize reserved => exact reserved.fits
  | _ => trivial

private theorem labels_shorten {fields : List (List UInt8)} {labels : List UInt32}
    (each : List.Forall₂ IndexField fields labels) :
    Shortens (labels.flatMap encodeIndex) fields.flatten := by
  induction each with
  | nil => exact .refl []
  | cons field _ ih => exact (UnsignedField.shortens field).append ih

theorem Operands.shortens {kind : Kind} {bytes : List UInt8} {immediate : Immediate}
    (operands : Operands kind bytes immediate) : Shortens immediate.encode bytes := by
  cases operands with
  | blockType signature =>
    rw [encode, signature.tag_eq]
    exact .refl _
  | branchTarget field => exact UnsignedField.shortens field
  | branchTable counted each final =>
    exact (counted.shortens.append (labels_shorten each)).append (UnsignedField.shortens final)
  | callTarget field => exact UnsignedField.shortens field
  | indirectCall field reserved =>
    exact (UnsignedField.shortens field).append (UnsignedField.shortens reserved)
  | variableIndex field => exact UnsignedField.shortens field
  | memoryAccess field field' =>
    exact (UnsignedField.shortens field).append (UnsignedField.shortens field')
  | memorySize reserved => exact UnsignedField.shortens reserved
  | i32Const field => exact field.shortens
  | i64Const field => exact field.shortens
  | f32Const word => exact .inl word.encode_eq
  | f64Const word => exact .inl word.encode_eq

end Immediate
end WasmStream
