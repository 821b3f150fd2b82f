import WasmStream.Proofs.Coding
import WasmStream.Proofs.Inheritance

/-! Why reading fails, and where. Either the buffer ends too early, or some bytes of the
instruction are wrong; then the error lies where those bytes start, and all before them is right. -/

namespace WasmStream

/-- What can be wrong: the bytes read without fault, those from the faulty ones on, and the error
that tells of them. -/
abbrev Cause := List UInt8 → List UInt8 → DecodeError → Prop

namespace Reader
variable {α β : Type}

/-- The reader fails for no other reason than the cause or the end of the buffer. -/
def FailsBy (reader : Reader α) (cause : Cause) : Prop :=
  ∀ cursor error after, reader cursor = .error error after →
    error = .unexpectedEnd cursor.limit ∨
    ∃ read rest, cursor.unread = read ++ rest ∧ error.offset = cursor.position + read.length ∧
      cause read rest error

theorem failsBy_pure (value : α) (cause : Cause) : FailsBy (pure value) cause := by
  intro cursor error after failed
  cases failed

theorem byte_eq_error {cursor after : Cursor} {error : DecodeError}
    (failed : byte cursor = .error error after) : error = .unexpectedEnd cursor.limit := by
  simp only [byte] at failed
  split at failed
  next ended =>
    cases failed
    simp [Cursor.limit, Cursor.remaining, ended]
  · cases failed

private theorem failsBy_byte (cause : Cause) : FailsBy byte cause :=
  fun _ _ _ failed => .inl (byte_eq_error failed)

private theorem failsBy_bytes (count : Nat) (cause : Cause) : FailsBy (bytes count) cause := by
  intro cursor error after failed
  simp only [bytes] at failed
  split at failed
  · cases failed
  · cases failed
    exact .inl rfl

/-- The second of two readers fails behind bytes that the first has accepted. -/
theorem FailsBy.bind {reader : Reader α} {next : α → Reader β} {form : Form α}
    {cause : Cause} (first : FailsBy reader cause) (reads : Reads reader form)
    (second : ∀ value, FailsBy (next value) fun right rest error =>
      ∀ left, form left value → cause (left ++ right) rest error) :
    FailsBy (reader >>= next) cause := by
  intro cursor error after failed
  rcases bind_eq_error.mp failed with failed | ⟨value, middle, read, failed⟩
  · exact first cursor error after failed
  · obtain ⟨left, reached, spelled⟩ := (reads cursor value middle).mp read
    rcases second value middle error after failed with ended | ⟨right, rest, unread, offset, fault⟩
    · exact .inl (reached.limit_eq ▸ ended)
    · refine .inr ⟨left ++ right, rest, ?_, ?_, fault left spelled⟩
      · rw [reached.1, unread, List.append_assoc]
      · rw [offset, reached.2, List.length_append, Nat.add_assoc]

theorem FailsBy.map {reader : Reader α} {cause : Cause} (fails : FailsBy reader cause) (f : α → β) :
    FailsBy (reader >>= fun value => pure (f value)) cause := by
  intro cursor error after failed
  rcases bind_eq_error.mp failed with failed | ⟨value, middle, _, failed⟩
  · exact fails cursor error after failed
  · cases failed

theorem FailsBy.mono {reader : Reader α} {cause cause' : Cause} (fails : FailsBy reader cause)
    (implies : ∀ read rest error, cause read rest error → cause' read rest error) :
    FailsBy reader cause' := by
  intro cursor error after failed
  rcases fails cursor error after failed with ended | ⟨read, rest, unread, offset, fault⟩
  · exact .inl ended
  · exact .inr ⟨read, rest, unread, offset, implies read rest error fault⟩

end Reader

namespace Leb128
open Reader (FailsBy bind_eq_error)

inductive Numeral where
  | unsigned (width : Nat)
  | signed (width : Nat)

namespace Numeral

def width : Numeral → Nat
  | unsigned width => width
  | signed width => width

def Fits : Numeral → List UInt8 → Prop
  | unsigned width, bytes => magnitude bytes < 2 ^ width
  | signed width, bytes =>
    -2 ^ (width - 1) ≤ twosComplement bytes ∧ twosComplement bytes < 2 ^ (width - 1)

/-- As many bytes as the width can take are there. Either each of them announces another, or they
end with the last of them and their number is out of range. -/
inductive Malformed (numeral : Numeral) : VarintFault → List UInt8 → Prop where
  | tooLong {bytes rest} (full : bytes.length = numeral.width ⌈/⌉ 7)
      (endless : ∀ byte ∈ bytes, 128 ≤ byte.toNat) : Malformed numeral .tooLong (bytes ++ rest)
  | overflow {bytes rest} (full : bytes.length = numeral.width ⌈/⌉ 7) (chained : Chained bytes)
      (misfits : ¬ numeral.Fits bytes) : Malformed numeral .overflow (bytes ++ rest)

theorem Malformed.ne_nil {numeral : Numeral} {fault : VarintFault} {bytes : List UInt8}
    (malformed : numeral.Malformed fault bytes) (wide : 0 < numeral.width) : bytes ≠ [] := by
  have some : 0 < numeral.width ⌈/⌉ 7 := by
    rwa [lt_ceilDiv_seven_iff]
  have more : ∀ {bytes : List UInt8}, bytes.length = numeral.width ⌈/⌉ 7 → bytes ≠ [] :=
    fun full => List.ne_nil_of_length_pos (full ▸ some)
  cases malformed with
  | tooLong full => exact List.append_ne_nil_of_left_ne_nil (more full) _
  | overflow full => exact List.append_ne_nil_of_left_ne_nil (more full) _

inductive Fault (numeral : Numeral) : Cause where
  | malformed {start fault rest} (malformed : numeral.Malformed fault rest) :
      Fault numeral [] rest (.malformedVarint start numeral.width fault)

end Numeral

private theorem Numeral.fits_of_short {numeral : Numeral} {bytes : List UInt8}
    (short : bytes.length < numeral.width ⌈/⌉ 7) : numeral.Fits bytes := by
  have narrow := (lt_ceilDiv_seven_iff.mp short).le
  cases numeral with
  | unsigned => exact magnitude_lt_of_narrow narrow
  | signed => exact twosComplement_mem_of_narrow narrow

/-- A field fails over its bytes if each of them announces another. The fault is reported where the
field starts, so it is not one of the bytes read last. -/
private theorem field_eq_error {start width limit : Nat} {cursor after : Cursor}
    {error : DecodeError} (failed : field start width limit cursor = .error error after) :
    error = .unexpectedEnd cursor.limit ∨
    error = .malformedVarint start width .tooLong ∧
      ∃ bytes rest, cursor.unread = bytes ++ rest ∧ bytes.length = limit ∧
        ∀ byte ∈ bytes, 128 ≤ byte.toNat := by
  induction limit generalizing cursor with
  | zero =>
    cases failed
    exact .inr ⟨rfl, [], _, rfl, rfl, by simp⟩
  | succ limit ih =>
    rcases bind_eq_error.mp failed with failed | ⟨byte, middle, read, failed⟩
    · exact .inl (Reader.byte_eq_error failed)
    · have reached := Reader.byte_reached read
      split at failed
      next goes =>
        rcases bind_eq_error.mp failed with failed | ⟨_, _, _, failed⟩
        · rcases ih failed with ended | ⟨reported, bytes, rest, unread, length, endless⟩
          · exact .inl (reached.limit_eq ▸ ended)
          · refine .inr ⟨reported, byte :: bytes, rest, ?_, congrArg (· + 1) length, ?_⟩
            · rw [reached.1, unread]
              rfl
            · simpa using ⟨goes, endless⟩
        · cases failed
      next => cases failed

theorem failsBy_bounded {α : Type} (numeral : Numeral) {value : List UInt8 → α} {Fits : α → Prop}
    [DecidablePred Fits] (same : ∀ bytes, Fits (value bytes) ↔ numeral.Fits bytes) :
    FailsBy (bounded numeral.width value Fits) numeral.Fault := by
  intro cursor error after failed
  rw [bounded, Reader.position_bind] at failed
  rcases bind_eq_error.mp failed with failed | ⟨bytes, middle, read, failed⟩
  · rcases field_eq_error failed with ended | ⟨reported, bytes, rest, unread, length, endless⟩
    · exact .inl ended
    · refine .inr ⟨[], bytes ++ rest, unread, by rw [reported]; rfl, ?_⟩
      rw [reported]
      exact .malformed (.tooLong length endless)
  · obtain ⟨_, reached, rfl, chained, short⟩ := (reads_field _ _ _ _ _ _).mp read
    unfold checked at failed
    split at failed
    · cases failed
    next misfits =>
      rw [same] at misfits
      have full : bytes.length = numeral.width ⌈/⌉ 7 := by
        by_contra other
        exact misfits (Numeral.fits_of_short (Nat.lt_of_le_of_ne short other))
      cases failed
      exact .inr ⟨[], _, reached.1, rfl, .malformed (.overflow full chained misfits)⟩

theorem failsBy_unsigned {width : Nat} (positive : 0 < width) (word : width ≤ 64) :
    FailsBy (unsigned width) (Numeral.unsigned width).Fault := by
  rw [unsigned_eq_bounded positive word]
  exact failsBy_bounded (.unsigned width) fun bytes => Iff.rfl

theorem failsBy_signed {width : Nat} (positive : 0 < width) (word : width ≤ 64) :
    FailsBy (signed width) (Numeral.signed width).Fault := by
  rw [signed_eq_bounded positive word]
  exact failsBy_bounded (.signed width) fun bytes => Iff.rfl

end Leb128

namespace Immediate
open Leb128 (Numeral UnsignedField failsBy_unsigned failsBy_signed reads_unsigned)
open Reader (FailsBy bind_eq_error)

/-- The fields that the operands of a kind consist of: which numeral is to follow behind the bytes
of those before it. -/
inductive Kind.Expects : Kind → List UInt8 → Numeral → Prop where
  | blockType : Expects .blockType [] (.signed 7)
  | branchTarget : Expects .branchTarget [] (.unsigned 32)
  | count : Expects .branchTable [] (.unsigned 32)
  | label {count fields total labels} (counted : UnsignedField 32 count total)
      (each : List.Forall₂ IndexField fields labels) (more : labels.length ≤ total) :
      Expects .branchTable (count ++ fields.flatten) (.unsigned 32)
  | callTarget : Expects .callTarget [] (.unsigned 32)
  | signature : Expects .indirectCall [] (.unsigned 32)
  | table {first signature} (field : IndexField first signature) :
      Expects .indirectCall first (.unsigned 1)
  | variableIndex : Expects .variableIndex [] (.unsigned 32)
  | align : Expects .memoryAccess [] (.unsigned 32)
  | offset {first align} (field : IndexField first align) :
      Expects .memoryAccess first (.unsigned 32)
  | memorySize : Expects .memorySize [] (.unsigned 1)
  | i32Const : Expects .i32Const [] (.signed 32)
  | i64Const : Expects .i64Const [] (.signed 64)

theorem Kind.Expects.wide {kind : Kind} {read : List UInt8} {numeral : Numeral}
    (expects : kind.Expects read numeral) : 0 < numeral.width := by
  cases expects <;> simp [Numeral.width]

/-- What can be wrong with the operands of a kind, behind those bytes of them that are right. -/
inductive Fault (kind : Kind) : Cause where
  | numeral {read rest start fault numeral} (expects : kind.Expects read numeral)
      (malformed : numeral.Malformed fault rest) :
      Fault kind read rest (.malformedVarint start numeral.width fault)
  | signature {byte rest start} (asks : kind = .blockType) (stops : byte.toNat < 128)
      (strange : ∀ result, ¬ BlockSignature byte result) :
      Fault kind [] (byte :: rest) (.invalidBlockType byte start)

theorem fault_of_numeral {kind : Kind} {before read rest : List UInt8} {numeral : Numeral}
    {error : DecodeError} (expects : kind.Expects before numeral)
    (fault : numeral.Fault read rest error) : Fault kind (before ++ read) rest error := by
  cases fault with
  | malformed malformed =>
    rw [List.append_nil]
    exact .numeral expects malformed

theorem failsBy_first {α : Type} {reader : Reader α} {kind : Kind} {numeral : Numeral}
    (fails : FailsBy reader numeral.Fault) (expects : kind.Expects [] numeral) :
    FailsBy reader (Fault kind) :=
  fails.mono fun _ _ _ => fault_of_numeral expects

theorem failsBy_index : FailsBy readIndex (Numeral.unsigned 32).Fault :=
  (failsBy_unsigned (by decide) (by decide)).map UInt32.ofNat

private theorem failsBy_reserved : FailsBy readReserved (Numeral.unsigned 1).Fault :=
  (failsBy_unsigned (by decide) (by decide)).map UInt32.ofNat

private theorem failsBy_blockType : FailsBy readBlockType (Fault .blockType) := by
  intro cursor error after failed
  rw [readBlockType, Reader.position_bind] at failed
  rcases bind_eq_error.mp failed with failed | ⟨value, middle, read, failed⟩
  · exact failsBy_first (failsBy_signed (by decide) (by decide)) .blockType cursor error after failed
  · obtain ⟨bytes, reached, field⟩ := (Leb128.reads_signed (by decide) (by decide) _ _ _).mp read
    obtain ⟨byte, rfl, stops, rfl⟩ := signedField_seven_iff.mp field
    rw [tag_of_stops stops] at failed
    cases found : BlockType.ofTag? byte with
    | some result =>
      rw [found] at failed
      cases failed
    | none =>
      rw [found] at failed
      cases failed
      refine .inr ⟨[], _, reached.1, rfl, .signature rfl stops ?_⟩
      intro result signature
      cases found.symm.trans (ofTag?_eq_some_iff.mpr signature)

private theorem failsBy_labels (count : Nat) (labels : Array UInt32) :
    FailsBy (readLabelsInto readIndex count labels) fun read rest error => ∃ fields labels,
      read = List.flatten fields ∧ List.Forall₂ IndexField fields labels ∧ labels.length < count ∧
        (Numeral.unsigned 32).Fault [] rest error := by
  induction count generalizing labels with
  | zero => exact Reader.failsBy_pure _ _
  | succ count ih =>
    refine FailsBy.bind (failsBy_index.mono ?_) reads_index fun label =>
      (ih (labels.push label)).mono ?_
    · intro read rest error fault
      cases fault with
      | malformed malformed => exact ⟨[], [], rfl, .nil, Nat.succ_pos _, .malformed malformed⟩
    · rintro read rest error ⟨fields, labels, rfl, each, fewer, fault⟩ left field
      exact ⟨left :: fields, label :: labels, rfl, .cons field each, Nat.succ_lt_succ fewer, fault⟩

private theorem failsBy_branchTable : FailsBy readBranchTable (Fault .branchTable) := by
  rw [readBranchTable_eq]
  refine FailsBy.bind (failsBy_first (failsBy_unsigned (by decide) (by decide)) .count)
    (reads_unsigned (by decide) (by decide)) fun count =>
      FailsBy.bind ((failsBy_labels count #[]).mono ?_) (reads_labels count #[])
        fun labels => (failsBy_index.map _).mono ?_
  · rintro read rest error ⟨fields, labels, rfl, each, fewer, fault⟩ left counted
    simpa using fault_of_numeral (.label counted each fewer.le) fault
  · rintro read rest error fault _ ⟨fields, more, rfl, each, length, -⟩ left counted
    rw [← List.append_assoc]
    exact fault_of_numeral (.label counted each length.le) fault

/-- Reading a kind of operands fails only for a fault of that kind. -/
theorem failsBy_operands (kind : Kind) : FailsBy (read kind) (Fault kind) := by
  cases kind with
  | blockType => exact failsBy_blockType.map _
  | branchTarget => exact (failsBy_first failsBy_index .branchTarget).map _
  | branchTable => exact failsBy_branchTable
  | callTarget => exact (failsBy_first failsBy_index .callTarget).map _
  | indirectCall =>
    refine FailsBy.bind (failsBy_first failsBy_index .signature) reads_index fun signature =>
      (failsBy_reserved.map _).mono ?_
    exact fun read rest error fault left field => fault_of_numeral (.table field) fault
  | variableIndex => exact (failsBy_first failsBy_index .variableIndex).map _
  | memoryAccess =>
    refine FailsBy.bind (failsBy_first failsBy_index .align) reads_index fun align =>
      (failsBy_index.map _).mono ?_
    exact fun read rest error fault left field => fault_of_numeral (.offset field) fault
  | memorySize => exact (failsBy_first failsBy_reserved .memorySize).map _
  | i32Const => exact (failsBy_first (failsBy_signed (by decide) (by decide)) .i32Const).map _
  | i64Const => exact (failsBy_first (failsBy_signed (by decide) (by decide)) .i64Const).map _
  | f32Const => exact ((Reader.failsBy_bytes 4 _).map _).map _
  | f64Const => exact ((Reader.failsBy_bytes 8 _).map _).map _

end Immediate

namespace Decoder
open Reader (FailsBy bind_eq_error)

inductive CodingFault (registry : Registry) : Cause where
  | opcode {byte rest start}
      (unknown : ∀ descriptor ∈ registry.descriptors, descriptor.opcode ≠ byte) :
      CodingFault registry [] (byte :: rest) (.unknownOpcode byte start)
  | operands {descriptor kind read rest error} (known : descriptor ∈ registry.descriptors)
      (asks : descriptor.immediate = some kind) (fault : Immediate.Fault kind read rest error) :
      CodingFault registry (descriptor.opcode :: read) rest error

theorem failsBy_descriptor (registry : Registry) :
    FailsBy (readDescriptor registry) (CodingFault registry) := by
  intro cursor error after failed
  rw [readDescriptor, Reader.position_bind] at failed
  rcases bind_eq_error.mp failed with failed | ⟨byte, middle, read, failed⟩
  · exact Reader.failsBy_byte _ cursor error after failed
  · have reached := Reader.byte_reached read
    cases found : registry.lookup byte with
    | ok descriptor =>
      rw [found] at failed
      cases failed
    | error unknown =>
      obtain ⟨rfl, absent⟩ := Registry.lookup_eq_error found
      rw [found] at failed
      cases failed
      exact .inr ⟨[], _, reached.1, rfl, .opcode absent⟩

theorem failsBy_instruction (registry : Registry) :
    FailsBy (readInstruction registry) (CodingFault registry) := by
  refine FailsBy.bind (failsBy_descriptor registry) (reads_descriptor registry) fun descriptor =>
    FailsBy.map ?_ _
  unfold readOperands
  split
  next kind asks =>
    refine ((Immediate.failsBy_operands kind).map _).mono ?_
    rintro read rest error fault _ ⟨known, rfl⟩
    exact .operands known asks fault
  next => exact Reader.failsBy_pure _ _

end Decoder
end WasmStream
