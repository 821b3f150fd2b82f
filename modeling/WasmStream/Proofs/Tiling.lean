import WasmStream.Proofs.Points

/-! The instructions of a run lie side by side in the buffer. Each takes the bytes from its own
offset up to where the decoder stands behind it, and those bytes alone say what it is. -/

namespace WasmStream.Decoder

/-- The bytes hold the instruction and nothing else: the opcode byte that the registry knows it by,
and operands that are read to their end where nothing follows them. What is reserved in them is 0
or 1. -/
inductive Holds (registry : Registry) (instruction : Instruction) : List UInt8 → Prop where
  | plain {opcode} (known : registry.lookup opcode = .ok instruction.descriptor)
      (asks : instruction.descriptor.immediate = none) (carries : instruction.immediate = none) :
      Holds registry instruction [opcode]
  | operands {opcode operands kind value}
      (known : registry.lookup opcode = .ok instruction.descriptor)
      (asks : instruction.descriptor.immediate = some kind)
      (carries : instruction.immediate = some value)
      (read : Immediate.read kind (.ofBytes operands) = .ok value ⟨operands.length, []⟩)
      (kind : value.kind = kind) (encodable : value.Encodable) :
      Holds registry instruction (opcode :: operands)

variable {registry : Registry} {mode : Mode} {bytes : List UInt8} {decoder after : Decoder}
  {coded : Coded} {instruction : Instruction}

private theorem Takes.holds (takes : Takes decoder coded instruction after) :
    Holds decoder.registry instruction coded.bytes := by
  obtain ⟨member, spelled⟩ := takes.valid
  have known := Registry.lookup_eq_ok_iff.mpr ⟨member, rfl⟩
  rw [takes.recorded]
  obtain ⟨bytes, descriptor, immediate⟩ := coded
  dsimp only at spelled
  cases spelled with
  | plain asks => exact .plain known asks rfl
  | operands asks operands =>
    have read := (Immediate.reads_operands _).whole_iff.mpr operands
    exact .operands known asks rfl read operands.kind_eq operands.encodable

theorem Takes.slice {read : List UInt8} (takes : Takes decoder coded instruction after)
    (reached : (Cursor.ofBytes bytes).Reached read decoder.cursor) :
    (bytes.drop decoder.cursor.position).take (after.cursor.position - decoder.cursor.position) =
      coded.bytes := by
  rw [reached.drop_eq, takes.reached.take_eq]

private theorem reached_point {place : Nat}
    (inside : place ≤ (ofBytes registry mode bytes).run.instructions.length) :
    ∃ read, (Cursor.ofBytes bytes).Reached read
      ((ofBytes registry mode bytes).point place).cursor := by
  refine point_induction
    (motive := fun _ point => ∃ read, (Cursor.ofBytes bytes).Reached read point.cursor)
    ⟨[], .refl _⟩ ?_ place inside
  intro place coded instruction _ takes ⟨read, reached⟩
  exact ⟨read ++ coded.bytes, reached.trans takes.reached⟩

theorem offsets_increase (decoder : Decoder) :
    (decoder.run.instructions.map Instruction.offset).Pairwise (· < ·) := by
  rw [List.pairwise_map, List.pairwise_iff_getElem]
  intro first second inside inside' order
  obtain ⟨coded, takes⟩ := takes_point (List.getElem?_eq_getElem inside)
  rw [offset_eq_position (List.getElem?_eq_getElem inside),
    offset_eq_position (List.getElem?_eq_getElem inside')]
  exact takes.position_lt.trans_le (position_point_mono order inside'.le)

/-- The instructions of a run cover the buffer from its first byte on, in order and without a gap
or an overlap, and up to its last byte if the run ends well. -/
theorem instructions_tile (registry : Registry) (mode : Mode) (bytes : List UInt8) :
    let start := ofBytes registry mode bytes
    let reached := fun place => (start.point place).cursor.position
    reached 0 = 0 ∧
    (start.run.instructions.map Instruction.offset).Pairwise (· < ·) ∧
    (∀ place instruction, start.run.instructions[place]? = some instruction →
      instruction.offset = reached place ∧ instruction.offset < reached (place + 1) ∧
      reached (place + 1) ≤ bytes.length ∧
      Holds registry instruction
        ((bytes.drop instruction.offset).take (reached (place + 1) - instruction.offset))) ∧
    (start.run.failure = none → reached start.run.instructions.length = bytes.length) := by
  intro start reached
  refine ⟨rfl, offsets_increase start, ?_, ?_⟩
  · intro place instruction yielded
    obtain ⟨coded, takes⟩ := takes_point yielded
    obtain ⟨inside, -⟩ := List.getElem?_eq_some_iff.mp yielded
    obtain ⟨read, passed⟩ := reached_point (Nat.le_of_lt inside)
    have offset : instruction.offset = reached place := offset_eq_position yielded
    have limit : (start.point (place + 1)).cursor.limit = bytes.length :=
      takes.reached.limit_eq.trans passed.length_eq
    have known : (start.point place).registry = registry := registry_point (Nat.le_of_lt inside)
    have holds := takes.holds
    rw [known, ← takes.slice passed] at holds
    rw [offset]
    exact ⟨rfl, takes.position_lt, Nat.le.intro limit, holds⟩
  · intro clean
    have final := cursor_final clean
    rw [final_eq_point clean] at final
    exact congrArg Cursor.position final

/-- A constant that takes a byte more than it needs, with another instruction behind it. -/
theorem instructions_tile_constant :
    let start := ofBytes .standard .bare [0x41, 0x87, 0x00, 0x1a]
    let constant : Instruction := ⟨0, Opcode.i32Const.descriptor, some (.i32Const 7), 0, true⟩
    start.run.instructions[0]? = some constant ∧ (start.point 1).cursor.position = 3 ∧
    Holds .standard constant [0x41, 0x87, 0x00] := by
  intro start constant
  have yielded : start.run.instructions[0]? = some constant := by decide +kernel
  have reached : (start.point 1).cursor.position = 3 := by decide +kernel
  obtain ⟨-, -, each, -⟩ := instructions_tile .standard .bare [0x41, 0x87, 0x00, 0x1a]
  obtain ⟨-, -, -, holds⟩ := each 0 constant yielded
  have bounds : (start.point (0 + 1)).cursor.position - constant.offset = 3 := reached
  dsimp only at holds
  rw [bounds] at holds
  exact ⟨yielded, reached, holds⟩

end WasmStream.Decoder
