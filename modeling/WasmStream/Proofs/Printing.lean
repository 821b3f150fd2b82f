import WasmStream.Proofs.Lines

/-! Assembling what was printed. A text is assembled line by line, so it is enough that each
line stands for its instruction; the instructions of a whole list then come back in order,
and only the constants that are no number lose their bits. -/

namespace WasmStream.Assembly

private theorem operands?_words {opcode : Opcode} {immediate : Option Immediate}
    (fits : opcode.descriptor.Fits immediate) :
    operands? opcode (operandWords immediate) = some (immediate.map Immediate.quiet) := by
  have asks : immediate.map Immediate.kind = opcode.immediateKind := fits.kind
  unfold operands?
  cases immediate with
  | none =>
    rw [← asks]
    rfl
  | some immediate =>
    have read := Immediate.ofWords?_words (fits.encodable immediate rfl)
    rw [← asks]
    simp [operandWords, read]

theorem assembleLine_line {opcode : Opcode} {immediate : Option Immediate}
    (fits : opcode.descriptor.Fits immediate) :
    assembleLine (line opcode.mnemonic immediate).toList =
      .ok (opcode.encode (immediate.map Immediate.quiet)) := by
  simp only [assembleLine, ofText?_line, assembleInstruction, Opcode.ofMnemonic?_mnemonic,
    operands?_words fits]

private theorem assembleLines_map {α : Type} {items : List α} {text : α → List Char}
    {bytes : α → List UInt8} (each : ∀ item ∈ items, assembleLine (text item) = .ok (bytes item))
    (number : Nat) : assembleLines number (items.map text) = .ok (items.flatMap bytes) := by
  induction items generalizing number with
  | nil => rfl
  | cons item items ih =>
    have later := ih (fun other member => each other (.tail _ member)) (number + 1)
    simp only [List.map_cons, assembleLines, each item List.mem_cons_self, later, Except.map,
      List.flatMap_cons]

private theorem toList_joinLines (texts : List String) :
    (joinLines texts).toList = ['\n'].intercalate (texts.map String.toList) := by
  rw [joinLines, String.toList_intercalate]
  rfl

theorem assemble_joinLines_map {α : Type} {items : List α} {text : α → String}
    {bytes : α → List UInt8} (isLine : ∀ item ∈ items, Text.IsLine (text item).toList)
    (each : ∀ item ∈ items, assembleLine (text item).toList = .ok (bytes item)) :
    assemble (joinLines (items.map text)) = .ok (items.flatMap bytes) := by
  have lines : Text.lines (joinLines (items.map text)).toList =
      items.map fun item => (text item).toList := by
    rw [toList_joinLines, List.map_map, Text.lines_intercalate]
    · rfl
    · intro line listed
      obtain ⟨item, member, same⟩ := List.mem_map.mp listed
      exact same ▸ isLine item member
  rw [assemble, lines, assembleLines_map each]

/-- Printed instructions are assembled into their own bytes, apart from the bits of constants
that are no number. -/
theorem assemble_printed (items : List (Opcode × Option Immediate))
    (fit : ∀ item ∈ items, item.1.descriptor.Fits item.2) :
    assemble (joinLines (items.map fun item => line item.1.mnemonic item.2)) =
      .ok (items.flatMap fun item => item.1.encode (item.2.map Immediate.quiet)) := by
  apply assemble_joinLines_map
  · intro item _
    exact isLine_line item.1 item.2
  · intro item member
    exact assembleLine_line (fit item member)

/-- A block without a type, an empty branch table, the least integer, a negative zero, a
subnormal, and a constant that is no number and has a sign and a payload. -/
theorem assemble_printed_extremes :
    let items : List (Opcode × Option Immediate) := [(.block, some (.blockType none)),
      (.brTable, some (.branchTable [] 0xffffffff)), (.callIndirect, some (.indirectCall 128 1)),
      (.i32Const, some (.i32Const Int32.minValue)), (.f32Const, some (.f32Const 0x80000000)),
      (.f64Const, some (.f64Const 0x8000000000000001)), (.f32Const, some (.f32Const 0xffa00001)),
      (.endBlock, none)]
    (∀ item ∈ items, item.1.descriptor.Fits item.2) ∧
    assemble (joinLines (items.map fun item => line item.1.mnemonic item.2)) =
      .ok [0x02, 0x40, 0x0e, 0x00, 0xff, 0xff, 0xff, 0xff, 0x0f, 0x11, 0x80, 0x01, 0x01,
        0x41, 0x80, 0x80, 0x80, 0x80, 0x78, 0x43, 0x00, 0x00, 0x00, 0x80,
        0x44, 0x01, 0x00, 0x00, 0x00, 0x00, 0x00, 0x00, 0x80, 0x43, 0x00, 0x00, 0xc0, 0x7f, 0x0b] := by
  intro items
  have fit : ∀ item ∈ items, item.1.descriptor.Fits item.2 := by
    intro item member
    simp only [items, List.mem_cons, List.not_mem_nil, or_false] at member
    rcases member with same | same | same | same | same | same | same | same
    all_goals
      subst same
      exact ⟨rfl, by simp [Immediate.Encodable]⟩
  refine ⟨fit, (assemble_printed items fit).trans (congrArg Except.ok ?_)⟩
  decide +kernel

end WasmStream.Assembly
