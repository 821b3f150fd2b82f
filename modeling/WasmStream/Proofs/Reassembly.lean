import WasmStream.Proofs.BlockMachine
import WasmStream.Proofs.Printing

/-! Text that can be assembled, decoded and printed again. The instructions on its lines are
whole in the bytes, so that only the blocks can stop the decoder, and only in front of an
instruction or behind the last one. What was decoded up to there is printed as text that is
assembled into the very bytes it was decoded from. -/

namespace WasmStream

namespace Assembly
open Decoder

def instruction? (text : List Char) : Option (Opcode × Option Immediate) :=
  match Line.ofText? text with
  | some (.instruction mnemonic words) => do
    let opcode ← Opcode.ofMnemonic? mnemonic
    let immediate ← operands? opcode words
    return (opcode, immediate)
  | _ => none

def instructions (text : String) : List (Opcode × Option Immediate) :=
  (Text.lines text.toList).filterMap instruction?

theorem assembleLine_eq_ok_iff {text : List Char} {bytes : List UInt8} :
    assembleLine text = .ok bytes ↔
      (Line.ofText? text = some .blank ∧ instruction? text = none ∧ bytes = []) ∨
      ∃ opcode immediate, instruction? text = some (opcode, immediate) ∧
        bytes = opcode.encode immediate := by
  unfold assembleLine instruction?
  cases Line.ofText? text with
  | none => simp
  | some line =>
    cases line with
    | blank => simp [eq_comm]
    | instruction mnemonic words =>
      simp only [assembleInstruction]
      cases Opcode.ofMnemonic? mnemonic with
      | none => simp
      | some opcode => cases operands : operands? opcode words <;> simp [operands, eq_comm]

private theorem instructions_of_assembleLines {number : Nat} {texts : List (List Char)}
    {bytes : List UInt8} (assembled : assembleLines number texts = .ok bytes) :
    bytes = (texts.filterMap instruction?).flatMap fun item => item.1.encode item.2 := by
  induction texts generalizing number bytes with
  | nil =>
    cases assembled
    rfl
  | cons text texts ih =>
    unfold assembleLines at assembled
    cases first : assembleLine text with
    | error fault =>
      rw [first] at assembled
      cases assembled
    | ok front =>
      cases later : assembleLines (number + 1) texts with
      | error error =>
        rw [first, later] at assembled
        cases assembled
      | ok back =>
        rw [first, later] at assembled
        have both : front ++ back = bytes := Except.ok.inj assembled
        rw [← both, ih later]
        rcases assembleLine_eq_ok_iff.mp first with ⟨_, blank, nothing⟩ | ⟨_, _, listed, encoded⟩
        · rw [List.filterMap_cons_none blank, nothing, List.nil_append]
        · rw [List.filterMap_cons_some listed, List.flatMap_cons, encoded]

private theorem instructions_of_assemble {text : String} {bytes : List UInt8}
    (assembled : assemble text = .ok bytes) :
    bytes = (instructions text).flatMap fun item => item.1.encode item.2 :=
  instructions_of_assembleLines assembled

/-- Operands that were read stay what they are when they are written and read again, and they
can be decoded unless they are a table with too many labels. -/
private theorem read_of_operands? {opcode : Opcode} {words : List String}
    {immediate : Option Immediate} (read : operands? opcode words = some immediate) :
    immediate.map Immediate.quiet = immediate ∧
      ((∀ operands ∈ immediate, operands.Counted) → opcode.descriptor.Fits immediate) := by
  cases asks : opcode.immediateKind with
  | none =>
    simp only [operands?, asks] at read
    split at read
    · cases read
      exact ⟨rfl, fun _ => ⟨asks.symm, by simp⟩⟩
    · cases read
  | some kind =>
    simp only [operands?, asks] at read
    obtain ⟨operands, spelled, same⟩ := Option.map_eq_some_iff.mp read
    subst same
    obtain ⟨kind_eq, quiet_eq, encodable⟩ := Immediate.read_ofWords? spelled
    refine ⟨congrArg some quiet_eq, fun counted => ⟨?_, ?_⟩⟩
    · exact (congrArg some kind_eq).trans asks.symm
    · intro other same
      cases same
      exact encodable (counted operands rfl)

private theorem read_of_mem {text : String} {item : Opcode × Option Immediate}
    (member : item ∈ instructions text) : ∃ words, operands? item.1 words = some item.2 := by
  obtain ⟨line, _, stands⟩ := List.mem_filterMap.mp member
  unfold instruction? at stands
  split at stands
  · obtain ⟨opcode, _, stands⟩ := Option.bind_eq_some_iff.mp stands
    obtain ⟨immediate, operands, same⟩ := Option.bind_eq_some_iff.mp stands
    cases same
    exact ⟨_, operands⟩
  · cases stands

/-- Encoded instructions are decoded in order until the run ends, and where it ends is the
number of bytes of those that were decoded. -/
private theorem exists_decoded (mode : Mode) {items : List (Opcode × Option Immediate)}
    (fit : ∀ item ∈ items, item.1.descriptor.Fits item.2) :
    let run := (ofBytes .standard mode (items.flatMap fun item => item.1.encode item.2)).run
    ∃ read rest, items = read ++ rest ∧
      run.instructions.map (fun instruction => (instruction.descriptor, instruction.immediate)) =
        read.map (fun item => (item.1.descriptor, item.2)) ∧
      Halts run (read.flatMap fun item => item.1.encode item.2).length
        (rest.map fun item => item.1.coded item.2) := by
  intro run
  have fresh : ∀ error, (ofBytes .standard mode (items.flatMap fun item =>
      item.1.encode item.2)).phase ≠ .failed error := by simp [ofBytes]
  obtain ⟨coded, coded', both, yields, halts⟩ := exists_halts fresh (Opcode.bytes_coded items).symm
    (Opcode.valid_of_mem_coded fit)
  obtain ⟨read, rest, split, same, same'⟩ := List.map_eq_append_iff.mp both
  subst same same'
  refine ⟨read, rest, split, ?_, ?_⟩
  · rw [yields, List.map_map]
    rfl
  · rw [Opcode.bytes_coded] at halts
    have start : (ofBytes .standard mode (items.flatMap fun item =>
        item.1.encode item.2)).cursor.position = 0 := rfl
    rwa [start, Nat.zero_add] at halts

/-- Instructions that come from text are printed, after they were decoded, as text that stands
for the same bytes. -/
theorem assemble_decoded {run : Run} {items : List (Opcode × Option Immediate)}
    (decoded : run.instructions.map (fun instruction =>
      (instruction.descriptor, instruction.immediate)) =
        items.map fun item => (item.1.descriptor, item.2))
    (fit : ∀ item ∈ items, item.1.descriptor.Fits item.2)
    (settled : ∀ item ∈ items, item.2.map Immediate.quiet = item.2) :
    assemble (joinLines (run.instructions.map fun instruction =>
      line instruction.descriptor.mnemonic instruction.immediate)) =
        .ok (items.flatMap fun item => item.1.encode item.2) := by
  have printed : (run.instructions.map fun instruction =>
      line instruction.descriptor.mnemonic instruction.immediate) =
        items.map fun item => line item.1.mnemonic item.2 := by
    have lines := congrArg (List.map fun value => line value.1.mnemonic value.2) decoded
    rw [List.map_map, List.map_map] at lines
    exact lines
  rw [printed]
  apply assemble_joinLines_map
  · intro item _
    exact isLine_line item.1 item.2
  · intro item member
    rw [assembleLine_line (fit item member), settled item member]

/-- Whatever can be assembled is decoded again, each instruction of the text in its place, until
the text ends or its blocks do not fit; and printing what was decoded gives back its bytes. -/
theorem run_assembled {text : String} {bytes : List UInt8} (assembled : assemble text = .ok bytes)
    (counted : ∀ item ∈ instructions text, ∀ immediate ∈ item.2, immediate.Counted) (mode : Mode) :
    let run := (ofBytes .standard mode bytes).run
    let decoded := run.instructions.map fun instruction =>
      (instruction.descriptor, instruction.immediate)
    let listed := (instructions text).map fun item => (item.1.descriptor, item.2)
    let printed := joinLines (run.instructions.map fun instruction =>
      line instruction.descriptor.mnemonic instruction.immediate)
    (decoded = listed ∧ assemble printed = .ok bytes ∧
      (run.failure = none ∨
        run.failure = some (.unexpectedEnd bytes.length) ∧ run.final.nesting.levels ≠ [])) ∨
    ∃ offset fault, run.failure = some (.malformedNesting offset fault) ∧ offset ≤ bytes.length ∧
      decoded <+: listed ∧ assemble printed = .ok (bytes.take offset) := by
  obtain rfl := instructions_of_assemble assembled
  intro run decoded listed printed
  have fit : ∀ item ∈ instructions text, item.1.descriptor.Fits item.2 := by
    intro item member
    obtain ⟨words, read⟩ := read_of_mem member
    exact (read_of_operands? read).2 (counted item member)
  have settled : ∀ item ∈ instructions text, item.2.map Immediate.quiet = item.2 := by
    intro item member
    obtain ⟨words, read⟩ := read_of_mem member
    exact (read_of_operands? read).1
  obtain ⟨read, rest, split, yields, halts⟩ := exists_decoded mode fit
  have again : assemble printed = .ok (read.flatMap fun item => item.1.encode item.2) :=
    assemble_decoded yields (fun item member => fit item (by simp [split, member]))
      fun item member => settled item (by simp [split, member])
  have whole : rest = [] → read = instructions text := by
    intro nothing
    rw [split, nothing, List.append_nil]
  generalize left : (rest.map fun item => item.1.coded item.2) = unread at halts
  cases halts with
  | finished clean =>
    have all := whole (List.map_eq_nil_iff.mp left)
    rw [all] at yields again
    exact .inl ⟨yields, again, .inl clean⟩
  | unfinished failed opened =>
    have all := whole (List.map_eq_nil_iff.mp left)
    rw [all] at yields again failed
    exact .inl ⟨yields, again, .inr ⟨failed, opened⟩⟩
  | refused failed =>
    have front : ((instructions text).flatMap fun item => item.1.encode item.2).take
        (read.flatMap fun item => item.1.encode item.2).length =
        read.flatMap fun item => item.1.encode item.2 := by
      rw [split, List.flatMap_append, List.take_left]
    refine .inr ⟨_, _, failed, ?_, ?_, ?_⟩
    · rw [split, List.flatMap_append, List.length_append]
      exact Nat.le_add_right _ _
    · simp only [decoded, listed, run, yields, split, List.map_append]
      exact List.prefix_append _ _
    · rw [front]
      exact again

/-- Comments, tabs, carriage returns, names in other letters, a constant out of range, an operand
left out, and at last one `else` too many. -/
theorem run_assembled_refused :
    let text := "\tif f32 # to the end\r\n\r\nbr_table 3\t0 ;;\n  f32.const nAn\nf64.const -1e400;;" ++
      "\ncall_indirect 07\nelse\nelse\nnop"
    let bytes : List UInt8 := [0x04, 0x7d, 0x0e, 0x01, 0x03, 0x00, 0x43, 0x00, 0x00, 0xc0, 0x7f,
      0x44, 0x00, 0x00, 0x00, 0x00, 0x00, 0x00, 0xf0, 0xff, 0x11, 0x07, 0x00, 0x05, 0x05, 0x01]
    let run := (ofBytes .standard .bare bytes).run
    assemble text = .ok bytes ∧
    (∀ item ∈ instructions text, ∀ immediate ∈ item.2, immediate.Counted) ∧
    run.failure = some (.malformedNesting 24 .duplicateElse) ∧
    assemble (joinLines (run.instructions.map fun instruction =>
      line instruction.descriptor.mnemonic instruction.immediate)) = .ok (bytes.take 24) := by
  intro text bytes run
  have assembled : assemble text = .ok bytes := by decide +kernel
  have items : instructions text = [(.ifBlock, some (.blockType (some .f32))),
      (.brTable, some (.branchTable [3] 0)), (.f32Const, some (.f32Const 0x7fc00000)),
      (.f64Const, some (.f64Const 0xfff0000000000000)),
      (.callIndirect, some (.indirectCall 7 0)), (.elseArm, none), (.elseArm, none),
      (.nop, none)] := by decide +kernel
  have counted : ∀ item ∈ instructions text, ∀ immediate ∈ item.2, immediate.Counted := by
    simp [items, Immediate.Counted]
  have failed : run.failure = some (.malformedNesting 24 .duplicateElse) := by decide +kernel
  refine ⟨assembled, counted, failed, ?_⟩
  rcases run_assembled assembled counted .bare with ⟨_, _, clean | ⟨ended, _⟩⟩ |
    ⟨offset, fault, refused, _, _, again⟩
  · cases failed.symm.trans clean
  · cases failed.symm.trans ended
  · cases failed.symm.trans refused
    exact again

private theorem assemble_branchTable (labels : List UInt32) (fallback : UInt32) :
    assemble (line Opcode.brTable.mnemonic (some (.branchTable labels fallback))) =
      .ok (Opcode.brTable.encode (some (.branchTable labels fallback))) := by
  have kind : Opcode.brTable.immediateKind = some .branchTable := rfl
  have operands : operands? .brTable (operandWords (some (.branchTable labels fallback))) =
      some (some (.branchTable labels fallback)) := by
    have read := Immediate.branchTable?_words labels fallback
    simp [operands?, kind, operandWords, Immediate.ofWords?, Immediate.words, read]
  have assembled : assembleLine (line Opcode.brTable.mnemonic
      (some (.branchTable labels fallback))).toList =
        .ok (Opcode.brTable.encode (some (.branchTable labels fallback))) := by
    simp only [assembleLine, ofText?_line, assembleInstruction, Opcode.ofMnemonic?_mnemonic, operands]
  rw [assemble, (isLine_line .brTable _).lines_eq, assembleLines, assembled]
  simp [assembleLines, Except.map]

private theorem run_overlong (mode : Mode) (rest : List UInt8) :
    let run := (ofBytes .standard mode (0x0e :: 0x80 :: 0x80 :: 0x80 :: 0x80 :: 0x10 :: rest)).run
    run.instructions = [] ∧ run.failure = some (.malformedVarint 1 32 .overflow) := by
  let unread : List UInt8 := 0x80 :: 0x80 :: 0x80 :: 0x80 :: 0x10 :: rest
  have known : Registry.standard.lookup 0x0e = .ok Opcode.brTable.descriptor :=
    Registry.lookup_eq_ok_iff.mpr ⟨Opcode.mem_standard_iff.mpr ⟨.brTable, rfl⟩, rfl⟩
  have opcode : readDescriptor .standard ⟨0, 0x0e :: unread⟩ =
      .ok Opcode.brTable.descriptor ⟨1, unread⟩ := by
    refine Reader.bind_eq_ok.mpr ⟨0, _, rfl, Reader.bind_eq_ok.mpr ⟨0x0e, _, rfl, ?_⟩⟩
    simp only [known]
    rfl
  have count : Leb128.unsigned 32 ⟨1, unread⟩ =
    .error (.malformedVarint 1 32 .overflow) ⟨6, rest⟩ := rfl
  have operands : readOperands Opcode.brTable.descriptor ⟨1, unread⟩ =
      .error (.malformedVarint 1 32 .overflow) ⟨6, rest⟩ :=
    Reader.bind_eq_error.mpr (.inl (Reader.bind_eq_error.mpr (.inl count)))
  have fails : Fails (ofBytes .standard mode (0x0e :: unread)) _ _ :=
    .unread rfl (Reader.bind_eq_error.mpr (.inr ⟨_, _, opcode,
      Reader.bind_eq_error.mpr (.inl operands)⟩))
  have unfinished : (ofBytes .standard mode (0x0e :: unread)).isFinished = false :=
    unfinished_of_unread (by simp [ofBytes]) (List.cons_ne_nil _ _)
  intro run
  have same : run = _ := run_of_fails unfinished fails
  rw [same]
  exact ⟨rfl, rfl⟩

/-- One label more than the count has room for is taken from a text, but not from its bytes. -/
theorem run_assembled_overlong :
    let table := Immediate.branchTable (List.replicate (2 ^ 32) 0) 0
    ∃ bytes, assemble (line "br_table" (some table)) = .ok bytes ∧ ∀ mode,
      (ofBytes .standard mode bytes).run.instructions = [] ∧
      (ofBytes .standard mode bytes).run.failure = some (.malformedVarint 1 32 .overflow) := by
  intro table
  have count : Leb128.encodeUnsigned (2 ^ 32) = [0x80, 0x80, 0x80, 0x80, 0x10] := by decide +kernel
  refine ⟨_, assemble_branchTable _ _, fun mode => ?_⟩
  rw [Opcode.encode, Option.map_some, Option.getD_some, Immediate.encode, List.length_replicate,
    count]
  exact run_overlong mode _

end Assembly
end WasmStream
