import WasmStream.Proofs.Printing
import WasmStream.Proofs.WrittenNumbers

/-! What may stand behind a mnemonic. The words of a line are operands exactly when they are as many
as the opcode takes and each spells a value in range; the bytes then hold the values spelled, and
nothing is cut off to make a word fit. Floating-point constants have a grammar of their own. -/

namespace WasmStream

theorem ValueType.ofName?_eq_some_iff {name : String} {type : ValueType} :
    ofName? name = some type ↔ name = type.name := by
  constructor
  · intro found
    have same := List.find?_some found
    exact (beq_iff_eq.mp same).symm
  · intro same
    rw [same, ofName?_name]

namespace Immediate
open Decimal

/-- The operands of a kind that words spell. What is left out is zero, or no type. -/
inductive Spelled : Kind → List String → Immediate → Prop where
  | noType : Spelled .blockType [] (blockType none)
  | type (result : ValueType) : Spelled .blockType [result.name] (blockType (some result))
  | branchTarget {word label} (spelled : IsIndex word label) :
      Spelled .branchTarget [word] (branchTarget label)
  | branchTable {words labels fallback} (spelled : words.Forall₂ IsIndex (labels ++ [fallback])) :
      Spelled .branchTable words (branchTable labels fallback)
  | callTarget {word function} (spelled : IsIndex word function) :
      Spelled .callTarget [word] (callTarget function)
  | signature {word signature} (spelled : IsIndex word signature) :
      Spelled .indirectCall [word] (indirectCall signature 0)
  | signatureTable {word signature word' table} (spelled : IsIndex word signature)
      (spelled' : IsReserved word' table) :
      Spelled .indirectCall [word, word'] (indirectCall signature table)
  | variableIndex {word index} (spelled : IsIndex word index) :
      Spelled .variableIndex [word] (variableIndex index)
  | noAlign : Spelled .memoryAccess [] (memoryAccess 0 0)
  | align {word align} (spelled : IsIndex word align) :
      Spelled .memoryAccess [word] (memoryAccess align 0)
  | alignOffset {word align word' offset} (spelled : IsIndex word align)
      (spelled' : IsIndex word' offset) :
      Spelled .memoryAccess [word, word'] (memoryAccess align offset)
  | noMemory : Spelled .memorySize [] (memorySize 0)
  | memory {word memory} (spelled : IsReserved word memory) :
      Spelled .memorySize [word] (memorySize memory)
  | i32Const {word} {value : Int32} (spelled : IsInteger word.toList value.toInt) :
      Spelled .i32Const [word] (i32Const value)
  | i64Const {word} {value : Int64} (spelled : IsInteger word.toList value.toInt) :
      Spelled .i64Const [word] (i64Const value)

private theorem mapM_index?_eq_some_iff {words : List String} {indices : List UInt32} :
    words.mapM index? = some indices ↔ words.Forall₂ IsIndex indices := by
  induction words generalizing indices with
  | nil => simp [eq_comm]
  | cons word words ih =>
    rw [List.mapM_cons, List.forall₂_cons_left_iff]
    constructor
    · intro read
      obtain ⟨index, first, read⟩ := Option.bind_eq_some_iff.mp read
      obtain ⟨others, later, same⟩ := Option.bind_eq_some_iff.mp read
      cases same
      exact ⟨index, others, index?_eq_some_iff.mp first, ih.mp later, rfl⟩
    · intro ⟨index, others, first, later, same⟩
      subst same
      rw [index?_eq_some_iff.mpr first, ih.mpr later]
      rfl

theorem branchTable?_eq_some_iff {words : List String} {immediate : Immediate} :
    branchTable? words = some immediate ↔ ∃ labels fallback,
      words.Forall₂ IsIndex (labels ++ [fallback]) ∧ immediate = branchTable labels fallback := by
  unfold branchTable?
  constructor
  · intro read
    obtain ⟨indices, found, read⟩ := Option.bind_eq_some_iff.mp read
    obtain ⟨fallback, last, same⟩ := Option.bind_eq_some_iff.mp read
    obtain ⟨labels, split⟩ := List.getLast?_eq_some_iff.mp last
    subst split
    cases same
    exact ⟨labels, fallback, mapM_index?_eq_some_iff.mp found, by rw [List.dropLast_concat]⟩
  · intro ⟨labels, fallback, spelled, same⟩
    rw [same, mapM_index?_eq_some_iff.mpr spelled]
    simp

theorem ofWords?_eq_some_iff {kind : Kind} (notSingle : kind ≠ .f32Const)
    (notDouble : kind ≠ .f64Const) {words : List String} {immediate : Immediate} :
    ofWords? kind words = some immediate ↔ Spelled kind words immediate := by
  constructor
  · intro read
    unfold ofWords? at read
    split at read
    case h_1 | h_9 | h_12 =>
      cases read
      constructor
    case h_4 =>
      obtain ⟨labels, fallback, spelled, same⟩ := branchTable?_eq_some_iff.mp read
      exact same ▸ .branchTable spelled
    case h_7 | h_11 =>
      obtain ⟨first, spelled, read⟩ := Option.bind_eq_some_iff.mp read
      obtain ⟨second, spelled', same⟩ := Option.bind_eq_some_iff.mp read
      cases same
      constructor
      · exact index?_eq_some_iff.mp spelled
      · first | exact index?_eq_some_iff.mp spelled' | exact reserved?_eq_some_iff.mp spelled'
    case h_2 =>
      obtain ⟨result, found, same⟩ := Option.map_eq_some_iff.mp read
      rw [← same, ValueType.ofName?_eq_some_iff.mp found]
      exact .type result
    case h_13 =>
      obtain ⟨memory, spelled, same⟩ := Option.map_eq_some_iff.mp read
      exact same ▸ .memory (reserved?_eq_some_iff.mp spelled)
    case h_14 =>
      obtain ⟨value, spelled, same⟩ := Option.map_eq_some_iff.mp read
      exact same ▸ .i32Const (i32?_eq_some_iff.mp spelled)
    case h_15 =>
      obtain ⟨value, spelled, same⟩ := Option.map_eq_some_iff.mp read
      exact same ▸ .i64Const (i64?_eq_some_iff.mp spelled)
    case h_16 => exact absurd rfl notSingle
    case h_17 => exact absurd rfl notDouble
    case h_18 => cases read
    all_goals
      obtain ⟨index, spelled, same⟩ := Option.map_eq_some_iff.mp read
      cases same
      constructor
      exact index?_eq_some_iff.mp spelled
  · intro spelled
    cases spelled with
    | noType | noAlign | noMemory => rfl
    | type result => simp [ofWords?, ValueType.ofName?_eq_some_iff]
    | branchTable spelled => exact branchTable?_eq_some_iff.mpr ⟨_, _, spelled, rfl⟩
    | signatureTable spelled spelled' =>
      simp [ofWords?, index?_eq_some_iff.mpr spelled, reserved?_eq_some_iff.mpr spelled']
    | alignOffset spelled spelled' =>
      simp [ofWords?, index?_eq_some_iff.mpr spelled, index?_eq_some_iff.mpr spelled']
    | memory spelled => simp [ofWords?, reserved?_eq_some_iff.mpr spelled]
    | i32Const spelled => simp [ofWords?, i32?_eq_some_iff.mpr spelled]
    | i64Const spelled => simp [ofWords?, i64?_eq_some_iff.mpr spelled]
    | _ spelled => simp [ofWords?, index?_eq_some_iff.mpr spelled]

end Immediate

namespace Assembly

inductive Spelled (opcode : Opcode) : List String → Option Immediate → Prop where
  | nothing (asks : opcode.immediateKind = none) : Spelled opcode [] none
  | operands {kind words immediate} (asks : opcode.immediateKind = some kind)
      (spelled : immediate.Spelled kind words) : Spelled opcode words (some immediate)

theorem operands?_eq_some_iff {opcode : Opcode} (notSingle : opcode.immediateKind ≠ some .f32Const)
    (notDouble : opcode.immediateKind ≠ some .f64Const) {words : List String}
    {immediate : Option Immediate} :
    operands? opcode words = some immediate ↔ Spelled opcode words immediate := by
  unfold operands?
  cases asks : opcode.immediateKind with
  | none =>
    constructor
    · intro read
      cases words with
      | nil =>
        cases read
        exact .nothing asks
      | cons => cases read
    · intro spelled
      cases spelled with
      | nothing => rfl
      | operands asks' => cases asks.symm.trans asks'
  | some kind =>
    rw [asks, ne_eq, Option.some_inj] at notSingle notDouble
    constructor
    · intro read
      obtain ⟨immediate, read, same⟩ := Option.map_eq_some_iff.mp read
      exact same ▸ .operands asks ((Immediate.ofWords?_eq_some_iff notSingle notDouble).mp read)
    · intro spelled
      cases spelled with
      | nothing asks' => cases asks.symm.trans asks'
      | operands asks' spelled =>
        cases asks.symm.trans asks'
        simp [(Immediate.ofWords?_eq_some_iff notSingle notDouble).mpr spelled]

private theorem assemble_single {text : String} {line : List Char}
    (single : Text.lines text.toList = [line]) :
    assemble text = (assembleLine line).mapError (⟨1, ·⟩) := by
  rw [assemble, single, assembleLines, assembleLines]
  cases assembleLine line with
  | error fault => rfl
  | ok bytes => exact congrArg Except.ok (List.append_nil bytes)

theorem assemble_instruction {text : String} {line : List Char} {opcode : Opcode}
    {words : List String} (single : Text.lines text.toList = [line])
    (read : Line.ofText? line = some (.instruction opcode.mnemonic words)) :
    assemble text = match operands? opcode words with
      | none => .error ⟨1, .badOperands opcode.mnemonic (" ".intercalate words)⟩
      | some immediate => .ok (opcode.encode immediate) := by
  rw [assemble_single single, assembleLine, read]
  simp only [assembleInstruction, Opcode.ofMnemonic?_mnemonic]
  cases operands? opcode words <;> rfl

theorem assemble_eq_ok_iff {text : String} {line : List Char} {opcode : Opcode}
    {words : List String} (single : Text.lines text.toList = [line])
    (read : Line.ofText? line = some (.instruction opcode.mnemonic words)) {bytes : List UInt8} :
    assemble text = .ok bytes ↔ (operands? opcode words).map opcode.encode = some bytes := by
  rw [assemble_instruction single read]
  cases operands? opcode words with
  | none => simp
  | some immediate => simp

/-- A line is accepted exactly when its words spell operands of its opcode. The bytes are then those
of the operands spelled, and otherwise the line is refused with all of its words. -/
theorem accepted_iff_spelled {opcode : Opcode} (notSingle : opcode.immediateKind ≠ some .f32Const)
    (notDouble : opcode.immediateKind ≠ some .f64Const) {text : String} {line : List Char}
    {words : List String} (single : Text.lines text.toList = [line])
    (read : Line.ofText? line = some (.instruction opcode.mnemonic words)) :
    (∀ bytes, assemble text = .ok bytes ↔ ∃ immediate, Spelled opcode words immediate ∧
      bytes = opcode.code :: (immediate.map Immediate.encode).getD []) ∧
    ((¬ ∃ immediate, Spelled opcode words immediate) →
      assemble text = .error ⟨1, .badOperands opcode.mnemonic (" ".intercalate words)⟩) := by
  simp only [← operands?_eq_some_iff notSingle notDouble]
  constructor
  · intro bytes
    rw [assemble_eq_ok_iff single read, Option.map_eq_some_iff]
    simp only [Opcode.encode, eq_comm]
  · intro other
    have nothing : operands? opcode words = none :=
      Option.eq_none_iff_forall_ne_some.mpr fun immediate same => other ⟨immediate, same⟩
    rw [assemble_instruction single read, nothing]

/-- Leading zeros and the greatest index, behind a tab and in front of a comment. -/
theorem accepted_iff_spelled_table :
    Text.lines "\tbr_table 007 4294967295;;0".toList = ["\tbr_table 007 4294967295;;0".toList] ∧
    Opcode.brTable.immediateKind ≠ some .f32Const ∧
    Opcode.brTable.immediateKind ≠ some .f64Const ∧
    Line.ofText? "\tbr_table 007 4294967295;;0".toList =
      some (.instruction Opcode.brTable.mnemonic ["007", "4294967295"]) ∧
    Spelled .brTable ["007", "4294967295"] (some (.branchTable [7] 4294967295)) ∧
    assemble "\tbr_table 007 4294967295;;0" =
      .ok [0x0e, 0x01, 0x07, 0xff, 0xff, 0xff, 0xff, 0x0f] := by
  have notSingle : Opcode.brTable.immediateKind ≠ some .f32Const := by simp [Opcode.immediateKind]
  have notDouble : Opcode.brTable.immediateKind ≠ some .f64Const := by simp [Opcode.immediateKind]
  have single : Text.lines "\tbr_table 007 4294967295;;0".toList =
      ["\tbr_table 007 4294967295;;0".toList] := by decide
  have read : Line.ofText? "\tbr_table 007 4294967295;;0".toList =
      some (.instruction Opcode.brTable.mnemonic ["007", "4294967295"]) := by decide +kernel
  have spelled : Spelled .brTable ["007", "4294967295"] (some (.branchTable [7] 4294967295)) := by
    apply (operands?_eq_some_iff notSingle notDouble).mp
    decide +kernel
  obtain ⟨accepted, -⟩ := accepted_iff_spelled notSingle notDouble single read
  exact ⟨single, notSingle, notDouble, read, spelled, (accepted _).mpr ⟨_, spelled, by decide +kernel⟩⟩

end Assembly
end WasmStream
