import Mathlib.Data.List.Nodup
import WasmStream.Decoder
import WasmStream.Proofs.Operands
import WasmStream.Registry.Standard

/-! Instructions as byte strings: an opcode byte of a registry and the operands
that its descriptor asks for. -/

namespace WasmStream
open Immediate (Operands)

/-- The bytes of one instruction and the operands in them. -/
inductive Spelled (descriptor : Descriptor) : Form (Option Immediate) where
  | plain (asks : descriptor.immediate = none) : Spelled descriptor [descriptor.opcode] none
  | operands {kind bytes immediate} (asks : descriptor.immediate = some kind)
      (operands : Operands kind bytes immediate) :
      Spelled descriptor (descriptor.opcode :: bytes) (some immediate)

/-- The operands are the ones asked for and fit their fields. -/
structure Descriptor.Fits (descriptor : Descriptor) (immediate : Option Immediate) : Prop where
  kind : immediate.map Immediate.kind = descriptor.immediate
  encodable : ∀ operands ∈ immediate, operands.Encodable

def Descriptor.encode (descriptor : Descriptor) (immediate : Option Immediate) : List UInt8 :=
  descriptor.opcode :: (immediate.map Immediate.encode).getD []

theorem Spelled.fits {descriptor : Descriptor} {bytes : List UInt8} {immediate : Option Immediate}
    (spelled : Spelled descriptor bytes immediate) : descriptor.Fits immediate := by
  cases spelled with
  | plain asks => exact ⟨asks.symm, by simp⟩
  | operands asks operands =>
    refine ⟨?_, ?_⟩
    · rw [asks, Option.map_some, operands.kind_eq]
    · intro other same
      cases same
      exact operands.encodable

theorem spelled_encode {descriptor : Descriptor} {immediate : Option Immediate}
    (fits : descriptor.Fits immediate) :
    Spelled descriptor (descriptor.encode immediate) immediate := by
  cases immediate with
  | none => exact .plain fits.kind.symm
  | some operands =>
    exact .operands fits.kind.symm (Immediate.operands_encode (fits.encodable operands rfl))

theorem Spelled.shortens {descriptor : Descriptor} {bytes : List UInt8}
    {immediate : Option Immediate} (spelled : Spelled descriptor bytes immediate) :
    Shortens (descriptor.encode immediate) bytes := by
  cases spelled with
  | plain => exact .refl _
  | operands asks operands => exact operands.shortens.cons _

theorem Spelled.ne_nil {descriptor : Descriptor} {bytes : List UInt8}
    {immediate : Option Immediate} (spelled : Spelled descriptor bytes immediate) : bytes ≠ [] := by
  cases spelled <;> simp

namespace Registry

theorem nodup_opcode (registry : Registry) : (registry.descriptors.map Descriptor.opcode).Nodup :=
  List.pairwise_map.mpr (registry.increasing.imp UInt8.ne_of_lt)

theorem find?_key_eq_some_iff {α κ : Type} [BEq κ] [LawfulBEq κ] {key : α → κ} {values : List α}
    (distinct : (values.map key).Nodup) {wanted : κ} {found : α} :
    values.find? (key · == wanted) = some found ↔ found ∈ values ∧ key found = wanted := by
  constructor
  · intro same
    exact ⟨List.mem_of_find?_eq_some same, by simpa using List.find?_some same⟩
  · intro ⟨member, same⟩
    cases outcome : values.find? (key · == wanted) with
    | none => exact absurd (by simpa using same) (List.find?_eq_none.mp outcome found member)
    | some other =>
      have same' : key other = wanted := by simpa using List.find?_some outcome
      have member' := List.mem_of_find?_eq_some outcome
      rw [List.inj_on_of_nodup_map distinct member' member (same'.trans same.symm)]

theorem lookup_eq_ok_iff {registry : Registry} {byte : UInt8} {descriptor : Descriptor} :
    registry.lookup byte = .ok descriptor ↔
      descriptor ∈ registry.descriptors ∧ descriptor.opcode = byte := by
  rw [lookup_eq_find, ← find?_key_eq_some_iff (nodup_opcode registry)]
  cases registry.descriptors.find? (·.opcode == byte) <;> simp

theorem lookup_eq_error {registry : Registry} {byte : UInt8} {unknown : UnknownOpcode}
    (missing : registry.lookup byte = .error unknown) :
    unknown = ⟨byte⟩ ∧ ∀ descriptor ∈ registry.descriptors, descriptor.opcode ≠ byte := by
  rw [lookup_eq_find] at missing
  split at missing
  · cases missing
  next absent =>
    cases missing
    refine ⟨rfl, fun descriptor member => ?_⟩
    simpa using List.find?_eq_none.mp absent descriptor member

end Registry

namespace Opcode

private theorem all_eq : all = (List.range 172).map Opcode.ofNat := by decide +kernel

theorem mem_all (opcode : Opcode) : opcode ∈ all := by
  have inside : opcode.ctorIdx < 172 := by cases opcode <;> decide
  rw [all_eq, List.mem_map]
  exact ⟨opcode.ctorIdx, List.mem_range.mpr inside, Opcode.ofNat_ctorIdx opcode⟩

theorem mem_standard_iff {descriptor : Descriptor} :
    descriptor ∈ Registry.standard.descriptors ↔ ∃ opcode : Opcode, opcode.descriptor = descriptor := by
  unfold Registry.standard
  rw [List.mem_map]
  exact ⟨fun ⟨opcode, _, same⟩ => ⟨opcode, same⟩, fun ⟨opcode, same⟩ => ⟨opcode, mem_all opcode, same⟩⟩

end Opcode

namespace Decoder

theorem reads_descriptor (registry : Registry) : Reader.Reads (readDescriptor registry)
    (fun bytes descriptor => descriptor ∈ registry.descriptors ∧ bytes = [descriptor.opcode]) := by
  refine Reader.reads_after_look (fun cursor => ⟨cursor.position, rfl⟩) fun offset => ?_
  refine (@Reader.Reads.bind _ _ _ _ _
    (fun byte rest descriptor => rest = [] ∧ registry.lookup byte = .ok descriptor)
    Reader.reads_byte fun byte => ?_).congr ?_
  · cases registry.lookup byte with
    | ok descriptor => simpa only [Except.ok.injEq, eq_comm] using Reader.reads_pure descriptor
    | error unknown => simpa only [reduceCtorEq, and_false] using Reader.reads_throw _
  simp only [Registry.lookup_eq_ok_iff]
  intro bytes descriptor
  constructor
  · intro ⟨byte, left, right, both, single, nothing, member, opcode⟩
    subst both single nothing opcode
    exact ⟨member, rfl⟩
  · intro ⟨member, single⟩
    exact ⟨descriptor.opcode, _, [], single, rfl, rfl, member, rfl⟩

theorem reads_operands (descriptor : Descriptor) : Reader.Reads (readOperands descriptor)
    (fun bytes immediate => Spelled descriptor (descriptor.opcode :: bytes) immediate) := by
  unfold readOperands
  split
  next kind asks =>
    apply ((Immediate.reads_operands kind).map some).congr
    intro bytes immediate
    constructor
    · intro ⟨operands, spelled, same⟩
      subst same
      exact .operands asks spelled
    · intro spelled
      cases spelled with
      | plain asks' =>
        rw [asks] at asks'
        cases asks'
      | operands asks' operands =>
        rw [asks] at asks'
        cases asks'
        exact ⟨_, operands, rfl⟩
  next asks =>
    apply (Reader.reads_pure none).congr
    intro bytes immediate
    constructor
    · intro ⟨nothing, same⟩
      subst nothing same
      exact .plain asks
    · intro spelled
      cases spelled with
      | plain => exact ⟨rfl, rfl⟩
      | operands asks' =>
        rw [asks] at asks'
        cases asks'

theorem reads_instruction (registry : Registry) : Reader.Reads (readInstruction registry)
    (fun bytes value => value.1 ∈ registry.descriptors ∧ Spelled value.1 bytes value.2) := by
  apply ((reads_descriptor registry).bind fun descriptor =>
    (reads_operands descriptor).map fun immediate => (descriptor, immediate)).congr
  intro bytes value
  constructor
  · intro ⟨descriptor, left, right, both, ⟨member, single⟩, immediate, spelled, same⟩
    subst both single same
    exact ⟨member, spelled⟩
  · obtain ⟨descriptor, immediate⟩ := value
    intro ⟨member, spelled⟩
    cases spelled with
    | plain asks =>
      exact ⟨descriptor, [descriptor.opcode], [], rfl, ⟨member, rfl⟩, none, .plain asks, rfl⟩
    | @operands kind bytes immediate asks operands =>
      exact ⟨descriptor, [descriptor.opcode], bytes, rfl, ⟨member, rfl⟩, some immediate,
        .operands asks operands, rfl⟩

end Decoder
end WasmStream
