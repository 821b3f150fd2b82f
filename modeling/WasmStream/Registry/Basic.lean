import WasmStream.DecodeError
import WasmStream.Opcode.Descriptor
import WasmStream.Registry.Tables

/-! A set of instructions that can be looked up by opcode byte and by mnemonic. Both are unique, so
the order in which instructions are registered does not matter. -/

namespace WasmStream

/-- The descriptors are kept in the order of their opcodes, and the tables with them. -/
@[ext] structure Registry where
  descriptors : List Descriptor
  increasing : descriptors.Pairwise (·.opcode < ·.opcode)
  distinct : descriptors.Pairwise (·.mnemonic ≠ ·.mnemonic)
  tables : Registry.Tables := .of descriptors
  tabulated : tables = .of descriptors := by rfl

namespace Registry

def opcodeLE (first second : Descriptor) : Bool := first.opcode ≤ second.opcode

def byOpcode (descriptors : List Descriptor) : List Descriptor := descriptors.mergeSort opcodeLE

theorem byOpcode_sorted (descriptors : List Descriptor) :
    (byOpcode descriptors).Pairwise (·.opcode ≤ ·.opcode) := by
  have sorted : (byOpcode descriptors).Pairwise (opcodeLE · ·) := by
    apply List.pairwise_mergeSort
    · intro _ _ _ first second
      simp only [opcodeLE, decide_eq_true_eq] at first second ⊢
      exact UInt8.le_trans first second
    · intro first second
      simpa [opcodeLE] using UInt8.le_total first.opcode second.opcode
  exact sorted.imp (by simp [opcodeLE])

theorem whole_of_fill {descriptors : List Descriptor} {tables : Tables}
    (filled : Tables.fill {} 0 descriptors = .ok tables) :
    descriptors.Pairwise Apart ∧ tables = .of descriptors := by
  have outcome : Tables.Filled descriptors (Tables.fill {} 0 descriptors) :=
    Tables.filled_fill .nil descriptors
  rw [filled] at outcome
  cases outcome with
  | whole apart => exact ⟨apart, rfl⟩

/-- Registers the descriptors unless two of them share an opcode or a mnemonic. -/
def ofDescriptors (descriptors : List Descriptor) : Except Conflict Registry :=
  match filled : Tables.fill {} 0 (byOpcode descriptors) with
  | .error conflict => .error conflict
  | .ok tables =>
    have apart := (whole_of_fill filled).1
    .ok {
      descriptors := byOpcode descriptors
      increasing := (byOpcode_sorted descriptors).imp₂
        (fun _ _ le apart => UInt8.lt_of_le_of_ne le apart.1) apart
      distinct := apart.imp And.right
      tables
      tabulated := (whole_of_fill filled).2 }

/-- An opcode byte that no descriptor has. -/
structure UnknownOpcode where
  byte : UInt8
deriving DecidableEq, Repr

def UnknownOpcode.message (unknown : UnknownOpcode) : String :=
  s!"no instruction is registered for opcode {Hex.literal unknown.byte}"

/-- The same cause as part of a decoding. -/
def UnknownOpcode.at (unknown : UnknownOpcode) (offset : Nat) : DecodeError :=
  .unknownOpcode unknown.byte offset

theorem index_eq (registry : Registry) (byte : UInt8) :
    registry.tables.index byte = registry.descriptors.findIdx? (·.opcode == byte) := by
  rw [registry.tabulated]
  rfl

theorem index_lt {registry : Registry} {byte : UInt8} {position : Nat}
    (slot : registry.tables.index byte = some position) :
    position < registry.descriptors.length := by
  rw [index_eq] at slot
  exact (List.findIdx?_eq_some_iff_getElem.mp slot).1

def lookup (registry : Registry) (byte : UInt8) : Except UnknownOpcode Descriptor :=
  match slot : registry.tables.index byte with
  | some position => .ok (registry.descriptors.get ⟨position, index_lt slot⟩)
  | none => .error ⟨byte⟩

/-- A slot leads to the descriptor that a search through all of them finds. -/
theorem lookup_eq_find (registry : Registry) (byte : UInt8) :
    registry.lookup byte = match registry.descriptors.find? (·.opcode == byte) with
      | some descriptor => .ok descriptor
      | none => .error ⟨byte⟩ := by
  rw [List.find?_eq_bind_findIdx?_getElem?, ← registry.index_eq]
  unfold lookup
  split
  next position slot => simp [slot, index_lt slot]
  next slot => simp [slot]

/-- A mnemonic is looked up by the opcode byte it is paired with. -/
def byMnemonic? (registry : Registry) (mnemonic : String) : Option Descriptor :=
  (registry.tables.names.byteOf? mnemonic).bind fun byte => (registry.lookup byte).toOption

def size (registry : Registry) : Nat := registry.descriptors.length

def isEmpty (registry : Registry) : Bool := registry.descriptors.isEmpty

end Registry
end WasmStream
