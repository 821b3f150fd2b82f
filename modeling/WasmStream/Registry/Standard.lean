import WasmStream.Registry.Basic

/-! The registry of the whole instruction set. -/

namespace WasmStream.Registry

theorem standard_increasing :
    (Opcode.all.map Opcode.descriptor).Pairwise (·.opcode < ·.opcode) := by
  decide +kernel

theorem standard_distinct :
    (Opcode.all.map Opcode.descriptor).Pairwise (·.mnemonic ≠ ·.mnemonic) := by
  decide +kernel

/-- Every opcode with its standard meaning. -/
def standard : Registry where
  descriptors := Opcode.all.map Opcode.descriptor
  increasing := standard_increasing
  distinct := standard_distinct

end WasmStream.Registry
