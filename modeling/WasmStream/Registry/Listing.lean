import WasmStream.Registry.Basic
import WasmStream.Text.Table

/-! A registry as a table: a title row, and a row for each descriptor. -/

namespace WasmStream.Registry

def tableFormat : Text.TableFormat where
  separator := '│'
  leftBorder := ' '
  rightBorder := ' '
  leftPadding := 1
  rightPadding := 1
  titleRule := { stroke := '─', junction := '┼', left := ' ', right := ' ' }
  bottomRule := { stroke := '─', junction := '┴', left := ' ', right := ' ' }

def row (descriptor : Descriptor) : List Text.Cell := [
  ⟨.right, Hex.literal descriptor.opcode⟩,
  ⟨.left, descriptor.mnemonic⟩,
  ⟨.left, (descriptor.immediate.map Immediate.Kind.name).getD ""⟩,
  ⟨.left, descriptor.flags.text⟩]

def table (registry : Registry) : Text.Table where
  format := tableFormat
  titles := [⟨.right, "Opcode"⟩, ⟨.left, "Mnemonic"⟩, ⟨.left, "Immediate"⟩, ⟨.left, "Flags"⟩]
  rows := registry.descriptors.map row

/-- The table as text. How tables are printed is up to the printer. -/
def listing (registry : Registry) (print : Text.Table → String := Text.Table.render) : String :=
  print registry.table

end WasmStream.Registry
