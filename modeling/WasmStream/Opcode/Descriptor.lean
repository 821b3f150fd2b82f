import WasmStream.Descriptor
import WasmStream.Immediate.Binary
import WasmStream.Opcode.Basic

/-! The standard meaning of each opcode: its operands, its effect on control flow, the block it
opens, and its bytes. -/

namespace WasmStream.Opcode

/-- Loads and stores occupy one range of opcode bytes. -/
def isMemoryAccess (opcode : Opcode) : Bool := 0x28 ≤ opcode.code && opcode.code ≤ 0x3e

def immediateKind (opcode : Opcode) : Option Immediate.Kind :=
  match opcode with
  | block | loop | ifBlock => some .blockType
  | br | brIf => some .branchTarget
  | brTable => some .branchTable
  | call => some .callTarget
  | callIndirect => some .indirectCall
  | localGet | localSet | localTee | globalGet | globalSet => some .variableIndex
  | memorySize | memoryGrow => some .memorySize
  | i32Const => some .i32Const
  | i64Const => some .i64Const
  | f32Const => some .f32Const
  | f64Const => some .f64Const
  | _ => if opcode.isMemoryAccess then some .memoryAccess else none

def flags : Opcode → Flags
  | unreachable | ret => { noFallthrough := true }
  | block | loop | ifBlock => { entersBlock := true }
  | elseArm => { entersBlock := true, leavesBlock := true }
  | endBlock => { leavesBlock := true }
  | br | brIf | brTable | call | callIndirect => { isBranch := true }
  | _ => {}

def blockKind : Opcode → Option BlockKind
  | block => some .block
  | loop => some .loop
  | ifBlock => some .ifBlock
  | _ => none

def descriptor (opcode : Opcode) : Descriptor where
  opcode := opcode.code
  mnemonic := opcode.mnemonic
  immediate := opcode.immediateKind
  flags := opcode.flags
  blockKind := opcode.blockKind

/-- The opcode byte and the operands. Whether they are of the kind that the opcode asks for is up to
the caller. -/
def encode (opcode : Opcode) (immediate : Option Immediate) : List UInt8 :=
  opcode.code :: (immediate.map Immediate.encode).getD []

end WasmStream.Opcode
