import WasmStream.ValueType

/-! The operands that can follow an opcode byte, and the kinds an instruction can ask for. -/

namespace WasmStream

namespace Immediate

/-- What an instruction declares about its operands; an instruction without any has no kind. -/
inductive Kind where
  | blockType
  | branchTarget
  | branchTable
  | callTarget
  | indirectCall
  | variableIndex
  | memoryAccess
  | memorySize
  | i32Const
  | i64Const
  | f32Const
  | f64Const
deriving DecidableEq, Repr

def Kind.all : List Kind :=
  [.blockType, .branchTarget, .branchTable, .callTarget, .indirectCall, .variableIndex,
    .memoryAccess, .memorySize, .i32Const, .i64Const, .f32Const, .f64Const]

def Kind.name : Kind → String
  | .blockType => "BlockType"
  | .branchTarget => "BranchTarget"
  | .branchTable => "BranchTable"
  | .callTarget => "CallTarget"
  | .indirectCall => "CallIndirectTarget"
  | .variableIndex => "LocalOrGlobalIndex"
  | .memoryAccess => "MemoryAccess"
  | .memorySize => "MemorySize"
  | .i32Const => "ConstI32"
  | .i64Const => "ConstI64"
  | .f32Const => "ConstF32"
  | .f64Const => "ConstF64"

end Immediate

/-- Floating-point constants are kept as bit patterns, so that every NaN stays itself. -/
inductive Immediate where
  | blockType (result : BlockType)
  | branchTarget (label : UInt32)
  | branchTable (labels : List UInt32) (fallback : UInt32)
  | callTarget (function : UInt32)
  | indirectCall (signature table : UInt32)
  | variableIndex (index : UInt32)
  | memoryAccess (align offset : UInt32)
  | memorySize (memory : UInt32)
  | i32Const (value : Int32)
  | i64Const (value : Int64)
  | f32Const (bits : UInt32)
  | f64Const (bits : UInt64)
deriving DecidableEq, Repr

def Immediate.kind : Immediate → Kind
  | blockType _ => .blockType
  | branchTarget _ => .branchTarget
  | branchTable _ _ => .branchTable
  | callTarget _ => .callTarget
  | indirectCall _ _ => .indirectCall
  | variableIndex _ => .variableIndex
  | memoryAccess _ _ => .memoryAccess
  | memorySize _ => .memorySize
  | i32Const _ => .i32Const
  | i64Const _ => .i64Const
  | f32Const _ => .f32Const
  | f64Const _ => .f64Const

end WasmStream
