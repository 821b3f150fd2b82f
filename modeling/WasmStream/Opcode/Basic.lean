/-! The instruction set with one-byte opcodes: for each instruction its byte and its mnemonic. The
bytes have gaps, so an instruction's place in the enumeration is not its byte. -/

namespace WasmStream

inductive Opcode where
  | unreachable | nop | block | loop | ifBlock | elseArm | endBlock | br | brIf | brTable | ret
  | call | callIndirect
  | drop | select
  | localGet | localSet | localTee | globalGet | globalSet
  | i32Load | i64Load | f32Load | f64Load | i32Load8S | i32Load8U | i32Load16S | i32Load16U
  | i64Load8S | i64Load8U | i64Load16S | i64Load16U | i64Load32S | i64Load32U | i32Store | i64Store
  | f32Store | f64Store | i32Store8 | i32Store16 | i64Store8 | i64Store16 | i64Store32 | memorySize
  | memoryGrow
  | i32Const | i64Const | f32Const | f64Const
  | i32Eqz | i32Eq | i32Ne | i32LtS | i32LtU | i32GtS | i32GtU | i32LeS | i32LeU | i32GeS | i32GeU
  | i64Eqz | i64Eq | i64Ne | i64LtS | i64LtU | i64GtS | i64GtU | i64LeS | i64LeU | i64GeS | i64GeU
  | f32Eq | f32Ne | f32Lt | f32Gt | f32Le | f32Ge | f64Eq | f64Ne | f64Lt | f64Gt | f64Le | f64Ge
  | i32Clz | i32Ctz | i32Popcnt | i32Add | i32Sub | i32Mul | i32DivS | i32DivU | i32RemS | i32RemU
  | i32And | i32Or | i32Xor | i32Shl | i32ShrS | i32ShrU | i32Rotl | i32Rotr | i64Clz | i64Ctz
  | i64Popcnt | i64Add | i64Sub | i64Mul | i64DivS | i64DivU | i64RemS | i64RemU | i64And | i64Or
  | i64Xor | i64Shl | i64ShrS | i64ShrU | i64Rotl | i64Rotr | f32Abs | f32Neg | f32Ceil | f32Floor
  | f32Trunc | f32Nearest | f32Sqrt | f32Add | f32Sub | f32Mul | f32Div | f32Min | f32Max
  | f32Copysign | f64Abs | f64Neg | f64Ceil | f64Floor | f64Trunc | f64Nearest | f64Sqrt | f64Add
  | f64Sub | f64Mul | f64Div | f64Min | f64Max | f64Copysign
  | i32WrapI64 | i32TruncF32S | i32TruncF32U | i32TruncF64S | i32TruncF64U | i64ExtendI32S
  | i64ExtendI32U | i64TruncF32S | i64TruncF32U | i64TruncF64S | i64TruncF64U | f32ConvertI32S
  | f32ConvertI32U | f32ConvertI64S | f32ConvertI64U | f32DemoteF64 | f64ConvertI32S
  | f64ConvertI32U | f64ConvertI64S | f64ConvertI64U | f64PromoteF32
  | i32ReinterpretF32 | i64ReinterpretF64 | f32ReinterpretI32 | f64ReinterpretI64
deriving DecidableEq

namespace Opcode

/-- In the order of the opcode bytes. -/
def all : List Opcode := [
  unreachable, nop, block, loop, ifBlock, elseArm, endBlock, br, brIf, brTable, ret, call,
  callIndirect, drop, select, localGet, localSet, localTee, globalGet, globalSet, i32Load, i64Load,
  f32Load, f64Load, i32Load8S, i32Load8U, i32Load16S, i32Load16U, i64Load8S, i64Load8U, i64Load16S,
  i64Load16U, i64Load32S, i64Load32U, i32Store, i64Store, f32Store, f64Store, i32Store8, i32Store16,
  i64Store8, i64Store16, i64Store32, memorySize, memoryGrow, i32Const, i64Const, f32Const, f64Const,
  i32Eqz, i32Eq, i32Ne, i32LtS, i32LtU, i32GtS, i32GtU, i32LeS, i32LeU, i32GeS, i32GeU, i64Eqz,
  i64Eq, i64Ne, i64LtS, i64LtU, i64GtS, i64GtU, i64LeS, i64LeU, i64GeS, i64GeU, f32Eq, f32Ne, f32Lt,
  f32Gt, f32Le, f32Ge, f64Eq, f64Ne, f64Lt, f64Gt, f64Le, f64Ge, i32Clz, i32Ctz, i32Popcnt, i32Add,
  i32Sub, i32Mul, i32DivS, i32DivU, i32RemS, i32RemU, i32And, i32Or, i32Xor, i32Shl, i32ShrS,
  i32ShrU, i32Rotl, i32Rotr, i64Clz, i64Ctz, i64Popcnt, i64Add, i64Sub, i64Mul, i64DivS, i64DivU,
  i64RemS, i64RemU, i64And, i64Or, i64Xor, i64Shl, i64ShrS, i64ShrU, i64Rotl, i64Rotr, f32Abs,
  f32Neg, f32Ceil, f32Floor, f32Trunc, f32Nearest, f32Sqrt, f32Add, f32Sub, f32Mul, f32Div, f32Min,
  f32Max, f32Copysign, f64Abs, f64Neg, f64Ceil, f64Floor, f64Trunc, f64Nearest, f64Sqrt, f64Add,
  f64Sub, f64Mul, f64Div, f64Min, f64Max, f64Copysign, i32WrapI64, i32TruncF32S, i32TruncF32U,
  i32TruncF64S, i32TruncF64U, i64ExtendI32S, i64ExtendI32U, i64TruncF32S, i64TruncF32U,
  i64TruncF64S, i64TruncF64U, f32ConvertI32S, f32ConvertI32U, f32ConvertI64S, f32ConvertI64U,
  f32DemoteF64, f64ConvertI32S, f64ConvertI32U, f64ConvertI64S, f64ConvertI64U, f64PromoteF32,
  i32ReinterpretF32, i64ReinterpretF64, f32ReinterpretI32, f64ReinterpretI64]

def entry : Opcode → UInt8 × String
  | unreachable => (0x00, "unreachable")
  | nop => (0x01, "nop")
  | block => (0x02, "block")
  | loop => (0x03, "loop")
  | ifBlock => (0x04, "if")
  | elseArm => (0x05, "else")
  | endBlock => (0x0b, "end")
  | br => (0x0c, "br")
  | brIf => (0x0d, "br_if")
  | brTable => (0x0e, "br_table")
  | ret => (0x0f, "return")
  | call => (0x10, "call")
  | callIndirect => (0x11, "call_indirect")
  | drop => (0x1a, "drop")
  | select => (0x1b, "select")
  | localGet => (0x20, "local.get")
  | localSet => (0x21, "local.set")
  | localTee => (0x22, "local.tee")
  | globalGet => (0x23, "global.get")
  | globalSet => (0x24, "global.set")
  | i32Load => (0x28, "i32.load")
  | i64Load => (0x29, "i64.load")
  | f32Load => (0x2a, "f32.load")
  | f64Load => (0x2b, "f64.load")
  | i32Load8S => (0x2c, "i32.load8_s")
  | i32Load8U => (0x2d, "i32.load8_u")
  | i32Load16S => (0x2e, "i32.load16_s")
  | i32Load16U => (0x2f, "i32.load16_u")
  | i64Load8S => (0x30, "i64.load8_s")
  | i64Load8U => (0x31, "i64.load8_u")
  | i64Load16S => (0x32, "i64.load16_s")
  | i64Load16U => (0x33, "i64.load16_u")
  | i64Load32S => (0x34, "i64.load32_s")
  | i64Load32U => (0x35, "i64.load32_u")
  | i32Store => (0x36, "i32.store")
  | i64Store => (0x37, "i64.store")
  | f32Store => (0x38, "f32.store")
  | f64Store => (0x39, "f64.store")
  | i32Store8 => (0x3a, "i32.store8")
  | i32Store16 => (0x3b, "i32.store16")
  | i64Store8 => (0x3c, "i64.store8")
  | i64Store16 => (0x3d, "i64.store16")
  | i64Store32 => (0x3e, "i64.store32")
  | memorySize => (0x3f, "memory.size")
  | memoryGrow => (0x40, "memory.grow")
  | i32Const => (0x41, "i32.const")
  | i64Const => (0x42, "i64.const")
  | f32Const => (0x43, "f32.const")
  | f64Const => (0x44, "f64.const")
  | i32Eqz => (0x45, "i32.eqz")
  | i32Eq => (0x46, "i32.eq")
  | i32Ne => (0x47, "i32.ne")
  | i32LtS => (0x48, "i32.lt_s")
  | i32LtU => (0x49, "i32.lt_u")
  | i32GtS => (0x4a, "i32.gt_s")
  | i32GtU => (0x4b, "i32.gt_u")
  | i32LeS => (0x4c, "i32.le_s")
  | i32LeU => (0x4d, "i32.le_u")
  | i32GeS => (0x4e, "i32.ge_s")
  | i32GeU => (0x4f, "i32.ge_u")
  | i64Eqz => (0x50, "i64.eqz")
  | i64Eq => (0x51, "i64.eq")
  | i64Ne => (0x52, "i64.ne")
  | i64LtS => (0x53, "i64.lt_s")
  | i64LtU => (0x54, "i64.lt_u")
  | i64GtS => (0x55, "i64.gt_s")
  | i64GtU => (0x56, "i64.gt_u")
  | i64LeS => (0x57, "i64.le_s")
  | i64LeU => (0x58, "i64.le_u")
  | i64GeS => (0x59, "i64.ge_s")
  | i64GeU => (0x5a, "i64.ge_u")
  | f32Eq => (0x5b, "f32.eq")
  | f32Ne => (0x5c, "f32.ne")
  | f32Lt => (0x5d, "f32.lt")
  | f32Gt => (0x5e, "f32.gt")
  | f32Le => (0x5f, "f32.le")
  | f32Ge => (0x60, "f32.ge")
  | f64Eq => (0x61, "f64.eq")
  | f64Ne => (0x62, "f64.ne")
  | f64Lt => (0x63, "f64.lt")
  | f64Gt => (0x64, "f64.gt")
  | f64Le => (0x65, "f64.le")
  | f64Ge => (0x66, "f64.ge")
  | i32Clz => (0x67, "i32.clz")
  | i32Ctz => (0x68, "i32.ctz")
  | i32Popcnt => (0x69, "i32.popcnt")
  | i32Add => (0x6a, "i32.add")
  | i32Sub => (0x6b, "i32.sub")
  | i32Mul => (0x6c, "i32.mul")
  | i32DivS => (0x6d, "i32.div_s")
  | i32DivU => (0x6e, "i32.div_u")
  | i32RemS => (0x6f, "i32.rem_s")
  | i32RemU => (0x70, "i32.rem_u")
  | i32And => (0x71, "i32.and")
  | i32Or => (0x72, "i32.or")
  | i32Xor => (0x73, "i32.xor")
  | i32Shl => (0x74, "i32.shl")
  | i32ShrS => (0x75, "i32.shr_s")
  | i32ShrU => (0x76, "i32.shr_u")
  | i32Rotl => (0x77, "i32.rotl")
  | i32Rotr => (0x78, "i32.rotr")
  | i64Clz => (0x79, "i64.clz")
  | i64Ctz => (0x7a, "i64.ctz")
  | i64Popcnt => (0x7b, "i64.popcnt")
  | i64Add => (0x7c, "i64.add")
  | i64Sub => (0x7d, "i64.sub")
  | i64Mul => (0x7e, "i64.mul")
  | i64DivS => (0x7f, "i64.div_s")
  | i64DivU => (0x80, "i64.div_u")
  | i64RemS => (0x81, "i64.rem_s")
  | i64RemU => (0x82, "i64.rem_u")
  | i64And => (0x83, "i64.and")
  | i64Or => (0x84, "i64.or")
  | i64Xor => (0x85, "i64.xor")
  | i64Shl => (0x86, "i64.shl")
  | i64ShrS => (0x87, "i64.shr_s")
  | i64ShrU => (0x88, "i64.shr_u")
  | i64Rotl => (0x89, "i64.rotl")
  | i64Rotr => (0x8a, "i64.rotr")
  | f32Abs => (0x8b, "f32.abs")
  | f32Neg => (0x8c, "f32.neg")
  | f32Ceil => (0x8d, "f32.ceil")
  | f32Floor => (0x8e, "f32.floor")
  | f32Trunc => (0x8f, "f32.trunc")
  | f32Nearest => (0x90, "f32.nearest")
  | f32Sqrt => (0x91, "f32.sqrt")
  | f32Add => (0x92, "f32.add")
  | f32Sub => (0x93, "f32.sub")
  | f32Mul => (0x94, "f32.mul")
  | f32Div => (0x95, "f32.div")
  | f32Min => (0x96, "f32.min")
  | f32Max => (0x97, "f32.max")
  | f32Copysign => (0x98, "f32.copysign")
  | f64Abs => (0x99, "f64.abs")
  | f64Neg => (0x9a, "f64.neg")
  | f64Ceil => (0x9b, "f64.ceil")
  | f64Floor => (0x9c, "f64.floor")
  | f64Trunc => (0x9d, "f64.trunc")
  | f64Nearest => (0x9e, "f64.nearest")
  | f64Sqrt => (0x9f, "f64.sqrt")
  | f64Add => (0xa0, "f64.add")
  | f64Sub => (0xa1, "f64.sub")
  | f64Mul => (0xa2, "f64.mul")
  | f64Div => (0xa3, "f64.div")
  | f64Min => (0xa4, "f64.min")
  | f64Max => (0xa5, "f64.max")
  | f64Copysign => (0xa6, "f64.copysign")
  | i32WrapI64 => (0xa7, "i32.wrap_i64")
  | i32TruncF32S => (0xa8, "i32.trunc_f32_s")
  | i32TruncF32U => (0xa9, "i32.trunc_f32_u")
  | i32TruncF64S => (0xaa, "i32.trunc_f64_s")
  | i32TruncF64U => (0xab, "i32.trunc_f64_u")
  | i64ExtendI32S => (0xac, "i64.extend_i32_s")
  | i64ExtendI32U => (0xad, "i64.extend_i32_u")
  | i64TruncF32S => (0xae, "i64.trunc_f32_s")
  | i64TruncF32U => (0xaf, "i64.trunc_f32_u")
  | i64TruncF64S => (0xb0, "i64.trunc_f64_s")
  | i64TruncF64U => (0xb1, "i64.trunc_f64_u")
  | f32ConvertI32S => (0xb2, "f32.convert_i32_s")
  | f32ConvertI32U => (0xb3, "f32.convert_i32_u")
  | f32ConvertI64S => (0xb4, "f32.convert_i64_s")
  | f32ConvertI64U => (0xb5, "f32.convert_i64_u")
  | f32DemoteF64 => (0xb6, "f32.demote_f64")
  | f64ConvertI32S => (0xb7, "f64.convert_i32_s")
  | f64ConvertI32U => (0xb8, "f64.convert_i32_u")
  | f64ConvertI64S => (0xb9, "f64.convert_i64_s")
  | f64ConvertI64U => (0xba, "f64.convert_i64_u")
  | f64PromoteF32 => (0xbb, "f64.promote_f32")
  | i32ReinterpretF32 => (0xbc, "i32.reinterpret_f32")
  | i64ReinterpretF64 => (0xbd, "i64.reinterpret_f64")
  | f32ReinterpretI32 => (0xbe, "f32.reinterpret_i32")
  | f64ReinterpretI64 => (0xbf, "f64.reinterpret_i64")

def code (opcode : Opcode) : UInt8 := opcode.entry.1

def mnemonic (opcode : Opcode) : String := opcode.entry.2

def ofCode? (code : UInt8) : Option Opcode := all.find? (·.code == code)

/-- Mnemonics are matched exactly, letter case included. -/
def ofMnemonic? (mnemonic : String) : Option Opcode := all.find? (·.mnemonic == mnemonic)

end Opcode
end WasmStream
