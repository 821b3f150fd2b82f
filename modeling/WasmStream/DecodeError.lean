import WasmStream.Bytes

/-! Why the decoding of an instruction stream stops. Every cause carries the offset it belongs to,
so the instructions before it stay meaningful. -/

namespace WasmStream

/-- The two ways a variable-length integer can fail to fit its width. -/
inductive VarintFault where
  | tooLong
  | overflow
deriving DecidableEq, Repr

/-- The ways an instruction can fail to fit the blocks open around it. -/
inductive NestingFault where
  | unmatchedEnd
  | elseWithoutIf
  | duplicateElse
  | trailingBytes
deriving DecidableEq, Repr

inductive DecodeError where
  | unknownOpcode (byte : UInt8) (offset : Nat)
  | malformedVarint (offset : Nat) (width : Nat) (fault : VarintFault)
  | unexpectedEnd (offset : Nat)
  | malformedNesting (offset : Nat) (fault : NestingFault)
  | invalidBlockType (byte : UInt8) (offset : Nat)
deriving DecidableEq, Repr

def VarintFault.message (width : Nat) : VarintFault → String
  | .tooLong => s!"more than {width} bits worth of continuation bytes"
  | .overflow => s!"terminal byte sets bits beyond the {width}-bit range"

def NestingFault.message : NestingFault → String
  | .unmatchedEnd => "`end` without a matching open block"
  | .elseWithoutIf => "`else` outside of an `if` block"
  | .duplicateElse => "second `else` in the same `if` block"
  | .trailingBytes => "bytes remain after the function body's final `end`"

namespace DecodeError

def offset : DecodeError → Nat
  | unknownOpcode _ offset => offset
  | malformedVarint offset _ _ => offset
  | unexpectedEnd offset => offset
  | malformedNesting offset _ => offset
  | invalidBlockType _ offset => offset

def message : DecodeError → String
  | unknownOpcode byte offset => s!"unknown opcode {Hex.literal byte} at offset {offset}"
  | malformedVarint offset width fault =>
      s!"malformed varint at offset {offset}: {fault.message width}"
  | unexpectedEnd offset => s!"unexpected end of stream at offset {offset}"
  | malformedNesting offset fault =>
      s!"malformed block structure at offset {offset}: {fault.message}"
  | invalidBlockType byte offset => s!"invalid block type {Hex.literal byte} at offset {offset}"

end DecodeError
end WasmStream
