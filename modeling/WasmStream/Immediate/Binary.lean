import WasmStream.Bytes
import WasmStream.Immediate.Basic
import WasmStream.Leb128

/-! The binary form of operands. Indices, counts, alignments and offsets are 32 bits wide, the
reserved table and memory indices one bit, and a block type is a single signed seven-bit byte. -/

namespace WasmStream.Immediate

def indexWidth : Nat := 32

def reservedWidth : Nat := 1

def blockTypeWidth : Nat := 7

def readIndex : Reader UInt32 := do
  let value ← Leb128.unsigned indexWidth
  return UInt32.ofNat value

def readReserved : Reader UInt32 := do
  let value ← Leb128.unsigned reservedWidth
  return UInt32.ofNat value

def readBlockType : Reader BlockType := do
  let offset ← Reader.position
  let value ← Leb128.signed blockTypeWidth
  let tag := UInt8.ofNat (value % 128).toNat
  match BlockType.ofTag? tag with
  | some result => return result
  | none => throw (.invalidBlockType tag offset)

/-- An empty array with room for so many labels. -/
def setAside (capacity : Nat) : Reader (Array UInt32) :=
  return Array.emptyWithCapacity capacity

section
variable {m : Type → Type} [Monad m]

def readLabelsInto (readLabel : m UInt32) : (count : Nat) → Array UInt32 → m (Array UInt32)
  | 0, labels => return labels
  | count + 1, labels => do
    let label ← readLabel
    readLabelsInto readLabel count (labels.push label)

/-- A count, that many labels, and the label taken when the selector is out of range. A label takes
at least one byte, so no more room is set aside than there are bytes left. How each step is made is
left open, for a reader may also keep count of what it is asked for. -/
def readBranchTableBy (readCount remaining : m Nat) (setAside : Nat → m (Array UInt32))
    (readLabel : m UInt32) : m Immediate := do
  let count ← readCount
  let left ← remaining
  let room ← setAside (min count left)
  let labels ← readLabelsInto readLabel count room
  let fallback ← readLabel
  return branchTable labels.toList fallback

end

def readBranchTable : Reader Immediate :=
  readBranchTableBy (Leb128.unsigned indexWidth) Reader.remaining setAside readIndex

def readF32 : Reader UInt32 := do
  let bytes ← Reader.bytes 4
  return UInt32.ofNat (LittleEndian.decode bytes)

def readF64 : Reader UInt64 := do
  let bytes ← Reader.bytes 8
  return UInt64.ofNat (LittleEndian.decode bytes)

def read : Kind → Reader Immediate
  | .blockType => return blockType (← readBlockType)
  | .branchTarget => return branchTarget (← readIndex)
  | .branchTable => readBranchTable
  | .callTarget => return callTarget (← readIndex)
  | .indirectCall => do
    let signature ← readIndex
    let table ← readReserved
    return indirectCall signature table
  | .variableIndex => return variableIndex (← readIndex)
  | .memoryAccess => do
    let align ← readIndex
    let offset ← readIndex
    return memoryAccess align offset
  | .memorySize => return memorySize (← readReserved)
  | .i32Const => return i32Const (Int32.ofInt (← Leb128.signed 32))
  | .i64Const => return i64Const (Int64.ofInt (← Leb128.signed 64))
  | .f32Const => return f32Const (← readF32)
  | .f64Const => return f64Const (← readF64)

theorem forward_readIndex : Reader.Forward readIndex :=
  (Leb128.forward_unsigned _).bind fun _ => Reader.forward_pure _

private theorem forward_readReserved : Reader.Forward readReserved :=
  (Leb128.forward_unsigned _).bind fun _ => Reader.forward_pure _

private theorem forward_readBlockType : Reader.Forward readBlockType := by
  refine Reader.forward_position.bind fun offset => (Leb128.forward_signed _).bind fun value => ?_
  dsimp only
  split
  · exact Reader.forward_pure _
  · exact Reader.forward_throw _

private theorem forward_readLabelsInto (count : Nat) (labels : Array UInt32) :
    Reader.Forward (readLabelsInto readIndex count labels) := by
  induction count generalizing labels with
  | zero => exact Reader.forward_pure _
  | succ count ih => exact forward_readIndex.bind fun _ => ih _

private theorem forward_readBranchTable : Reader.Forward readBranchTable :=
  (Leb128.forward_unsigned _).bind fun _ =>
    Reader.forward_remaining.bind fun _ => (Reader.forward_pure _).bind fun _ =>
      (forward_readLabelsInto _ _).bind fun _ =>
        forward_readIndex.bind fun _ => Reader.forward_pure _

theorem forward_read (kind : Kind) : Reader.Forward (read kind) := by
  cases kind with
  | blockType => exact forward_readBlockType.bind fun _ => Reader.forward_pure _
  | branchTable => exact forward_readBranchTable
  | branchTarget | callTarget | variableIndex =>
    exact forward_readIndex.bind fun _ => Reader.forward_pure _
  | indirectCall =>
    exact forward_readIndex.bind fun _ =>
      forward_readReserved.bind fun _ => Reader.forward_pure _
  | memoryAccess =>
    exact forward_readIndex.bind fun _ => forward_readIndex.bind fun _ => Reader.forward_pure _
  | memorySize => exact forward_readReserved.bind fun _ => Reader.forward_pure _
  | i32Const | i64Const => exact (Leb128.forward_signed _).bind fun _ => Reader.forward_pure _
  | f32Const | f64Const =>
    exact ((Reader.forward_bytes _).bind fun _ => Reader.forward_pure _).bind fun _ =>
      Reader.forward_pure _

def encodeIndex (index : UInt32) : List UInt8 := Leb128.encodeUnsigned index.toNat

/-- Every integer takes its shortest form. -/
def encode : Immediate → List UInt8
  | blockType result => [result.tag]
  | branchTarget label => encodeIndex label
  | branchTable labels fallback =>
      Leb128.encodeUnsigned labels.length ++ labels.flatMap encodeIndex ++ encodeIndex fallback
  | callTarget function => encodeIndex function
  | indirectCall signature table => encodeIndex signature ++ encodeIndex table
  | variableIndex index => encodeIndex index
  | memoryAccess align offset => encodeIndex align ++ encodeIndex offset
  | memorySize memory => encodeIndex memory
  | i32Const value => Leb128.encodeSigned value.toInt
  | i64Const value => Leb128.encodeSigned value.toInt
  | f32Const bits => LittleEndian.encode 4 bits.toNat
  | f64Const bits => LittleEndian.encode 8 bits.toNat

end WasmStream.Immediate
