import WasmStream.Bytes
import WasmStream.Immediate.Basic

/-! All that decoding has to know about an instruction: its operands, what it does to the flow of
control, and which kind of block it opens. -/

namespace WasmStream

/-- The body of a function is the block that no instruction opens. -/
inductive BlockKind where
  | block
  | loop
  | ifBlock
  | function
deriving DecidableEq, Repr

namespace BlockKind

def name : BlockKind → String
  | block => "block"
  | loop => "loop"
  | ifBlock => "if"
  | function => "function"

def acceptsElse (kind : BlockKind) : Bool := kind == ifBlock

end BlockKind

/-- What an instruction does to the flow of control. The flags are independent of one another: an
`else` both leaves one arm and enters another. -/
structure Flags where
  entersBlock : Bool := false
  leavesBlock : Bool := false
  isBranch : Bool := false
  noFallthrough : Bool := false
deriving DecidableEq, Repr

namespace Flags

/-- One bit for each flag, in the order of the fields from the lowest. -/
def ofBits (bits : Nat) : Flags :=
  ⟨bits.testBit 0, bits.testBit 1, bits.testBit 2, bits.testBit 3⟩

def bits (flags : Flags) : Nat :=
  flags.entersBlock.toNat + 2 * flags.leavesBlock.toNat + 4 * flags.isBranch.toNat +
    8 * flags.noFallthrough.toNat

theorem ofBits_bits (flags : Flags) : ofBits flags.bits = flags := by
  obtain ⟨enters, leaves, branch, noFallthrough⟩ := flags
  cases enters <;> cases leaves <;> cases branch <;> cases noFallthrough <;> rfl

def union (left right : Flags) : Flags :=
  ⟨left.entersBlock || right.entersBlock, left.leavesBlock || right.leavesBlock,
    left.isBranch || right.isBranch, left.noFallthrough || right.noFallthrough⟩

instance : Union Flags := ⟨union⟩

/-- Whether every flag of the second set is in the first. -/
def contains (flags other : Flags) : Bool := flags ∪ other == flags

def isEmpty (flags : Flags) : Bool := flags == {}

/-- The flags that are set, each with its name, in the order of the fields. -/
def names (flags : Flags) : List String :=
  let named := [(flags.entersBlock, "enter"), (flags.leavesBlock, "leave"),
    (flags.isBranch, "branch"), (flags.noFallthrough, "no-flow")]
  named.filterMap fun (isSet, name) => if isSet then some name else none

def text (flags : Flags) : String := "|".intercalate flags.names

end Flags

structure Descriptor where
  opcode : UInt8
  mnemonic : String
  immediate : Option Immediate.Kind
  flags : Flags
  blockKind : Option BlockKind
deriving DecidableEq, Repr

def Descriptor.text (descriptor : Descriptor) : String :=
  Hex.literal descriptor.opcode ++ " " ++ descriptor.mnemonic

end WasmStream
