import WasmStream.Assembly.Line
import WasmStream.Immediate.Words
import WasmStream.Opcode.Descriptor

/-! Assembly text and the instructions it stands for, one on a line. Lines are independent of one
another: the first bad line alone decides the error. -/

namespace WasmStream.Assembly

/-- What is wrong with a line. -/
inductive Fault where
  | unknownMnemonic (name : String)
  | badOperands (mnemonic : String) (operands : String)
  | unreadable (text : String)
deriving DecidableEq, Repr

/-- Lines are counted from one. -/
structure Error where
  line : Nat
  fault : Fault
deriving DecidableEq, Repr

def Fault.message : Fault → String
  | unknownMnemonic name => s!"{name} is not an instruction."
  | badOperands mnemonic operands => s!"{mnemonic} cannot take the operands `{operands}`."
  | unreadable text => s!"cannot parse `{text}`."

def Error.message (error : Error) : String :=
  s!"Error on line {error.line}: {error.fault.message}"

/-- The operands that the words stand for after the opcode's mnemonic. -/
def operands? (opcode : Opcode) (words : List String) : Option (Option Immediate) :=
  match opcode.immediateKind with
  | some kind => (Immediate.ofWords? kind words).map some
  | none => if words.isEmpty then some none else none

def assembleInstruction (mnemonic : String) (words : List String) : Except Fault (List UInt8) :=
  match Opcode.ofMnemonic? mnemonic with
  | none => .error (.unknownMnemonic mnemonic)
  | some opcode =>
    match operands? opcode words with
    | none => .error (.badOperands opcode.mnemonic (" ".intercalate words))
    | some immediate => .ok (opcode.encode immediate)

def assembleLine (text : List Char) : Except Fault (List UInt8) :=
  match Line.ofText? text with
  | none => .error (.unreadable (String.ofList (Text.trim text)))
  | some .blank => .ok []
  | some (.instruction mnemonic words) => assembleInstruction mnemonic words

def assembleLines (number : Nat) : List (List Char) → Except Error (List UInt8)
  | [] => .ok []
  | line :: others =>
    match assembleLine line with
    | .error fault => .error ⟨number, fault⟩
    | .ok bytes => (assembleLines (number + 1) others).map (bytes ++ ·)

end Assembly

/-- The bytes of all instructions in a text. -/
def assemble (text : String) : Except Assembly.Error (List UInt8) :=
  Assembly.assembleLines 1 (Text.lines text.toList)

namespace Assembly

/-- An instruction as a line. An empty block type leaves a blank after the mnemonic. -/
def line (mnemonic : String) : Option Immediate → String
  | none => mnemonic
  | some immediate => mnemonic ++ " " ++ immediate.text

/-- Lines as one text, without a line feed at the end. -/
def joinLines (lines : List String) : String := "\n".intercalate lines

end Assembly
end WasmStream
