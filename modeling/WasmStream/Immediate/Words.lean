import WasmStream.Ieee.Text
import WasmStream.Immediate.Basic

/-! The operands of an instruction as the words that stand after its mnemonic. Words that are left
out at the end stand for zeros where an instruction allows it. -/

namespace WasmStream.Immediate

def indexWord (index : UInt32) : String := String.ofList (Decimal.digits index.toNat)

def integerWord (value : Int) : String := String.ofList (Decimal.integer value)

/-- An empty block type is written as no word at all. -/
def words : Immediate → List String
  | blockType none => []
  | blockType (some result) => [result.name]
  | branchTarget label => [indexWord label]
  | branchTable labels fallback => labels.map indexWord ++ [indexWord fallback]
  | callTarget function => [indexWord function]
  | indirectCall signature table => [indexWord signature, indexWord table]
  | variableIndex index => [indexWord index]
  | memoryAccess align offset => [indexWord align, indexWord offset]
  | memorySize memory => [indexWord memory]
  | i32Const value => [integerWord value.toInt]
  | i64Const value => [integerWord value.toInt]
  | f32Const bits => [String.ofList (Ieee.binary32.text bits.toNat)]
  | f64Const bits => [String.ofList (Ieee.binary64.text bits.toNat)]

def text (immediate : Immediate) : String := " ".intercalate immediate.words

def index? (word : String) : Option UInt32 :=
  (Decimal.natural? word.toList).bind fun value =>
    if value < UInt32.size then some (UInt32.ofNat value) else none

/-- A table or memory index is reserved: only the first two can be encoded. -/
def reserved? (word : String) : Option UInt32 := (index? word).filter (· ≤ 1)

def i32? (word : String) : Option Int32 :=
  (Decimal.integer? word.toList).bind fun value =>
    if Int32.minValue.toInt ≤ value ∧ value ≤ Int32.maxValue.toInt then some (Int32.ofInt value)
    else none

def i64? (word : String) : Option Int64 :=
  (Decimal.integer? word.toList).bind fun value =>
    if Int64.minValue.toInt ≤ value ∧ value ≤ Int64.maxValue.toInt then some (Int64.ofInt value)
    else none

def f32? (word : String) : Option UInt32 := (Ieee.binary32.ofText? word.toList).map UInt32.ofNat

def f64? (word : String) : Option UInt64 := (Ieee.binary64.ofText? word.toList).map UInt64.ofNat

/-- The last label is the one taken when the selector is out of range. -/
def branchTable? (words : List String) : Option Immediate := do
  let indices ← words.mapM index?
  let fallback ← indices.getLast?
  return branchTable indices.dropLast fallback

/-- The operands of a kind that the words stand for. Too many words, or too few, stand for none. -/
def ofWords? : Kind → List String → Option Immediate
  | .blockType, [] => some (blockType none)
  | .blockType, [result] => (ValueType.ofName? result).map fun result => blockType (some result)
  | .branchTarget, [label] => (index? label).map branchTarget
  | .branchTable, words => branchTable? words
  | .callTarget, [function] => (index? function).map callTarget
  | .indirectCall, [signature] => (index? signature).map (indirectCall · 0)
  | .indirectCall, [signature, table] =>
    return indirectCall (← index? signature) (← reserved? table)
  | .variableIndex, [index] => (index? index).map variableIndex
  | .memoryAccess, [] => some (memoryAccess 0 0)
  | .memoryAccess, [align] => (index? align).map (memoryAccess · 0)
  | .memoryAccess, [align, offset] => return memoryAccess (← index? align) (← index? offset)
  | .memorySize, [] => some (memorySize 0)
  | .memorySize, [memory] => (reserved? memory).map memorySize
  | .i32Const, [value] => (i32? value).map i32Const
  | .i64Const, [value] => (i64? value).map i64Const
  | .f32Const, [value] => (f32? value).map f32Const
  | .f64Const, [value] => (f64? value).map f64Const
  | _, _ => none

end WasmStream.Immediate
