/-! The types of values on the operand stack, and the block types made of them. -/

namespace WasmStream

inductive ValueType where
  | i32
  | i64
  | f32
  | f64
deriving DecidableEq, Repr

namespace ValueType

def all : List ValueType := [i32, i64, f32, f64]

def code : ValueType → UInt8
  | i32 => 0x7f
  | i64 => 0x7e
  | f32 => 0x7d
  | f64 => 0x7c

def name : ValueType → String
  | i32 => "i32"
  | i64 => "i64"
  | f32 => "f32"
  | f64 => "f64"

def ofCode? (code : UInt8) : Option ValueType := all.find? (·.code == code)

/-- Names are matched exactly, letter case included. -/
def ofName? (name : String) : Option ValueType := all.find? (·.name == name)

theorem ofCode?_code (type : ValueType) : ofCode? type.code = some type := by
  cases type <;> rfl

theorem ofName?_name (type : ValueType) : ofName? type.name = some type := by
  cases type <;> decide

end ValueType

/-- A block leaves at most one value behind. -/
abbrev BlockType := Option ValueType

namespace BlockType

def tag : BlockType → UInt8
  | none => 0x40
  | some result => result.code

def ofTag? (tag : UInt8) : Option BlockType :=
  if tag = 0x40 then some none else (ValueType.ofCode? tag).map some

theorem ofTag?_tag (type : BlockType) : ofTag? type.tag = some type := by
  cases type with
  | none => rfl
  | some result => cases result <;> rfl

end BlockType
end WasmStream
