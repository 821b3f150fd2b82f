/-! Bytes as two hexadecimal digits each, as messages, listings and byte strings show them, and words
of a fixed width as bytes, least significant first. -/

namespace WasmStream.Hex

/-- Both digits are written, so that a sequence of bytes can be cut apart again. -/
def digits (byte : UInt8) : List Char :=
  [Nat.digitChar (byte.toNat / 16), Nat.digitChar (byte.toNat % 16)]

/-- A byte as it stands in running text: `0x0b`. -/
def literal (byte : UInt8) : String :=
  String.ofList ('0' :: 'x' :: digits byte)

/-- A byte string without separators. -/
def string (bytes : List UInt8) : String :=
  String.ofList (bytes.flatMap digits)

end WasmStream.Hex

namespace WasmStream.LittleEndian

def encode : (size value : Nat) → List UInt8
  | 0, _ => []
  | size + 1, value => UInt8.ofNat (value % 256) :: encode size (value / 256)

def decode : List UInt8 → Nat
  | [] => 0
  | byte :: rest => byte.toNat + 256 * decode rest

theorem length_encode (size value : Nat) : (encode size value).length = size := by
  induction size generalizing value with
  | zero => rfl
  | succ size ih => simp [encode, ih]

/-- A word comes back modulo its width. -/
theorem decode_encode (size value : Nat) :
    decode (encode size value) = value % Nat.pow 256 size := by
  induction size generalizing value with
  | zero => simp [encode, decode, Nat.mod_one]
  | succ size ih =>
    have low : (UInt8.ofNat (value % 256)).toNat = value % 256 := by simp
    rw [encode, decode, low, ih, Nat.pow_eq, Nat.pow_eq, Nat.pow_succ', Nat.mod_mul]

end WasmStream.LittleEndian
