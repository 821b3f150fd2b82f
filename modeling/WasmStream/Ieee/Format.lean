/-! Binary interchange formats for floating-point numbers. The magnitudes of a format are the bit
patterns without the sign bit; in order they are the multiples of the least positive value that
the format has, then infinity, then the patterns that are no number. -/

namespace WasmStream.Ieee

structure Format where
  fractionBits : Nat
  exponentBits : Nat
deriving DecidableEq, Repr

def binary32 : Format := ⟨23, 8⟩

def binary64 : Format := ⟨52, 11⟩

namespace Format

variable (format : Format)

def signBit : Nat := Nat.pow 2 (format.fractionBits + format.exponentBits)

def infinity : Nat := (Nat.pow 2 format.exponentBits - 1) * Nat.pow 2 format.fractionBits

/-- The one pattern written for every text that means no number. -/
def quietNaN : Nat := format.infinity + Nat.pow 2 (format.fractionBits - 1)

/-- Every finite value is a whole number of units of `2 ^ -scale`. -/
def scale : Nat := Nat.pow 2 (format.exponentBits - 1) - 2 + format.fractionBits

/-- A finite magnitude in units. -/
def units (magnitude : Nat) : Nat :=
  let exponent := magnitude / Nat.pow 2 format.fractionBits
  let fraction := magnitude % Nat.pow 2 format.fractionBits
  if exponent = 0 then fraction
  else (Nat.pow 2 format.fractionBits + fraction) * Nat.pow 2 (exponent - 1)

def withSign (negative : Bool) (magnitude : Nat) : Nat :=
  if negative then format.signBit + magnitude else magnitude

end Format
end WasmStream.Ieee
