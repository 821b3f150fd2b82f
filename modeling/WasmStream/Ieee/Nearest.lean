import WasmStream.Decimal
import WasmStream.Ieee.Format

/-! Rounding to the nearest value of a format. Exact numbers are quotients of whole numbers of
units, so each is rounded once, with a half going to the even neighbour. -/

namespace WasmStream.Ieee

/-- The nearest integer to a quotient, the even one of two. -/
def roundQuotient (numerator denominator : Nat) : Nat :=
  let quotient := numerator / denominator
  let twice := 2 * (numerator % denominator)
  if twice < denominator ∨ (twice = denominator ∧ quotient % 2 = 0) then quotient
  else quotient + 1

namespace Format

variable (format : Format)

/-- The magnitude nearest to `numerator / denominator` units. The significand is rounded at the
spacing of the values around the quotient; one that rounds up to the next power of two carries
into the exponent field by itself, and beyond the largest finite value lies infinity. -/
def nearest (numerator denominator : Nat) : Nat :=
  let shift := (numerator / denominator).log2 - format.fractionBits
  let significand := roundQuotient numerator (denominator * Nat.pow 2 shift)
  min (shift * Nat.pow 2 format.fractionBits + significand) format.infinity

/-- Numbers from `10 ^ largestExponent` on are beyond the largest finite value. -/
def largestExponent : Nat := Nat.pow 2 (format.exponentBits - 1)

/-- The magnitude nearest to a decimal number. An exponent far outside the format's range settles
the answer before any power of ten is computed. -/
def ofDecimal (decimal : Decimal) : Nat :=
  let leading := decimal.exponent + Decimal.digitCount decimal.coefficient
  if decimal.coefficient = 0 ∨ leading < -(format.scale : Int) then 0
  else if (format.largestExponent : Int) < leading then format.infinity
  else
    let units := decimal.coefficient * Nat.pow 2 format.scale
    match decimal.exponent with
    | .ofNat zeros => format.nearest (units * Nat.pow 10 zeros) 1
    | .negSucc places => format.nearest units (Nat.pow 10 (places + 1))

end Format
end WasmStream.Ieee
