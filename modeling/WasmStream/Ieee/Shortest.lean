import WasmStream.Ieee.Nearest

/-! The shortest decimal that rounds back to a magnitude. Among decimals with so many digits only
the two neighbours of the exact value on that grid can do so, if any does. -/

namespace WasmStream.Ieee.Format

variable (format : Format)

/-- The coefficient of the exact value at exponent `-scale`. -/
def exactCoefficient (magnitude : Nat) : Nat := format.units magnitude * Nat.pow 5 format.scale

/-- Whether `coefficient * 10 ^ -scale` rounds to the magnitude. -/
def ReadsBack (magnitude coefficient : Nat) : Prop :=
  format.nearest coefficient (Nat.pow 5 format.scale) = magnitude

instance (magnitude coefficient : Nat) : Decidable (format.ReadsBack magnitude coefficient) :=
  inferInstanceAs (Decidable (_ = _))

/-- The neighbour of the exact value on the grid of multiples of `step` that reads back. Of two
the nearer is taken, and the upper of two equally near. -/
def neighbour? (magnitude step : Nat) : Option Nat :=
  let exact := format.exactCoefficient magnitude
  let below := exact / step
  let above := below + 1
  let belowFits := format.ReadsBack magnitude (below * step)
  let aboveFits := format.ReadsBack magnitude (above * step)
  if belowFits ∧ (aboveFits → exact - below * step < above * step - exact) then some below
  else if aboveFits then some above
  else none

/-- The coarsest grid that has a decimal for the magnitude, no coarser than `10 ^ dropped` times
the exact one; the exact value is on the finest. -/
def shortestFrom (magnitude : Nat) : (dropped : Nat) → Decimal
  | 0 => ⟨format.exactCoefficient magnitude, -(format.scale : Int)⟩
  | dropped + 1 =>
    match format.neighbour? magnitude (Nat.pow 10 (dropped + 1)) with
    | some coefficient => ⟨coefficient, (dropped + 1 : Int) - format.scale⟩
    | none => shortestFrom magnitude dropped

/-- Starts with the grids that leave a single digit. -/
def shortest (magnitude : Nat) : Decimal :=
  format.shortestFrom magnitude (Decimal.digitCount (format.exactCoefficient magnitude) - 1)

end WasmStream.Ieee.Format
