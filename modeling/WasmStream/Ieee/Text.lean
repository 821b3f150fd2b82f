import WasmStream.Ieee.Shortest

/-! Floating-point numbers as text: written with the fewest digits that read back, read in any
decimal notation. Names of the values that are no decimal may stand in either letter case. -/

namespace WasmStream.Ieee.Format

variable (format : Format)

def magnitudeText (magnitude : Nat) : List Char :=
  if magnitude = format.infinity then ['i', 'n', 'f'] else (format.shortest magnitude).text

/-- The sign of zero is shown; the sign and payload of what is no number are not. -/
def text (bits : Nat) : List Char :=
  let magnitude := bits % format.signBit
  if format.infinity < magnitude then ['N', 'a', 'N']
  else if format.signBit ≤ bits then '-' :: format.magnitudeText magnitude
  else format.magnitudeText magnitude

/-- A decimal number with an optional sign, which also a zero keeps. -/
def ofSigned? (text : List Char) : Option Nat :=
  let (negative, written) := Decimal.splitSign text
  (Decimal.ofText? written).map fun decimal => format.withSign negative (format.ofDecimal decimal)

/-- The names take a minus sign only where the value has a negative counterpart. -/
def ofName? (name : String) : Option Nat :=
  if name = "nan" then some format.quietNaN
  else if name = "inf" ∨ name = "infinity" then some format.infinity
  else if name = "-inf" ∨ name = "-infinity" then some (format.withSign true format.infinity)
  else none

def ofText? (text : List Char) : Option Nat :=
  format.ofName? (String.ofList (text.map Char.toLower)) <|> format.ofSigned? text

end WasmStream.Ieee.Format
