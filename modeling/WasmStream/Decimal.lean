/-! Decimal numbers as text. Integers are digits with at most a sign. Other numbers are written
without an exponent and without idle zeros, and read with or without point and exponent, whatever
their length. -/

namespace WasmStream

/-- The number `coefficient * 10 ^ exponent`. -/
structure Decimal where
  coefficient : Nat
  exponent : Int
deriving DecidableEq, Repr

namespace Decimal

def digits (value : Nat) : List Char := Nat.toDigits 10 value

/-- Leading zeros are no digits of a number, but zero has one. -/
def digitCount (value : Nat) : Nat := (digits value).length

def integer : Int → List Char
  | .ofNat value => digits value
  | .negSucc value => '-' :: digits (value + 1)

def ofDigits (written : List Char) : Nat := Nat.ofDigitChars 10 written 0

/-- At least one digit and nothing else; leading zeros do no harm. -/
def natural? (written : List Char) : Option Nat :=
  if !written.isEmpty && written.all Char.isDigit then some (ofDigits written) else none

/-- An optional sign: whether it is a minus, and what follows it. -/
def splitSign : List Char → Bool × List Char
  | '-' :: written => (true, written)
  | '+' :: written => (false, written)
  | written => (false, written)

def integer? (written : List Char) : Option Int :=
  let (negative, magnitude) := splitSign written
  (natural? magnitude).map fun value => if negative then -(value : Int) else value

def dropTrailingZeros (fraction : List Char) : List Char :=
  (fraction.reverse.dropWhile (· == '0')).reverse

/-- The point moved `places` to the left, over zeros if the digits run out. -/
def withPoint (value places : Nat) : List Char :=
  let written := digits value
  let padded := List.replicate (places + 1 - written.length) '0' ++ written
  let whole := padded.take (padded.length - places)
  let fraction := dropTrailingZeros (padded.drop (padded.length - places))
  if fraction.isEmpty then whole else whole ++ '.' :: fraction

/-- Positional notation: every digit is written out. -/
def text (decimal : Decimal) : List Char :=
  match decimal.exponent with
  | .ofNat zeros => digits (decimal.coefficient * Nat.pow 10 zeros)
  | .negSucc places => withPoint decimal.coefficient (places + 1)

/-- What may follow the digits: nothing, or an exponent in either letter case. -/
def exponent? : List Char → Option Int
  | [] => some 0
  | mark :: written => if mark = 'e' ∨ mark = 'E' then integer? written else none

/-- Digits with an optional point among them or at either end, then an optional exponent. A point
alone is no number. -/
def ofText? (text : List Char) : Option Decimal :=
  let whole := text.takeWhile Char.isDigit
  match text.dropWhile Char.isDigit with
  | '.' :: rest =>
    let fraction := rest.takeWhile Char.isDigit
    if whole.isEmpty && fraction.isEmpty then none
    else (exponent? (rest.dropWhile Char.isDigit)).map fun exponent =>
      ⟨ofDigits (whole ++ fraction), exponent - fraction.length⟩
  | rest =>
    if whole.isEmpty then none
    else (exponent? rest).map fun exponent => ⟨ofDigits whole, exponent⟩

end Decimal
end WasmStream
