/-! Text as lines, and sets of characters as blocks of code points. A line ends at a line feed or at
the end of the text; a carriage return right before the line feed belongs to the ending, any other
to the line. -/

namespace WasmStream.Text

/-- No empty line follows a final line feed. -/
def lines : List Char → List (List Char)
  | [] => []
  | '\n' :: rest => [] :: lines rest
  | '\r' :: '\n' :: rest => [] :: lines rest
  | char :: rest =>
    match lines rest with
    | [] => [[char]]
    | line :: others => (char :: line) :: others

/-- Blocks are given from first to last code point. -/
def inBlocks (blocks : List (Nat × Nat)) (char : Char) : Bool :=
  blocks.any fun (first, last) => first ≤ char.toNat && char.toNat ≤ last

/-- All 25 characters with the Unicode property White_Space. -/
def whiteSpaceBlocks : List (Nat × Nat) := [
  (0x09, 0x0d), (0x20, 0x20), (0x85, 0x85), (0xa0, 0xa0), (0x1680, 0x1680), (0x2000, 0x200a),
  (0x2028, 0x2029), (0x202f, 0x202f), (0x205f, 0x205f), (0x3000, 0x3000)]

def isWhiteSpace (char : Char) : Bool := inBlocks whiteSpaceBlocks char

/-- Without white space at either end. -/
def trim (text : List Char) : List Char :=
  ((text.dropWhile isWhiteSpace).reverse.dropWhile isWhiteSpace).reverse

end WasmStream.Text
