import WasmStream.Text.Columns

/-! Tables of text: what stands in them, the format they are drawn in, and a printer for terminals on
which text takes the columns that are counted for plain text. -/

namespace WasmStream.Text

inductive Alignment where
  | left
  | right
deriving DecidableEq, Repr

structure Cell where
  alignment : Alignment
  text : String
deriving DecidableEq, Repr

/-- A line across a table: what it is drawn with, what stands where it meets the line between two
columns, and what stands at its ends. -/
structure Rule where
  stroke : Char
  junction : Char
  left : Char
  right : Char
deriving DecidableEq, Repr

structure TableFormat where
  separator : Char
  leftBorder : Char
  rightBorder : Char
  leftPadding : Nat
  rightPadding : Nat
  titleRule : Rule
  bottomRule : Rule
deriving DecidableEq, Repr

structure Table where
  format : TableFormat
  titles : List Cell
  rows : List (List Cell)
deriving DecidableEq, Repr

def spaces (count : Nat) : List Char := List.replicate count ' '

/-- Fills text up to a width; wider text stays as it is. -/
def pad (alignment : Alignment) (width : Nat) (text : List Char) : List Char :=
  let fill := spaces (width - columns text)
  match alignment with
  | .left => text ++ fill
  | .right => fill ++ text

/-- Parts side by side, with a mark between any two of them and one at either end. -/
def abreast (left mark right : Char) (parts : List (List Char)) : List Char :=
  left :: [mark].intercalate parts ++ [right]

namespace Cell

def lines (cell : Cell) : List (List Char) := Text.lines cell.text.toList

/-- Below its last line a cell is empty. -/
def line (cell : Cell) (index : Nat) : List Char := cell.lines.getD index []

/-- The lines that cells beside each other take. Empty ones take one as well. -/
def height (cells : List Cell) : Nat := (cells.map (·.lines.length)).foldl max 1

end Cell

namespace TableFormat

def drawn (format : TableFormat) (rule : Rule) (widths : List Nat) : List Char :=
  abreast rule.left rule.junction rule.right <| widths.map fun width =>
    List.replicate (format.leftPadding + width + format.rightPadding) rule.stroke

def filled (format : TableFormat) (index width : Nat) (cell : Cell) : List Char :=
  spaces format.leftPadding ++ pad cell.alignment width (cell.line index) ++
    spaces format.rightPadding

def line (format : TableFormat) (widths : List Nat) (cells : List Cell) (index : Nat) : List Char :=
  abreast format.leftBorder format.separator format.rightBorder
    (List.zipWith (format.filled index) widths cells)

def row (format : TableFormat) (widths : List Nat) (cells : List Cell) : List (List Char) :=
  (List.range (Cell.height cells)).map (format.line widths cells)

end TableFormat

namespace Table

/-- What stands above and below each other. -/
def column (table : Table) (index : Nat) : List (List Char) :=
  (table.titles :: table.rows).filterMap fun row => row[index]?.map (·.text.toList)

/-- A column is as wide as the widest line in it. -/
def widths (table : Table) : List Nat :=
  (List.range table.titles.length).map fun index =>
    ((table.column index).flatMap fun text => (Text.lines text).map columns).foldl max 0

def lines (table : Table) : List (List Char) :=
  table.format.row table.widths table.titles ++
    [table.format.drawn table.format.titleRule table.widths] ++
    table.rows.flatMap (table.format.row table.widths) ++
    [table.format.drawn table.format.bottomRule table.widths]

/-- Every line ends with a line feed. -/
def render (table : Table) : String := String.ofList (table.lines.flatMap (· ++ ['\n']))

end Table
end WasmStream.Text
