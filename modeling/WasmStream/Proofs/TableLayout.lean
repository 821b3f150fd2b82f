import Mathlib.Data.List.Forall2
import Mathlib.Order.Bounds.Basic
import WasmStream.Text.Table

/-! What is relied on of a terminal and of a printer of tables. The room that text takes may be
counted in any way in which nothing joins with a space and rules are made of single columns. The
printer may be any that gives a table the lines its format asks for, as the one for plain text does. -/

namespace WasmStream.Text

/-- A way to count the columns that text takes on a terminal. -/
structure Measures (columns : List Char → Nat) : Prop where
  apart : ∀ before after, columns (before ++ ' ' :: after) = columns before + 1 + columns after
  drawn : ∀ text, (∀ char ∈ text, char ∈ ['─', '│', '┼', '┴']) → columns text = text.length

def Table.Regular (table : Table) : Prop :=
  ∀ row ∈ table.rows, row.length = table.titles.length

section
variable (columns : List Char → Nat)

section
variable (format : TableFormat)

/-- A text in the middle of its padding, with spaces up to a width on the side it does not stand. -/
inductive Filled (width : Nat) (text : List Char) : Alignment → List Char → Prop where
  | left {fill} (fits : columns text + fill = width) : Filled width text .left
      (spaces format.leftPadding ++ (text ++ spaces fill) ++ spaces format.rightPadding)
  | right {fill} (fits : columns text + fill = width) : Filled width text .right
      (spaces format.leftPadding ++ (spaces fill ++ text) ++ spaces format.rightPadding)

/-- The lines of a row. They are as many as its highest cell has, and in each of them stands one line
of every cell. -/
structure RowLines (widths : List Nat) (cells : List Cell) (block : List (List Char)) : Prop where
  height : block.length = Cell.height cells
  shows : ∀ index line, block[index]? = some line → ∃ parts,
    line = abreast format.leftBorder format.separator format.rightBorder parts ∧
    List.Forall₂ (fun place part =>
      Filled columns format place.1 (place.2.line index) place.2.alignment part)
      (widths.zip cells) parts

end

def Tight (texts : List (List Char)) (width : Nat) : Prop :=
  IsLeast {bound | ∀ text ∈ texts, ∀ line ∈ lines text, columns line ≤ bound} width

/-- The lines of a table as its format has them: the titles and a rule, the rows, and a rule. -/
structure Laid (table : Table) (widths : List Nat) (title : List (List Char))
    (blocks : List (List (List Char))) (lines : List (List Char)) : Prop where
  count : widths.length = table.titles.length
  tight : ∀ index width, widths[index]? = some width → Tight columns (table.column index) width
  titled : RowLines columns table.format widths table.titles title
  rows : List.Forall₂ (RowLines columns table.format widths) table.rows blocks
  lines : lines = title ++ [table.format.drawn table.format.titleRule widths] ++ blocks.flatten ++
    [table.format.drawn table.format.bottomRule widths]

/-- A printer that lays out tables for a terminal and ends each line with a line feed. -/
def Prints (print : Table → String) : Prop :=
  ∀ table : Table, table.Regular → ∃ widths title blocks lines,
    Laid columns table widths title blocks lines ∧
    (print table).toList = lines.flatMap (· ++ ['\n'])

end

private theorem foldl_max_le_iff {values : List Nat} {start bound : Nat} :
    values.foldl max start ≤ bound ↔ start ≤ bound ∧ ∀ value ∈ values, value ≤ bound := by
  induction values generalizing start with
  | nil => simp
  | cons value values ih => simp [ih, and_assoc]

theorem tight_widths {table : Table} {index width : Nat}
    (found : table.widths[index]? = some width) : Tight columns (table.column index) width := by
  simp only [Table.widths, List.getElem?_map, Option.map_eq_some_iff] at found
  obtain ⟨place, listed, rfl⟩ := found
  obtain ⟨_, same⟩ := List.getElem?_eq_some_iff.mp listed
  obtain rfl : index = place := by rwa [List.getElem_range] at same
  have fits : ∀ bound,
      ((table.column index).flatMap fun text => (lines text).map columns).foldl max 0 ≤ bound ↔
        ∀ text ∈ table.column index, ∀ line ∈ lines text, columns line ≤ bound := by
    intro bound
    simp only [foldl_max_le_iff, Nat.zero_le, true_and, List.mem_flatMap, List.mem_map]
    constructor
    · exact fun all text member line inside => all _ ⟨text, member, line, inside, rfl⟩
    · rintro all _ ⟨text, member, line, inside, rfl⟩
      exact all text member line inside
  exact ⟨(fits _).mp (Nat.le_refl _), fun bound => (fits bound).mpr⟩

private theorem fits_widths {table : Table} {row : List Cell} {width : Nat} {cell : Cell}
    (member : row ∈ table.titles :: table.rows) (place : (width, cell) ∈ table.widths.zip row) :
    ∀ line ∈ cell.lines, columns line ≤ width := by
  obtain ⟨index, found⟩ := List.mem_iff_getElem?.mp place
  obtain ⟨room, stands⟩ := List.getElem?_zip_eq_some.mp found
  apply (tight_widths room).1 cell.text.toList
  exact List.mem_filterMap.mpr ⟨row, member, Option.map_eq_some_iff.mpr ⟨cell, stands, rfl⟩⟩

section
variable {format : TableFormat} {widths : List Nat} {cells : List Cell}

private theorem filled_pad {width : Nat} {text : List Char} (alignment : Alignment)
    (fits : columns text ≤ width) : Filled columns format width text alignment
      (spaces format.leftPadding ++ pad alignment width text ++ spaces format.rightPadding) := by
  have filled : columns text + (width - columns text) = width := by omega
  cases alignment with
  | left => exact .left filled
  | right => exact .right filled

private theorem rowLines_row
    (fits : ∀ width cell, (width, cell) ∈ widths.zip cells → ∀ line ∈ cell.lines,
      columns line ≤ width) :
    RowLines columns format widths cells (format.row widths cells) where
  height := by rw [TableFormat.row, List.length_map, List.length_range]
  shows index line found := by
    obtain ⟨inside, same⟩ := List.getElem?_eq_some_iff.mp found
    simp only [TableFormat.row, List.getElem_map, List.getElem_range] at same
    refine ⟨List.zipWith (format.filled index) widths cells, same.symm, ?_⟩
    rw [← List.map_uncurry_zip_eq_zipWith, List.forall₂_map_right_iff, List.forall₂_same]
    rintro ⟨width, cell⟩ place
    apply filled_pad
    rw [Cell.line, List.getD_eq_getElem?_getD]
    cases there : cell.lines[index]? with
    | none => exact Nat.zero_le _
    | some text => exact fits width cell place text (List.mem_of_getElem? there)

end

/-- What is relied on of printers can be had. -/
theorem prints_render : Prints columns Table.render := by
  intro table _
  have laid : ∀ row ∈ table.titles :: table.rows,
      RowLines columns table.format table.widths row (table.format.row table.widths row) :=
    fun row member => rowLines_row fun width cell => fits_widths member
  refine ⟨table.widths, table.format.row table.widths table.titles,
    table.rows.map (table.format.row table.widths), table.lines, ⟨?_, ?_, ?_, ?_, ?_⟩, ?_⟩
  · rw [Table.widths, List.length_map, List.length_range]
  · exact fun index width => tight_widths
  · exact laid _ List.mem_cons_self
  · rw [List.forall₂_map_right_iff, List.forall₂_same]
    exact fun row member => laid row (.tail _ member)
  · rw [Table.lines, List.flatMap_def]
  · exact String.toList_ofList

private theorem drawn_columns (text : List Char)
    (drawn : ∀ char ∈ text, char ∈ ['─', '│', '┼', '┴']) : columns text = text.length := by
  induction text with
  | nil => rfl
  | cons char text ih =>
    have all : ['─', '│', '┼', '┴'].all (charColumns · == 1) = true := by decide +kernel
    have single := beq_iff_eq.mp (List.all_eq_true.mp all char (drawn char List.mem_cons_self))
    rw [columns, single, ih fun other member => drawn other (.tail _ member), List.length_cons,
      Nat.add_comm]

/-- Plain text is measured character by character. -/
theorem measures_columns : Measures columns where
  apart before after := by
    have space : charColumns ' ' = 1 := by decide
    rw [columns_append, columns, space, Nat.add_assoc]
  drawn := drawn_columns

end WasmStream.Text
