import WasmStream.Proofs.Lines
import WasmStream.Proofs.TableLayout
import WasmStream.Registry.Listing

/-! The listing of a registry as a rectangle on a terminal, by any printer of tables. Every cell is
filled up to the width of its column, which is that of the widest text in it, and so all lines end
in one place. What stands between the rules is one block of lines for each descriptor, as high as
its mnemonic. -/

namespace WasmStream

namespace Text

private theorem feed_not_mem_lines (text : List Char) : ∀ line ∈ lines text, '\n' ∉ line := by
  induction text using lines_induction with
  | empty => simp [lines]
  | feed text ih => simpa [lines] using ih
  | return' text ih => simpa [lines] using ih
  | single char solid => simpa [lines_singleton solid] using solid.symm
  | extend char text line others solid apart same ih =>
    rw [same] at ih
    rw [lines_char solid apart, same]
    simpa [solid.symm] using ih

private theorem feed_not_mem_getD_lines (text : List Char) (index : Nat) :
    '\n' ∉ (lines text).getD index [] := by
  rw [List.getD_eq_getElem?_getD]
  cases found : (lines text)[index]? with
  | none => exact List.not_mem_nil
  | some line => exact feed_not_mem_lines text line (List.mem_of_getElem? found)

def Unbroken (text : List Char) : Prop := ∀ char ∈ text, char ≠ '\n' ∧ char ≠ '\r'

theorem unbroken_of_all {text : List Char}
    (each : text.all (fun char => char != '\n' && char != '\r') = true) : Unbroken text := by
  simpa [Unbroken] using each

theorem lines_of_unbroken {text : List Char} (unbroken : Unbroken text) :
    lines text = if text = [] then [] else [text] := by
  split
  next empty => rw [empty, lines]
  next some' => exact IsLine.lines_eq ⟨some', unbroken⟩

private theorem getD_lines_of_unbroken {text : List Char} (unbroken : Unbroken text) (index : Nat) :
    (lines text).getD index [] = if index = 0 then text else [] := by
  rw [lines_of_unbroken unbroken]
  cases index with
  | zero => split <;> simp_all
  | succ index => split <;> simp

private theorem length_lines_of_unbroken {text : List Char} (unbroken : Unbroken text) :
    (lines text).length ≤ 1 := by
  rw [lines_of_unbroken unbroken]
  split <;> simp

end Text

namespace Registry.Listing
open Text (Measures Prints RowLines Tight)

structure Across (α : Type) where
  opcode : α
  mnemonic : α
  immediate : α
  flags : α

/-- The width of a whole line: two spaces to a cell, three bars, and a space at either end. -/
def Across.total (widths : Across Nat) : Nat :=
  widths.opcode + widths.mnemonic + widths.immediate + widths.flags + 13

section
variable (columns : List Char → Nat)

/-- A text between two spaces, and between them as many more as its column has room for. -/
inductive Cell (width : Nat) (text : List Char) : Text.Alignment → List Char → Prop where
  | left {fill} (fits : columns text + fill = width) :
      Cell width text .left (' ' :: text ++ Text.spaces fill ++ [' '])
  | right {fill} (fits : columns text + fill = width) :
      Cell width text .right (' ' :: Text.spaces fill ++ text ++ [' '])

/-- A line with a text in each column, of which only the first stands on the right. -/
inductive Shows (widths : Across Nat) (texts : Across (List Char)) : List Char → Prop where
  | cells {first second third fourth}
      (opcode : Cell columns widths.opcode texts.opcode .right first)
      (mnemonic : Cell columns widths.mnemonic texts.mnemonic .left second)
      (immediate : Cell columns widths.immediate texts.immediate .left third)
      (flags : Cell columns widths.flags texts.flags .left fourth) :
      Shows widths texts
        (' ' :: first ++ '│' :: second ++ '│' :: third ++ '│' :: fourth ++ [' '])

end

def ruled (widths : Across Nat) (junction : Char) : List Char :=
  let run width := List.replicate (width + 2) '─'
  ' ' :: run widths.opcode ++ junction :: run widths.mnemonic ++
    junction :: run widths.immediate ++ junction :: run widths.flags ++ [' ']

def titles : Across (List Char) where
  opcode := "Opcode".toList
  mnemonic := "Mnemonic".toList
  immediate := "Immediate".toList
  flags := "Flags".toList

def entries (descriptor : Descriptor) : Across (List Char) where
  opcode := ['0', 'x', Nat.digitChar (descriptor.opcode.toNat / 16),
    Nat.digitChar (descriptor.opcode.toNat % 16)]
  mnemonic := descriptor.mnemonic.toList
  immediate := (descriptor.immediate.map fun kind => kind.name.toList).getD []
  flags := descriptor.flags.text.toList

/-- What is shown in one line of a block. All but the mnemonic stands in the first line. -/
def texts (descriptor : Descriptor) (index : Nat) : Across (List Char) where
  opcode := if index = 0 then (entries descriptor).opcode else []
  mnemonic := (Text.lines descriptor.mnemonic.toList).getD index []
  immediate := if index = 0 then (entries descriptor).immediate else []
  flags := if index = 0 then (entries descriptor).flags else []

section
variable (columns : List Char → Nat)

/-- The lines of one descriptor, as many as its mnemonic has and one at least. -/
structure Block (widths : Across Nat) (descriptor : Descriptor) (block : List (List Char)) :
    Prop where
  height : block.length = max 1 (Text.lines descriptor.mnemonic.toList).length
  shows : ∀ index line, block[index]? = some line →
    Shows columns widths (texts descriptor index) line

/-- Each column has room for its title and the texts below it, and no more than that. -/
structure Fitting (descriptors : List Descriptor) (widths : Across Nat) : Prop where
  opcode : Tight columns (titles.opcode :: descriptors.map fun each => (entries each).opcode)
    widths.opcode
  mnemonic : Tight columns (titles.mnemonic :: descriptors.map fun each => (entries each).mnemonic)
    widths.mnemonic
  immediate :
    Tight columns (titles.immediate :: descriptors.map fun each => (entries each).immediate)
      widths.immediate
  flags : Tight columns (titles.flags :: descriptors.map fun each => (entries each).flags)
    widths.flags

end

/-- Without a line feed, and as wide as all the others. -/
def Straight (columns : List Char → Nat) (widths : Across Nat) (line : List Char) : Prop :=
  '\n' ∉ line ∧ columns line = widths.total

section
variable {columns : List Char → Nat} (measures : Measures columns)
include measures

private theorem columns_spaces (count : Nat) : columns (Text.spaces count) = count := by
  have none : columns [] = 0 := measures.drawn [] (by simp)
  induction count with
  | zero => exact none
  | succ count ih =>
    have first := measures.apart [] (Text.spaces count)
    rw [List.nil_append, none, ih] at first
    exact first.trans (by omega)

private theorem columns_filled_left (text : List Char) (fill : Nat) :
    columns (text ++ Text.spaces fill) = columns text + fill := by
  cases fill with
  | zero => rw [Text.spaces, List.replicate_zero, List.append_nil, Nat.add_zero]
  | succ fill =>
    have behind := measures.apart text (Text.spaces fill)
    rw [columns_spaces measures] at behind
    exact behind.trans (by omega)

private theorem columns_filled_right (text : List Char) (fill : Nat) :
    columns (Text.spaces fill ++ text) = columns text + fill := by
  have none : columns [] = 0 := measures.drawn [] (by simp)
  induction fill with
  | zero => rfl
  | succ fill ih =>
    have front := measures.apart [] (Text.spaces fill ++ text)
    rw [List.nil_append, none, ih] at front
    exact front.trans (by omega)

variable {width : Nat} {text cell line : List Char} {alignment : Text.Alignment}
  {widths : Across Nat} {texts : Across (List Char)}

/-- Between two spaces a cell is apart from what stands around it. -/
private theorem Cell.columns_between (shown : Cell columns width text alignment cell)
    (before after : List Char) :
    columns (before ++ cell ++ after) = columns before + (width + 2) + columns after := by
  obtain ⟨filled, same, wide⟩ : ∃ filled, cell = ' ' :: filled ++ [' '] ∧ columns filled = width := by
    cases shown with
    | @left fill fits =>
      exact ⟨text ++ Text.spaces fill, rfl, (columns_filled_left measures text fill).trans fits⟩
    | @right fill fits =>
      exact ⟨Text.spaces fill ++ text, by simp, (columns_filled_right measures text fill).trans fits⟩
  have around : before ++ cell ++ after = before ++ ' ' :: (filled ++ ' ' :: after) := by
    simp [same]
  rw [around, measures.apart, measures.apart, wide]
  omega

private theorem Shows.columns_eq (shows : Shows columns widths texts line) :
    columns line = widths.total := by
  have space : columns [' '] = 1 := columns_spaces measures 1
  have bar : columns ['│'] = 1 := measures.drawn ['│'] (by simp)
  cases shows with
  | @cells first second third fourth opcode mnemonic immediate flags =>
    have parts : ' ' :: first ++ '│' :: second ++ '│' :: third ++ '│' :: fourth ++ [' '] =
        [' '] ++ first ++ (['│'] ++ second ++ (['│'] ++ third ++ (['│'] ++ fourth ++ [' ']))) := by
      simp
    rw [parts, opcode.columns_between measures, mnemonic.columns_between measures,
      immediate.columns_between measures, flags.columns_between measures, space, bar, Across.total]
    omega

private theorem straight_ruled {junction : Char} (drawn : junction ∈ ['┼', '┴']) :
    Straight columns widths (ruled widths junction) := by
  let run width := List.replicate (width + 2) '─'
  let inner := run widths.opcode ++ junction :: run widths.mnemonic ++
    junction :: run widths.immediate ++ junction :: run widths.flags
  have shape : ruled widths junction = [] ++ ' ' :: (inner ++ ' ' :: []) := by
    simp [ruled, inner, run]
  have strokes : ∀ char ∈ inner, char ∈ ['─', '│', '┼', '┴'] := by
    intro char member
    have kinds : char = '─' ∨ char = junction := by
      simp only [inner, run, List.mem_append, List.mem_cons, List.mem_replicate] at member
      tauto
    rcases kinds with rfl | rfl
    · exact List.mem_cons_self
    · simp only [List.mem_cons, List.not_mem_nil, or_false] at drawn ⊢
      tauto
  have none : columns [] = 0 := measures.drawn [] (by simp)
  constructor
  · rw [shape]
    intro feed
    have inside : '\n' ∈ inner := by simpa using feed
    exact absurd (strokes _ inside) (by decide)
  · rw [shape, measures.apart, measures.apart, none, measures.drawn inner strokes, Across.total]
    simp only [inner, run, List.length_append, List.length_cons, List.length_replicate]
    omega

end

section
variable {columns : List Char → Nat} {width : Nat} {text cell line : List Char}
  {alignment : Text.Alignment} {widths : Across Nat} {texts : Across (List Char)}

private theorem Cell.mem_text (shown : Cell columns width text alignment cell) {char : Char}
    (member : char ∈ cell) (solid : char ≠ ' ') : char ∈ text := by
  cases shown with
  | left => simpa [Text.spaces, solid] using member
  | right => simpa [Text.spaces, solid] using member

private theorem Shows.mem_texts (shows : Shows columns widths texts line) {char : Char}
    (member : char ∈ line) (solid : char ≠ ' ') (noBar : char ≠ '│') :
    char ∈ texts.opcode ∨ char ∈ texts.mnemonic ∨ char ∈ texts.immediate ∨ char ∈ texts.flags := by
  cases shows with
  | cells opcode mnemonic immediate flags =>
    have inside := member
    simp only [List.mem_append, List.mem_cons, List.not_mem_nil, solid, noBar, false_or, or_false,
      or_assoc] at inside
    rcases inside with inside | inside | inside | inside
    · exact .inl (opcode.mem_text inside solid)
    · exact .inr (.inl (mnemonic.mem_text inside solid))
    · exact .inr (.inr (.inl (immediate.mem_text inside solid)))
    · exact .inr (.inr (.inr (flags.mem_text inside solid)))

end

theorem unbroken_opcode (descriptor : Descriptor) : Text.Unbroken (entries descriptor).opcode := by
  have digit : ∀ value < 16, Nat.digitChar value ≠ '\n' ∧ Nat.digitChar value ≠ '\r' := by decide
  have byte := descriptor.opcode.toNat_lt
  simp [Text.Unbroken, entries, digit (descriptor.opcode.toNat / 16) (by omega),
    digit (descriptor.opcode.toNat % 16) (by omega)]

theorem unbroken_immediate (descriptor : Descriptor) :
    Text.Unbroken (entries descriptor).immediate := by
  cases same : descriptor.immediate with
  | none => simp [Text.Unbroken, entries, same]
  | some kind =>
    simp only [entries, same, Option.map_some, Option.getD_some]
    apply Text.unbroken_of_all
    cases kind <;> decide

theorem unbroken_flags (descriptor : Descriptor) : Text.Unbroken (entries descriptor).flags := by
  have each : ∀ enters leaves branch noFallthrough : Bool,
      (Flags.text ⟨enters, leaves, branch, noFallthrough⟩).toList.all
        (fun char => char != '\n' && char != '\r') = true := by decide +kernel
  exact Text.unbroken_of_all (each _ _ _ _)

private theorem literal_eq (descriptor : Descriptor) :
    (Hex.literal descriptor.opcode).toList = (entries descriptor).opcode := by
  unfold Hex.literal
  exact String.toList_ofList

private theorem name_eq (descriptor : Descriptor) :
    ((descriptor.immediate.map Immediate.Kind.name).getD "").toList =
      (entries descriptor).immediate := by
  unfold entries
  cases descriptor.immediate <;> rfl

private theorem height_row (descriptor : Descriptor) :
    Text.Cell.height (row descriptor) = max 1 (Text.lines descriptor.mnemonic.toList).length := by
  have opcode := Text.length_lines_of_unbroken (unbroken_opcode descriptor)
  have immediate := Text.length_lines_of_unbroken (unbroken_immediate descriptor)
  have flags : (Text.lines descriptor.flags.text.toList).length ≤ 1 :=
    Text.length_lines_of_unbroken (unbroken_flags descriptor)
  simp only [Text.Cell.height, Text.Cell.lines, row, List.map_cons, List.map_nil, List.foldl_cons,
    List.foldl_nil, literal_eq, name_eq]
  omega

private theorem joined (mark : Char) (first second third fourth : List Char) :
    ' ' :: [mark].intercalate [first, second, third, fourth] ++ [' '] =
      ' ' :: first ++ mark :: second ++ mark :: third ++ mark :: fourth ++ [' '] := by
  simp [List.intercalate_cons_cons]

section
variable {columns : List Char → Nat} {widths : Across Nat}

private theorem drawn_eq (widths : Across Nat) (junction : Char) :
    tableFormat.drawn { stroke := '─', junction, left := ' ', right := ' ' }
      [widths.opcode, widths.mnemonic, widths.immediate, widths.flags] = ruled widths junction := by
  have run : ∀ width, 1 + width + 1 = width + 2 := by omega
  simp only [Text.TableFormat.drawn, tableFormat, Text.abreast, List.map_cons, List.map_nil, joined,
    ruled, run]

private theorem cell_of_filled {width : Nat} {text cell : List Char} {alignment : Text.Alignment}
    (filled : Text.Filled columns tableFormat width text alignment cell) :
    Cell columns width text alignment cell := by
  cases filled with
  | left fits => simpa [tableFormat, Text.spaces] using Cell.left fits
  | right fits => simpa [tableFormat, Text.spaces] using Cell.right fits

private theorem shows_of_rowLines {first second third fourth : String}
    {block : List (List Char)} {index : Nat} {line : List Char}
    (laid : RowLines columns tableFormat
      [widths.opcode, widths.mnemonic, widths.immediate, widths.flags]
      [⟨.right, first⟩, ⟨.left, second⟩, ⟨.left, third⟩, ⟨.left, fourth⟩] block)
    (found : block[index]? = some line) :
    Shows columns widths
      ⟨(Text.lines first.toList).getD index [], (Text.lines second.toList).getD index [],
        (Text.lines third.toList).getD index [], (Text.lines fourth.toList).getD index []⟩ line := by
  obtain ⟨parts, rfl, filled⟩ := laid.shows index line found
  simp only [List.zip_cons_cons, List.zip_nil_right] at filled
  rcases filled with _ | ⟨opcode, _ | ⟨mnemonic, _ | ⟨immediate, _ | ⟨flags, _ | _⟩⟩⟩⟩
  simp only [tableFormat, Text.abreast, joined]
  exact .cells (cell_of_filled opcode) (cell_of_filled mnemonic) (cell_of_filled immediate)
    (cell_of_filled flags)

private theorem block_of_rowLines {descriptor : Descriptor} {block : List (List Char)}
    (laid : RowLines columns tableFormat
      [widths.opcode, widths.mnemonic, widths.immediate, widths.flags] (row descriptor) block) :
    Block columns widths descriptor block where
  height := laid.height.trans (height_row descriptor)
  shows index line found := by
    have flags : (Text.lines descriptor.flags.text.toList).getD index [] =
        if index = 0 then descriptor.flags.text.toList else [] :=
      Text.getD_lines_of_unbroken (unbroken_flags descriptor) index
    have shows := shows_of_rowLines laid found
    rw [literal_eq, name_eq, Text.getD_lines_of_unbroken (unbroken_opcode descriptor),
      Text.getD_lines_of_unbroken (unbroken_immediate descriptor), flags] at shows
    exact shows

private theorem title_of_rowLines {registry : Registry} {block : List (List Char)}
    (laid : RowLines columns tableFormat
      [widths.opcode, widths.mnemonic, widths.immediate, widths.flags] registry.table.titles block) :
    ∃ title, block = [title] ∧ Shows columns widths titles title := by
  have height : Text.Cell.height registry.table.titles = 1 := rfl
  obtain ⟨title, rfl⟩ := List.length_eq_one_iff.mp (laid.height.trans height)
  have found : [title][0]? = some title := rfl
  exact ⟨title, rfl, shows_of_rowLines laid found⟩

private theorem tight_of_laid {registry : Registry} {widths : List Nat}
    {title lines : List (List Char)} {blocks : List (List (List Char))} {width : Nat}
    {titled : Text.Cell} {cell : Descriptor → Text.Cell}
    (laid : Text.Laid columns registry.table widths title blocks lines) (index : Nat)
    (room : widths[index]? = some width) (first : registry.table.titles[index]? = some titled)
    (others : ∀ descriptor, (row descriptor)[index]? = some (cell descriptor)) :
    Tight columns (titled.text.toList ::
      registry.descriptors.map fun descriptor => (cell descriptor).text.toList) width := by
  have rows : registry.table.rows = registry.descriptors.map row := rfl
  have column : registry.table.column index = titled.text.toList ::
      registry.descriptors.map fun descriptor => (cell descriptor).text.toList := by
    rw [Text.Table.column, rows, List.filterMap_cons, first]
    simp [List.filterMap_map, others]
  exact column ▸ laid.tight index width room

private theorem fitting_of_laid {registry : Registry} {title lines : List (List Char)}
    {blocks : List (List (List Char))}
    (laid : Text.Laid columns registry.table
      [widths.opcode, widths.mnemonic, widths.immediate, widths.flags] title blocks lines) :
    Fitting columns registry.descriptors widths where
  opcode := by
    have tight := tight_of_laid laid 0 rfl rfl fun _ => rfl
    rw [← funext literal_eq]
    exact tight
  mnemonic := by
    have tight := tight_of_laid laid 1 rfl rfl fun _ => rfl
    exact tight
  immediate := by
    have tight := tight_of_laid laid 2 rfl rfl fun _ => rfl
    rw [← funext name_eq]
    exact tight
  flags := by
    have tight := tight_of_laid laid 3 rfl rfl fun _ => rfl
    exact tight

private theorem Shows.straight (measures : Measures columns) {texts : Across (List Char)}
    {line : List Char} (shows : Shows columns widths texts line)
    (opcode : '\n' ∉ texts.opcode) (mnemonic : '\n' ∉ texts.mnemonic)
    (immediate : '\n' ∉ texts.immediate) (flags : '\n' ∉ texts.flags) :
    Straight columns widths line := by
  refine ⟨fun feed => ?_, shows.columns_eq measures⟩
  rcases shows.mem_texts feed (by decide) (by decide) with feed | feed | feed | feed
  · exact opcode feed
  · exact mnemonic feed
  · exact immediate feed
  · exact flags feed

private theorem Block.straight (measures : Measures columns) {descriptor : Descriptor}
    {block : List (List Char)} (shown : Block columns widths descriptor block) :
    ∀ line ∈ block, Straight columns widths line := by
  intro line member
  obtain ⟨index, found⟩ := List.mem_iff_getElem?.mp member
  have first : ∀ text, Text.Unbroken text → '\n' ∉ if index = 0 then text else [] := by
    intro text unbroken
    split
    · exact fun feed => (unbroken _ feed).1 rfl
    · exact List.not_mem_nil
  exact (shown.shows index line found).straight measures (first _ (unbroken_opcode descriptor))
    (Text.feed_not_mem_getD_lines _ index) (first _ (unbroken_immediate descriptor))
    (first _ (unbroken_flags descriptor))

private theorem title_straight (measures : Measures columns) {title : List Char}
    (titled : Shows columns widths titles title) : Straight columns widths title :=
  titled.straight measures (by decide) (by decide) (by decide) (by decide)

private theorem length_flatten_blocks {descriptors : List Descriptor}
    {blocks : List (List (List Char))}
    (shown : List.Forall₂ (Block columns widths) descriptors blocks) :
    blocks.flatten.length = (descriptors.map fun descriptor =>
      max 1 (Text.lines descriptor.mnemonic.toList).length).sum := by
  induction shown with
  | nil => rfl
  | cons block _ ih =>
    rw [List.flatten_cons, List.length_append, block.height, ih, List.map_cons, List.sum_cons]

private theorem straight_flatten (measures : Measures columns) {descriptors : List Descriptor}
    {blocks : List (List (List Char))}
    (shown : List.Forall₂ (Block columns widths) descriptors blocks) :
    ∀ line ∈ blocks.flatten, Straight columns widths line := by
  induction shown with
  | nil => simp
  | cons block _ ih =>
    rw [List.flatten_cons, List.forall_mem_append]
    exact ⟨block.straight measures, ih⟩

end

private theorem exists_across {widths : List Nat} (count : widths.length = 4) :
    ∃ across : Across Nat,
      widths = [across.opcode, across.mnemonic, across.immediate, across.flags] := by
  obtain ⟨opcode, mnemonic, immediate, flags, rfl⟩ := List.length_eq_four.mp count
  exact ⟨⟨opcode, mnemonic, immediate, flags⟩, rfl⟩

-- An ideograph takes two columns. Beside the second line of a mnemonic all cells are blank.
example : tableFormat.row [6, 8, 9, 5]
    (row ⟨0xf0, "漢\nb", none, { entersBlock := true }, none⟩) = [
      "    0xf0 │ 漢       │           │ enter  ".toList,
      "         │ b        │           │        ".toList] := by
  decide +kernel

end Registry.Listing
end WasmStream
