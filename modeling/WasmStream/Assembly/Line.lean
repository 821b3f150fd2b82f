import WasmStream.Text.Basic

/-! A line of assembly: at most one instruction, then at most one comment. Only spaces and tabs
separate words, although no word contains any other white space either. -/

namespace WasmStream.Assembly

inductive Line where
  | blank
  | instruction (mnemonic : String) (operands : List String)
deriving DecidableEq, Repr

namespace Line

def isBlank (char : Char) : Bool := char == ' ' || char == '\t'

def isMnemonicChar (char : Char) : Bool := char.isAlphanum || char == '.' || char == '_'

def isOperandChar (char : Char) : Bool :=
  !Text.isWhiteSpace char && char != ';' && char != '#'

/-- The end of a line, or a comment up to it. -/
def atEnd (text : List Char) : Bool :=
  match text.dropWhile isBlank with
  | [] => true
  | '#' :: _ => true
  | ';' :: ';' :: _ => true
  | _ => false

/-- The word after at least one blank, and what follows it. -/
def nextWord? (text : List Char) : Option (List Char × List Char) :=
  let trimmed := text.dropWhile isBlank
  let word := trimmed.takeWhile isOperandChar
  if (text.takeWhile isBlank).isEmpty || word.isEmpty then none
  else some (word, trimmed.dropWhile isOperandChar)

private theorem length_takeWhile_add_length_dropWhile (p : Char → Bool) (text : List Char) :
    (text.takeWhile p).length + (text.dropWhile p).length = text.length := by
  rw [← List.length_append, List.takeWhile_append_dropWhile]

private theorem nextWord?_length_lt {text word rest : List Char}
    (next : nextWord? text = some (word, rest)) :
    rest.length < text.length := by
  unfold nextWord? at next
  dsimp only at next
  split at next
  · cases next
  · rename_i nonempty
    cases next
    simp only [Bool.or_eq_true, List.isEmpty_iff, not_or] at nonempty
    have blanks := length_takeWhile_add_length_dropWhile isBlank text
    have letters := length_takeWhile_add_length_dropWhile isOperandChar (text.dropWhile isBlank)
    have positive := List.length_pos_iff.mpr nonempty.1
    omega

/-- As many words as there are, and what follows the last. -/
def words (text : List Char) : List (List Char) × List Char :=
  match _ : nextWord? text with
  | none => ([], text)
  | some (word, rest) =>
    let (others, rest) := words rest
    (word :: others, rest)
termination_by text.length
decreasing_by
  rename_i next
  exact nextWord?_length_lt next

/-- Nothing may stand between the last operand and the comment. -/
def ofText? (text : List Char) : Option Line :=
  let text := text.dropWhile isBlank
  let mnemonic := text.takeWhile isMnemonicChar
  if mnemonic.isEmpty then
    if atEnd text then some blank else none
  else
    let (operands, rest) := words (text.dropWhile isMnemonicChar)
    if atEnd rest then some (instruction (String.ofList mnemonic) (operands.map String.ofList))
    else none

end Line
end WasmStream.Assembly
