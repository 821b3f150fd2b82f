import WasmStream.Proofs.Coding
import WasmStream.Proofs.LineGrammar

/-! One instruction on a line. A written line is split again where it was put together: lines
joined by line feeds are the same lines, and the words of a line are its mnemonic and its
operands, whatever blanks follow the last of them. -/

namespace WasmStream

namespace Text

/-- Text that is a line of its own wherever it stands between line feeds. -/
structure IsLine (text : List Char) : Prop where
  nonempty : text ≠ []
  unbroken : ∀ char ∈ text, char ≠ '\n' ∧ char ≠ '\r'

private theorem lines_cons {char : Char} (noBreak : char ≠ '\n' ∧ char ≠ '\r') (rest : List Char) :
    lines (char :: rest) = match lines rest with
      | [] => [[char]]
      | line :: others => (char :: line) :: others :=
  lines_char noBreak.1 fun _ return' => absurd return' noBreak.2

private theorem lines_append {text : List Char}
    (unbroken : ∀ char ∈ text, char ≠ '\n' ∧ char ≠ '\r') (rest : List Char) :
    lines (text ++ '\n' :: rest) = text :: lines rest := by
  induction text with
  | nil => rfl
  | cons char text ih =>
    have later := ih fun other member => unbroken other (.tail _ member)
    rw [List.cons_append, lines_cons (unbroken char List.mem_cons_self), later]

theorem IsLine.lines_eq {text : List Char} (isLine : IsLine text) : lines text = [text] := by
  obtain ⟨nonempty, unbroken⟩ := isLine
  induction text with
  | nil => exact absurd rfl nonempty
  | cons char text ih =>
    rw [lines_cons (unbroken char List.mem_cons_self)]
    cases text with
    | nil => rfl
    | cons next text =>
      rw [ih (List.cons_ne_nil _ _) fun other member => unbroken other (.tail _ member)]

theorem lines_intercalate {texts : List (List Char)} (each : ∀ text ∈ texts, IsLine text) :
    lines (['\n'].intercalate texts) = texts := by
  induction texts with
  | nil => rfl
  | cons text texts ih =>
    have first := each text List.mem_cons_self
    cases texts with
    | nil => rw [List.intercalate_singleton, first.lines_eq]
    | cons next texts =>
      rw [List.intercalate_cons_cons, List.append_assoc, List.singleton_append,
        lines_append first.unbroken, ih fun other member => each other (.tail _ member)]

end Text

namespace Assembly

namespace Line

def spaced (texts : List (List Char)) : List Char := texts.flatMap (' ' :: ·)

private theorem separated_spaced {texts : List (List Char)}
    (each : ∀ text ∈ texts, IsWord isOperandChar text) {gap : List Char}
    (blank : ∀ char ∈ gap, isBlank char = true) : Separated (spaced texts ++ gap) texts := by
  induction texts with
  | nil => exact .gap blank
  | cons text texts ih =>
    obtain ⟨first, others⟩ := List.forall_mem_cons.mp each
    have space : ∀ char ∈ [' '], isBlank char = true := by simp [isBlank]
    have split : spaced (text :: texts) ++ gap = [' '] ++ (text ++ (spaced texts ++ gap)) := by
      simp [spaced]
    rw [split]
    exact .word space (List.cons_ne_nil _ _) first (ih others)

theorem ofText?_spaced {mnemonic : List Char} (isWord : IsWord isMnemonicChar mnemonic)
    {texts : List (List Char)} (each : ∀ text ∈ texts, IsWord isOperandChar text)
    {gap : List Char} (blank : ∀ char ∈ gap, isBlank char = true) :
    ofText? (mnemonic ++ (spaced texts ++ gap)) =
      some (instruction (String.ofList mnemonic) (texts.map String.ofList)) := by
  have ended : Stops [] := by simp [Stops]
  have read := ofText?_separated isWord (separated_spaced each blank) ended
  rw [List.append_nil] at read
  exact read

private theorem cons_intercalate {texts : List (List Char)} (some' : texts ≠ []) :
    ' ' :: [' '].intercalate texts = spaced texts := by
  induction texts with
  | nil => exact absurd rfl some'
  | cons text texts ih =>
    cases texts with
    | nil => simp [spaced]
    | cons next texts =>
      have later := ih (List.cons_ne_nil _ _)
      rw [List.intercalate_cons_cons, List.append_assoc, List.singleton_append, later]
      rfl

end Line
end Assembly

namespace Opcode
open Assembly.Line

private theorem eq_of_mnemonic_eq {first second : Opcode}
    (same : first.mnemonic = second.mnemonic) :
    first = second := by
  have distinct : (all.map mnemonic).Nodup := by
    have apart := List.pairwise_map.mp Registry.standard_distinct
    exact List.pairwise_map.mpr apart
  exact List.inj_on_of_nodup_map distinct (mem_all first) (mem_all second) same

theorem ofMnemonic?_mnemonic (opcode : Opcode) : ofMnemonic? opcode.mnemonic = some opcode := by
  cases found : ofMnemonic? opcode.mnemonic with
  | none =>
    have absent := List.find?_eq_none.mp found opcode (mem_all opcode)
    simp at absent
  | some other =>
    have same : other.mnemonic = opcode.mnemonic := by simpa using List.find?_some found
    rw [eq_of_mnemonic_eq same]

theorem isWord_mnemonic (opcode : Opcode) : IsWord isMnemonicChar opcode.mnemonic.toList := by
  have each : ∀ opcode ∈ all, opcode.mnemonic.toList ≠ [] ∧
      opcode.mnemonic.toList.all isMnemonicChar = true := by decide +kernel
  obtain ⟨nonempty, letters⟩ := each opcode (mem_all opcode)
  exact .of_all nonempty letters

end Opcode

namespace Assembly
open Line

def operandWords (immediate : Option Immediate) : List String :=
  (immediate.map Immediate.words).getD []

theorem isWord_operandWords {immediate : Option Immediate} :
    ∀ text ∈ (operandWords immediate).map String.toList, IsWord isOperandChar text := by
  intro text member
  obtain ⟨word, listed, same⟩ := List.mem_map.mp member
  cases immediate with
  | none => cases listed
  | some immediate => exact same ▸ Immediate.isWord_words listed

/-- A written line is a mnemonic and operands behind spaces; one space is left over when the
operands have no words. -/
theorem toList_line (mnemonic : String) (immediate : Option Immediate) :
    ∃ gap, (∀ char ∈ gap, isBlank char = true) ∧ (line mnemonic immediate).toList =
      mnemonic.toList ++ (spaced ((operandWords immediate).map String.toList) ++ gap) := by
  cases immediate with
  | none => exact ⟨[], by simp, by simp [line, operandWords, spaced]⟩
  | some immediate =>
    by_cases nothing : immediate.words = []
    · exact ⟨[' '], by simp [isBlank], by simp [line, operandWords, Immediate.text, spaced, nothing]⟩
    · refine ⟨[], by simp, ?_⟩
      have some' : immediate.words.map String.toList ≠ [] := mt List.map_eq_nil_iff.mp nothing
      have spaces := cons_intercalate some'
      simp [line, operandWords, Immediate.text, String.toList_intercalate, spaces]

private theorem unbroken_of_letter {letter : Char → Bool} (feed : letter '\n' = false)
    (return' : letter '\r' = false) {char : Char} (inside : letter char = true) :
    char ≠ '\n' ∧ char ≠ '\r' := by
  refine ⟨?_, ?_⟩
  · intro same
    rw [same, feed] at inside
    cases inside
  · intro same
    rw [same, return'] at inside
    cases inside

/-- No class of characters on a written line holds the end of a line. -/
theorem isLine_line (opcode : Opcode) (immediate : Option Immediate) :
    Text.IsLine (line opcode.mnemonic immediate).toList := by
  obtain ⟨gap, blank, same⟩ := toList_line opcode.mnemonic immediate
  have mnemonic := opcode.isWord_mnemonic
  rw [same]
  refine ⟨List.append_ne_nil_of_left_ne_nil mnemonic.nonempty _, ?_⟩
  intro char member
  rcases List.mem_append.mp member with letter | after
  · exact unbroken_of_letter (by decide) (by decide) (mnemonic.letters char letter)
  · rcases List.mem_append.mp after with operands | trailing
    · obtain ⟨word, listed, inside⟩ := List.mem_flatMap.mp operands
      rcases List.mem_cons.mp inside with space | letter
      · exact space ▸ by decide
      · have letters := (isWord_operandWords word listed).letters
        exact unbroken_of_letter (by decide) (by decide) (letters char letter)
    · exact unbroken_of_letter (by decide) (by decide) (blank char trailing)

theorem ofText?_line (opcode : Opcode) (immediate : Option Immediate) :
    Line.ofText? (line opcode.mnemonic immediate).toList =
      some (.instruction opcode.mnemonic (operandWords immediate)) := by
  obtain ⟨gap, blank, same⟩ := toList_line opcode.mnemonic immediate
  rw [same, ofText?_spaced opcode.isWord_mnemonic isWord_operandWords blank]
  simp [Function.comp_def]

end Assembly
end WasmStream
