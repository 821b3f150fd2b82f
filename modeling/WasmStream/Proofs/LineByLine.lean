import Mathlib.Data.List.Basic
import WasmStream.Assembly.Basic

/-! Text that is assembled line by line. Whatever stands behind a line feed is split into the lines
that it has for itself, so that two texts with a line feed between them are assembled one after the
other. Only the numbers of the later lines change, by the line feeds that come before them. -/

namespace WasmStream

namespace Text

def Closed (text : List Char) : Prop := ∀ char ∈ text.getLast?, char = '\n'

private theorem forall_getLast?_tail {Good : Char → Prop} {char : Char} {text : List Char}
    (good : ∀ last ∈ (char :: text).getLast?, Good last) : ∀ last ∈ text.getLast?, Good last := by
  cases text with
  | nil => simp
  | cons => rwa [List.getLast?_cons_cons] at good

theorem Closed.tail {char : Char} {text : List Char} (closed : Closed (char :: text)) :
    Closed text := forall_getLast?_tail closed

theorem Closed.cons {text : List Char} (closed : Closed text) (some' : text ≠ []) (char : Char) :
    Closed (char :: text) := by
  cases text with
  | nil => contradiction
  | cons => rwa [Closed, List.getLast?_cons_cons]

private theorem Closed.append {first second : List Char} (closed : Closed first)
    (closed' : Closed second) :
    Closed (first ++ second) := by
  induction first with
  | nil => exact closed'
  | cons char first ih =>
    by_cases nothing : first ++ second = []
    · obtain ⟨rfl, rfl⟩ := List.append_eq_nil_iff.mp nothing
      exact closed
    · exact (ih closed.tail).cons nothing char

theorem closed_feed (text : List Char) : Closed (text ++ ['\n']) := by
  simp [Closed]

theorem lines_char {char : Char} {text : List Char} (solid : char ≠ '\n')
    (apart : ∀ rest, char = '\r' → text ≠ '\n' :: rest) :
    lines (char :: text) = match lines text with
      | [] => [[char]]
      | line :: others => (char :: line) :: others := lines.eq_4 char text solid apart

theorem lines_singleton {char : Char} (solid : char ≠ '\n') : lines [char] = [[char]] :=
  lines_char solid (by simp)

private theorem eq_nil_of_lines {text : List Char} (nothing : lines text = []) : text = [] := by
  fun_induction lines text with
  | case1 => rfl
  | _ => cases nothing

theorem lines_induction {motive : List Char → Prop} (empty : motive [])
    (feed : ∀ text, motive text → motive ('\n' :: text))
    (return' : ∀ text, motive text → motive ('\r' :: '\n' :: text))
    (single : ∀ char, char ≠ '\n' → motive [char])
    (extend : ∀ char text line others, char ≠ '\n' →
      (∀ rest, char = '\r' → text ≠ '\n' :: rest) → lines text = line :: others →
      motive text → motive (char :: text))
    (text : List Char) : motive text := by
  induction text using lines.induct with
  | case1 => exact empty
  | case2 text ih => exact feed text ih
  | case3 text ih => exact return' text ih
  | case4 char text solid apart nothing ih => exact eq_nil_of_lines nothing ▸ single char solid
  | case5 char text solid apart line others same ih =>
    exact extend char text line others solid apart same ih

theorem ne_nil_of_lines {text line : List Char} {others : List (List Char)}
    (same : lines text = line :: others) : text ≠ [] := by
  rintro rfl
  cases same

theorem lines_extend {char : Char} {text more line : List Char} {others : List (List Char)}
    (solid : char ≠ '\n') (apart : ∀ rest, char = '\r' → text ≠ '\n' :: rest) (some' : text ≠ [])
    (same : lines (text ++ more) = line :: others) :
    lines (char :: (text ++ more)) = (char :: line) :: others := by
  have apart' : ∀ rest, char = '\r' → text ++ more ≠ '\n' :: rest := by
    intro rest return' feed
    cases text with
    | nil => contradiction
    | cons first text => exact apart text return' (congrArg (· :: text) (List.cons.inj feed).1)
  rw [lines_char solid apart', same]

theorem lines_append_closed {before : List Char} (closed : Closed before) (rest : List Char) :
    lines (before ++ rest) = lines before ++ lines rest := by
  induction before using lines_induction with
  | empty => rfl
  | feed text ih => exact congrArg ([] :: ·) (ih closed.tail)
  | return' text ih => exact congrArg ([] :: ·) (ih closed.tail.tail)
  | single char solid => exact absurd (closed char rfl) solid
  | extend char text line others solid apart same ih =>
    have later := ih closed.tail
    rw [same] at later
    rw [List.cons_append, lines_extend solid apart (ne_nil_of_lines same) later,
      lines_char solid apart, same]
    rfl

theorem length_lines_closed {text : List Char} (closed : Closed text) :
    (lines text).length = text.count '\n' := by
  induction text using lines_induction with
  | empty => rfl
  | feed text ih => simp [lines, ih closed.tail]
  | return' text ih => simp [lines, ih closed.tail.tail]
  | single char solid => exact absurd (closed char rfl) solid
  | extend char text line others solid apart same ih =>
    rw [List.count_cons_of_ne solid, ← ih closed.tail, lines_char solid apart, same]
    rfl

private theorem lines_feed {text : List Char} (noReturn : ∀ last ∈ text.getLast?, last ≠ '\r') :
    lines (text ++ ['\n']) = lines text ∨ lines (text ++ ['\n']) = lines text ++ [[]] := by
  induction text using lines_induction with
  | empty => exact .inr rfl
  | feed text ih =>
    exact (ih (forall_getLast?_tail noReturn)).imp (congrArg ([] :: ·)) (congrArg ([] :: ·))
  | return' text ih =>
    have later := forall_getLast?_tail (forall_getLast?_tail noReturn)
    exact (ih later).imp (congrArg ([] :: ·)) (congrArg ([] :: ·))
  | single char solid =>
    rw [lines_singleton solid]
    exact .inl (lines_char solid fun _ return' => absurd return' (noReturn char rfl))
  | extend char text line others solid apart same ih =>
    have extend := @lines_extend char text ['\n'] line
    rw [lines_char solid apart, same]
    rw [same] at ih
    exact (ih (forall_getLast?_tail noReturn)).imp (extend solid apart (ne_nil_of_lines same))
      (extend solid apart (ne_nil_of_lines same))

private theorem exists_first {text line : List Char} {others : List (List Char)}
    (same : lines text = line :: others) : ∃ first rest, text = first ++ rest ∧
      lines first = [line] ∧ lines rest = others ∧ (others ≠ [] → Closed first) := by
  induction text using lines_induction generalizing line others with
  | empty => cases same
  | feed text ih =>
    cases same
    exact ⟨['\n'], text, rfl, rfl, rfl, fun _ => closed_feed []⟩
  | return' text ih =>
    cases same
    exact ⟨['\r', '\n'], text, rfl, rfl, rfl, fun _ => closed_feed ['\r']⟩
  | single char solid =>
    rw [lines_singleton solid] at same
    cases same
    exact ⟨[char], [], rfl, lines_singleton solid, rfl, fun more => absurd rfl more⟩
  | extend char text line' others' solid apart split ih =>
    rw [lines_char solid apart, split] at same
    cases same
    obtain ⟨first, rest, rfl, single, behind, closed⟩ := ih split
    have some' := ne_nil_of_lines single
    -- A carriage return in front has no line feed behind it in the first line either.
    have apart' : ∀ rest, char = '\r' → first ≠ '\n' :: rest := by
      rintro more return' rfl
      exact apart (more ++ rest) return' rfl
    refine ⟨char :: first, rest, rfl, ?_, behind, fun more => (closed more).cons some' char⟩
    rw [lines_char solid apart', single]

private theorem exists_before {text line : List Char} {front back : List (List Char)}
    (same : lines text = front ++ line :: back) : ∃ before rest, text = before ++ rest ∧
      Closed before ∧ lines before = front ∧ lines rest = line :: back := by
  induction front generalizing text with
  | nil => exact ⟨[], text, rfl, by simp [Closed], rfl, same⟩
  | cons head front ih =>
    obtain ⟨first, rest, rfl, single, behind, closed⟩ := exists_first same
    obtain ⟨before, rest, rfl, closed', earlier, later⟩ := ih behind
    have ended := closed (by simp)
    refine ⟨first ++ before, rest, (List.append_assoc ..).symm, ended.append closed', ?_, later⟩
    rw [lines_append_closed ended, single, earlier]
    rfl

end Text

namespace Assembly

def Error.down (error : Error) (lines : Nat) : Error := { error with line := error.line + lines }

theorem assembleLines_append (number : Nat) (first second : List (List Char)) :
    assembleLines number (first ++ second) =
      (assembleLines number first >>= fun bytes =>
        (assembleLines (number + first.length) second).map (bytes ++ ·)) := by
  induction first generalizing number with
  | nil =>
    change assembleLines number second = (assembleLines number second).map ([] ++ ·)
    cases assembleLines number second <;> rfl
  | cons line first ih =>
    have place : number + (line :: first).length = number + 1 + first.length := by
      rw [List.length_cons]
      omega
    rw [List.cons_append, assembleLines, assembleLines, ih, place]
    cases assembleLine line with
    | error fault => rfl
    | ok bytes =>
      cases assembleLines (number + 1) first with
      | error error => rfl
      | ok more =>
        cases assembleLines (number + 1 + first.length) second with
        | error error => rfl
        | ok others => exact congrArg Except.ok (List.append_assoc bytes more others).symm

private theorem assembleLines_down (number lines : Nat) (texts : List (List Char)) :
    assembleLines (number + lines) texts =
      (assembleLines number texts).mapError (·.down lines) := by
  induction texts generalizing number with
  | nil => rfl
  | cons text texts ih =>
    have place : number + lines + 1 = number + 1 + lines := Nat.add_right_comm ..
    rw [assembleLines, assembleLines, place, ih]
    cases assembleLine text with
    | error fault => rfl
    | ok bytes => cases assembleLines (number + 1) texts <;> rfl

private theorem assembleLines_feed {text : List Char}
    (noReturn : ∀ last ∈ text.getLast?, last ≠ '\r') (number : Nat) :
    assembleLines number (Text.lines (text ++ ['\n'])) = assembleLines number (Text.lines text) := by
  rcases Text.lines_feed noReturn with same | more
  · rw [same]
  · have blank : ∀ number, assembleLines number [[]] = .ok [] := fun _ => rfl
    rw [more, assembleLines_append, blank]
    cases assembleLines number (Text.lines text) with
    | error error => rfl
    | ok bytes => exact congrArg Except.ok (List.append_nil bytes)

private theorem assemble_feed {first : String}
    (noReturn : ∀ last ∈ first.toList.getLast?, last ≠ '\r') (second : String) :
    assemble (first ++ "\n" ++ second) =
      (assemble first >>= fun bytes =>
        ((assemble second).mapError (·.down (first.toList.count '\n' + 1))).map (bytes ++ ·)) := by
  have closed := Text.closed_feed first.toList
  have count : (first.toList ++ ['\n']).count '\n' = first.toList.count '\n' + 1 := by simp
  have text : (first ++ "\n" ++ second).toList = first.toList ++ ['\n'] ++ second.toList := by simp
  rw [assemble, text, Text.lines_append_closed closed, assembleLines_append,
    Text.length_lines_closed closed, count, assembleLines_down, assembleLines_feed noReturn]
  rfl

theorem assembleLines_eq_error_iff {number : Nat} {texts : List (List Char)} {error : Error} :
    assembleLines number texts = .error error ↔ ∃ front line back, texts = front ++ line :: back ∧
      (∀ earlier ∈ front, ∃ bytes, assembleLine earlier = .ok bytes) ∧
      assembleLine line = .error error.fault ∧ error.line = number + front.length := by
  induction texts generalizing number with
  | nil => simp [assembleLines]
  | cons text texts ih =>
    rw [assembleLines]
    constructor
    · intro failed
      cases first : assembleLine text with
      | error fault =>
        simp only [first, Except.error.injEq] at failed
        subst failed
        exact ⟨[], text, texts, rfl, by simp, first, rfl⟩
      | ok bytes =>
        cases later : assembleLines (number + 1) texts with
        | ok more => simp [first, later, Except.map] at failed
        | error error' =>
          simp only [first, later, Except.map, Except.error.injEq] at failed
          subst failed
          obtain ⟨front, line, back, rfl, good, bad, place⟩ := ih.mp later
          refine ⟨text :: front, line, back, rfl, ?_, bad, ?_⟩
          · exact List.forall_mem_cons.mpr ⟨⟨bytes, first⟩, good⟩
          · rw [place, List.length_cons]
            omega
    · rintro ⟨front, line, back, split, good, bad, place⟩
      cases front with
      | nil =>
        obtain ⟨rfl, rfl⟩ := List.cons.inj split
        obtain ⟨number', fault⟩ := error
        obtain rfl : number' = number := place
        simp only [bad]
      | cons head front =>
        obtain ⟨rfl, rfl⟩ := List.cons.inj split
        obtain ⟨⟨bytes, first⟩, good⟩ := List.forall_mem_cons.mp good
        have place' : error.line = number + 1 + front.length := by
          rw [place, List.length_cons]
          omega
        have later := ih.mpr ⟨front, line, back, rfl, good, bad, place'⟩
        simp only [first, later, Except.map]

/-- A text is refused for its first bad line, whose number is that of the line feeds before it. -/
theorem assemble_eq_error_iff {text : String} {error : Error} :
    assemble text = .error error ↔ ∃ before rest line, text.toList = before ++ rest ∧
      Text.Closed before ∧ (Text.lines rest).head? = some line ∧
      (∀ earlier ∈ Text.lines before, ∃ bytes, assembleLine earlier = .ok bytes) ∧
      assembleLine line = .error error.fault ∧ error.line = before.count '\n' + 1 := by
  rw [assemble, assembleLines_eq_error_iff]
  constructor
  · rintro ⟨front, line, back, same, good, bad, place⟩
    obtain ⟨before, rest, split, closed, rfl, behind⟩ := Text.exists_before same
    refine ⟨before, rest, line, split, closed, by rw [behind]; rfl, good, bad, ?_⟩
    rw [place, Text.length_lines_closed closed, Nat.add_comm]
  · rintro ⟨before, rest, line, split, closed, head, good, bad, place⟩
    obtain ⟨back, behind⟩ := List.head?_eq_some_iff.mp head
    refine ⟨Text.lines before, line, back, ?_, good, bad, ?_⟩
    · rw [split, Text.lines_append_closed closed, behind]
    · rw [place, Text.length_lines_closed closed, Nat.add_comm]

/-- Two texts with a line feed between them are assembled one after the other. The first is refused
as it would be alone, and the second with the number of its bad line put right; every other text
as well is refused for the first line that is bad, by its number. -/
theorem assemble_by_line (first second : String)
    (noReturn : ∀ last ∈ first.toList.getLast?, last ≠ '\r') :
    (∀ error, assemble first = .error error →
      assemble (first ++ "\n" ++ second) = .error error) ∧
    (∀ bytes more, assemble first = .ok bytes → assemble second = .ok more →
      assemble (first ++ "\n" ++ second) = .ok (bytes ++ more)) ∧
    (∀ bytes error, assemble first = .ok bytes → assemble second = .error error →
      assemble (first ++ "\n" ++ second) =
        .error ⟨error.line + (first.toList.count '\n' + 1), error.fault⟩) ∧
    ∀ text error, assemble text = .error error ↔
      ∃ before rest line, text.toList = before ++ rest ∧
        Text.Closed before ∧ (Text.lines rest).head? = some line ∧
        (∀ earlier ∈ Text.lines before, ∃ bytes, assembleLine earlier = .ok bytes) ∧
        assembleLine line = .error error.fault ∧ error.line = before.count '\n' + 1 := by
  rw [assemble_feed noReturn]
  refine ⟨?_, ?_, ?_, fun text error => assemble_eq_error_iff⟩
  · intro error failed
    rw [failed]
    rfl
  · intro bytes more assembled assembled'
    rw [assembled, assembled']
    rfl
  · intro bytes error assembled failed
    rw [assembled, failed]
    rfl

/-- A blank line that the line feed makes counts, and so does one of a carriage return. -/
theorem assemble_by_line_blank :
    (∀ last ∈ "nop\n\r\n".toList.getLast?, last ≠ '\r') ∧
    assemble "nop\n\r\n" = .ok [0x01] ∧
    assemble "nop 3" = .error ⟨1, .badOperands "nop" "3"⟩ ∧
    assemble "nop\n\r\n\nnop 3" = .error ⟨4, .badOperands "nop" "3"⟩ := by
  have noReturn : ∀ last ∈ "nop\n\r\n".toList.getLast?, last ≠ '\r' := by simp
  have good : assemble "nop\n\r\n" = .ok [0x01] := by decide +kernel
  have bad : assemble "nop 3" = .error ⟨1, .badOperands "nop" "3"⟩ := by decide +kernel
  obtain ⟨-, -, fails, -⟩ := assemble_by_line "nop\n\r\n" "nop 3" noReturn
  exact ⟨noReturn, good, bad, fails _ _ good bad⟩

end Assembly

end WasmStream
