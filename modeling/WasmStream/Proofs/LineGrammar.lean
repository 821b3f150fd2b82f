import WasmStream.Proofs.LineByLine
import WasmStream.Proofs.Words

/-! What a line of assembly may hold. Its body, up to the first comment character, is cut into words
at its spaces and tabs; the first word is a mnemonic, and the comment character opens a comment. The
line is read as those words, and no other line is read at all. -/

namespace WasmStream.Assembly

namespace Line

def opensComment (char : Char) : Bool := char == ';' || char == '#'

def body (text : List Char) : List Char := text.takeWhile (!opensComment ·)

/-- The comment, or what stands where a comment would. -/
def remark (text : List Char) : List Char := text.dropWhile (!opensComment ·)

def bodyWords (text : List Char) : List (List Char) := (text.splitOnP isBlank).filter (!·.isEmpty)

def ofWords : List (List Char) → Line
  | [] => blank
  | mnemonic :: operands => instruction (String.ofList mnemonic) (operands.map String.ofList)

structure Grammatical (text : List Char) : Prop where
  remark : ∀ rest, remark text = ';' :: rest → rest.head? = some ';'
  spaces : ∀ char ∈ body text, Text.isWhiteSpace char = true → char = ' ' ∨ char = '\t'
  mnemonic : ∀ first ∈ (bodyWords (body text)).head?, ∀ char ∈ first,
    char.isAlphanum = true ∨ char = '.' ∨ char = '_'

theorem isBlank_iff {char : Char} : isBlank char = true ↔ char = ' ' ∨ char = '\t' := by
  simp [isBlank]

theorem isMnemonicChar_iff {char : Char} :
    isMnemonicChar char = true ↔ char.isAlphanum = true ∨ char = '.' ∨ char = '_' := by
  simp [isMnemonicChar, or_assoc]

theorem isOperandChar_iff {char : Char} :
    isOperandChar char = true ↔ Text.isWhiteSpace char = false ∧ opensComment char = false := by
  simp [isOperandChar, opensComment, and_assoc]

private theorem eq_false_of_isBlank {letter : Char → Bool} (space : letter ' ' = false)
    (tab : letter '\t' = false) {char : Char} (blank : isBlank char = true) :
    letter char = false := by
  rcases isBlank_iff.mp blank with same | same
  · exact same ▸ space
  · exact same ▸ tab

theorem isOperandChar_of_isBlank {char : Char} (blank : isBlank char = true) :
    isOperandChar char = false := eq_false_of_isBlank (by decide) (by decide) blank

private theorem isMnemonicChar_of_isBlank {char : Char} (blank : isBlank char = true) :
    isMnemonicChar char = false := eq_false_of_isBlank (by decide) (by decide) blank

theorem IsWord.not_isBlank {letter : Char → Bool} {word : List Char} (isWord : IsWord letter word)
    (apart : ∀ char, isBlank char = true → letter char = false) :
    ∀ char ∈ word, isBlank char = false := by
  intro char member
  apply Bool.eq_false_iff.mpr
  intro blank
  have inside := isWord.letters char member
  rw [apart char blank] at inside
  cases inside

theorem IsWord.head_append {letter : Char → Bool} {word : List Char} (isWord : IsWord letter word)
    {rest : List Char} {property : Char → Prop} (each : ∀ char ∈ word, property char) :
    ∀ char ∈ (word ++ rest).head?, property char := by
  intro char first
  rw [List.head?_append_of_ne_nil _ isWord.nonempty] at first
  exact each char (List.mem_of_mem_head? first)

def isPlain (char : Char) : Bool := isBlank char || isOperandChar char

theorem bodyWords_append_blank {char : Char} (blank : isBlank char = true) (left right : List Char) :
    bodyWords (left ++ char :: right) = bodyWords left ++ bodyWords right := by
  unfold bodyWords
  rw [List.splitOnP_append_cons left right blank, List.filter_append]

theorem bodyWords_gap {gap : List Char} (blank : ∀ char ∈ gap, isBlank char = true)
    (rest : List Char) : bodyWords (gap ++ rest) = bodyWords rest := by
  induction gap with
  | nil => rfl
  | cons char gap ih =>
    obtain ⟨first, others⟩ := List.forall_mem_cons.mp blank
    exact (bodyWords_append_blank first [] (gap ++ rest)).trans (ih others)

theorem bodyWords_word {word : List Char} (isWord : IsWord isOperandChar word) {rest : List Char}
    (ended : ∀ char ∈ rest.head?, isBlank char = true) :
    bodyWords (word ++ rest) = word :: bodyWords rest := by
  have solid := isWord.not_isBlank @isOperandChar_of_isBlank
  have alone : bodyWords word = [word] := by
    unfold bodyWords
    rw [List.splitOnP_eq_singleton solid]
    simp [isWord.nonempty]
  cases rest with
  | nil => rw [List.append_nil, alone]; rfl
  | cons char rest =>
    have blank := ended char rfl
    rw [bodyWords_append_blank blank, alone]
    exact congrArg (word :: ·) (bodyWords_append_blank blank [] rest).symm

/-- Words, each behind blanks, and blanks behind the last. -/
inductive Separated : List Char → List (List Char) → Prop where
  | gap {gap} (blank : ∀ char ∈ gap, isBlank char = true) : Separated gap []
  | word {gap word rest words} (blank : ∀ char ∈ gap, isBlank char = true) (some' : gap ≠ [])
      (isWord : IsWord isOperandChar word) (separated : Separated rest words) :
      Separated (gap ++ (word ++ rest)) (word :: words)

theorem Separated.head_isBlank {text : List Char} {words : List (List Char)}
    (separated : Separated text words) : ∀ char ∈ text.head?, isBlank char = true := by
  cases separated with
  | gap blank => exact fun char first => blank char (List.mem_of_mem_head? first)
  | @word gap _ _ _ blank some' =>
    intro char first
    rw [List.head?_append_of_ne_nil _ some'] at first
    exact blank char (List.mem_of_mem_head? first)

private theorem Separated.bodyWords_eq {text : List Char} {words : List (List Char)}
    (separated : Separated text words) : bodyWords text = words := by
  induction separated with
  | @gap gap blank => simpa [bodyWords] using bodyWords_gap blank []
  | word blank _ isWord later ih =>
    rw [bodyWords_gap blank, bodyWords_word isWord later.head_isBlank, ih]

def Stops (rest : List Char) : Prop := ∀ char ∈ rest.head?, isPlain char = false

theorem Stops.not_isBlank {rest : List Char} (stops : Stops rest) :
    ∀ char ∈ rest.head?, isBlank char = false := by
  intro char first
  exact (Bool.or_eq_false_iff.mp (stops char first)).1

theorem Stops.not_isOperandChar {rest : List Char} (stops : Stops rest) :
    ∀ char ∈ rest.head?, isOperandChar char = false := by
  intro char first
  exact (Bool.or_eq_false_iff.mp (stops char first)).2

private theorem nextWord?_gap {gap rest : List Char} (blank : ∀ char ∈ gap, isBlank char = true)
    (stops : Stops rest) : nextWord? (gap ++ rest) = none := by
  have after := Text.dropWhile_append blank rest stops.not_isBlank
  have nothing := @Text.takeWhile_append isOperandChar [] (by simp) rest stops.not_isOperandChar
  rw [List.nil_append] at nothing
  simp [nextWord?, after, nothing]

private theorem nextWord?_word {gap word rest : List Char}
    (blank : ∀ char ∈ gap, isBlank char = true) (some' : gap ≠ [])
    (isWord : IsWord isOperandChar word) (ended : ∀ char ∈ rest.head?, isOperandChar char = false) :
    nextWord? (gap ++ (word ++ rest)) = some (word, rest) := by
  have solid : ∀ char ∈ (word ++ rest).head?, isBlank char = false :=
    isWord.head_append (isWord.not_isBlank @isOperandChar_of_isBlank)
  have front := Text.takeWhile_append blank _ solid
  have after := Text.dropWhile_append blank _ solid
  have taken := Text.takeWhile_append isWord.letters rest ended
  have dropped := Text.dropWhile_append isWord.letters rest ended
  simp [nextWord?, front, after, taken, dropped, some', isWord.nonempty]

private theorem words_of_next {text word rest : List Char}
    (next : nextWord? text = some (word, rest)) :
    words text = (word :: (words rest).1, (words rest).2) := by
  rw [words]
  split
  next none' => cases next.symm.trans none'
  next some' =>
    cases next.symm.trans some'
    rfl

theorem words_of_none {text : List Char} (last : nextWord? text = none) :
    words text = ([], text) := by
  rw [words]
  split
  next => rfl
  next some' => cases last.symm.trans some'

private theorem Separated.words_append {text rest : List Char} {found : List (List Char)}
    (separated : Separated text found) (stops : Stops rest) :
    ∃ gap, (∀ char ∈ gap, isBlank char = true) ∧ words (text ++ rest) = (found, gap ++ rest) := by
  induction separated with
  | @gap gap blank => exact ⟨gap, blank, words_of_none (nextWord?_gap blank stops)⟩
  | @word gap word others _ blank some' isWord later ih =>
    obtain ⟨gap', blank', split⟩ := ih
    have ended : ∀ char ∈ (others ++ rest).head?, isOperandChar char = false := by
      intro char first
      cases others with
      | nil => exact stops.not_isOperandChar char first
      | cons => exact isOperandChar_of_isBlank (later.head_isBlank char first)
    have next := nextWord?_word blank some' isWord ended
    refine ⟨gap', blank', ?_⟩
    rw [List.append_assoc, List.append_assoc, words_of_next next, split]

/-- Plain text as blanks, or as a first word and what is separated from it. -/
inductive Plain : List Char → List (List Char) → Prop where
  | blank {gap} (blank : ∀ char ∈ gap, isBlank char = true) : Plain gap []
  | words {gap word rest words} (blank : ∀ char ∈ gap, isBlank char = true)
      (isWord : IsWord isOperandChar word) (separated : Separated rest words) :
      Plain (gap ++ (word ++ rest)) (word :: words)

private theorem Plain.bodyWords_eq {text : List Char} {words : List (List Char)}
    (plain : Plain text words) : bodyWords text = words := by
  cases plain with
  | blank blank => exact (Separated.gap blank).bodyWords_eq
  | words blank isWord separated =>
    rw [bodyWords_gap blank, bodyWords_word isWord separated.head_isBlank, separated.bodyWords_eq]

private theorem Plain.cons_blank {char : Char} {text : List Char} {words : List (List Char)}
    (first : isBlank char = true) (plain : Plain text words) : Plain (char :: text) words := by
  cases plain with
  | blank blank => exact .blank (List.forall_mem_cons.mpr ⟨first, blank⟩)
  | words blank isWord separated =>
    exact .words (List.forall_mem_cons.mpr ⟨first, blank⟩) isWord separated

private theorem Plain.cons_letter {char : Char} {text : List Char} {words : List (List Char)}
    (letter : isOperandChar char = true) (plain : Plain text words) :
    ∃ words, Plain (char :: text) words := by
  have alone : IsWord isOperandChar [char] := .of_all (by simp) (by simpa using letter)
  cases plain with
  | blank blank => exact ⟨_, @Plain.words [] _ _ _ (by simp) alone (.gap blank)⟩
  | @words gap word _ _ blank isWord separated =>
    by_cases nothing : gap = []
    · subst nothing
      have longer : IsWord isOperandChar (char :: word) :=
        ⟨List.cons_ne_nil _ _, List.forall_mem_cons.mpr ⟨letter, isWord.letters⟩⟩
      exact ⟨_, @Plain.words [] _ _ _ (by simp) longer separated⟩
    · exact ⟨_, @Plain.words [] _ _ _ (by simp) alone (.word blank nothing isWord separated)⟩

private theorem exists_plain {text : List Char} (each : ∀ char ∈ text, isPlain char = true) :
    ∃ words, Plain text words := by
  induction text with
  | nil => exact ⟨[], .blank (by simp)⟩
  | cons char text ih =>
    obtain ⟨first, others⟩ := List.forall_mem_cons.mp each
    obtain ⟨words, plain⟩ := ih others
    rcases Bool.or_eq_true_iff.mp first with blank | letter
    · exact ⟨words, plain.cons_blank blank⟩
    · exact plain.cons_letter letter

private theorem ranges_of_isAlphanum {char : Char} (alphanumeric : char.isAlphanum = true) :
    48 ≤ char.toNat ∧ char.toNat ≤ 57 ∨ 65 ≤ char.toNat ∧ char.toNat ≤ 90 ∨
      97 ≤ char.toNat ∧ char.toNat ≤ 122 := by
  rcases Bool.or_eq_true_iff.mp alphanumeric with letter | digit
  · rcases Bool.or_eq_true_iff.mp letter with upper | lower
    · exact .inr (.inl (of_decide_eq_true upper))
    · obtain ⟨least, most⟩ := Bool.and_eq_true_iff.mp lower
      exact .inr (.inr ⟨of_decide_eq_true least, of_decide_eq_true most⟩)
  · obtain ⟨least, most⟩ := Bool.and_eq_true_iff.mp digit
    exact .inl ⟨of_decide_eq_true least, of_decide_eq_true most⟩

private theorem isOperandChar_of_isMnemonicChar {char : Char}
    (letter : isMnemonicChar char = true) :
    isOperandChar char = true := by
  rcases isMnemonicChar_iff.mp letter with alphanumeric | same | same
  · have ranges := ranges_of_isAlphanum alphanumeric
    apply isOperandChar_of_visible <;> omega
  · exact same ▸ rfl
  · exact same ▸ rfl

private theorem atEnd_gap {gap rest : List Char} (blank : ∀ char ∈ gap, isBlank char = true)
    (stops : Stops rest) : atEnd (gap ++ rest) = atEnd rest := by
  have after := Text.dropWhile_append blank rest stops.not_isBlank
  have nothing := @Text.dropWhile_append isBlank [] (by simp) rest stops.not_isBlank
  rw [List.nil_append] at nothing
  rw [atEnd, atEnd, after, nothing]

private theorem atEnd_of_shut {char : Char} (solid : isBlank char = false)
    (shut : opensComment char = false) (rest : List Char) : atEnd (char :: rest) = false := by
  unfold atEnd
  rw [List.dropWhile_cons, if_neg (Bool.eq_false_iff.mp solid)]
  split
  next same => cases same
  next same =>
    cases same
    cases shut
  next same =>
    cases same
    cases shut
  next => rfl

private theorem atEnd_letter {char : Char} (letter : isOperandChar char = true) (rest : List Char) :
    atEnd (char :: rest) = false := by
  refine atEnd_of_shut (Bool.eq_false_iff.mpr fun blank => ?_) (isOperandChar_iff.mp letter).2 rest
  rw [isOperandChar_of_isBlank blank] at letter
  cases letter

private theorem atEnd_semicolon (rest : List Char) :
    atEnd (';' :: rest) = true ↔ rest.head? = some ';' := by
  rw [List.head?_eq_some_iff]
  constructor
  · intro ends
    unfold atEnd at ends
    rw [List.dropWhile_cons, if_neg (by decide)] at ends
    split at ends
    next same => cases same
    next same => cases same
    next same => exact ⟨_, (List.cons.inj same).2⟩
    next => cases ends
  · intro ⟨others, same⟩
    subst same
    rfl

theorem Stops.not_isMnemonicChar {rest : List Char} (stops : Stops rest) :
    ∀ char ∈ rest.head?, isMnemonicChar char = false := by
  intro char first
  apply Bool.eq_false_iff.mpr
  intro letter
  have letter' := isOperandChar_of_isMnemonicChar letter
  rw [stops.not_isOperandChar char first] at letter'
  cases letter'

private theorem ofText?_misspelled {mnemonic rest : List Char} {char : Char}
    (letters : ∀ char ∈ mnemonic, isMnemonicChar char = true)
    (operand : isOperandChar char = true) (other : isMnemonicChar char = false)
    (start : (mnemonic ++ char :: rest).dropWhile isBlank = mnemonic ++ char :: rest) :
    ofText? (mnemonic ++ char :: rest) = none := by
  have ended : ∀ first ∈ (char :: rest).head?, isMnemonicChar first = false := by simp [other]
  have taken := Text.takeWhile_append letters _ ended
  have dropped := Text.dropWhile_append letters _ ended
  have solid : isBlank char = false := by
    apply Bool.eq_false_iff.mpr
    intro blank
    rw [isOperandChar_of_isBlank blank] at operand
    cases operand
  have last : nextWord? (char :: rest) = none := by simp [nextWord?, solid]
  by_cases nothing : mnemonic = []
  · subst nothing
    simp only [List.nil_append] at start taken ⊢
    simp [ofText?, start, taken, atEnd_letter operand]
  · simp [ofText?, start, taken, dropped, nothing, words_of_none last, atEnd_letter operand]

private theorem ofText?_gap {gap : List Char} (blank : ∀ char ∈ gap, isBlank char = true)
    (rest : List Char) : ofText? (gap ++ rest) = ofText? rest := by
  simp only [ofText?, List.dropWhile_append_of_pos blank]

theorem ofText?_separated {mnemonic text rest : List Char} {operands : List (List Char)}
    (isWord : IsWord isMnemonicChar mnemonic) (separated : Separated text operands)
    (stops : Stops rest) :
    ofText? (mnemonic ++ (text ++ rest)) =
      if atEnd rest = true then some (ofWords (mnemonic :: operands)) else none := by
  have solid : ∀ char ∈ (mnemonic ++ (text ++ rest)).head?, isBlank char = false :=
    isWord.head_append (isWord.not_isBlank @isMnemonicChar_of_isBlank)
  have start := @Text.dropWhile_append isBlank [] (by simp) _ solid
  rw [List.nil_append] at start
  have ended : ∀ char ∈ (text ++ rest).head?, isMnemonicChar char = false := by
    intro char first
    cases text with
    | nil => exact stops.not_isMnemonicChar char first
    | cons => exact isMnemonicChar_of_isBlank (separated.head_isBlank char first)
  have taken := Text.takeWhile_append isWord.letters _ ended
  have dropped := Text.dropWhile_append isWord.letters _ ended
  obtain ⟨gap, blank, split⟩ := separated.words_append stops
  simp [ofText?, start, taken, dropped, split, atEnd_gap blank stops, isWord.nonempty, ofWords]

private theorem Plain.read_iff {text rest : List Char} {words : List (List Char)}
    (plain : Plain text words) (stops : Stops rest) {line : Line} :
    ofText? (text ++ rest) = some line ↔ (atEnd rest = true ∧
      ∀ first ∈ words.head?, ∀ char ∈ first, isMnemonicChar char = true) ∧
      line = ofWords words := by
  cases plain with
  | blank blank =>
    have after := Text.dropWhile_append blank rest stops.not_isBlank
    have nothing := @Text.takeWhile_append isMnemonicChar [] (by simp) rest stops.not_isMnemonicChar
    rw [List.nil_append] at nothing
    rw [@eq_comm _ line]
    simp [ofText?, after, nothing, ofWords]
  | @words gap word more words blank isWord separated =>
    rw [List.append_assoc, ofText?_gap blank, List.append_assoc]
    have mnemonic : (∀ first ∈ (word :: words).head?, ∀ char ∈ first, isMnemonicChar char = true) ↔
        ∀ char ∈ word, isMnemonicChar char = true := by simp
    by_cases letters : ∀ char ∈ word, isMnemonicChar char = true
    · rw [ofText?_separated ⟨isWord.nonempty, letters⟩ separated stops,
        and_iff_left (mnemonic.mpr letters), @eq_comm _ line]
      simp
    · have refused : ofText? (word ++ (more ++ rest)) = none := by
        cases found : word.find? (!isMnemonicChar ·) with
        | none => exact absurd (by simpa using found) letters
        | some char =>
          obtain ⟨other, front, back, same, before⟩ := List.find?_eq_some_iff_append.mp found
          have solid : ∀ char ∈ (word ++ (more ++ rest)).head?, isBlank char = false :=
            isWord.head_append (isWord.not_isBlank @isOperandChar_of_isBlank)
          have start := @Text.dropWhile_append isBlank [] (by simp) _ solid
          have operand := isWord.letters char (by simp [same])
          rw [List.nil_append, same, List.append_assoc, List.cons_append] at start
          rw [same, List.append_assoc, List.cons_append]
          exact ofText?_misspelled (by simpa using before) operand (by simpa using other) start
      rw [refused]
      constructor
      · intro read
        cases read
      · intro ⟨⟨_, all⟩, _⟩
        exact absurd (mnemonic.mp all) letters

theorem not_opensComment_of_isPlain {char : Char} (plain : isPlain char = true) :
    (!opensComment char) = true := by
  rcases Bool.or_eq_true_iff.mp plain with blank | letter
  · rcases isBlank_iff.mp blank with same | same
    all_goals
      subst same
      rfl
  · rw [(isOperandChar_iff.mp letter).2]
    rfl

theorem body_append {text : List Char} (plain : ∀ char ∈ text, isPlain char = true)
    (rest : List Char) : body (text ++ rest) = text ++ body rest :=
  List.takeWhile_append_of_pos fun char member => not_opensComment_of_isPlain (plain char member)

private theorem remark_append {text : List Char} (plain : ∀ char ∈ text, isPlain char = true)
    (rest : List Char) : Line.remark (text ++ rest) = Line.remark rest :=
  List.dropWhile_append_of_pos fun char member => not_opensComment_of_isPlain (plain char member)

/-- What stops plain text and is no comment is white space of another kind than blanks. -/
theorem Stops.body_cases {rest : List Char} (stops : Stops rest) :
    (body rest = [] ∧ Line.remark rest = rest) ∨
    ∃ char more, rest = char :: more ∧ char ∈ body rest ∧ opensComment char = false ∧
      Text.isWhiteSpace char = true ∧ isBlank char = false := by
  cases rest with
  | nil => exact .inl ⟨rfl, rfl⟩
  | cons char more =>
    have solid := stops.not_isBlank char rfl
    have other := stops.not_isOperandChar char rfl
    cases opens : opensComment char with
    | true => exact .inl ⟨by simp [body, opens], by simp [Line.remark, opens]⟩
    | false =>
      refine .inr ⟨char, more, rfl, by simp [body, opens], opens, ?_, solid⟩
      by_contra black
      rw [isOperandChar_iff.mpr ⟨Bool.eq_false_iff.mpr black, opens⟩] at other
      cases other

theorem atEnd_iff {rest : List Char} (stops : Stops rest) :
    atEnd rest = true ↔ body rest = [] ∧
      ∀ more, Line.remark rest = ';' :: more → more.head? = some ';' := by
  cases rest with
  | nil => simp [atEnd, body, Line.remark]
  | cons char more =>
    rcases stops.body_cases with ⟨ended, same⟩ | ⟨_, _, same, inside, shut, _, solid⟩
    · have opens : char = ';' ∨ char = '#' := by
        apply Classical.or_iff_not_imp_left.mpr
        simpa [body, List.takeWhile_cons, opensComment] using ended
      rw [same, ended]
      rcases opens with semicolon | hash
      · subst semicolon
        rw [atEnd_semicolon]
        simp
      · subst hash
        simp [atEnd, isBlank]
    · cases same
      rw [atEnd_of_shut solid shut]
      simp [List.ne_nil_of_mem inside]

/-- Where the plain text of a line ends, its body ends or what follows is white space. -/
theorem grammatical_iff {text rest : List Char} (plain : ∀ char ∈ text, isPlain char = true)
    (stops : Stops rest) :
    Grammatical (text ++ rest) ↔ atEnd rest = true ∧
      ∀ first ∈ (bodyWords text).head?, ∀ char ∈ first, isMnemonicChar char = true := by
  rw [atEnd_iff stops]
  constructor
  · intro ⟨opened, spaces, mnemonic⟩
    rw [remark_append plain] at opened
    rw [body_append plain] at spaces mnemonic
    have ended : body rest = [] := by
      rcases stops.body_cases with ⟨ended, -⟩ | ⟨char, more, -, member, -, white, solid⟩
      · exact ended
      · have blank := isBlank_iff.mpr (spaces char (List.mem_append_right _ member) white)
        rw [solid] at blank
        cases blank
    rw [ended, List.append_nil] at mnemonic
    exact ⟨⟨ended, opened⟩, fun first head char member =>
      isMnemonicChar_iff.mpr (mnemonic first head char member)⟩
  · intro ⟨⟨ended, opened⟩, mnemonic⟩
    refine ⟨remark_append plain rest ▸ opened, ?_, ?_⟩
    · rw [body_append plain, ended, List.append_nil]
      intro char member white
      rcases Bool.or_eq_true_iff.mp (plain char member) with blank | letter
      · exact isBlank_iff.mp blank
      · rw [(isOperandChar_iff.mp letter).1] at white
        cases white
    · rw [body_append plain, ended, List.append_nil]
      exact fun first head char member =>
        isMnemonicChar_iff.mp (mnemonic first head char member)

theorem ofText?_eq_some_iff {text : List Char} {line : Line} :
    ofText? text = some line ↔ Grammatical text ∧ line = ofWords (bodyWords (body text)) := by
  have plain : ∀ char ∈ text.takeWhile isPlain, isPlain char = true :=
    fun char member => List.mem_takeWhile_imp member
  have stops : Stops (text.dropWhile isPlain) := by
    intro char first
    have stopped := List.head?_dropWhile_not isPlain text
    rwa [first] at stopped
  rw [← List.takeWhile_append_dropWhile (p := isPlain) (l := text)]
  generalize text.takeWhile isPlain = front at plain
  generalize text.dropWhile isPlain = rest at stops
  obtain ⟨words, shape⟩ := exists_plain plain
  rw [shape.read_iff stops, grammatical_iff plain stops, shape.bodyWords_eq]
  apply and_congr_right
  intro both
  have ended := ((atEnd_iff stops).mp both.1).1
  rw [body_append plain, ended, List.append_nil, shape.bodyWords_eq]

end Line

/-- A line is accepted exactly when it is grammatical. It is then read as the words of its body: no
words add no bytes, and words are an instruction. A line that is not accepted is what a text with
only good lines before it is refused for. -/
theorem accepted_iff_grammatical (line : List Char) :
    ((∃ read, Line.ofText? line = some read) ↔ Line.Grammatical line) ∧
    (Line.Grammatical line →
      Line.ofText? line = some (Line.ofWords (Line.bodyWords (Line.body line)))) ∧
    ∀ text front back, Text.lines text.toList = front ++ line :: back →
      (Line.Grammatical line → Line.bodyWords (Line.body line) = [] →
        assemble text = (assembleLines 1 front >>= fun bytes =>
          (assembleLines (front.length + 2) back).map (bytes ++ ·))) ∧
      (¬ Line.Grammatical line →
        (∀ earlier ∈ front, ∃ bytes, assembleLine earlier = .ok bytes) →
        assemble text =
          .error ⟨front.length + 1, .unreadable (String.ofList (Text.trim line))⟩) := by
  have read : Line.Grammatical line →
      Line.ofText? line = some (Line.ofWords (Line.bodyWords (Line.body line))) :=
    fun grammatical => Line.ofText?_eq_some_iff.mpr ⟨grammatical, rfl⟩
  have accepted : (∃ read, Line.ofText? line = some read) ↔ Line.Grammatical line :=
    ⟨fun ⟨_, same⟩ => (Line.ofText?_eq_some_iff.mp same).1, fun grammatical => ⟨_, read grammatical⟩⟩
  refine ⟨accepted, read, fun text front back split => ⟨?_, ?_⟩⟩
  · intro grammatical nothing
    have blank : assembleLine line = .ok [] := by
      unfold assembleLine
      rw [read grammatical, nothing]
      rfl
    have place : 1 + front.length + 1 = front.length + 2 := by omega
    rw [assemble, split, assembleLines_append, assembleLines, blank, place]
    cases assembleLines 1 front with
    | error error => rfl
    | ok bytes => cases assembleLines (front.length + 2) back <;> rfl
  · intro ungrammatical good
    have bad : assembleLine line = .error (.unreadable (String.ofList (Text.trim line))) := by
      unfold assembleLine
      rw [Option.eq_none_iff_forall_ne_some.mpr fun line same =>
        ungrammatical (accepted.mp ⟨line, same⟩)]
    rw [assemble, split]
    apply assembleLines_eq_error_iff.mpr
    exact ⟨front, line, back, rfl, good, bad, Nat.add_comm ..⟩

end WasmStream.Assembly
