import WasmStream.Proofs.Causes
import WasmStream.Proofs.FieldWriting

/-! The labels of a branch table. Their declared number may be anything, but every label takes a
byte. So the bytes that are left bound how many of them are read, how often one is asked for, and
how much room is set aside. -/

namespace WasmStream

namespace Leb128

private theorem unsigned_of_malformed {width : Nat} (positive : 0 < width) (word : width ≤ 64)
    {cursor : Cursor} {fault : VarintFault}
    (malformed : (Numeral.unsigned width).Malformed fault cursor.unread) :
    ∃ after,
      unsigned width cursor = .error (.malformedVarint cursor.position width fault) after := by
  have answers := answers_unsigned positive word
  obtain ⟨start, unread⟩ := cursor
  cases malformed with
  | @tooLong bytes rest full endless =>
    have full : bytes.length = width ⌈/⌉ 7 := full
    refine ⟨_, answers.endless _ ⟨?_, ?_⟩⟩
    · exact full ▸ (List.prefix_append bytes rest).length_le
    · exact (List.take_left' full).symm ▸ endless
  | @overflow bytes rest full chained misfits =>
    have full : bytes.length = width ⌈/⌉ 7 := full
    have refused := answers.refuses unsigned_short chained misfits start rest
    rwa [if_neg (Nat.not_lt.mpr full.le)] at refused

private theorem unsigned_eq_error {width : Nat} (positive : 0 < width) (word : width ≤ 64)
    {cursor after : Cursor} {error : DecodeError}
    (failed : unsigned width cursor = .error error after) :
    error = .unexpectedEnd cursor.limit ∨
    ∃ fault, error = .malformedVarint cursor.position width fault ∧
      (Numeral.unsigned width).Malformed fault cursor.unread := by
  rcases failsBy_unsigned positive word cursor error after failed with
    ended | ⟨read, rest, unread, offset, fault⟩
  · exact .inl ended
  · cases fault with
    | @malformed start fault rest malformed =>
      obtain rfl : start = cursor.position := offset
      exact .inr ⟨fault, rfl, unread ▸ malformed⟩

private theorem unsigned_remaining_lt {width value : Nat} (positive : 0 < width) (word : width ≤ 64)
    {cursor after : Cursor} (read : unsigned width cursor = .ok value after) :
    after.remaining < cursor.remaining := by
  obtain ⟨bytes, reached, field⟩ := (reads_unsigned positive word _ _ _).mp read
  have some := List.length_pos_iff.mpr field.chained.ne_nil
  have fewer := reached.remaining_add
  omega

end Leb128

namespace Immediate
open Leb128 (Numeral)

/-- Labels that are read one after another. -/
inductive Successive : Cursor → List UInt32 → Cursor → Prop where
  | none {cursor} : Successive cursor [] cursor
  | next {cursor middle after label labels}
      (read : Leb128.unsigned 32 cursor = .ok label.toNat middle)
      (later : Successive middle labels after) : Successive cursor (label :: labels) after

/-- The first of the labels ahead that cannot be read is malformed, as the error says of it. -/
def FirstMalformed (cursor : Cursor) (error : DecodeError) : Prop :=
  ∃ labels last fault, Successive cursor labels last ∧
    (Numeral.unsigned 32).Malformed fault last.unread ∧
    error = .malformedVarint last.position 32 fault

variable {cursor middle after : Cursor} {count : Nat} {label : UInt32} {labels : List UInt32}
  {error : DecodeError}

theorem readIndex_eq_ok_iff :
    readIndex cursor = .ok label after ↔ Leb128.unsigned 32 cursor = .ok label.toNat after := by
  rw [reads_index cursor label after]
  exact (Leb128.reads_unsigned (by decide) (by decide) cursor label.toNat after).symm

theorem readIndex_eq_error_iff :
    readIndex cursor = .error error after ↔ Leb128.unsigned 32 cursor = .error error after := by
  constructor
  · intro failed
    rcases Reader.bind_eq_error.mp failed with failed | ⟨_, _, _, failed⟩
    · exact failed
    · cases failed
  · exact fun failed => Reader.bind_eq_error.mpr (.inl failed)

theorem Successive.reached (successive : Successive cursor labels after) :
    ∃ bytes, cursor.Reached bytes after ∧ labels.length ≤ bytes.length := by
  induction successive with
  | none => exact ⟨[], .refl _, Nat.le_refl 0⟩
  | next read _ ih =>
    obtain ⟨first, reached, field⟩ := (Leb128.reads_unsigned (by decide) (by decide) _ _ _).mp read
    obtain ⟨rest, reached', enough⟩ := ih
    have some := List.length_pos_iff.mpr field.chained.ne_nil
    refine ⟨first ++ rest, reached.trans reached', ?_⟩
    rw [List.length_cons, List.length_append]
    omega

theorem Successive.length_le (successive : Successive cursor labels after) :
    labels.length ≤ cursor.remaining := by
  obtain ⟨bytes, reached, enough⟩ := successive.reached
  have bound := reached.remaining_add
  omega

private theorem successive_concat_iff :
    Successive cursor (labels ++ [label]) after ↔ ∃ middle, Successive cursor labels middle ∧
      Leb128.unsigned 32 middle = .ok label.toNat after := by
  induction labels generalizing cursor with
  | nil =>
    constructor
    · intro successive
      cases successive with
      | next read later =>
        cases later
        exact ⟨cursor, .none, read⟩
    · rintro ⟨middle, successive, read⟩
      cases successive
      exact .next read .none
  | cons first labels ih =>
    constructor
    · intro successive
      cases successive with
      | next read later =>
        obtain ⟨middle, earlier, final⟩ := ih.mp later
        exact ⟨middle, .next read earlier, final⟩
    · rintro ⟨middle, successive, final⟩
      cases successive with
      | next read later => exact .next read (ih.mpr ⟨middle, later, final⟩)

/-- As many labels as asked for can be read, or there is a first one that cannot. -/
theorem exists_successive (count : Nat) (cursor : Cursor) :
    (∃ labels after, labels.length = count ∧ Successive cursor labels after) ∨
    ∃ labels last error after, labels.length < count ∧ Successive cursor labels last ∧
      Leb128.unsigned 32 last = .error error after := by
  induction count generalizing cursor with
  | zero => exact .inl ⟨[], cursor, rfl, .none⟩
  | succ count ih =>
    cases read : readIndex cursor with
    | error error after =>
      exact .inr ⟨[], cursor, error, after, Nat.succ_pos _, .none, readIndex_eq_error_iff.mp read⟩
    | ok label middle =>
      have first := readIndex_eq_ok_iff.mp read
      rcases ih middle with ⟨labels, after, length, later⟩ |
        ⟨labels, last, error, after, fewer, later, failed⟩
      · exact .inl ⟨label :: labels, after, congrArg (· + 1) length, .next first later⟩
      · exact .inr ⟨label :: labels, last, error, after, Nat.succ_lt_succ fewer, .next first later,
          failed⟩

theorem readLabelsInto_of_successive
    (successive : Successive cursor labels after) (more : Nat) (read : Array UInt32) :
    readLabelsInto readIndex (labels.length + more) read cursor =
      readLabelsInto readIndex more (read ++ labels.toArray) after := by
  induction successive generalizing read with
  | none => simp
  | @next _ _ _ label labels first _ ih =>
    rw [List.length_cons, Nat.add_right_comm, readLabelsInto,
      Reader.bind_of_ok (readIndex_eq_ok_iff.mpr first), ih]
    simp

theorem readBranchTable_of_count (counted : Leb128.unsigned 32 cursor = .ok count middle) :
    readBranchTable cursor = (do
      let labels ← readLabelsInto readIndex count #[]
      let fallback ← readIndex
      return branchTable labels.toList fallback : Reader Immediate) middle := by
  rw [readBranchTable_eq]
  exact Reader.bind_of_ok counted

private theorem readBranchTable_of_successive {fallback : UInt32}
    (counted : Leb128.unsigned 32 cursor = .ok labels.length middle)
    (successive : Successive middle (labels ++ [fallback]) after) :
    readBranchTable cursor = .ok (branchTable labels fallback) after := by
  obtain ⟨last, successive, final⟩ := successive_concat_iff.mp successive
  have loop : readLabelsInto readIndex labels.length #[] middle = .ok labels.toArray last := by
    have all := readLabelsInto_of_successive successive 0 #[]
    rwa [Nat.add_zero, Array.empty_append] at all
  rw [readBranchTable_of_count counted, Reader.bind_of_ok loop,
    Reader.bind_of_ok (readIndex_eq_ok_iff.mpr final)]
  rfl

theorem readBranchTable_of_failing {last : Cursor}
    (counted : Leb128.unsigned 32 cursor = .ok count middle)
    (successive : Successive middle labels last) (fewer : labels.length ≤ count)
    (failed : Leb128.unsigned 32 last = .error error after) :
    readBranchTable cursor = .error error after := by
  obtain ⟨more, rfl⟩ := Nat.exists_eq_add_of_le fewer
  have loop := readLabelsInto_of_successive successive more #[]
  have failed := readIndex_eq_error_iff.mpr failed
  rw [readBranchTable_of_count counted, Reader.bind_eq_error]
  cases more with
  | zero => exact .inr ⟨_, last, loop, Reader.bind_eq_error.mpr (.inl failed)⟩
  | succ more => exact .inl (loop.trans (Reader.bind_eq_error.mpr (.inl failed)))

theorem readBranchTable_eq_ok_iff (counted : Leb128.unsigned 32 cursor = .ok count middle)
    {immediate : Immediate} : readBranchTable cursor = .ok immediate after ↔
      ∃ labels fallback, immediate = .branchTable labels fallback ∧ labels.length = count ∧
        Successive middle (labels ++ [fallback]) after := by
  constructor
  · intro found
    rcases exists_successive (count + 1) middle with ⟨labels, last, length, successive⟩ |
      ⟨labels, last, error, _, fewer, successive, failed⟩
    · obtain ⟨labels, fallback, rfl⟩ := (List.eq_nil_or_concat' labels).resolve_left
        (List.ne_nil_of_length_eq_add_one length)
      obtain rfl : labels.length = count := by simpa using length
      cases found.symm.trans (readBranchTable_of_successive counted successive)
      exact ⟨labels, fallback, rfl, rfl, successive⟩
    · have refused :=
        readBranchTable_of_failing counted successive (Nat.le_of_lt_succ fewer) failed
      cases found.symm.trans refused
  · rintro ⟨labels, fallback, rfl, rfl, successive⟩
    exact readBranchTable_of_successive counted successive

private theorem readBranchTable_of_firstMalformed
    (counted : Leb128.unsigned 32 cursor = .ok count middle) (short : middle.remaining < count + 1)
    (first : FirstMalformed middle error) :
    ∃ after, readBranchTable cursor = .error error after := by
  obtain ⟨labels, last, fault, successive, malformed, rfl⟩ := first
  obtain ⟨after, failed⟩ := Leb128.unsigned_of_malformed (by decide) (by decide) malformed
  have few := successive.length_le
  exact ⟨after, readBranchTable_of_failing counted successive (by omega) failed⟩

private theorem readBranchTable_of_wellFormed
    (counted : Leb128.unsigned 32 cursor = .ok count middle) (short : middle.remaining < count + 1)
    (none : ∀ error, ¬ FirstMalformed middle error) :
    ∃ after, readBranchTable cursor = .error (.unexpectedEnd cursor.limit) after := by
  rcases exists_successive (count + 1) middle with ⟨labels, last, length, successive⟩ |
    ⟨labels, last, error, after, fewer, successive, failed⟩
  · have few := successive.length_le
    omega
  · have refused := readBranchTable_of_failing counted successive (Nat.le_of_lt_succ fewer) failed
    rcases Leb128.unsigned_eq_error (by decide) (by decide) failed with rfl | ⟨fault, rfl, malformed⟩
    · obtain ⟨_, front, -⟩ := (Leb128.reads_unsigned (by decide) (by decide) _ _ _).mp counted
      obtain ⟨_, back, -⟩ := successive.reached
      rw [← front.limit_eq, ← back.limit_eq]
      exact ⟨after, refused⟩
    · exact absurd ⟨labels, last, fault, successive, malformed, rfl⟩ (none _)

/-- A cursor and a record of what has been asked for: how often a label, and how much room. -/
structure Meter where
  cursor : Cursor
  attempts : Nat
  room : Nat

abbrev Metered := EStateM DecodeError Meter

namespace Metered
variable {α β : Type}

def meter : EStateM.Result DecodeError Meter α → Meter
  | .ok _ meter => meter
  | .error _ meter => meter

def erase : EStateM.Result DecodeError Meter α → EStateM.Result DecodeError Cursor α
  | .ok value meter => .ok value meter.cursor
  | .error error meter => .error error meter.cursor

def of (reader : Reader α) : Metered α := fun meter =>
  match reader meter.cursor with
  | .ok value cursor => .ok value { meter with cursor }
  | .error error cursor => .error error { meter with cursor }

def attempt : Metered UInt32 := do
  modify fun meter => { meter with attempts := meter.attempts + 1 }
  of readIndex

def setAside (capacity : Nat) : Metered (Array UInt32) := do
  modify fun meter => { meter with room := meter.room + capacity }
  of (Immediate.setAside capacity)

def readBranchTable : Metered Immediate :=
  readBranchTableBy (of (Leb128.unsigned indexWidth)) (of Reader.remaining) setAside attempt

/-- Whether or not the record is kept makes no difference to what is read. -/
def Erases (metered : Metered α) (reader : Reader α) : Prop :=
  ∀ meter, erase (metered meter) = reader meter.cursor

theorem erases_pure (value : α) : Erases (pure value) (pure value) := fun _ => rfl

theorem erases_of (reader : Reader α) : Erases (of reader) reader := by
  intro meter
  unfold of
  cases reader meter.cursor <;> rfl

theorem Erases.bind {metered : Metered α} {reader : Reader α} {next : α → Metered β}
    {next' : α → Reader β} (first : Erases metered reader)
    (second : ∀ value, Erases (next value) (next' value)) :
    Erases (metered >>= next) (reader >>= next') := by
  intro meter
  have same := first meter
  cases read : metered meter with
  | ok value after =>
    rw [read] at same
    rw [Reader.bind_of_ok read, Reader.bind_of_ok same.symm]
    exact second value after
  | error error after =>
    rw [read] at same
    rw [Reader.bind_eq_error.mpr (.inl read), Reader.bind_eq_error.mpr (.inl same.symm)]
    rfl

theorem erases_attempt : Erases attempt readIndex := fun meter =>
  erases_of readIndex { meter with attempts := meter.attempts + 1 }

private theorem erases_setAside (capacity : Nat) :
    Erases (setAside capacity) (Immediate.setAside capacity) := fun _ => rfl

private theorem erases_labels (count : Nat) (labels : Array UInt32) :
    Erases (readLabelsInto attempt count labels) (readLabelsInto readIndex count labels) := by
  induction count generalizing labels with
  | zero => exact erases_pure labels
  | succ count ih => exact erases_attempt.bind fun label => ih (labels.push label)

theorem erases_branchTable : Erases readBranchTable Immediate.readBranchTable :=
  (erases_of _).bind fun count => (erases_of _).bind fun _ => (erases_setAside _).bind fun room =>
    (erases_labels count room).bind fun _ => erases_attempt.bind fun _ => erases_pure _

/-- Each label that is there pays with a byte for the attempt to read it, and only the last attempt
may go unpaid. A reader that comes to its end has made all of its attempts. No further room is set
aside. -/
structure Pays (attempts : Nat) (metered : Metered α) : Prop where
  ok : ∀ {meter value after}, metered meter = .ok value after →
    after.attempts = meter.attempts + attempts ∧
      attempts + after.cursor.remaining ≤ meter.cursor.remaining ∧ after.room = meter.room
  error : ∀ {meter error after}, metered meter = .error error after →
    after.attempts + after.cursor.remaining ≤ meter.attempts + meter.cursor.remaining + 1 ∧
      after.room = meter.room

theorem pays_pure (value : α) : Pays 0 (pure value) where
  ok read := by
    cases read
    exact ⟨rfl, (Nat.zero_add _).le, rfl⟩
  error failed := by cases failed

theorem Pays.bind {metered : Metered α} {next : α → Metered β} {attempts more : Nat}
    (first : Pays attempts metered) (second : ∀ value, Pays more (next value)) :
    Pays (attempts + more) (metered >>= next) where
  ok read := by
    obtain ⟨value, middle, read, later⟩ := Reader.bind_eq_ok.mp read
    obtain ⟨made, paid, room⟩ := first.ok read
    obtain ⟨made', paid', room'⟩ := (second value).ok later
    exact ⟨by omega, by omega, room'.trans room⟩
  error failed := by
    rcases Reader.bind_eq_error.mp failed with failed | ⟨value, middle, read, failed⟩
    · exact first.error failed
    · obtain ⟨made, paid, room⟩ := first.ok read
      obtain ⟨paid', room'⟩ := (second value).error failed
      exact ⟨by omega, room'.trans room⟩

private theorem Pays.bounded {metered : Metered α} {attempts : Nat} (pays : Pays attempts metered)
    (start : Meter) :
    (meter (metered start)).attempts ≤ start.attempts + start.cursor.remaining + 1 ∧
      (meter (metered start)).room = start.room := by
  cases outcome : metered start with
  | ok value after =>
    obtain ⟨made, paid, room⟩ := pays.ok outcome
    exact ⟨by simp only [meter]; omega, room⟩
  | error error after =>
    obtain ⟨paid, room⟩ := pays.error outcome
    exact ⟨by simp only [meter]; omega, room⟩

private theorem attempt_eq (meter : Meter) :
    attempt meter = of readIndex { meter with attempts := meter.attempts + 1 } := rfl

theorem pays_attempt : Pays 1 attempt where
  ok {meter _ _} read := by
    rw [attempt_eq, of] at read
    split at read
    next label cursor found =>
      cases read
      have fewer := Leb128.unsigned_remaining_lt (by decide) (by decide)
        (readIndex_eq_ok_iff.mp found)
      refine ⟨rfl, ?_, rfl⟩
      simp only at fewer ⊢
      omega
    · cases read
  error {meter _ _} failed := by
    rw [attempt_eq, of] at failed
    split at failed
    · cases failed
    next error cursor refused =>
      cases failed
      obtain ⟨consumed, reached⟩ := forward_readIndex meter.cursor
      have rest := reached.remaining_add
      rw [refused, Reader.finish] at rest
      refine ⟨?_, rfl⟩
      simp only
      omega

theorem pays_labels (count : Nat) (labels : Array UInt32) :
    Pays count (readLabelsInto attempt count labels) := by
  induction count generalizing labels with
  | zero => exact pays_pure labels
  | succ count ih =>
    have all := pays_attempt.bind fun label => ih (labels.push label)
    rw [Nat.add_comm 1 count] at all
    exact all

private theorem readBranchTable_of_count (counted : Leb128.unsigned 32 cursor = .ok count middle) :
    ∃ rest : Metered Immediate, Pays (count + 1) rest ∧
      readBranchTable ⟨cursor, 0, 0⟩ = rest ⟨middle, 0, min count middle.remaining⟩ := by
  have count' : of (Leb128.unsigned indexWidth) ⟨cursor, 0, 0⟩ = .ok count ⟨middle, 0, 0⟩ := by
    rw [of, indexWidth, counted]
  have left : of Reader.remaining ⟨middle, 0, 0⟩ = .ok middle.remaining ⟨middle, 0, 0⟩ := rfl
  have room : setAside (min count middle.remaining) ⟨middle, 0, 0⟩ =
      .ok #[] ⟨middle, 0, 0 + min count middle.remaining⟩ := rfl
  rw [Nat.zero_add] at room
  refine ⟨_, (pays_labels count #[]).bind fun labels => pays_attempt.bind fun fallback =>
    pays_pure (branchTable labels.toList fallback), ?_⟩
  rw [readBranchTable, readBranchTableBy, Reader.bind_of_ok count', Reader.bind_of_ok left,
    Reader.bind_of_ok room]

end Metered

/-- Where a count has been read, a table takes that many labels and one more, which are read one
after another and for which the bytes must last. If they do not, the first malformed label is what
it fails for, or else the end of the buffer. However large the count, no more labels are asked for
than bytes are left and one more, and no more room is set aside than for one label in each byte. -/
theorem branchTable_bounded {cursor middle : Cursor} {count : Nat}
    (counted : Leb128.unsigned 32 cursor = .ok count middle) :
    (∀ immediate after, read .branchTable cursor = .ok immediate after ↔
      count + 1 ≤ middle.remaining ∧ ∃ labels fallback,
        immediate = .branchTable labels fallback ∧ labels.length = count ∧
        Successive middle (labels ++ [fallback]) after) ∧
    (middle.remaining < count + 1 →
      (∀ error, FirstMalformed middle error →
        ∃ after, read .branchTable cursor = .error error after) ∧
      ((∀ error, ¬ FirstMalformed middle error) →
        ∃ after, read .branchTable cursor = .error (.unexpectedEnd cursor.limit) after)) ∧
    let metered := Metered.readBranchTable ⟨cursor, 0, 0⟩
    Metered.erase metered = read .branchTable cursor ∧
    (Metered.meter metered).attempts ≤ middle.remaining + 1 ∧
    (∀ immediate after, metered = .ok immediate after → after.attempts = count + 1) ∧
    (Metered.meter metered).room = min count middle.remaining ∧
    (Metered.meter metered).room ≤ middle.remaining := by
  refine ⟨?_, ?_, ?_⟩
  · intro immediate after
    refine (readBranchTable_eq_ok_iff counted).trans (iff_and_self.mpr ?_)
    rintro ⟨labels, fallback, -, rfl, successive⟩
    simpa using successive.length_le
  · intro short
    exact ⟨fun error => readBranchTable_of_firstMalformed counted short,
      readBranchTable_of_wellFormed counted short⟩
  · obtain ⟨rest, pays, behind⟩ := Metered.readBranchTable_of_count counted
    obtain ⟨attempts, room⟩ := pays.bounded ⟨middle, 0, min count middle.remaining⟩
    rw [← behind] at attempts room
    refine ⟨Metered.erases_branchTable _, by simpa using attempts, ?_, room,
      room.le.trans (Nat.min_le_right _ _)⟩
    intro immediate after read
    obtain ⟨made, -, -⟩ := pays.ok (behind ▸ read)
    simpa using made

/-- The largest count there is, with a label that goes on for too long behind the first one. -/
theorem branchTable_bounded_largest :
    let cursor : Cursor := ⟨3, [0xff, 0xff, 0xff, 0xff, 0x0f, 0x2a] ++ List.replicate 5 0x80⟩
    Leb128.unsigned 32 cursor = .ok (2 ^ 32 - 1) ⟨8, 0x2a :: List.replicate 5 0x80⟩ ∧
    (∃ after, read .branchTable cursor = .error (.malformedVarint 9 32 .tooLong) after) ∧
    (Metered.meter (Metered.readBranchTable ⟨cursor, 0, 0⟩)).attempts ≤ 7 := by
  intro cursor
  have counted : Leb128.unsigned 32 cursor =
    .ok (2 ^ 32 - 1) ⟨8, 0x2a :: List.replicate 5 0x80⟩ := rfl
  obtain ⟨-, short, -, attempts, -⟩ := branchTable_bounded counted
  refine ⟨counted, ?_, attempts⟩
  apply (short (by decide)).1
  have first : Leb128.unsigned 32 ⟨8, 0x2a :: List.replicate 5 0x80⟩ =
    .ok (42 : UInt32).toNat ⟨9, List.replicate 5 0x80⟩ := rfl
  refine ⟨[42], _, .tooLong, .next first .none, ?_, rfl⟩
  exact @Numeral.Malformed.tooLong (.unsigned 32) (List.replicate 5 0x80) [] (by decide) (by simp)

end Immediate
end WasmStream
