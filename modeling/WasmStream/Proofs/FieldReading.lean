import Mathlib.Algebra.BigOperators.Fin
import WasmStream.Proofs.Varint

/-! What a reader of fields answers, whatever the bytes ahead are. A field ends in time and spells a
number within range or out of it, or it goes on for too long, or the buffer ends first. Meanwhile
the word never runs out of bits. -/

namespace WasmStream.Leb128

variable {α : Type}

/-- The place of the first byte ahead that announces no other. -/
def ending? (cursor : Cursor) : Option Nat := cursor.unread.findIdx? fun byte => byte.toNat < 128

section
variable (width : Nat) (value : List UInt8 → α) (Fits : α → Prop) (cursor : Cursor)

def InRange (last : Nat) : Prop :=
  ending? cursor = some last ∧ last < width ⌈/⌉ 7 ∧ Fits (value (cursor.unread.take (last + 1)))

/-- Only a field that takes as many bytes as it may is found out of range. -/
def OutOfRange : Prop :=
  ∃ last, ending? cursor = some last ∧ last + 1 = width ⌈/⌉ 7 ∧
    ¬ Fits (value (cursor.unread.take (last + 1)))

def Endless : Prop :=
  width ⌈/⌉ 7 ≤ cursor.remaining ∧ ∀ byte ∈ cursor.unread.take (width ⌈/⌉ 7), 128 ≤ byte.toNat

end

/-- A reader accepts the fields of a width that spell a number within range, and says of all other
bytes what is wrong with them. -/
structure Answers (width : Nat) (value : List UInt8 → α) (Fits : α → Prop)
    (reader : Reader α) : Prop where
  inRange : ∀ cursor last, InRange width value Fits cursor last →
    reader cursor = .ok (value (cursor.unread.take (last + 1))) (cursor.advance (last + 1))
  outOfRange : ∀ cursor, OutOfRange width value Fits cursor →
    reader cursor = .error (.malformedVarint cursor.position width .overflow)
      (cursor.advance (width ⌈/⌉ 7))
  endless : ∀ cursor, Endless width cursor →
    reader cursor = .error (.malformedVarint cursor.position width .tooLong)
      (cursor.advance (width ⌈/⌉ 7))
  ended : ∀ cursor, (∀ last, ¬ InRange width value Fits cursor last) →
    ¬ OutOfRange width value Fits cursor → ¬ Endless width cursor →
    reader cursor = .error (.unexpectedEnd cursor.limit) ⟨cursor.limit, []⟩

def EveryTurn (representation : Representation α) (width : Nat) (good : Tally → UInt8 → Prop) :
    Tally → List UInt8 → Prop
  | _, [] => True
  | tally, byte :: rest =>
    good tally byte ∧
      match turn representation width tally byte with
      | .more next => EveryTurn representation width good next rest
      | .value _ => True
      | .fault _ => True

section
variable {start width limit position last : Nat} {unread : List UInt8}

private theorem field_of_ending (ends : ending? ⟨position, unread⟩ = some last)
    (short : last < limit) :
    field start width limit ⟨position, unread⟩ =
      .ok (unread.take (last + 1)) (Cursor.advance ⟨position, unread⟩ (last + 1)) := by
  induction limit generalizing position unread last with
  | zero => omega
  | succ limit ih =>
    cases unread with
    | nil => simp [ending?] at ends
    | cons byte rest =>
      rw [field_cons]
      by_cases goes : 128 ≤ byte.toNat
      · obtain ⟨before, found, rfl⟩ :
            ∃ before, ending? ⟨position + 1, rest⟩ = some before ∧ before + 1 = last := by
          simpa [ending?, List.findIdx?_cons, Nat.not_lt.mpr goes] using ends
        rw [if_pos goes]
        refine Reader.bind_eq_ok.mpr ⟨_, _, ih found (by omega), ?_⟩
        simp only [Cursor.advance, List.take_succ_cons, List.drop_succ_cons, pure, EStateM.pure,
          Nat.add_assoc, Nat.add_comm 1]
      · obtain rfl : 0 = last := by
          simpa [ending?, List.findIdx?_cons, Nat.lt_of_not_le goes] using ends
        rw [if_neg goes]
        rfl

private theorem field_of_endless (enough : limit ≤ unread.length)
    (goes : ∀ byte ∈ unread.take limit, 128 ≤ byte.toNat) :
    field start width limit ⟨position, unread⟩ =
      .error (.malformedVarint start width .tooLong) (Cursor.advance ⟨position, unread⟩ limit) := by
  induction limit generalizing position unread with
  | zero => rfl
  | succ limit ih =>
    cases unread with
    | nil => simp at enough
    | cons byte rest =>
      simp only [List.take_succ_cons, List.mem_cons, forall_eq_or_imp] at goes
      rw [field_cons, if_pos goes.1]
      refine (Reader.bind_eq_error.mpr (.inl (ih (Nat.le_of_succ_le_succ enough) goes.2))).trans ?_
      simp only [Cursor.advance, List.drop_succ_cons, Nat.add_right_comm, Nat.add_assoc]

private theorem field_of_ended (short : unread.length < limit)
    (goes : ∀ byte ∈ unread, 128 ≤ byte.toNat) :
    field start width limit ⟨position, unread⟩ =
      .error (.unexpectedEnd (position + unread.length)) ⟨position + unread.length, []⟩ := by
  induction unread generalizing position limit with
  | nil =>
    obtain ⟨limit, rfl⟩ := Nat.exists_eq_succ_of_ne_zero (Nat.ne_of_gt short)
    rfl
  | cons byte rest ih =>
    obtain ⟨limit, rfl⟩ := Nat.exists_eq_succ_of_ne_zero (Nat.ne_of_gt (Nat.zero_lt_of_lt short))
    simp only [List.mem_cons, forall_eq_or_imp] at goes
    rw [field_cons, if_pos goes.1]
    refine (Reader.bind_eq_error.mpr (.inl (ih (Nat.lt_of_succ_lt_succ short) goes.2))).trans ?_
    simp only [List.length_cons, Nat.add_right_comm, Nat.add_assoc]

end

theorem magnitude_eq_sum (bytes : List UInt8) :
    magnitude bytes = ∑ index : Fin bytes.length, bytes[index].toNat % 128 * 128 ^ index.val := by
  induction bytes with
  | nil => rfl
  | cons byte rest ih =>
    have digits : magnitude (byte :: rest) = payload byte + 128 * magnitude rest := rfl
    have first := Fin.sum_univ_succ fun index : Fin (rest.length + 1) =>
      (byte :: rest)[index].toNat % 128 * 128 ^ index.val
    rw [digits, ih, Finset.mul_sum]
    refine Eq.trans ?_ first.symm
    simp [payload, Nat.pow_succ, Nat.mul_comm, Nat.mul_assoc]

section
variable {width : Nat} {value : List UInt8 → α} {Fits : α → Prop}

private theorem ended_of_else {cursor : Cursor}
    (short : ∀ bytes, bytes.length < width ⌈/⌉ 7 → Fits (value bytes))
    (inRange : ∀ last, ¬ InRange width value Fits cursor last)
    (outOfRange : ¬ OutOfRange width value Fits cursor) (endless : ¬ Endless width cursor) :
    cursor.remaining < width ⌈/⌉ 7 ∧ ∀ byte ∈ cursor.unread, 128 ≤ byte.toNat := by
  cases ends : ending? cursor with
  | none =>
    have goes : ∀ byte ∈ cursor.unread, 128 ≤ byte.toNat := by
      simpa [ending?, List.findIdx?_eq_none_iff] using ends
    refine ⟨Nat.lt_of_not_le fun enough => endless ⟨enough, ?_⟩, goes⟩
    exact fun byte taken => goes byte (List.mem_of_mem_take taken)
  | some last =>
    exfalso
    obtain ⟨bound, -, earlier⟩ := List.findIdx?_eq_some_iff_getElem.mp ends
    by_cases within : last < width ⌈/⌉ 7
    · have misfits : ¬ Fits (value (cursor.unread.take (last + 1))) :=
        fun fits => inRange last ⟨ends, within, fits⟩
      have full : last + 1 = width ⌈/⌉ 7 := by
        by_contra other
        exact misfits (short _ (by rw [List.length_take]; omega))
      exact outOfRange ⟨last, ends, full, misfits⟩
    · refine endless ⟨by unfold Cursor.remaining; omega, fun byte taken => ?_⟩
      obtain ⟨place, inside, rfl⟩ := List.getElem_of_mem taken
      rw [List.length_take] at inside
      simpa using earlier place (by omega)

theorem answers_bounded [DecidablePred Fits]
    (short : ∀ bytes, bytes.length < width ⌈/⌉ 7 → Fits (value bytes)) :
    Answers width value Fits (bounded width value Fits) := by
  refine ⟨?_, ?_, ?_, ?_⟩
  · rintro cursor last ⟨ends, within, fits⟩
    rw [bounded, Reader.position_bind]
    refine Reader.bind_eq_ok.mpr ⟨_, _, field_of_ending ends within, ?_⟩
    rw [checked, if_pos fits]
    rfl
  · rintro cursor ⟨last, ends, full, misfits⟩
    rw [bounded, Reader.position_bind, ← full]
    refine Reader.bind_eq_error.mpr (.inr ⟨_, _, field_of_ending ends (Nat.lt_succ_self last), ?_⟩)
    rw [checked, if_neg misfits]
    rfl
  · rintro cursor ⟨enough, goes⟩
    rw [bounded, Reader.position_bind]
    exact Reader.bind_eq_error.mpr (.inl (field_of_endless enough goes))
  · intro cursor inRange outOfRange endless
    obtain ⟨few, goes⟩ := ended_of_else short inRange outOfRange endless
    rw [bounded, Reader.position_bind]
    exact Reader.bind_eq_error.mpr (.inl (field_of_ended few goes))

end

section
variable {representation : Representation α} {width : Nat} {read unread : List UInt8}
  {tally next : Tally} {byte : UInt8}

private theorem turn_eq_more (turns : turn representation width tally byte = .more next) :
    128 ≤ byte.toNat ∧ tally.count + 7 < width := by
  unfold turn at turns
  dsimp only at turns
  split at turns
  · split at turns
    · cases turns
    · split at turns <;> cases turns
  next room =>
    split at turns
    next goes => exact ⟨(and_continuation_iff byte).mp goes, by omega⟩
    next => cases turns

theorem everyTurn_of_counts {good : Tally → UInt8 → Prop} (word : width ≤ 64)
    (each : ∀ {read tally}, Counts read tally → tally.count < width → ∀ byte, good tally byte)
    (counts : Counts read tally) (within : tally.count < width) :
    EveryTurn representation width good tally unread := by
  induction unread generalizing read tally with
  | nil => trivial
  | cons byte rest ih =>
    refine ⟨each counts within byte, ?_⟩
    cases turns : turn representation width tally byte with
    | more next =>
      obtain ⟨goes, room⟩ := turn_eq_more turns
      obtain ⟨more, pushed⟩ := turn_more representation counts room word goes
      obtain rfl : tally.push byte = next := by simpa [more] using turns
      exact ih pushed (by simpa [Tally.push] using room)
    | value => trivial
    | fault => trivial

end

private theorem magnitude_lt_of_turn {width : Nat} (word : width ≤ 64) {read : List UInt8}
    {tally : Tally} {byte : UInt8} (counts : Counts read tally) (within : tally.count < width)
    (accepted : ∀ fault, turn .unsigned width tally byte ≠ .fault fault) :
    magnitude (read ++ [byte]) < 2 ^ 64 := by
  have wider : 2 ^ width ≤ 2 ^ 64 := Nat.pow_le_pow_right (by omega) word
  by_cases goes : 128 ≤ byte.toNat
  · by_cases room : tally.count + 7 ≤ width
    · exact ((stands_unsigned word).narrow byte counts room).trans_le wider
    · exact absurd (turn_tooLong (by omega) goes) (accepted .tooLong)
  · by_cases fits : magnitude (read ++ [byte]) < 2 ^ width
    · exact fits.trans_le wider
    · have stopped := turn_stops (stands_unsigned word) counts within (Nat.lt_of_not_le goes)
      rw [if_neg fits] at stopped
      exact absurd stopped (accepted .overflow)

private theorem toNat_shiftLeft_of_turn {width : Nat} (word : width ≤ 64) {read : List UInt8}
    {tally : Tally} {byte : UInt8} (counts : Counts read tally) (within : tally.count < width)
    (accepted : ∀ fault, turn .unsigned width tally byte ≠ .fault fault) :
    ((byte &&& 0x7f).toUInt64 <<< UInt64.ofNat tally.count).toNat =
      byte.toNat % 128 * 2 ^ tally.count := by
  have inside := magnitude_lt_of_turn word counts within accepted
  rw [magnitude_concat, ← counts.count] at inside
  rw [UInt64.toNat_shiftLeft, toNat_amount (by omega), toNat_payload_word, Nat.shiftLeft_eq]
  exact Nat.mod_eq_of_lt (by omega)

theorem unsigned_short {width : Nat} (bytes : List UInt8) (short : bytes.length < width ⌈/⌉ 7) :
    magnitude bytes < 2 ^ width := magnitude_lt_of_narrow (lt_ceilDiv_seven_iff.mp short).le

theorem signed_short {width : Nat} (bytes : List UInt8) (short : bytes.length < width ⌈/⌉ 7) :
    -2 ^ (width - 1) ≤ twosComplement bytes ∧ twosComplement bytes < 2 ^ (width - 1) :=
  twosComplement_mem_of_narrow (lt_ceilDiv_seven_iff.mp short).le

theorem answers_unsigned {width : Nat} (positive : 0 < width) (word : width ≤ 64) :
    Answers width magnitude (· < 2 ^ width) (unsigned width) := by
  rw [unsigned_eq_bounded positive word]
  exact answers_bounded unsigned_short

theorem answers_signed {width : Nat} (positive : 0 < width) (word : width ≤ 64) :
    Answers width twosComplement (fun value => -2 ^ (width - 1) ≤ value ∧ value < 2 ^ (width - 1))
      (signed width) := by
  rw [signed_eq_bounded positive word]
  exact answers_bounded signed_short

/-- For every width of the word a reader of numbers without a sign answers by the sum that the
payloads spell. It never runs out of bits: each payload is put where the width still has room, and
no bit of an accepted one falls off the end of the word. -/
theorem unsigned_answers {width : Nat} (positive : 0 < width) (word : width ≤ 64) :
    Answers width
      (fun bytes => ∑ index : Fin bytes.length, bytes[index].toNat % 128 * 128 ^ index.val)
      (· < 2 ^ width) (unsigned width) ∧
    ∀ cursor : Cursor, EveryTurn .unsigned width
      (fun tally byte => tally.count < width ∧ tally.count < 64 ∧
        ((∀ fault, turn .unsigned width tally byte ≠ .fault fault) →
          ((byte &&& 0x7f).toUInt64 <<< UInt64.ofNat tally.count).toNat =
            byte.toNat % 128 * 2 ^ tally.count))
      {} cursor.unread := by
  constructor
  · rw [← funext magnitude_eq_sum]
    exact answers_unsigned positive word
  · intro cursor
    refine everyTurn_of_counts word (fun {read tally} counts within byte => ?_) counts_nil positive
    exact ⟨within, by omega, toNat_shiftLeft_of_turn word counts within⟩

/-- All bits of the word are used, and one bit more is out of range. -/
theorem unsigned_answers_all_ones :
    0 < 64 ∧ 64 ≤ 64 ∧
    unsigned 64 ⟨3, List.replicate 9 0xff ++ [0x01, 0x2a]⟩ = .ok (2 ^ 64 - 1) ⟨13, [0x2a]⟩ ∧
    unsigned 64 ⟨3, List.replicate 9 0xff ++ [0x02, 0x2a]⟩ =
      .error (.malformedVarint 3 64 .overflow) ⟨13, [0x2a]⟩ := by
  obtain ⟨answers, -⟩ := unsigned_answers (by decide : 0 < 64) (by decide)
  rw [← funext magnitude_eq_sum] at answers
  have ones : magnitude (List.replicate 9 0xff ++ [0x01]) = 2 ^ 64 - 1 := by decide +kernel
  refine ⟨by decide, by decide, ?_, ?_⟩
  · refine (answers.inRange _ 9 ⟨by decide, by decide, by decide +kernel⟩).trans ?_
    exact congrArg₂ EStateM.Result.ok ones rfl
  · exact answers.outOfRange _ ⟨9, by decide, by decide, by decide +kernel⟩

private theorem SignedField.length_eq_one {width : Nat} {bytes : List UInt8} {value : Int}
    (field : SignedField width bytes value) (narrow : width ≤ 7) : bytes.length = 1 := by
  have some := List.length_pos_iff.mpr field.chained.ne_nil
  have few := field.short
  rw [Nat.ceilDiv_eq_add_pred_div] at few
  omega

/-- The same of two's complement. A field that is not of full length is never out of range, and for
the widths of constants and block types the numbers fit the machine's own types. -/
theorem signed_answers {width : Nat} (positive : 0 < width) (word : width ≤ 64) :
    let fits := fun value : Int => -2 ^ (width - 1) ≤ value ∧ value < 2 ^ (width - 1)
    Answers width twosComplement fits (signed width) ∧
    (∀ bytes, bytes.length < width ⌈/⌉ 7 → fits (twosComplement bytes)) ∧
    (∀ cursor : Cursor, EveryTurn .signed width
      (fun tally _ => tally.count < width ∧ tally.count < 64) {} cursor.unread) ∧
    ∀ cursor value after, signed width cursor = .ok value after →
      (width ≤ 32 → (Int32.ofInt value).toInt = value) ∧
      (width ≤ 7 → (Int8.ofInt value).toInt = value ∧ after = cursor.advance 1) := by
  intro fits
  refine ⟨answers_signed positive word, signed_short, ?_, ?_⟩
  · intro cursor
    refine everyTurn_of_counts word (fun {read tally} counts within byte => ?_) counts_nil positive
    exact ⟨within, by omega⟩
  · intro cursor value after read
    obtain ⟨bytes, reached, field⟩ := (reads_signed positive word cursor value after).mp read
    obtain ⟨low, high⟩ := field.fits
    refine ⟨fun narrow => ?_, fun narrow => ⟨?_, ?_⟩⟩
    · have room : (2 : Int) ^ (width - 1) ≤ 2 ^ 31 := pow_le_pow_right₀ (by omega) (by omega)
      exact Int32.toInt_ofInt_of_le (by omega) (by omega)
    · have room : (2 : Int) ^ (width - 1) ≤ 2 ^ 7 := pow_le_pow_right₀ (by omega) (by omega)
      exact Int8.toInt_ofInt_of_le (by omega) (by omega)
    · rw [reached.eq_advance, SignedField.length_eq_one field narrow]

/-- The least number of the width, and one with a zero among the ones that stand for its sign. -/
theorem signed_answers_least :
    0 < 32 ∧ 32 ≤ 64 ∧
    signed 32 ⟨0, [0x80, 0x80, 0x80, 0x80, 0x78]⟩ = .ok (-2 ^ 31) ⟨5, []⟩ ∧
    signed 32 ⟨0, [0x80, 0x80, 0x80, 0x80, 0x70]⟩ =
      .error (.malformedVarint 0 32 .overflow) ⟨5, []⟩ := by
  obtain ⟨answers, -⟩ := signed_answers (by decide : 0 < 32) (by decide)
  have least : twosComplement [0x80, 0x80, 0x80, 0x80, 0x78] = -2 ^ 31 := by decide +kernel
  refine ⟨by decide, by decide, ?_, ?_⟩
  · refine (answers.inRange _ 4 ⟨by decide, by decide, by decide +kernel⟩).trans ?_
    exact congrArg₂ EStateM.Result.ok least rfl
  · exact answers.outOfRange _ ⟨4, by decide, by decide, by decide +kernel⟩

end WasmStream.Leb128
