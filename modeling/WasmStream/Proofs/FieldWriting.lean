import WasmStream.Proofs.FieldReading

/-! Numbers that are written as fields and read again, at any width. A width that the number fits
gives it back and leaves what follows unread. A narrower one refuses the field where it starts, for
its length if it takes more bytes than the width may, and for its value if not. What is written is
the shortest field that is read as the number, and the only one of its length. -/

namespace WasmStream.Leb128

theorem Chained.exists_concat {bytes : List UInt8} (chained : Chained bytes) :
    ∃ front last, bytes = front ++ [last] ∧ (∀ byte ∈ front, 128 ≤ byte.toNat) ∧
      last.toNat < 128 := by
  induction chained with
  | @last byte stops => exact ⟨[], byte, rfl, by simp, stops⟩
  | @more byte rest goes chained ih =>
    obtain ⟨front, last, rfl, others, stops⟩ := ih
    exact ⟨byte :: front, last, rfl, List.forall_mem_cons.mpr ⟨goes, others⟩, stops⟩

section
variable {α : Type} {width : Nat} {value : List UInt8 → α} {Fits : α → Prop} {bytes : List UInt8}

private theorem Chained.ending_eq (chained : Chained bytes) (start : Nat) (back : List UInt8) :
    ending? ⟨start, bytes ++ back⟩ = some (bytes.length - 1) := by
  obtain ⟨front, last, rfl, goes, stops⟩ := chained.exists_concat
  have absent : front.findIdx? (fun byte => byte.toNat < 128) = none := by
    simpa [List.findIdx?_eq_none_iff] using goes
  simp [ending?, List.findIdx?_append, List.findIdx?_cons, absent, stops]

private theorem Chained.endless (chained : Chained bytes) (long : width ⌈/⌉ 7 < bytes.length)
    (start : Nat) (back : List UInt8) : Endless width ⟨start, bytes ++ back⟩ := by
  obtain ⟨front, last, rfl, goes, -⟩ := chained.exists_concat
  have within : width ⌈/⌉ 7 ≤ front.length := by
    rw [List.length_append, List.length_singleton] at long
    exact Nat.le_of_lt_succ long
  -- All bytes but the last announce another, and the last one is too far away to be looked at.
  have ahead : front ++ [last] ++ back = front ++ (last :: back) := by simp
  rw [ahead]
  refine ⟨?_, fun byte taken => goes byte ?_⟩
  · rw [Cursor.remaining, List.length_append]
    omega
  · rw [List.take_append_of_le_length within] at taken
    exact List.mem_of_mem_take taken

theorem Answers.refuses {reader : Reader α} (answers : Answers width value Fits reader)
    (short : ∀ bytes, bytes.length < width ⌈/⌉ 7 → Fits (value bytes)) (chained : Chained bytes)
    (misfits : ¬ Fits (value bytes)) (start : Nat) (back : List UInt8) :
    ∃ after, reader ⟨start, bytes ++ back⟩ = .error (.malformedVarint start width
      (if width ⌈/⌉ 7 < bytes.length then .tooLong else .overflow)) after := by
  split
  next long => exact ⟨_, answers.endless _ (chained.endless long start back)⟩
  next fewer =>
    -- Fewer bytes than the width may take spell nothing that is out of range.
    have full : bytes.length = width ⌈/⌉ 7 := by
      by_contra other
      exact misfits (short bytes (by omega))
    have some := List.length_pos_iff.mpr chained.ne_nil
    have last : bytes.length - 1 + 1 = bytes.length := by omega
    refine ⟨_, answers.outOfRange _ ⟨_, chained.ending_eq start back, last.trans full, ?_⟩⟩
    rwa [last, List.take_left]

end

section
variable {α β : Type} {width : Nat} {value : List UInt8 → α} {Fits : α → Prop} {number : β → α}
  {reader : Reader α} {write : β → List UInt8}

/-- To write numbers is the canonical inverse of reading fields of a width. -/
structure Inverts (width : Nat) (Fits : α → Prop) (number : β → α) (reader : Reader α)
    (write : β → List UInt8) : Prop where
  reads : ∀ front back given, Fits (number given) →
    reader ((Cursor.ofBytes (front ++ write given ++ back)).advance front.length) =
      .ok (number given) ⟨(front ++ write given).length, back⟩
  refuses : ∀ front back given, ¬ Fits (number given) → ∃ after,
    reader ((Cursor.ofBytes (front ++ write given ++ back)).advance front.length) =
      .error (.malformedVarint front.length width
        (if width ⌈/⌉ 7 < (write given).length then .tooLong else .overflow)) after
  shortest : ∀ bytes found, reader (Cursor.ofBytes bytes) = .ok found ⟨bytes.length, []⟩ →
    ∃ given, number given = found ∧ (write given).length ≤ bytes.length ∧
      ((write given).length = bytes.length → write given = bytes)

private theorem advance_front (front bytes back : List UInt8) :
    (Cursor.ofBytes (front ++ bytes ++ back)).advance front.length =
      ⟨front.length, bytes ++ back⟩ := by
  simp [Cursor.advance, Cursor.ofBytes]

theorem inverts_of_fields (answers : Answers width value Fits reader)
    (short : ∀ bytes, bytes.length < width ⌈/⌉ 7 → Fits (value bytes))
    (reads : Reader.Reads reader (Field width value Fits)) (chained : ∀ given, Chained (write given))
    (spells : ∀ given, value (write given) = number given)
    (written : ∀ given, Fits (number given) → Field width value Fits (write given) (number given))
    (shortens : ∀ {bytes found}, Field width value Fits bytes found →
      ∃ given, number given = found ∧ Shortens (write given) bytes) :
    Inverts width Fits number reader write where
  reads front back given fits := by
    rw [advance_front, List.length_append]
    exact reads.ahead (written given fits) front.length back
  refuses front back given misfits := by
    rw [advance_front]
    exact answers.refuses short (chained given) (spells given ▸ misfits) front.length back
  shortest bytes found read := by
    obtain ⟨given, same, shortest⟩ := shortens (reads.whole_iff.mp read)
    refine ⟨given, same, shortest.length_le, fun equal => ?_⟩
    rcases shortest with rfl | shorter
    · rfl
    · exact absurd equal (Nat.ne_of_lt shorter)

end

theorem one_lt_length_encodeUnsigned_iff {value : Nat} :
    1 < (encodeUnsigned value).length ↔ 128 ≤ value := by
  rw [encodeUnsigned_eq]
  split
  next small => simp [Nat.not_le.mpr small]
  next large =>
    have some := List.length_pos_iff.mpr (chained_encodeUnsigned (value / 128)).ne_nil
    rw [List.length_cons]
    omega

/-- Numbers of the word without a sign, at every width of the word. -/
theorem encodeUnsigned_inverts {width : Nat} (positive : 0 < width) (word : width ≤ 64) :
    Inverts width (· < 2 ^ width) UInt64.toNat (unsigned width)
      (fun value => encodeUnsigned value.toNat) := by
  refine inverts_of_fields (answers_unsigned positive word) unsigned_short
    (reads_unsigned positive word) (fun _ => chained_encodeUnsigned _)
    (fun _ => magnitude_encodeUnsigned _) (fun _ => unsignedField_encode positive) ?_
  intro bytes found field
  have inside : found < 2 ^ 64 := field.fits.trans_le (Nat.pow_le_pow_right (by omega) word)
  have same : (UInt64.ofNat found).toNat = found := UInt64.toNat_ofNat_of_lt' inside
  exact ⟨UInt64.ofNat found, same, by rw [same]; exact UnsignedField.shortens field⟩

/-- The greatest number of the width, one beyond it, and one that takes a byte more. -/
theorem encodeUnsigned_inverts_index :
    0 < 32 ∧ 32 ≤ 64 ∧
    unsigned 32 ⟨1, [0xff, 0xff, 0xff, 0xff, 0x0f, 0x2a]⟩ = .ok (2 ^ 32 - 1) ⟨6, [0x2a]⟩ ∧
    (∃ after, unsigned 32 ⟨1, [0x80, 0x80, 0x80, 0x80, 0x10, 0x2a]⟩ =
      .error (.malformedVarint 1 32 .overflow) after) ∧
    ∃ after, unsigned 32 ⟨1, [0x80, 0x80, 0x80, 0x80, 0x80, 0x01, 0x2a]⟩ =
      .error (.malformedVarint 1 32 .tooLong) after := by
  obtain ⟨reads, refuses, -⟩ := encodeUnsigned_inverts (by decide : 0 < 32) (by decide)
  have greatest : encodeUnsigned (UInt64.toNat (2 ^ 32 - 1)) = [0xff, 0xff, 0xff, 0xff, 0x0f] := by
    decide +kernel
  have beyond : encodeUnsigned (UInt64.toNat (2 ^ 32)) = [0x80, 0x80, 0x80, 0x80, 0x10] := by
    decide +kernel
  have longer : encodeUnsigned (UInt64.toNat (2 ^ 35)) = [0x80, 0x80, 0x80, 0x80, 0x80, 0x01] := by
    decide +kernel
  refine ⟨by decide, by decide, ?_, ?_, ?_⟩
  · have read := reads [0x01] [0x2a] (2 ^ 32 - 1) (by decide)
    simp only [greatest] at read
    exact read
  · have refused := refuses [0x01] [0x2a] (2 ^ 32) (by decide)
    simp only [beyond] at refused
    exact refused
  · have refused := refuses [0x01] [0x2a] (2 ^ 35) (by decide)
    simp only [longer] at refused
    exact refused

private theorem length_encodeSigned_word (value : Int64) : (encodeSigned value.toInt).length ≤ 10 :=
  (signedField_encode (by omega : 0 < 64) value.le_toInt value.toInt_lt).short

/-- The same of two's complement. -/
theorem encodeSigned_inverts {width : Nat} (positive : 0 < width) (word : width ≤ 64) :
    (∀ value : Int64, (encodeSigned value.toInt).length ≤ 10) ∧
    Inverts width (fun value => -2 ^ (width - 1) ≤ value ∧ value < 2 ^ (width - 1)) Int64.toInt
      (signed width) (fun value => encodeSigned value.toInt) := by
  refine ⟨length_encodeSigned_word, ?_⟩
  refine inverts_of_fields (answers_signed positive word) signed_short
    (reads_signed positive word) (fun _ => chained_encodeSigned _)
    (fun _ => twosComplement_encodeSigned _)
    (fun _ fits => signedField_encode positive fits.1 fits.2) ?_
  intro bytes found field
  obtain ⟨low, high⟩ := field.fits
  have room : (2 : Int) ^ (width - 1) ≤ 2 ^ 63 := pow_le_pow_right₀ (by omega) (by omega)
  have same : (Int64.ofInt found).toInt = found := Int64.toInt_ofInt_of_le (by omega) (by omega)
  exact ⟨Int64.ofInt found, same, by rw [same]; exact SignedField.shortens field⟩

/-- The least number of the width, one beyond it, and one that takes a byte more. -/
theorem encodeSigned_inverts_constant :
    0 < 32 ∧ 32 ≤ 64 ∧
    signed 32 ⟨1, [0x80, 0x80, 0x80, 0x80, 0x78, 0x2a]⟩ = .ok (-2 ^ 31) ⟨6, [0x2a]⟩ ∧
    (∃ after, signed 32 ⟨1, [0xff, 0xff, 0xff, 0xff, 0x77, 0x2a]⟩ =
      .error (.malformedVarint 1 32 .overflow) after) ∧
    ∃ after, signed 32 ⟨1, [0xff, 0xff, 0xff, 0xff, 0xbf, 0x7f, 0x2a]⟩ =
      .error (.malformedVarint 1 32 .tooLong) after := by
  obtain ⟨-, reads, refuses, -⟩ := encodeSigned_inverts (by decide : 0 < 32) (by decide)
  have least : encodeSigned (Int64.toInt (-2 ^ 31)) = [0x80, 0x80, 0x80, 0x80, 0x78] := by
    decide +kernel
  have beyond : encodeSigned (Int64.toInt (-2 ^ 31 - 1)) = [0xff, 0xff, 0xff, 0xff, 0x77] := by
    decide +kernel
  have longer : encodeSigned (Int64.toInt (-2 ^ 34 - 1)) = [0xff, 0xff, 0xff, 0xff, 0xbf, 0x7f] := by
    decide +kernel
  refine ⟨by decide, by decide, ?_, ?_, ?_⟩
  · have read := reads [0x01] [0x2a] (-2 ^ 31) (by decide)
    simp only [least] at read
    exact read
  · have refused := refuses [0x01] [0x2a] (-2 ^ 31 - 1) (by decide)
    simp only [beyond] at refused
    exact refused
  · have refused := refuses [0x01] [0x2a] (-2 ^ 34 - 1) (by decide)
    simp only [longer] at refused
    exact refused

end WasmStream.Leb128
