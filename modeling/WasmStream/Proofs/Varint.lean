import WasmStream.Proofs.Fields
import WasmStream.Proofs.Reading

/-! Variable-length integers as byte strings. A field is described without a
reader: how its bytes hang together, how many there may be, which number they
spell in base 128, and which range it lies in. Reading accepts exactly these
fields, and writing gives the one shortest field of a number. -/

namespace WasmStream

/-- Of two byte strings that mean the same the first is the shorter one, or
there is no difference between them. -/
def Shortens (first second : List UInt8) : Prop :=
  first = second ∨ first.length < second.length

theorem Shortens.refl (bytes : List UInt8) : Shortens bytes bytes := .inl rfl

theorem Shortens.length_le {first second : List UInt8} (shortens : Shortens first second) :
    first.length ≤ second.length := by
  rcases shortens with rfl | shorter
  · exact Nat.le_refl _
  · exact Nat.le_of_lt shorter

theorem Shortens.append {first second left right : List UInt8} (front : Shortens first second)
    (back : Shortens left right) : Shortens (first ++ left) (second ++ right) := by
  rcases front with rfl | shorter
  · rcases back with rfl | shorter
    · exact .inl rfl
    · exact .inr (by simpa using shorter)
  · have bound := back.length_le
    exact .inr (by simp only [List.length_append]; omega)

theorem Shortens.cons {first second : List UInt8} (byte : UInt8)
    (shortens : Shortens first second) : Shortens (byte :: first) (byte :: second) :=
  (Shortens.refl [byte]).append shortens

namespace Leb128

inductive Chained : List UInt8 → Prop where
  | last {byte} (stops : byte.toNat < 128) : Chained [byte]
  | more {byte rest} (goes : 128 ≤ byte.toNat) (chained : Chained rest) : Chained (byte :: rest)

/-- A field of a given width whose bytes spell a value within range. -/
structure Field {α : Type} (width : Nat) (value : List UInt8 → α) (Fits : α → Prop)
    (bytes : List UInt8) (result : α) : Prop where
  chained : Chained bytes
  short : bytes.length ≤ width ⌈/⌉ 7
  spells : value bytes = result
  fits : Fits result

def UnsignedField (width : Nat) : Form Nat := Field width magnitude (· < 2 ^ width)

def SignedField (width : Nat) : Form Int :=
  Field width twosComplement fun value => -2 ^ (width - 1) ≤ value ∧ value < 2 ^ (width - 1)

theorem Chained.ne_nil {bytes : List UInt8} (chained : Chained bytes) : bytes ≠ [] := by
  cases chained <;> simp

theorem reads_field (start width limit : Nat) : Reader.Reads (field start width limit)
    (fun bytes result => result = bytes ∧ Chained bytes ∧ bytes.length ≤ limit) := by
  induction limit with
  | zero =>
    apply (Reader.reads_throw _).congr
    intro bytes result
    simp only [false_iff]
    rintro ⟨-, chained, short⟩
    exact chained.ne_nil (List.eq_nil_of_length_eq_zero (Nat.le_zero.mp short))
  | succ limit ih =>
    have reads : ∀ byte : UInt8, Reader.Reads
        (if 128 ≤ byte.toNat then do return byte :: (← field start width limit) else pure [byte])
        (fun bytes result =>
          if 128 ≤ byte.toNat then Chained bytes ∧ bytes.length ≤ limit ∧ result = byte :: bytes
          else bytes = [] ∧ result = [byte]) := by
      intro byte
      by_cases goes : 128 ≤ byte.toNat
      · simp only [goes, if_true]
        apply (ih.map (byte :: ·)).congr
        intro bytes result
        constructor
        · rintro ⟨value, ⟨rfl, chained, short⟩, rfl⟩
          exact ⟨chained, short, rfl⟩
        · rintro ⟨chained, short, rfl⟩
          exact ⟨bytes, ⟨rfl, chained, short⟩, rfl⟩
      · simp only [goes, if_false]
        exact Reader.reads_pure [byte]
    apply (Reader.reads_byte.bind reads).congr
    intro bytes result
    constructor
    · rintro ⟨byte, left, right, rfl, rfl, rest⟩
      split at rest
      next goes =>
        obtain ⟨chained, short, rfl⟩ := rest
        exact ⟨rfl, .more goes chained, Nat.succ_le_succ short⟩
      next stops =>
        obtain ⟨rfl, rfl⟩ := rest
        exact ⟨rfl, .last (Nat.lt_of_not_le stops), by simp⟩
    · rintro ⟨rfl, chained, short⟩
      cases chained with
      | last stops => exact ⟨_, _, [], rfl, rfl, by simp [Nat.not_le.mpr stops]⟩
      | more goes chained =>
        exact ⟨_, _, _, rfl, rfl, by simpa [goes, chained] using short⟩

theorem reads_bounded {α : Type} (width : Nat) (value : List UInt8 → α) (Fits : α → Prop)
    [DecidablePred Fits] : Reader.Reads (bounded width value Fits) (Field width value Fits) := by
  refine Reader.reads_after_look (fun cursor => ⟨cursor.position, rfl⟩) fun start => ?_
  have check : ∀ bytes, Reader.Reads (checked start width value Fits bytes)
      (fun rest result => rest = [] ∧ Fits (value bytes) ∧ result = value bytes) := by
    intro bytes
    unfold checked
    split
    next fits => simpa only [fits, true_and] using Reader.reads_pure (value bytes)
    next misfits => simpa only [misfits, false_and, and_false] using Reader.reads_throw _
  apply ((reads_field start width (width ⌈/⌉ 7)).bind check).congr
  intro bytes result
  constructor
  · rintro ⟨_, left, right, rfl, ⟨rfl, chained, short⟩, rfl, fits, rfl⟩
    rw [List.append_nil]
    exact ⟨chained, short, rfl, fits⟩
  · rintro ⟨chained, short, rfl, fits⟩
    exact ⟨bytes, bytes, [], by simp, ⟨rfl, chained, short⟩, rfl, fits, rfl⟩

theorem reads_unsigned {width : Nat} (positive : 0 < width) (word : width ≤ 64) :
    Reader.Reads (unsigned width) (UnsignedField width) := by
  rw [unsigned_eq_bounded positive word]
  apply reads_bounded

theorem reads_signed {width : Nat} (positive : 0 < width) (word : width ≤ 64) :
    Reader.Reads (signed width) (SignedField width) := by
  rw [signed_eq_bounded positive word]
  apply reads_bounded

def unsignedValue : List UInt8 → Nat
  | [] => 0
  | byte :: rest => payload byte + 128 * unsignedValue rest

/-- The number with a sign, digit by digit: the top bit of the last payload counts negatively. -/
def signedValue : List UInt8 → Int
  | [] => 0
  | [byte] => Int.bmod (payload byte) 128
  | byte :: rest => payload byte + 128 * signedValue rest

theorem unsignedValue_eq (bytes : List UInt8) : unsignedValue bytes = magnitude bytes := by
  induction bytes with
  | nil => rfl
  | cons byte rest ih =>
    rw [unsignedValue, ih, magnitude, magnitude, List.map_cons, Nat.ofDigits_cons]

private theorem digit_add_bmod {digit : Nat} (small : digit < 128) (value : Int) (bits : Nat) :
    (digit : Int) + 128 * value.bmod (2 ^ (bits + 1)) =
      (digit + 128 * value).bmod (2 ^ (bits + 1 + 7)) := by
  have size : (2 ^ (bits + 1 + 7) : Nat) = 128 * 2 ^ (bits + 1) := by
    rw [Nat.pow_add _ _ 7]
    omega
  have half : (2 ^ (bits + 1) : Nat) = 2 * 2 ^ bits := by
    rw [Nat.pow_succ]
    omega
  have low := Int.le_bmod (x := value) (m := 2 ^ (bits + 1)) (by positivity)
  have high := Int.bmod_lt (x := value) (m := 2 ^ (bits + 1)) (by positivity)
  have split := Int.bmod_add_bdiv value (2 ^ (bits + 1))
  symm
  rw [size, Int.bmod_eq_iff (by positivity)]
  push_cast [half] at low high split ⊢
  refine ⟨by omega, by omega, ?_⟩
  refine ⟨-value.bdiv (2 * 2 ^ bits), ?_⟩
  linarith

theorem signedValue_eq (bytes : List UInt8) : signedValue bytes = twosComplement bytes := by
  induction bytes with
  | nil => rfl
  | cons byte rest ih =>
    have digits : magnitude (byte :: rest) = payload byte + 128 * magnitude rest := rfl
    cases rest with
    | nil => simp [signedValue, twosComplement, magnitude]
    | cons next rest =>
      have bits : 7 * (next :: rest).length = 7 * rest.length + 6 + 1 := by
        simp only [List.length_cons]
        omega
      have wider : 7 * (byte :: next :: rest).length = 7 * rest.length + 6 + 1 + 7 := by
        simp only [List.length_cons]
        omega
      rw [signedValue, ih, twosComplement, twosComplement, bits, wider, digits]
      · push_cast
        exact digit_add_bmod (payload_lt byte) _ _
      · simp

def continuation (digit : Nat) : UInt8 := UInt8.ofNat (128 + digit)

theorem toNat_continuation {digit : Nat} (small : digit < 128) :
    (continuation digit).toNat = 128 + digit := by
  rw [continuation, UInt8.toNat_ofNat']
  omega

theorem payload_continuation {digit : Nat} (small : digit < 128) :
    payload (continuation digit) = digit := by
  rw [payload, toNat_continuation small]
  omega

theorem continuation_payload {byte : UInt8} (goes : 128 ≤ byte.toNat) :
    continuation (payload byte) = byte := by
  have bound := byte.toNat_lt
  apply UInt8.toNat_inj.mp
  rw [toNat_continuation (payload_lt byte), payload]
  omega

theorem payload_ofNat {digit : Nat} (small : digit < 128) : payload (UInt8.ofNat digit) = digit := by
  rw [payload, UInt8.toNat_ofNat']
  omega

theorem payload_of_stops {byte : UInt8} (stops : byte.toNat < 128) : payload byte = byte.toNat :=
  Nat.mod_eq_of_lt stops

theorem or_continuation {digit : Nat} (small : digit < 128) :
    UInt8.ofNat digit ||| 0x80 = continuation digit := by
  have low : (UInt8.ofNat digit).toNat = digit := by
    rw [UInt8.toNat_ofNat']
    omega
  have high : (0x80 : UInt8).toNat = 2 ^ 7 * 1 := rfl
  apply UInt8.toNat_inj.mp
  rw [toNat_continuation small, UInt8.toNat_or, low, high, Nat.or_comm,
    ← Nat.two_pow_add_eq_or_of_lt small]

theorem ofNat_and_payload (value : Nat) : UInt8.ofNat value &&& 0x7f = UInt8.ofNat (value % 128) := by
  apply UInt8.toNat_inj.mp
  rw [toNat_and_payload, payload, UInt8.toNat_ofNat', UInt8.toNat_ofNat']
  omega

theorem encodeUnsigned_eq (value : Nat) :
    encodeUnsigned value =
      if value < 128 then [UInt8.ofNat value]
      else continuation (value % 128) :: encodeUnsigned (value / 128) := by
  have rest : value >>> 7 = value / 128 := Nat.shiftRight_eq_div_pow value 7
  have ends : value / 128 = 0 ↔ value < 128 := by omega
  rw [encodeUnsigned]
  simp only [ofNat_and_payload, rest, ends, or_continuation (Nat.mod_lt value (by omega))]
  split
  next small => rw [Nat.mod_eq_of_lt small]
  next => rfl

theorem digits_induction {motive : Nat → Prop} (last : ∀ value < 128, motive value)
    (more : ∀ value, 128 ≤ value → motive (value / 128) → motive value) (value : Nat) :
    motive value := by
  induction value using Nat.strongRecOn with
  | ind value ih =>
    by_cases small : value < 128
    · exact last value small
    · exact more value (by omega) (ih (value / 128) (by omega))

theorem chained_encodeUnsigned (value : Nat) : Chained (encodeUnsigned value) := by
  induction value using digits_induction with
  | last value small =>
    rw [encodeUnsigned_eq, if_pos small]
    exact .last (by simpa using by omega)
  | more value large ih =>
    rw [encodeUnsigned_eq, if_neg (by omega)]
    refine .more ?_ ih
    rw [toNat_continuation (Nat.mod_lt _ (by omega))]
    omega

private theorem unsignedValue_encodeUnsigned (value : Nat) :
    unsignedValue (encodeUnsigned value) = value := by
  induction value using digits_induction with
  | last value small =>
    rw [encodeUnsigned_eq, if_pos small]
    simp [unsignedValue, payload_ofNat small]
  | more value large ih =>
    rw [encodeUnsigned_eq, if_neg (by omega), unsignedValue, ih,
      payload_continuation (Nat.mod_lt _ (by omega))]
    omega

theorem magnitude_encodeUnsigned (value : Nat) : magnitude (encodeUnsigned value) = value := by
  rw [← unsignedValue_eq, unsignedValue_encodeUnsigned]

private theorem length_encodeUnsigned_le {value limit : Nat} (fits : value < 2 ^ (7 * limit))
    (positive : 0 < limit) : (encodeUnsigned value).length ≤ limit := by
  induction limit generalizing value with
  | zero => contradiction
  | succ limit ih =>
    rw [encodeUnsigned_eq]
    split
    · simp
    next large =>
      have wider : 2 ^ (7 * (limit + 1)) = 2 ^ (7 * limit) * 128 := by
        rw [Nat.mul_add, Nat.pow_add]
      have room : 0 < limit := by
        rcases Nat.eq_zero_or_pos limit with rfl | room
        · simp at fits
          omega
        · exact room
      have rest : (encodeUnsigned (value / 128)).length ≤ limit := by
        apply ih _ room
        rw [Nat.div_lt_iff_lt_mul (by omega)]
        omega
      simpa using rest

private theorem encodeUnsigned_shortens {bytes : List UInt8} (chained : Chained bytes) :
    Shortens (encodeUnsigned (unsignedValue bytes)) bytes := by
  induction chained with
  | @last byte stops =>
    have value : unsignedValue [byte] = byte.toNat := payload_of_stops stops
    rw [value, encodeUnsigned_eq, if_pos stops, UInt8.ofNat_toNat]
    exact .refl _
  | @more byte rest goes chained ih =>
    have small := payload_lt byte
    rw [unsignedValue, encodeUnsigned_eq]
    split
    · have longer := List.length_pos_iff.mpr chained.ne_nil
      exact .inr (by simpa using longer)
    · have low : (payload byte + 128 * unsignedValue rest) % 128 = payload byte := by omega
      have high : (payload byte + 128 * unsignedValue rest) / 128 = unsignedValue rest := by omega
      rw [low, high, continuation_payload goes]
      exact ih.cons byte

theorem unsignedField_encode {width value : Nat} (positive : 0 < width) (fits : value < 2 ^ width) :
    UnsignedField width (encodeUnsigned value) value where
  chained := chained_encodeUnsigned value
  short := by
    rw [Nat.ceilDiv_eq_add_pred_div]
    apply length_encodeUnsigned_le
    · exact fits.trans_le (Nat.pow_le_pow_right (by omega) (by omega))
    · omega
  spells := magnitude_encodeUnsigned value
  fits := fits

theorem UnsignedField.shortens {width value : Nat} {bytes : List UInt8}
    (field : UnsignedField width bytes value) : Shortens (encodeUnsigned value) bytes := by
  have shortest := encodeUnsigned_shortens field.chained
  rwa [unsignedValue_eq, field.spells] at shortest

theorem signedValue_cons {byte : UInt8} {rest : List UInt8} (more : rest ≠ []) :
    signedValue (byte :: rest) = payload byte + 128 * signedValue rest := by
  cases rest with
  | nil => contradiction
  | cons => simp [signedValue]

private theorem toNat_emod (value : Int) : ((value % 128).toNat : Int) = value % 128 :=
  Int.toNat_of_nonneg (Int.emod_nonneg _ (by omega))

private theorem toNat_emod_lt (value : Int) : (value % 128).toNat < 128 := by
  have same := toNat_emod value
  omega

private theorem ofInt_and_payload (value : Int) :
    UInt8.ofInt value &&& 0x7f = UInt8.ofNat (value % 128).toNat := by
  have byte : UInt8.ofInt value = UInt8.ofNat (value % 2 ^ 8).toNat := rfl
  rw [byte, ofNat_and_payload]
  congr 1
  omega

private theorem signEnds_iff (value : Int) :
    value / 128 = 0 ∧ UInt8.ofNat (value % 128).toNat &&& 0x40 = 0 ∨
      value / 128 = -1 ∧ UInt8.ofNat (value % 128).toNat &&& 0x40 ≠ 0 ↔
        -64 ≤ value ∧ value < 64 := by
  have digit := toNat_emod value
  have set : UInt8.ofNat (value % 128).toNat &&& 0x40 ≠ 0 ↔ 64 ≤ (value % 128).toNat := by
    rw [and_sign_iff, payload_ofNat (toNat_emod_lt value)]
  have clear : UInt8.ofNat (value % 128).toNat &&& 0x40 = 0 ↔ (value % 128).toNat < 64 := by
    rw [← not_ne_iff, set, Nat.not_le]
  rw [set, clear]
  omega

theorem encodeSigned_eq (value : Int) :
    encodeSigned value =
      if -64 ≤ value ∧ value < 64 then [UInt8.ofNat (value % 128).toNat]
      else continuation (value % 128).toNat :: encodeSigned (value / 128) := by
  have rest : value >>> (7 : Nat) = value / 128 := Int.shiftRight_eq_div_pow value 7
  rw [encodeSigned]
  simp only [ofInt_and_payload, or_continuation (toNat_emod_lt value), rest, signEnds_iff]

theorem signedDigits_induction {motive : Int → Prop}
    (last : ∀ value, -64 ≤ value ∧ value < 64 → motive value)
    (more : ∀ value, ¬ (-64 ≤ value ∧ value < 64) → motive (value / 128) → motive value)
    (value : Int) : motive value := by
  induction size : value.natAbs using Nat.strongRecOn generalizing value with
  | ind size ih =>
    by_cases small : -64 ≤ value ∧ value < 64
    · exact last value small
    · exact more value small (ih _ (by omega) _ rfl)

theorem chained_encodeSigned (value : Int) : Chained (encodeSigned value) := by
  induction value using signedDigits_induction with
  | last value small =>
    have low := toNat_emod_lt value
    rw [encodeSigned_eq, if_pos small]
    refine .last ?_
    rw [UInt8.toNat_ofNat']
    omega
  | more value large ih =>
    rw [encodeSigned_eq, if_neg large]
    refine .more ?_ ih
    rw [toNat_continuation (toNat_emod_lt value)]
    omega

private theorem signedValue_encodeSigned (value : Int) :
    signedValue (encodeSigned value) = value := by
  induction value using signedDigits_induction with
  | last value small =>
    have same : (value % 128).bmod 128 = value.bmod 128 := Int.emod_bmod value 128
    rw [encodeSigned_eq, if_pos small, signedValue, payload_ofNat (toNat_emod_lt value),
      toNat_emod, same]
    exact Int.bmod_eq_of_le (by omega) (by omega)
  | more value large ih =>
    rw [encodeSigned_eq, if_neg large, signedValue_cons (chained_encodeSigned _).ne_nil, ih,
      payload_continuation (toNat_emod_lt value), toNat_emod]
    omega

theorem twosComplement_encodeSigned (value : Int) : twosComplement (encodeSigned value) = value := by
  rw [← signedValue_eq, signedValue_encodeSigned]

private theorem length_encodeSigned_le {value : Int} {limit : Nat}
    (low : -2 ^ (7 * limit + 6) ≤ value) (high : value < 2 ^ (7 * limit + 6)) :
    (encodeSigned value).length ≤ limit + 1 := by
  induction limit generalizing value with
  | zero => rw [encodeSigned_eq, if_pos (by simpa using ⟨low, high⟩)]; simp
  | succ limit ih =>
    rw [encodeSigned_eq]
    split
    · simp
    · have wider : (2 : Int) ^ (7 * (limit + 1) + 6) = 2 ^ (7 * limit + 6) * 128 := by
        rw [show 7 * (limit + 1) + 6 = 7 * limit + 6 + 7 by omega, pow_add]
        norm_num
      have rest : (encodeSigned (value / 128)).length ≤ limit + 1 := ih (by omega) (by omega)
      simpa using rest

private theorem encodeSigned_shortens {bytes : List UInt8} (chained : Chained bytes) :
    Shortens (encodeSigned (signedValue bytes)) bytes := by
  induction chained with
  | @last byte stops =>
    have low := Int.le_bmod (x := payload byte) (m := 128) (by omega)
    have high := Int.bmod_lt (x := payload byte) (m := 128) (by omega)
    have same : Int.bmod (payload byte) 128 % 128 = payload byte % 128 := Int.bmod_emod
    have back : (Int.bmod (payload byte) 128 % 128).toNat = byte.toNat := by
      rw [same, payload_of_stops stops]
      omega
    rw [signedValue, encodeSigned_eq, if_pos (by omega), back, UInt8.ofNat_toNat]
    exact .refl _
  | @more byte rest goes chained ih =>
    have small := payload_lt byte
    rw [signedValue_cons chained.ne_nil, encodeSigned_eq]
    split
    · have longer := List.length_pos_iff.mpr chained.ne_nil
      exact .inr (by simpa using longer)
    · have low : ((payload byte + 128 * signedValue rest) % 128).toNat = payload byte := by omega
      have high : (payload byte + 128 * signedValue rest) / 128 = signedValue rest := by omega
      rw [low, high, continuation_payload goes]
      exact ih.cons byte

theorem signedField_encode {width : Nat} {value : Int} (positive : 0 < width)
    (low : -2 ^ (width - 1) ≤ value) (high : value < 2 ^ (width - 1)) :
    SignedField width (encodeSigned value) value where
  chained := chained_encodeSigned value
  short := by
    have bound : (2 : Int) ^ (width - 1) ≤ 2 ^ (7 * ((width - 1) / 7) + 6) :=
      pow_le_pow_right₀ (by omega) (by omega)
    have length : (encodeSigned value).length ≤ (width - 1) / 7 + 1 :=
      length_encodeSigned_le (by omega) (by omega)
    rw [Nat.ceilDiv_eq_add_pred_div]
    omega
  spells := twosComplement_encodeSigned value
  fits := ⟨low, high⟩

theorem SignedField.shortens {width : Nat} {value : Int} {bytes : List UInt8}
    (field : SignedField width bytes value) : Shortens (encodeSigned value) bytes := by
  have shortest := encodeSigned_shortens field.chained
  rwa [signedValue_eq, field.spells] at shortest

end Leb128
end WasmStream
