import WasmStream.Reader

/-! Variable-length integers in base 128, least significant digit first. A set high bit announces
another byte. A field of a given width may take more bytes than its value needs, but no more than
the width ever could, and the value has to lie in the width's range.

The payloads are put together in a machine word, so no width beyond that of the word is read. -/

namespace WasmStream.Leb128

/-- The payloads taken so far, the first of them in the lowest bits, and how many bits they are. -/
structure Tally where
  bits : UInt64 := 0
  count : Nat := 0
deriving DecidableEq, Repr

def Tally.push (tally : Tally) (byte : UInt8) : Tally where
  bits := tally.bits ||| (byte &&& 0x7f).toUInt64 <<< UInt64.ofNat tally.count
  count := tally.count + 7

/-- What a byte does to the field it belongs to. -/
inductive Turn (α : Type) where
  | more (tally : Tally)
  | value (result : α)
  | fault (fault : VarintFault)
deriving DecidableEq, Repr

/-- How bits stand for a number: which payload is too wide for the bits that are left for the last
one, and what the tally of a whole field comes to. -/
structure Representation (α : Type) where
  exceeds (left : Nat) (payload : UInt8) : Bool
  result (tally : Tally) (last : UInt8) : α

/-- Fills the rest of the word if the sign bit of the last payload is set. -/
def Tally.signExtend (tally : Tally) (last : UInt8) : UInt64 :=
  if tally.count < 64 ∧ last &&& 0x40 ≠ 0 then tally.bits ||| (-1) <<< UInt64.ofNat tally.count
  else tally.bits

namespace Representation

def unsigned : Representation Nat where
  exceeds left payload := payload.toUInt64 >>> UInt64.ofNat left != 0
  result tally _ := tally.bits.toNat

/-- Two's complement: the bits from the sign on all have to agree. -/
def signed : Representation Int where
  exceeds left payload :=
    let top := payload >>> UInt8.ofNat (left - 1)
    top != 0 && top != 0x7f >>> UInt8.ofNat (left - 1)
  result tally last := (tally.signExtend last).toInt64.toInt

end Representation

def turn {α : Type} (representation : Representation α) (width : Nat) (tally : Tally)
    (byte : UInt8) : Turn α :=
  let left := width - tally.count
  if left ≤ 7 then
    -- No width leaves room for a byte behind this one.
    if byte &&& 0x80 ≠ 0 then .fault .tooLong
    else if left < 7 ∧ representation.exceeds left (byte &&& 0x7f) then .fault .overflow
    else .value (representation.result (tally.push byte) byte)
  else if byte &&& 0x80 ≠ 0 then .more (tally.push byte)
  else .value (representation.result (tally.push byte) byte)

/-- Takes bytes until one of them ends the field or makes it malformed. -/
def scan {α : Type} (representation : Representation α) (start width : Nat) (position : Nat)
    (tally : Tally) : List UInt8 → EStateM.Result DecodeError Cursor α
  | [] => .error (.unexpectedEnd position) ⟨position, []⟩
  | byte :: rest =>
    match turn representation width tally byte with
    | .more tally => scan representation start width (position + 1) tally rest
    | .value result => .ok result ⟨position + 1, rest⟩
    | .fault fault => .error (.malformedVarint start width fault) ⟨position + 1, rest⟩

/-- Reads a field and the value it stands for. Faults are reported where the field starts. -/
def read {α : Type} (representation : Representation α) (width : Nat) : Reader α := fun cursor =>
  scan representation cursor.position width cursor.position {} cursor.unread

def unsigned (width : Nat) : Reader Nat := read .unsigned width

def signed (width : Nat) : Reader Int := read .signed width

private theorem reached_scan {α : Type} (representation : Representation α) (start width : Nat)
    (position : Nat) (tally : Tally) (bytes : List UInt8) :
    ∃ consumed, Cursor.Reached ⟨position, bytes⟩ consumed
      (Reader.finish (scan representation start width position tally bytes)) := by
  induction bytes generalizing position tally with
  | nil => exact ⟨[], .refl _⟩
  | cons byte rest ih =>
    have first : Cursor.Reached ⟨position, byte :: rest⟩ [byte] ⟨position + 1, rest⟩ := ⟨rfl, rfl⟩
    rw [scan]
    split
    next next _ =>
      obtain ⟨consumed, reached⟩ := ih (position + 1) next
      exact ⟨_, first.trans reached⟩
    · exact ⟨_, first⟩
    · exact ⟨_, first⟩

theorem forward_read {α : Type} (representation : Representation α) (width : Nat) :
    Reader.Forward (read representation width) := fun _ => reached_scan ..

theorem forward_unsigned (width : Nat) : Reader.Forward (unsigned width) := forward_read _ _

theorem forward_signed (width : Nat) : Reader.Forward (signed width) := forward_read _ _

private theorem shiftRight_lt {value : Nat} (more : value >>> 7 ≠ 0) : value >>> 7 < value := by
  rw [Nat.shiftRight_eq_div_pow] at more ⊢
  omega

private theorem natAbs_shiftRight_lt {value : Int} (zero : value ≠ 0) (minusOne : value ≠ -1) :
    (value >>> (7 : Nat)).natAbs < value.natAbs := by
  rw [Int.shiftRight_eq_div_pow]
  omega

/-- The shortest field that holds the value. -/
def encodeUnsigned (value : Nat) : List UInt8 :=
  let payload := UInt8.ofNat value &&& 0x7f
  let rest := value >>> 7
  if rest = 0 then [payload]
  else (payload ||| 0x80) :: encodeUnsigned rest
termination_by value
decreasing_by
  rename_i more
  exact shiftRight_lt more

/-- The shortest field whose top bit gives the sign: the bits that are left out all repeat it. -/
def encodeSigned (value : Int) : List UInt8 :=
  let payload := UInt8.ofInt value &&& 0x7f
  let rest := value >>> (7 : Nat)
  if rest = 0 ∧ payload &&& 0x40 = 0 ∨ rest = -1 ∧ payload &&& 0x40 ≠ 0 then [payload]
  else (payload ||| 0x80) :: encodeSigned rest
termination_by value.natAbs
decreasing_by
  rename_i more
  -- Of 0 and -1, which a shift leaves as they are, nothing is left to write.
  refine natAbs_shiftRight_lt ?_ ?_
  · rintro rfl
    exact more (by decide)
  · rintro rfl
    exact more (by decide)

end WasmStream.Leb128
