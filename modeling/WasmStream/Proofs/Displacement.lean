import WasmStream.Proofs.Inheritance

/-! The same bytes at another place of a buffer. What is read from them is the same, and so is every
fault in them, but for the offset at which it is reported. -/

namespace WasmStream

/-- The same bytes ahead, and more of them behind. -/
def Cursor.moved (cursor : Cursor) (distance : Nat) : Cursor :=
  ⟨cursor.position + distance, cursor.unread⟩

@[simp] theorem Cursor.position_moved (cursor : Cursor) (distance : Nat) :
    (cursor.moved distance).position = cursor.position + distance := rfl

@[simp] theorem Cursor.unread_moved (cursor : Cursor) (distance : Nat) :
    (cursor.moved distance).unread = cursor.unread := rfl

@[simp] theorem Cursor.remaining_moved (cursor : Cursor) (distance : Nat) :
    (cursor.moved distance).remaining = cursor.remaining := rfl

theorem Cursor.Reached.moved {before after : Cursor} {consumed : List UInt8}
    (reached : before.Reached consumed after) (distance : Nat) :
    (before.moved distance).Reached consumed (after.moved distance) := by
  obtain ⟨unread, position⟩ := reached
  refine ⟨unread, ?_⟩
  rw [Cursor.position_moved, Cursor.position_moved, position, Nat.add_right_comm]

def DecodeError.moved (error : DecodeError) (distance : Nat) : DecodeError :=
  match error with
  | unknownOpcode byte offset => unknownOpcode byte (offset + distance)
  | malformedVarint offset width fault => malformedVarint (offset + distance) width fault
  | unexpectedEnd offset => unexpectedEnd (offset + distance)
  | malformedNesting offset fault => malformedNesting (offset + distance) fault
  | invalidBlockType byte offset => invalidBlockType byte (offset + distance)

def Instruction.moved (instruction : Instruction) (distance : Nat) : Instruction :=
  { instruction with offset := instruction.offset + distance }

namespace Reader
variable {α β : Type} {distance : Nat}

def shift (distance : Nat) :
    EStateM.Result DecodeError Cursor α → EStateM.Result DecodeError Cursor α
  | .ok value cursor => .ok value (cursor.moved distance)
  | .error error cursor => .error (error.moved distance) (cursor.moved distance)

/-- The second reader does at the other place what the first one does. They differ at most in the
offsets that they have been given. -/
def Follows (distance : Nat) (reader follower : Reader α) : Prop :=
  ∀ cursor : Cursor, follower (cursor.moved distance) = shift distance (reader cursor)

theorem follows_pure (value : α) : Follows distance (pure value) (pure value) := fun _ => rfl

theorem follows_throw (error : DecodeError) :
    Follows distance (throw error : Reader α) (throw (error.moved distance)) := fun _ => rfl

theorem follows_byte : Follows distance byte byte := by
  intro cursor
  unfold byte
  rw [Cursor.unread_moved]
  cases cursor.unread with
  | nil => rfl
  | cons next rest => simp [Cursor.moved, shift, Nat.add_right_comm]

private theorem follows_bytes (count : Nat) : Follows distance (bytes count) (bytes count) := by
  intro cursor
  unfold bytes
  rw [Cursor.remaining_moved]
  split
  · simp [Cursor.moved, Cursor.advance, shift, Nat.add_right_comm]
  · simp [Cursor.limit, shift, DecodeError.moved, Nat.add_right_comm]

theorem Follows.bind {reader follower : Reader α} {next next' : α → Reader β}
    (first : Follows distance reader follower)
    (second : ∀ value, Follows distance (next value) (next' value)) :
    Follows distance (reader >>= next) (follower >>= next') := by
  intro cursor
  change EStateM.bind follower next' _ = shift distance (EStateM.bind reader next cursor)
  unfold EStateM.bind
  rw [first cursor]
  cases reader cursor with
  | ok value middle => exact second value middle
  | error => rfl

theorem Follows.map {reader follower : Reader α} (follows : Follows distance reader follower)
    (f : α → β) : Follows distance (reader >>= fun value => pure (f value))
      (follower >>= fun value => pure (f value)) :=
  follows.bind fun value => follows_pure (f value)

/-- Only the readers that note where they stand are given another offset. -/
theorem follows_position {next next' : Nat → Reader β}
    (follows : ∀ start, Follows distance (next start) (next' (start + distance))) :
    Follows distance (position >>= next) (position >>= next') :=
  fun cursor => follows cursor.position cursor

end Reader

open Reader (Follows follows_pure follows_throw follows_byte follows_bytes follows_position)
variable {distance : Nat}

private theorem Leb128.follows_field (start width limit : Nat) :
    Follows distance (field start width limit) (field (start + distance) width limit) := by
  induction limit with
  | zero => exact follows_throw _
  | succ limit ih =>
    apply follows_byte.bind
    intro byte
    split
    · exact ih.map _
    · exact follows_pure _

theorem Leb128.follows_bounded {α : Type} (width : Nat) (value : List UInt8 → α) (Fits : α → Prop)
    [DecidablePred Fits] : Follows distance (bounded width value Fits) (bounded width value Fits) := by
  apply follows_position
  intro start
  apply (follows_field start width _).bind
  intro bytes
  unfold checked
  split
  · exact follows_pure _
  · exact follows_throw _

theorem Leb128.follows_unsigned {width : Nat} (positive : 0 < width) (word : width ≤ 64) :
    Follows distance (unsigned width) (unsigned width) := by
  rw [unsigned_eq_bounded positive word]
  exact follows_bounded _ _ _

theorem Leb128.follows_signed {width : Nat} (positive : 0 < width) (word : width ≤ 64) :
    Follows distance (signed width) (signed width) := by
  rw [signed_eq_bounded positive word]
  exact follows_bounded _ _ _

namespace Immediate

theorem follows_index : Follows distance readIndex readIndex :=
  (Leb128.follows_unsigned (by decide) (by decide)).map _

private theorem follows_reserved : Follows distance readReserved readReserved :=
  (Leb128.follows_unsigned (by decide) (by decide)).map _

private theorem follows_blockType : Follows distance readBlockType readBlockType := by
  apply follows_position
  intro start
  apply (Leb128.follows_signed (by decide) (by decide)).bind
  intro value
  dsimp only
  split
  · exact follows_pure _
  · exact follows_throw _

private theorem follows_labels (count : Nat) (labels : Array UInt32) :
    Follows distance (readLabelsInto readIndex count labels)
      (readLabelsInto readIndex count labels) := by
  induction count generalizing labels with
  | zero => exact follows_pure _
  | succ count ih => exact follows_index.bind fun label => ih (labels.push label)

private theorem follows_branchTable : Follows distance readBranchTable readBranchTable := by
  rw [readBranchTable_eq]
  apply (Leb128.follows_unsigned (by decide) (by decide)).bind
  intro count
  exact (follows_labels count #[]).bind fun labels => follows_index.map _

theorem follows_operands (kind : Kind) : Follows distance (read kind) (read kind) := by
  cases kind with
  | blockType => exact follows_blockType.map _
  | branchTable => exact follows_branchTable
  | branchTarget | callTarget | variableIndex => exact follows_index.map _
  | indirectCall => exact follows_index.bind fun _ => follows_reserved.map _
  | memoryAccess => exact follows_index.bind fun _ => follows_index.map _
  | memorySize => exact follows_reserved.map _
  | i32Const | i64Const => exact (Leb128.follows_signed (by decide) (by decide)).map _
  | f32Const | f64Const => exact ((follows_bytes _).map _).map _

end Immediate

namespace Decoder

theorem follows_descriptor (registry : Registry) :
    Follows distance (readDescriptor registry) (readDescriptor registry) := by
  apply follows_position
  intro start
  apply follows_byte.bind
  intro opcode
  split
  · exact follows_pure _
  · exact follows_throw _

/-- An instruction reads alike wherever it stands. -/
theorem follows_instruction (registry : Registry) :
    Follows distance (readInstruction registry) (readInstruction registry) := by
  apply (follows_descriptor registry).bind
  intro descriptor
  refine Follows.map ?_ _
  unfold readOperands
  split
  · exact (Immediate.follows_operands _).map _
  · exact follows_pure _

end Decoder
end WasmStream
