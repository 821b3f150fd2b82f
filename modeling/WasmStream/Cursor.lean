/-! A read position in a byte buffer. -/

namespace WasmStream

/-- The bytes before the position are never looked at again, so only their number is kept. -/
structure Cursor where
  position : Nat
  unread : List UInt8
deriving DecidableEq, Repr

namespace Cursor

def ofBytes (bytes : List UInt8) : Cursor := ⟨0, bytes⟩

def remaining (cursor : Cursor) : Nat := cursor.unread.length

/-- The length of the whole buffer. -/
def limit (cursor : Cursor) : Nat := cursor.position + cursor.remaining

def isEmpty (cursor : Cursor) : Bool := cursor.unread.isEmpty

def peek (cursor : Cursor) : Option UInt8 := cursor.unread.head?

/-- Steps over bytes that are known to be there. -/
def advance (cursor : Cursor) (count : Nat) : Cursor :=
  ⟨cursor.position + count, cursor.unread.drop count⟩

/-- The cursor after the given bytes have been read. -/
def Reached (before : Cursor) (consumed : List UInt8) (after : Cursor) : Prop :=
  before.unread = consumed ++ after.unread ∧ after.position = before.position + consumed.length

theorem Reached.refl (cursor : Cursor) : cursor.Reached [] cursor := ⟨rfl, rfl⟩

theorem Reached.trans {before middle after : Cursor} {first second : List UInt8}
    (left : before.Reached first middle) (right : middle.Reached second after) :
    before.Reached (first ++ second) after := by
  obtain ⟨unread, position⟩ := left
  obtain ⟨unread', position'⟩ := right
  exact ⟨by simp [unread, unread'], by simp [position, position', Nat.add_assoc]⟩

theorem Reached.remaining_add {before after : Cursor} {consumed : List UInt8}
    (reached : before.Reached consumed after) :
    consumed.length + after.remaining = before.remaining := by
  simp [remaining, reached.1]

/-- Reading moves within the buffer. -/
theorem Reached.limit_eq {before after : Cursor} {consumed : List UInt8}
    (reached : before.Reached consumed after) : after.limit = before.limit := by
  simp [limit, remaining, reached.1, reached.2, Nat.add_assoc]

end Cursor
end WasmStream
