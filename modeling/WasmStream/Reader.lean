import WasmStream.Cursor
import WasmStream.DecodeError

/-! Readers of a byte buffer. A reader that fails says why and still hands back the cursor, because
the bytes it consumed stay consumed. No reader moves backwards or beyond the end. -/

namespace WasmStream

/-- A failure keeps the cursor that was reached. -/
abbrev Reader := EStateM DecodeError Cursor

namespace Reader

variable {α β : Type}

def position : Reader Nat := fun cursor => .ok cursor.position cursor

def remaining : Reader Nat := fun cursor => .ok cursor.remaining cursor

def byte : Reader UInt8 := fun cursor =>
  match cursor.unread with
  | [] => .error (.unexpectedEnd cursor.position) cursor
  | next :: rest => .ok next ⟨cursor.position + 1, rest⟩

/-- All of the bytes or none: a short buffer leaves the cursor where it was. -/
def bytes (count : Nat) : Reader (List UInt8) := fun cursor =>
  if count ≤ cursor.remaining then
    .ok (cursor.unread.take count) (cursor.advance count)
  else
    .error (.unexpectedEnd cursor.limit) cursor

/-- The cursor that a run ends with, whatever its outcome. -/
def finish : EStateM.Result DecodeError Cursor α → Cursor
  | .ok _ cursor => cursor
  | .error _ cursor => cursor

/-- A reader only ever moves forward over bytes of the buffer. -/
def Forward (reader : Reader α) : Prop :=
  ∀ cursor : Cursor, ∃ consumed, cursor.Reached consumed (finish (reader cursor))

-- What is passed on may be any state: nestings are updated in the same monad.
section
variable {σ : Type} {first : EStateM DecodeError σ α} {next : α → EStateM DecodeError σ β}
  {before middle after : σ} {error : DecodeError}

theorem bind_eq_ok {value : β} :
    (first >>= next) before = .ok value after ↔
      ∃ found middle, first before = .ok found middle ∧ next found middle = .ok value after := by
  change EStateM.bind first next before = _ ↔ _
  unfold EStateM.bind
  cases first before <;> simp [and_assoc]

theorem bind_eq_error :
    (first >>= next) before = .error error after ↔
      first before = .error error after ∨
      ∃ found middle, first before = .ok found middle ∧
        next found middle = .error error after := by
  change EStateM.bind first next before = _ ↔ _
  unfold EStateM.bind
  cases first before <;> simp [and_assoc]

theorem bind_of_ok {value : α} (found : first before = .ok value middle) :
    (first >>= next) before = next value middle := by
  change EStateM.bind first next before = _
  rw [EStateM.bind, found]

end

theorem Forward.remaining_le {reader : Reader α} (forward : Forward reader) {cursor after : Cursor}
    {value : α} (read : reader cursor = .ok value after) : after.remaining ≤ cursor.remaining := by
  obtain ⟨consumed, reached⟩ := forward cursor
  rw [read] at reached
  exact Nat.le.intro ((Nat.add_comm ..).trans reached.remaining_add)

theorem forward_pure (value : α) : Forward (pure value) := fun cursor => ⟨[], .refl cursor⟩

theorem forward_throw (error : DecodeError) : Forward (throw error : Reader α) :=
  fun cursor => ⟨[], .refl cursor⟩

theorem forward_position : Forward position := fun cursor => ⟨[], .refl cursor⟩

theorem forward_remaining : Forward remaining := fun cursor => ⟨[], .refl cursor⟩

theorem Forward.bind {reader : Reader α} {next : α → Reader β} (first : Forward reader)
    (second : ∀ value, Forward (next value)) : Forward (reader >>= next) := by
  intro cursor
  obtain ⟨consumed, reached⟩ := first cursor
  change ∃ consumed, cursor.Reached consumed (finish (EStateM.bind reader next cursor))
  unfold EStateM.bind
  cases outcome : reader cursor with
  | ok value after =>
    rw [outcome] at reached
    obtain ⟨more, reached'⟩ := second value after
    exact ⟨consumed ++ more, reached.trans reached'⟩
  | error error after =>
    rw [outcome] at reached
    exact ⟨consumed, reached⟩

theorem byte_reached {cursor after : Cursor} {value : UInt8}
    (read : byte cursor = .ok value after) :
    cursor.Reached [value] after := by
  unfold byte at read
  split at read
  · cases read
  · rename_i next rest unread
    cases read
    exact ⟨by simp [unread], rfl⟩

theorem forward_byte : Forward byte := by
  intro cursor
  cases outcome : byte cursor with
  | ok value after => exact ⟨[value], byte_reached outcome⟩
  | error error after =>
    unfold byte at outcome
    split at outcome
    · cases outcome
      exact ⟨[], .refl cursor⟩
    · cases outcome

theorem forward_bytes (count : Nat) : Forward (bytes count) := by
  intro cursor
  unfold bytes
  split
  · rename_i enough
    have taken : (cursor.unread.take count).length = count := by
      rw [List.length_take]; exact Nat.min_eq_left enough
    exact ⟨cursor.unread.take count, by simp [finish, Cursor.advance],
      by rw [taken]; rfl⟩
  · exact ⟨[], .refl cursor⟩

end Reader
end WasmStream
