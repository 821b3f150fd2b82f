import WasmStream.Proofs.Operands

/-! A cursor that is asked for one thing after another, whatever comes of it. It stays within its
buffer and never turns back, and what it reads there it reads wherever the same bytes lie ahead. -/

namespace WasmStream

inductive Request where
  | byte
  | bytes (count : Nat)
  | unsigned (width : Nat)
  | signed (width : Nat)
  | f32
  | f64
  | operands (kind : Immediate.Kind)

namespace Request

def Answer : Request → Type
  | byte => UInt8
  | bytes _ => List UInt8
  | unsigned _ => Nat
  | signed _ => Int
  | f32 => UInt32
  | f64 => UInt64
  | operands _ => Immediate

def reader : (request : Request) → Reader request.Answer
  | byte => Reader.byte
  | bytes count => Reader.bytes count
  | unsigned width => Leb128.unsigned width
  | signed width => Leb128.signed width
  | f32 => Immediate.readF32
  | f64 => Immediate.readF64
  | operands kind => Immediate.read kind

/-- How many bytes are asked for does not depend on them. -/
def Fixed : Request → Prop
  | byte | bytes _ | f32 | f64 => True
  | unsigned _ | signed _ | operands _ => False

end Request

namespace Cursor

/-- The cursor behind requests made one after another, whether or not they were answered. -/
def after (cursor : Cursor) (requests : List Request) : Cursor :=
  requests.foldl (fun cursor request => Reader.finish (request.reader cursor)) cursor

end Cursor

namespace Reader
variable {α β : Type} {reader : Reader α}

def Whole (reader : Reader α) : Prop :=
  ∀ cursor error after, reader cursor = .error error after → after = cursor

private theorem whole_byte : Whole byte := by
  intro cursor error after failed
  unfold byte at failed
  split at failed
  · cases failed
    rfl
  · cases failed

private theorem whole_bytes (count : Nat) : Whole (bytes count) := by
  intro cursor error after failed
  unfold bytes at failed
  split at failed
  · cases failed
  · cases failed
    rfl

private theorem Whole.map (whole : Whole reader) (f : α → β) :
    Whole (reader >>= fun value => pure (f value)) := by
  intro cursor error after failed
  rcases bind_eq_error.mp failed with failed | ⟨value, middle, read, failed⟩
  · exact whole cursor error after failed
  · cases failed

/-- What is read depends on the bytes that are taken and on nothing else. -/
def Repeats (reader : Reader α) : Prop :=
  ∀ cursor value after, reader cursor = .ok value after → ∃ taken, cursor.Reached taken after ∧
    ∀ other : Cursor, taken <+: other.unread →
      reader other = .ok value (other.advance taken.length)

private theorem Reads.repeats {form : Form α} (reads : Reads reader form) : Repeats reader := by
  intro cursor value after read
  obtain ⟨taken, reached, spelled⟩ := (reads cursor value after).mp read
  refine ⟨taken, reached, ?_⟩
  rintro ⟨start, unread⟩ ⟨back, rfl⟩
  rw [reads.ahead spelled start back, Cursor.advance, List.drop_left]

def Advances (reader : Reader α) : Prop :=
  ∀ cursor value after, reader cursor = .ok value after → cursor.position < after.position

end Reader

namespace Leb128
variable {α : Type} (representation : Representation α) (width : Nat)

-- A field is followed turn by turn, for its form is known only of widths that fit into the word.
theorem scan_repeats {start position : Nat} {tally : Tally} {unread : List UInt8} {value : α}
    {after : Cursor}
    (read : scan representation start width position tally unread = .ok value after) :
    ∃ taken, taken ≠ [] ∧ Cursor.Reached ⟨position, unread⟩ taken after ∧
      ∀ start' position' back,
        scan representation start' width position' tally (taken ++ back) =
          .ok value ⟨position' + taken.length, back⟩ := by
  induction unread generalizing position tally with
  | nil => cases read
  | cons byte rest ih =>
    have first : Cursor.Reached ⟨position, byte :: rest⟩ [byte] ⟨position + 1, rest⟩ := ⟨rfl, rfl⟩
    rw [scan] at read
    split at read
    next next turned =>
      obtain ⟨taken, -, reached, again⟩ := ih read
      refine ⟨byte :: taken, List.cons_ne_nil _ _, first.trans reached, ?_⟩
      intro start' position' back
      rw [List.cons_append, scan]
      simp only [turned, again, List.length_cons, Nat.add_assoc, Nat.add_comm 1]
    next result turned =>
      cases read
      refine ⟨[byte], List.cons_ne_nil _ _, first, ?_⟩
      intro start' position' back
      rw [List.cons_append, scan]
      simp only [turned, List.nil_append, List.length_singleton]
    · cases read

private theorem repeats_read : Reader.Repeats (read representation width) := by
  intro cursor value after found
  obtain ⟨taken, -, reached, again⟩ := scan_repeats representation width found
  refine ⟨taken, reached, ?_⟩
  rintro ⟨start, unread⟩ ⟨back, rfl⟩
  rw [Cursor.advance, List.drop_left]
  exact again start start back

theorem advances_read : Reader.Advances (read representation width) := by
  intro cursor value after found
  obtain ⟨taken, some', reached, -⟩ := scan_repeats representation width found
  exact reached.position_lt some'

end Leb128

namespace Immediate

theorem advances_read (kind : Kind) : Reader.Advances (read kind) := by
  intro cursor value after found
  obtain ⟨taken, reached, operands⟩ := (reads_operands kind _ _ _).mp found
  exact reached.position_lt operands.ne_nil

end Immediate

namespace Request

theorem forward (request : Request) : Reader.Forward request.reader := by
  cases request with
  | byte => exact Reader.forward_byte
  | bytes count => exact Reader.forward_bytes count
  | unsigned width => exact Leb128.forward_unsigned width
  | signed width => exact Leb128.forward_signed width
  | f32 | f64 => exact (Reader.forward_bytes _).bind fun _ => Reader.forward_pure _
  | operands kind => exact Immediate.forward_read kind

theorem whole {request : Request} (fixed : request.Fixed) : Reader.Whole request.reader := by
  cases request with
  | byte => exact Reader.whole_byte
  | bytes count => exact Reader.whole_bytes count
  | f32 | f64 => exact (Reader.whole_bytes _).map _
  | unsigned | signed | operands => exact fixed.elim

theorem advances {request : Request} (coded : ¬ request.Fixed) :
    Reader.Advances request.reader := by
  cases request with
  | byte | bytes | f32 | f64 => exact absurd trivial coded
  | unsigned width => exact Leb128.advances_read _ width
  | signed width => exact Leb128.advances_read _ width
  | operands kind => exact Immediate.advances_read kind

theorem repeats (request : Request) : Reader.Repeats request.reader := by
  cases request with
  | byte => exact Reader.reads_byte.repeats
  | bytes count => exact (Reader.reads_bytes count).repeats
  | unsigned width => exact Leb128.repeats_read _ width
  | signed width => exact Leb128.repeats_read _ width
  | f32 => exact Immediate.reads_f32.repeats
  | f64 => exact Immediate.reads_f64.repeats
  | operands kind => exact (Immediate.reads_operands kind).repeats

end Request

namespace Cursor

theorem reached_after (cursor : Cursor) (requests : List Request) :
    ∃ passed, cursor.Reached passed (cursor.after requests) := by
  induction requests generalizing cursor with
  | nil => exact ⟨[], .refl cursor⟩
  | cons request later ih =>
    obtain ⟨first, reached⟩ := request.forward cursor
    obtain ⟨rest, reached'⟩ := ih (Reader.finish (request.reader cursor))
    exact ⟨first ++ rest, reached.trans reached'⟩

/-- After any requests to a cursor, refused ones among them, it stands between the two ends of its
buffer with all of the rest ahead, and from there it only moves on. It stays in place where a number
of bytes is asked for and not all of them are there; a field or operands take a byte at least. What
is read is read wherever the same bytes lie ahead. -/
theorem after_stays_inside (buffer : List UInt8) (requests : List Request) :
    let cursor := (ofBytes buffer).after requests
    cursor.position ≤ buffer.length ∧
    (cursor.remaining : Int) = buffer.length - cursor.position ∧
    cursor.unread = buffer.drop cursor.position ∧
    (∀ later, cursor.position ≤ (cursor.after later).position) ∧
    ∀ request : Request,
      (request.Fixed → ∀ error after, request.reader cursor = .error error after →
        after = cursor) ∧
      ∀ value after, request.reader cursor = .ok value after →
        (¬ request.Fixed → cursor.position < after.position) ∧
        let count := after.position - cursor.position
        ∀ other : Cursor, cursor.unread.take count <+: other.unread →
          request.reader other = .ok value (other.advance count) := by
  intro cursor
  obtain ⟨passed, reached⟩ := (ofBytes buffer).reached_after requests
  have limit : cursor.position + cursor.remaining = buffer.length := reached.length_eq
  refine ⟨Nat.le.intro limit, by omega, reached.drop_eq.symm, ?_, ?_⟩
  · intro later
    obtain ⟨more, reached'⟩ := cursor.reached_after later
    exact reached'.position_le
  · intro request
    refine ⟨fun fixed => request.whole fixed cursor, ?_⟩
    intro value after read
    obtain ⟨taken, reached', again⟩ := request.repeats cursor value after read
    refine ⟨fun coded => request.advances coded cursor value after read, ?_⟩
    intro count other ahead
    have length : count = taken.length := by
      have moved := reached'.2
      omega
    rw [reached'.take_eq] at ahead
    rw [length]
    exact again other ahead

/-- A malformed number has been passed over and nine bytes were not there. The branch table that
lies ahead then is one at the start of another buffer as well. -/
theorem after_stays_inside_malformed :
    let table : List UInt8 := [0x01, 0x05, 0x80, 0x00]
    let cursor := (ofBytes ([0x80, 0x80, 0x80, 0x80, 0x70] ++ table)).after
      [.unsigned 32, .bytes 9]
    cursor = ⟨5, table⟩ ∧
    Immediate.read .branchTable cursor = .ok (.branchTable [5] 0) ⟨9, []⟩ ∧
    Immediate.read .branchTable (ofBytes (table ++ [0xff])) =
      .ok (.branchTable [5] 0) ⟨4, [0xff]⟩ := by
  intro table cursor
  have stands : cursor = ⟨5, table⟩ := rfl
  have read : Immediate.read .branchTable cursor = .ok (.branchTable [5] 0) ⟨9, []⟩ := rfl
  obtain ⟨-, -, -, -, each⟩ := after_stays_inside
    ([0x80, 0x80, 0x80, 0x80, 0x70] ++ table) [.unsigned 32, .bytes 9]
  obtain ⟨-, again⟩ := (each (.operands .branchTable)).2 (.branchTable [5] 0) ⟨9, []⟩ read
  exact ⟨stands, read, again (ofBytes (table ++ [0xff])) ⟨[0xff], rfl⟩⟩

end Cursor
end WasmStream
