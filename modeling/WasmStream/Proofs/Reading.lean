import WasmStream.Reader

/-! What a reader accepts, wherever it stands. A form relates bytes to the value
they spell. A reader of that form takes such bytes off any cursor, whatever
follows them, and succeeds on nothing else. -/

namespace WasmStream

abbrev Form (α : Type) := List UInt8 → α → Prop

namespace Cursor

private theorem Reached.split {before after : Cursor} {left right : List UInt8}
    (reached : before.Reached (left ++ right) after) :
    ∃ middle, before.Reached left middle ∧ middle.Reached right after := by
  obtain ⟨unread, position⟩ := reached
  refine ⟨⟨before.position + left.length, right ++ after.unread⟩, ⟨?_, rfl⟩, ⟨rfl, ?_⟩⟩
  · simpa only [List.append_assoc] using unread
  · simpa only [List.length_append, Nat.add_assoc] using position

theorem Reached.eq_advance {before after : Cursor} {consumed : List UInt8}
    (reached : before.Reached consumed after) : after = before.advance consumed.length := by
  obtain ⟨unread, position⟩ := reached
  rw [advance, unread, List.drop_left, ← position]

theorem Reached.position_le {before after : Cursor} {consumed : List UInt8}
    (reached : before.Reached consumed after) : before.position ≤ after.position := by
  rw [reached.2]
  exact Nat.le_add_right _ _

theorem Reached.position_lt {before after : Cursor} {consumed : List UInt8}
    (reached : before.Reached consumed after) (some' : consumed ≠ []) :
    before.position < after.position := by
  rw [reached.2]
  exact Nat.lt_add_of_pos_right (List.length_pos_iff.mpr some')

theorem Reached.take_eq {before after : Cursor} {consumed : List UInt8}
    (reached : before.Reached consumed after) :
    before.unread.take (after.position - before.position) = consumed := by
  rw [reached.1, reached.2, Nat.add_sub_cancel_left, List.take_left]

private theorem reached_nil_iff {before after : Cursor} :
    before.Reached [] after ↔ after = before := by
  refine ⟨?_, fun same => same ▸ .refl before⟩
  intro reached
  obtain ⟨unread, position⟩ := reached
  cases before
  cases after
  simp_all

theorem Reached.drop_eq {buffer consumed : List UInt8} {cursor : Cursor}
    (reached : (ofBytes buffer).Reached consumed cursor) :
    buffer.drop cursor.position = cursor.unread := by
  obtain ⟨unread, position⟩ := reached
  have both : buffer = consumed ++ cursor.unread := unread
  have length : cursor.position = consumed.length := by simpa [ofBytes] using position
  rw [both, length, List.drop_left]

theorem Reached.length_eq {buffer consumed : List UInt8} {cursor : Cursor}
    (reached : (ofBytes buffer).Reached consumed cursor) : cursor.limit = buffer.length := by
  rw [reached.limit_eq]
  simp [limit, ofBytes, remaining]

end Cursor

namespace Reader
variable {α β : Type}

/-- The reader succeeds exactly where bytes of the form lie ahead, with the
value they spell, and stops right behind them. -/
def Reads (reader : Reader α) (form : Form α) : Prop :=
  ∀ (cursor : Cursor) (value : α) (after : Cursor), reader cursor = .ok value after ↔
    ∃ bytes, cursor.Reached bytes after ∧ form bytes value

theorem position_bind (next : Nat → Reader β) (cursor : Cursor) :
    (position >>= next) cursor = next cursor.position cursor := rfl

def Following (first : Form α) (second : α → Form β) : Form β := fun bytes result =>
  ∃ value left right, bytes = left ++ right ∧ first left value ∧ second value right result

theorem Reads.congr {reader : Reader α} {form other : Form α} (reads : Reads reader form)
    (same : ∀ bytes value, form bytes value ↔ other bytes value) : Reads reader other := by
  intro cursor value after
  rw [reads cursor value after]
  simp only [same]

theorem Reads.ahead {reader : Reader α} {form : Form α} (reads : Reads reader form)
    {bytes : List UInt8} {value : α} (spelled : form bytes value) (start : Nat) (back : List UInt8) :
    reader ⟨start, bytes ++ back⟩ = .ok value ⟨start + bytes.length, back⟩ :=
  (reads _ _ _).mpr ⟨bytes, ⟨rfl, rfl⟩, spelled⟩

theorem Reads.whole_iff {reader : Reader α} {form : Form α} (reads : Reads reader form)
    {bytes : List UInt8} {value : α} :
    reader (Cursor.ofBytes bytes) = .ok value ⟨bytes.length, []⟩ ↔ form bytes value := by
  constructor
  · intro read
    obtain ⟨consumed, ⟨whole, -⟩, spelled⟩ := (reads _ _ _).mp read
    obtain rfl : bytes = consumed := whole.trans (List.append_nil consumed)
    exact spelled
  · intro spelled
    simpa [Cursor.ofBytes] using reads.ahead spelled 0 []

/-- No bytes of the form begin others of it. -/
theorem Reads.eq_of_prefix {reader : Reader α} {form : Form α} (reads : Reads reader form)
    {first second : List UInt8} {value value' : α} (spelled : form first value)
    (spelled' : form second value') (front : first <+: second) : first = second := by
  obtain ⟨rest, rfl⟩ := front
  have short := reads.ahead spelled 0 rest
  have long := reads.ahead spelled' 0 []
  rw [List.append_nil, short] at long
  obtain ⟨-, rfl⟩ := Cursor.mk.inj (EStateM.Result.ok.inj long).2
  exact (List.append_nil first).symm

theorem reads_pure (value : α) :
    Reads (pure value) (fun bytes result => bytes = [] ∧ result = value) := by
  intro cursor result after
  change EStateM.Result.ok value cursor = .ok result after ↔ _
  simp only [EStateM.Result.ok.injEq]
  refine ⟨?_, ?_⟩
  · intro read
    obtain ⟨rfl, rfl⟩ := read
    exact ⟨[], .refl cursor, rfl, rfl⟩
  · intro spelled
    obtain ⟨bytes, reached, rfl, rfl⟩ := spelled
    exact ⟨rfl, (Cursor.reached_nil_iff.mp reached).symm⟩

theorem reads_throw (error : DecodeError) :
    Reads (throw error : Reader α) (fun _ _ => False) := by
  intro cursor value after
  change EStateM.Result.error error cursor = .ok value after ↔ _
  simp

theorem Reads.bind {reader : Reader α} {next : α → Reader β} {first : Form α}
    {second : α → Form β} (reads : Reads reader first)
    (continues : ∀ value, Reads (next value) (second value)) :
    Reads (reader >>= next) (Following first second) := by
  intro cursor result after
  rw [bind_eq_ok]
  refine ⟨?_, ?_⟩
  · intro both
    obtain ⟨value, middle, read, rest⟩ := both
    obtain ⟨left, reached, spelled⟩ := (reads cursor value middle).mp read
    obtain ⟨right, reached', spelled'⟩ := (continues value middle result after).mp rest
    exact ⟨left ++ right, reached.trans reached', value, left, right, rfl, spelled, spelled'⟩
  · intro both
    obtain ⟨bytes, reached, value, left, right, rfl, spelled, spelled'⟩ := both
    obtain ⟨middle, reached, reached'⟩ := reached.split
    exact ⟨value, middle, (reads cursor value middle).mpr ⟨left, reached, spelled⟩,
      (continues value middle result after).mpr ⟨right, reached', spelled'⟩⟩

/-- Looking at the cursor before reading makes no difference to what is read. -/
theorem reads_after_look {look : Reader β} {next : β → Reader α} {form : Form α}
    (still : ∀ cursor, ∃ value, look cursor = .ok value cursor)
    (reads : ∀ value, Reads (next value) form) : Reads (look >>= next) form := by
  intro cursor result after
  obtain ⟨value, looked⟩ := still cursor
  rw [bind_eq_ok, ← reads value cursor result after]
  refine ⟨?_, ?_⟩
  · intro both
    obtain ⟨seen, middle, again, read⟩ := both
    rw [looked] at again
    cases again
    exact read
  · intro read
    exact ⟨value, cursor, looked, read⟩

theorem Reads.map {reader : Reader α} {form : Form α} (reads : Reads reader form) (f : α → β) :
    Reads (reader >>= fun value => pure (f value))
      (fun bytes result => ∃ value, form bytes value ∧ result = f value) := by
  apply (reads.bind fun value => reads_pure (f value)).congr
  intro bytes result
  refine ⟨?_, ?_⟩
  · intro following
    obtain ⟨value, left, right, rfl, spelled, rfl, rfl⟩ := following
    exact ⟨value, by simpa using spelled, rfl⟩
  · intro converted
    obtain ⟨value, spelled, rfl⟩ := converted
    exact ⟨value, bytes, [], by simp, spelled, rfl, rfl⟩

theorem Reads.wrap {reader : Reader α} {form : Form α} {whole : Form β} {pack : α → β}
    (reads : Reads reader form)
    (packed : ∀ {bytes value}, form bytes value → whole bytes (pack value))
    (only : ∀ {bytes result}, whole bytes result → ∃ value, form bytes value ∧ result = pack value) :
    Reads (reader >>= fun value => pure (pack value)) whole := by
  apply (reads.map pack).congr
  intro bytes result
  refine ⟨?_, only⟩
  intro converted
  obtain ⟨value, spelled, rfl⟩ := converted
  exact packed spelled

theorem reads_byte : Reads byte (fun bytes value => bytes = [value]) := by
  intro cursor value after
  refine ⟨fun read => ⟨[value], byte_reached read, rfl⟩, ?_⟩
  intro ahead
  obtain ⟨bytes, ⟨unread, position⟩, rfl⟩ := ahead
  obtain ⟨start, bytes⟩ := cursor
  cases after
  simp only [List.cons_append, List.nil_append, List.length_singleton] at unread position
  subst unread position
  rfl

theorem reads_bytes (count : Nat) :
    Reads (bytes count) (fun taken value => taken.length = count ∧ value = taken) := by
  intro cursor value after
  unfold bytes Cursor.remaining Cursor.advance
  split
  next enough =>
    simp only [EStateM.Result.ok.injEq]
    refine ⟨?_, ?_⟩
    · intro read
      obtain ⟨rfl, rfl⟩ := read
      exact ⟨cursor.unread.take count, ⟨by simp, by simp [Nat.min_eq_left enough]⟩,
        List.length_take_of_le enough, rfl⟩
    · intro ahead
      obtain ⟨taken, ⟨unread, position⟩, rfl, rfl⟩ := ahead
      cases after
      simp_all
  next short =>
    simp only [reduceCtorEq, false_iff]
    intro ahead
    obtain ⟨taken, ⟨unread, position⟩, rfl, rfl⟩ := ahead
    simp [unread] at short

end Reader
end WasmStream
