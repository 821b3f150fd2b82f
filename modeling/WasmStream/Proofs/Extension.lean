import WasmStream.Proofs.Runs

/-! More bytes behind a buffer. Whatever is read without reaching the end is read alike
if the buffer goes on, and so is every fault in it. Only where the bytes run out can
more of them make a difference. -/

namespace WasmStream

namespace Cursor

def extend (cursor : Cursor) (more : List UInt8) : Cursor :=
  ⟨cursor.position, cursor.unread ++ more⟩

theorem Reached.extend {before after : Cursor} {consumed : List UInt8}
    (reached : before.Reached consumed after) (more : List UInt8) :
    (before.extend more).Reached consumed (after.extend more) := by
  obtain ⟨unread, position⟩ := reached
  refine ⟨?_, position⟩
  simp only [Cursor.extend, unread, List.append_assoc]

end Cursor

namespace Reader
variable {α : Type}

/-- More bytes to come change nothing, unless the reader fails for want of bytes. -/
structure Stable (reader : Reader α) : Prop where
  ok : ∀ cursor value after more, reader cursor = .ok value after →
    after.limit = cursor.limit ∧
      reader (cursor.extend more) = .ok value (after.extend more)
  error : ∀ cursor error after more, reader cursor = .error error after →
    error = .unexpectedEnd cursor.limit ∨
      reader (cursor.extend more) = .error error (after.extend more)

private theorem inherited_stable : Inherited Stable where
  done := by
    intro α value
    refine ⟨?_, ?_⟩
    · intro cursor result after more read
      cases read
      exact ⟨rfl, rfl⟩
    · intro cursor error after more failed
      cases failed
  fault := by
    intro α error _
    refine ⟨?_, ?_⟩
    · intro cursor result after more read
      cases read
    · intro cursor other after more failed
      cases failed
      exact .inr rfl
  position := by
    refine ⟨?_, ?_⟩
    · intro cursor value after more read
      cases read
      exact ⟨rfl, rfl⟩
    · intro cursor error after more failed
      cases failed
  byte := by
    refine ⟨?_, ?_⟩
    · intro cursor value after more read
      have reached := byte_reached read
      exact ⟨reached.limit_eq, (reads_byte _ _ _).mpr ⟨[value], reached.extend more, rfl⟩⟩
    · intro cursor error after more failed
      simp only [byte] at failed
      split at failed
      next ended =>
        cases failed
        exact .inl (by simp [Cursor.limit, Cursor.remaining, ended])
      · cases failed
  bytes := by
    intro count
    refine ⟨?_, ?_⟩
    · intro cursor value after more read
      obtain ⟨taken, reached, spelled⟩ := (reads_bytes count _ _ _).mp read
      exact ⟨reached.limit_eq, (reads_bytes count _ _ _).mpr ⟨taken, reached.extend more, spelled⟩⟩
    · intro cursor error after more failed
      simp only [bytes] at failed
      split at failed
      · cases failed
      · cases failed
        exact .inl rfl
  bind := by
    intro α β reader next first second
    refine ⟨?_, ?_⟩
    · intro cursor result after more read
      obtain ⟨value, middle, read, rest⟩ := bind_eq_ok.mp read
      obtain ⟨limit, read'⟩ := first.ok cursor value middle more read
      obtain ⟨limit', rest'⟩ := (second value).ok middle result after more rest
      exact ⟨limit'.trans limit, bind_eq_ok.mpr ⟨value, _, read', rest'⟩⟩
    · intro cursor error after more failed
      rcases bind_eq_error.mp failed with failed | ⟨value, middle, read, failed⟩
      · rcases first.error cursor error after more failed with ended | failed'
        · exact .inl ended
        · exact .inr (bind_eq_error.mpr (.inl failed'))
      · obtain ⟨limit, read'⟩ := first.ok cursor value middle more read
        rcases (second value).error middle error after more failed with ended | failed'
        · exact .inl (limit ▸ ended)
        · exact .inr (bind_eq_error.mpr (.inr ⟨value, _, read', failed'⟩))

end Reader

namespace Decoder

def extend (decoder : Decoder) (more : List UInt8) : Decoder :=
  { decoder with cursor := decoder.cursor.extend more }

theorem Takes.extend {decoder after : Decoder} {coded : Coded} {instruction : Instruction}
    (takes : Takes decoder coded instruction after) (more : List UInt8) :
    Takes (decoder.extend more) coded instruction (after.extend more) :=
  ⟨takes.running, takes.valid, takes.reached.extend more, takes.moved, takes.registry,
    takes.recorded⟩

private theorem Fails.extend {decoder : Decoder} {error : DecodeError} {cursor : Cursor}
    (fails : Fails decoder error cursor) (more : List UInt8) :
    error = .unexpectedEnd decoder.cursor.limit ∨
      Fails (decoder.extend more) error (cursor.extend more) := by
  cases fails with
  | before failed => exact .inr (.before failed)
  | ended closed ended =>
    refine .inl ?_
    simp [Cursor.limit, Cursor.remaining, ended]
  | trailing closed left => exact .inr (.trailing closed (by simp [Decoder.extend, Cursor.extend, left]))
  | unread running unread =>
    rcases (Reader.inherited_stable.instruction _).error _ _ _ more unread with ended | unread'
    · exact .inl ended
    · exact .inr (.unread running unread')
  | refused running valid reached refuses =>
    exact .inr (.refused running valid (reached.extend more) refuses)

private theorem isFinished_extend {decoder : Decoder} (unfinished : decoder.isFinished = false)
    (more : List UInt8) : (decoder.extend more).isFinished = false := by
  have longer : decoder.cursor.isEmpty = false → (decoder.cursor.extend more).isEmpty = false := by
    intro unread
    simp_all [Cursor.isEmpty, Cursor.extend]
  unfold isFinished at unfinished ⊢
  cases phase : decoder.phase with
  | failed error => simp [phase] at unfinished
  | bodyClosed => simpa [phase, Decoder.extend] using longer (by simpa [phase] using unfinished)
  | running =>
    simp only [phase, Decoder.extend, Bool.and_eq_false_iff] at unfinished ⊢
    exact unfinished.imp_left longer

/-- The longer run goes on from where the shorter one ends, if that ends for want of bytes or
not at all; a fault elsewhere ends both. -/
structure Continues (limit : Nat) (short long : Run) : Prop where
  instructions : short.instructions <+: long.instructions
  failure : ∀ error, short.failure = some error → error = .unexpectedEnd limit ∨
    (long.instructions = short.instructions ∧ long.failure = some error)

theorem continues_run (decoder : Decoder) (more : List UInt8) :
    Continues decoder.cursor.limit decoder.run (decoder.extend more).run := by
  induction decoder using run_induction with
  | finished decoder finished =>
    rw [run_of_finished finished]
    exact ⟨List.nil_prefix, by simp⟩
  | fails decoder error cursor unfinished fails =>
    rw [run_of_fails unfinished fails]
    refine ⟨List.nil_prefix, ?_⟩
    intro reported same
    cases same
    rcases fails.extend more with ended | fails'
    · exact .inl ended
    · rw [run_of_fails (isFinished_extend unfinished more) fails']
      exact .inr ⟨rfl, rfl⟩
  | takes decoder coded instruction after takes ih =>
    rw [takes.reached.limit_eq] at ih
    rw [run_of_takes takes, run_of_takes (takes.extend more)]
    refine ⟨List.prefix_cons_inj instruction |>.mpr ih.instructions, ?_⟩
    intro error failed
    rcases ih.failure error failed with ended | ⟨same, failed'⟩
    · exact .inl ended
    · exact .inr ⟨congrArg (List.cons instruction) same, failed'⟩

/-- What is decoded of a buffer is decoded of every longer one. A fault stays the last answer,
and one that disappears was only that the bytes ran out. -/
theorem run_append (registry : Registry) (mode : Mode) (bytes more : List UInt8) :
    let short := (ofBytes registry mode bytes).run
    let long := (ofBytes registry mode (bytes ++ more)).run
    short.instructions <+: long.instructions ∧
    (∀ error, short.failure = some error → (∀ offset, error ≠ .unexpectedEnd offset) →
      long.instructions = short.instructions ∧ long.failure = some error) ∧
    (long.failure = none →
      short.failure = none ∨ short.failure = some (.unexpectedEnd bytes.length)) := by
  intro short long
  have limit : (ofBytes registry mode bytes).cursor.limit = bytes.length := Nat.zero_add _
  have continues : Continues bytes.length short long :=
    limit ▸ continues_run (ofBytes registry mode bytes) more
  refine ⟨continues.instructions, ?_, ?_⟩
  · intro error failed other
    rcases continues.failure error failed with ended | same
    · exact absurd ended (other _)
    · exact same
  · intro clean
    cases failed : short.failure with
    | none => exact .inl rfl
    | some error =>
      rcases continues.failure error failed with ended | ⟨-, failed'⟩
      · exact .inr (congrArg some ended)
      · cases clean.symm.trans failed'

end Decoder
end WasmStream
