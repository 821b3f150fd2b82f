import WasmStream.Proofs.Coding
import WasmStream.Proofs.Faults
import WasmStream.Proofs.Moves

/-! The steps of a decoder. A step that succeeds takes the bytes of one instruction
off the stream and makes one move of the nesting. A step that fails has one of
five causes, and leaves everything but the cursor and the phase as it was. -/

namespace WasmStream

/-- The bytes of one instruction together with what they spell. -/
structure Coded where
  bytes : List UInt8
  descriptor : Descriptor
  immediate : Option Immediate

namespace Coded

def Valid (registry : Registry) (coded : Coded) : Prop :=
  coded.descriptor ∈ registry.descriptors ∧ Spelled coded.descriptor coded.bytes coded.immediate

theorem Valid.ne_nil {registry : Registry} {coded : Coded} (valid : coded.Valid registry) :
    coded.bytes ≠ [] := valid.2.ne_nil

end Coded

def Nesting.record (nesting : Nesting) (offset : Nat) (coded : Coded) : Instruction where
  offset := offset
  descriptor := coded.descriptor
  immediate := coded.immediate
  depth := if coded.descriptor.flags.leavesBlock then nesting.depth - 1 else nesting.depth
  reachable := !nesting.unreachable

namespace Decoder
open Nesting (Moves Refuses update_eq_ok_iff update_eq_error_iff)

/-- An instruction taken off the stream and fitted into the open blocks. -/
structure Takes (decoder : Decoder) (coded : Coded) (instruction : Instruction)
    (after : Decoder) : Prop where
  running : decoder.phase = .running
  valid : coded.Valid decoder.registry
  reached : decoder.cursor.Reached coded.bytes after.cursor
  moved : ∃ event, Moves coded.descriptor decoder.cursor.position decoder.nesting event after.nesting ∧
    after.phase = decoder.phase.after event
  registry : after.registry = decoder.registry
  recorded : instruction = decoder.nesting.record decoder.cursor.position coded

theorem reads_coded {registry : Registry} {cursor after : Cursor} {descriptor : Descriptor}
    {immediate : Option Immediate} :
    readInstruction registry cursor = .ok (descriptor, immediate) after ↔
      ∃ bytes, cursor.Reached bytes after ∧ Coded.Valid registry ⟨bytes, descriptor, immediate⟩ :=
  reads_instruction registry cursor (descriptor, immediate) after

theorem readInstruction_at_end {registry : Registry} {cursor : Cursor} (ended : cursor.unread = []) :
    readInstruction registry cursor = .error (.unexpectedEnd cursor.position) cursor := by
  have byte : Reader.byte cursor = .error (.unexpectedEnd cursor.position) cursor := by
    simp [Reader.byte, ended]
  exact Reader.bind_eq_error.mpr (.inl (Reader.bind_eq_error.mpr
    (.inr ⟨cursor.position, cursor, rfl, Reader.bind_eq_error.mpr (.inl byte)⟩)))

theorem decode_closed {decoder : Decoder} (closed : decoder.phase = .bodyClosed) :
    decode decoder = .error (if decoder.cursor.unread = [] then
      .unexpectedEnd decoder.cursor.position
      else .malformedNesting decoder.cursor.position .trailingBytes) decoder := by
  obtain ⟨registry, cursor, nesting, phase⟩ := decoder
  simp only at closed
  subst closed
  by_cases ended : cursor.unread = []
  · simp [decode, Cursor.isEmpty, ended, readInstruction_at_end]
  · simp [decode, Cursor.isEmpty, ended]

theorem decode_running {decoder : Decoder} (running : decoder.phase = .running) :
    decode decoder = match readInstruction decoder.registry decoder.cursor with
      | .ok (descriptor, immediate) cursor =>
        { decoder with cursor }.place decoder.cursor.position descriptor immediate
      | .error error cursor => .error error { decoder with cursor } := by
  unfold decode
  have going : ¬ (decoder.phase = .bodyClosed ∧ (!decoder.cursor.isEmpty) = true) := by
    simp [running]
  exact if_neg going

theorem step_of_phase {decoder : Decoder} (going : ∀ error, decoder.phase ≠ .failed error) :
    step decoder = match decode decoder with
      | .ok instruction after => .ok instruction after
      | .error error after => .error error { after with phase := .failed error } := by
  unfold step
  split
  next error failed => exact absurd failed (going error)
  · rfl

theorem exists_takes {decoder : Decoder} {coded : Coded} {rest : List UInt8}
    {event : Nesting.Event} {after : Nesting} (running : decoder.phase = .running)
    (valid : coded.Valid decoder.registry) (unread : decoder.cursor.unread = coded.bytes ++ rest)
    (moved : Moves coded.descriptor decoder.cursor.position decoder.nesting event after) :
    ∃ next, Takes decoder coded (decoder.nesting.record decoder.cursor.position coded) next ∧
      next.cursor = ⟨decoder.cursor.position + coded.bytes.length, rest⟩ ∧
      next.nesting = after ∧ next.phase = decoder.phase.after event :=
  ⟨⟨decoder.registry, ⟨decoder.cursor.position + coded.bytes.length, rest⟩, after,
      decoder.phase.after event⟩,
    ⟨running, valid, ⟨unread, rfl⟩, ⟨event, moved, rfl⟩, rfl, rfl⟩, rfl, rfl, rfl⟩

theorem Takes.step {decoder after : Decoder} {coded : Coded} {instruction : Instruction}
    (takes : Takes decoder coded instruction after) :
    step decoder = .ok instruction after := by
  obtain ⟨running, valid, reached, ⟨event, moved, phase⟩, registry, recorded⟩ := takes
  have read := reads_coded.mpr ⟨coded.bytes, reached, valid⟩
  have updated := update_eq_ok_iff.mpr moved
  rw [step_of_phase (by simp [running]), decode_running running, read]
  simp only [place, updated]
  cases after
  simp_all [Nesting.record]

private theorem takes_of_step {decoder after : Decoder} {instruction : Instruction}
    (stepped : step decoder = .ok instruction after) :
    ∃ coded, Takes decoder coded instruction after := by
  cases phase : decoder.phase with
  | failed error =>
    rw [Decoder.step, phase] at stepped
    cases stepped
  | bodyClosed =>
    rw [step_of_phase (by simp [phase]), decode_closed phase] at stepped
    cases stepped
  | running =>
    rw [step_of_phase (by simp [phase]), decode_running phase] at stepped
    cases read : readInstruction decoder.registry decoder.cursor with
    | error error cursor =>
      rw [read] at stepped
      cases stepped
    | ok value cursor =>
      obtain ⟨descriptor, immediate⟩ := value
      obtain ⟨bytes, reached, valid⟩ := reads_coded.mp read
      simp only [read, place] at stepped
      cases updated : Nesting.update descriptor decoder.cursor.position decoder.nesting with
      | error error nesting =>
        rw [updated] at stepped
        cases stepped
      | ok event nesting =>
        rw [updated] at stepped
        cases stepped
        exact ⟨⟨bytes, descriptor, immediate⟩, phase, valid, reached,
          ⟨event, update_eq_ok_iff.mp updated, rfl⟩, rfl, rfl⟩

theorem step_eq_ok_iff {decoder after : Decoder} {instruction : Instruction} :
    step decoder = .ok instruction after ↔ ∃ coded, Takes decoder coded instruction after :=
  ⟨takes_of_step, fun ⟨_, takes⟩ => takes.step⟩

/-- The causes for which a step fails, with the cursor it leaves behind. -/
inductive Fails (decoder : Decoder) : DecodeError → Cursor → Prop where
  | before {error} (failed : decoder.phase = .failed error) : Fails decoder error decoder.cursor
  | ended (closed : decoder.phase = .bodyClosed) (ended : decoder.cursor.unread = []) :
      Fails decoder (.unexpectedEnd decoder.cursor.position) decoder.cursor
  | trailing (closed : decoder.phase = .bodyClosed) (more : decoder.cursor.unread ≠ []) :
      Fails decoder (.malformedNesting decoder.cursor.position .trailingBytes) decoder.cursor
  | unread {error cursor} (running : decoder.phase = .running)
      (unread : readInstruction decoder.registry decoder.cursor = .error error cursor) :
      Fails decoder error cursor
  | refused {coded : Coded} {cursor fault} (running : decoder.phase = .running)
      (valid : coded.Valid decoder.registry) (reached : decoder.cursor.Reached coded.bytes cursor)
      (refuses : Refuses coded.descriptor decoder.nesting fault) :
      Fails decoder (.malformedNesting decoder.cursor.position fault) cursor

theorem Fails.step {decoder : Decoder} {error : DecodeError} {cursor : Cursor}
    (fails : Fails decoder error cursor) :
    step decoder = .error error { decoder with cursor, phase := .failed error } := by
  cases fails with
  | before failed =>
    rw [Decoder.step, failed]
    cases decoder
    simp_all
  | ended closed ended =>
    rw [step_of_phase (by simp [closed]), decode_closed closed]
    simp [ended]
  | trailing closed more =>
    rw [step_of_phase (by simp [closed]), decode_closed closed]
    simp [more]
  | unread running unread => rw [step_of_phase (by simp [running]), decode_running running, unread]
  | refused running valid reached refuses =>
    have read := reads_coded.mpr ⟨_, reached, valid⟩
    rw [step_of_phase (by simp [running]), decode_running running, read]
    simp only [place, refuses.update]

private theorem exists_fails {decoder after : Decoder} {error : DecodeError}
    (failed : step decoder = .error error after) : ∃ cursor, Fails decoder error cursor := by
  cases phase : decoder.phase with
  | failed earlier =>
    have fails : Fails decoder earlier decoder.cursor := .before phase
    rw [fails.step] at failed
    cases failed
    exact ⟨_, fails⟩
  | bodyClosed =>
    rw [step_of_phase (by simp [phase]), decode_closed phase] at failed
    by_cases ended : decoder.cursor.unread = []
    · simp only [if_pos ended] at failed
      cases failed
      exact ⟨_, .ended phase ended⟩
    · simp only [if_neg ended] at failed
      cases failed
      exact ⟨_, .trailing phase ended⟩
  | running =>
    rw [step_of_phase (by simp [phase]), decode_running phase] at failed
    cases read : readInstruction decoder.registry decoder.cursor with
    | error error cursor =>
      rw [read] at failed
      cases failed
      exact ⟨cursor, .unread phase read⟩
    | ok value cursor =>
      obtain ⟨descriptor, immediate⟩ := value
      obtain ⟨bytes, reached, valid⟩ := reads_coded.mp read
      simp only [read, place] at failed
      cases updated : Nesting.update descriptor decoder.cursor.position decoder.nesting with
      | ok event nesting =>
        rw [updated] at failed
        cases failed
      | error error nesting =>
        rw [updated] at failed
        cases failed
        obtain ⟨-, fault, reported, refuses⟩ := update_eq_error_iff.mp updated
        subst reported
        exact ⟨cursor, .refused phase valid reached refuses⟩

theorem step_eq_error_iff {decoder after : Decoder} {error : DecodeError} :
    step decoder = .error error after ↔ ∃ cursor, Fails decoder error cursor ∧
      after = { decoder with cursor, phase := .failed error } := by
  constructor
  · intro failed
    obtain ⟨cursor, fails⟩ := exists_fails failed
    rw [fails.step] at failed
    cases failed
    exact ⟨cursor, fails, rfl⟩
  · intro ⟨cursor, fails, same⟩
    rw [same, fails.step]

theorem Fails.closed {decoder : Decoder} {offset : Nat} {cursor : Cursor}
    (fails : Fails decoder (.malformedNesting offset .trailingBytes) cursor)
    (fresh : ∀ error, decoder.phase ≠ .failed error) :
    decoder.phase = .bodyClosed ∧ decoder.cursor.unread ≠ [] := by
  cases fails with
  | before failed => exact absurd failed (fresh _)
  | trailing closed more => exact ⟨closed, more⟩
  | unread running unread => exact (local_readInstruction _ _ _ _ unread).elim
  | refused running valid reached refuses => exact absurd rfl refuses.ne_trailingBytes

/-- A decoder that has not failed is finished only behind the last byte, and then
either its body is closed or no block is open. -/
theorem isFinished_iff {decoder : Decoder} (fresh : ∀ error, decoder.phase ≠ .failed error) :
    decoder.isFinished = true ↔ decoder.cursor.unread = [] ∧
      (decoder.phase = .bodyClosed ∨ decoder.nesting.levels = []) := by
  unfold isFinished
  cases phase : decoder.phase with
  | failed error => exact absurd phase (fresh error)
  | bodyClosed => simp [Cursor.isEmpty]
  | running => simp [Cursor.isEmpty, Nesting.isEmpty_iff]

theorem unfinished_of_unread {decoder : Decoder} (fresh : ∀ error, decoder.phase ≠ .failed error)
    (more : decoder.cursor.unread ≠ []) : decoder.isFinished = false :=
  Bool.eq_false_iff.mpr fun finished => more ((isFinished_iff fresh).mp finished).1

theorem unfinished_of_opened {decoder : Decoder} (running : decoder.phase = .running)
    (opened : decoder.nesting.levels ≠ []) : decoder.isFinished = false := by
  apply Bool.eq_false_iff.mpr
  intro finished
  obtain ⟨-, closed⟩ := (isFinished_iff (by simp [running])).mp finished
  exact opened (closed.resolve_left (by simp [running]))

theorem Takes.unfinished {decoder after : Decoder} {coded : Coded} {instruction : Instruction}
    (takes : Takes decoder coded instruction after) : decoder.isFinished = false := by
  apply unfinished_of_unread (by simp [takes.running])
  rw [takes.reached.1]
  exact List.append_ne_nil_of_left_ne_nil takes.valid.ne_nil _

end Decoder
end WasmStream
