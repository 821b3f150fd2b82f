import WasmStream.Proofs.Calls
import WasmStream.Proofs.Causes

/-! The error that stops a decoder, read as a statement about the buffer. Whatever went before, the
first error names a cause that is there, at the place where it is. -/

namespace WasmStream.Decoder
open Nesting (Refuses)

/-- What an error says of the buffer, and of the decoder that the failed step started from. -/
def Explains (buffer : List UInt8) (decoder : Decoder) : DecodeError → Prop
  | .unexpectedEnd offset => offset = buffer.length
  | .unknownOpcode byte offset =>
    offset = decoder.cursor.position ∧ buffer[offset]? = some byte ∧
      ∀ descriptor ∈ decoder.registry.descriptors, descriptor.opcode ≠ byte
  | .invalidBlockType byte offset =>
    offset = decoder.cursor.position + 1 ∧ buffer[offset]? = some byte ∧ byte.toNat < 128 ∧
      byte ∉ [0x40, 0x7c, 0x7d, 0x7e, 0x7f] ∧
      ∃ descriptor ∈ decoder.registry.descriptors, descriptor.immediate = some .blockType ∧
        buffer[decoder.cursor.position]? = some descriptor.opcode
  | .malformedVarint offset width fault =>
    decoder.cursor.position < offset ∧ offset < buffer.length ∧
      ∃ descriptor ∈ decoder.registry.descriptors, ∃ kind read numeral,
        descriptor.immediate = some kind ∧ kind.Expects read numeral ∧ numeral.width = width ∧
        buffer.drop decoder.cursor.position = descriptor.opcode :: (read ++ buffer.drop offset) ∧
        numeral.Malformed fault (buffer.drop offset)
  | .malformedNesting offset fault =>
    offset = decoder.cursor.position ∧
      (fault = .trailingBytes ∧ decoder.phase = .bodyClosed ∧ offset < buffer.length ∨
        ∃ (coded : Coded) (rest : List UInt8), buffer.drop offset = coded.bytes ++ rest ∧
          coded.Valid decoder.registry ∧ Refuses coded.descriptor decoder.nesting fault)

/-- The error lies in the buffer, not before the step, and what it says is so. -/
structure Truthful (buffer : List UInt8) (decoder : Decoder) (error : DecodeError) : Prop where
  start_le : decoder.cursor.position ≤ error.offset
  le_length : error.offset ≤ buffer.length
  explains : Explains buffer decoder error

variable {buffer : List UInt8} {decoder : Decoder} {error : DecodeError}

theorem CodingFault.explains {read rest : List UInt8}
    (fault : CodingFault decoder.registry read rest error)
    (ahead : buffer.drop decoder.cursor.position = read ++ rest)
    (offset : error.offset = decoder.cursor.position + read.length) :
    Explains buffer decoder error := by
  have there : buffer.drop error.offset = rest := by
    rw [offset, ← List.drop_drop, ahead, List.drop_left]
  have first := congrArg List.head? there
  rw [List.head?_drop] at first
  cases fault with
  | opcode unknown => exact ⟨offset, first, unknown⟩
  | @operands descriptor kind read rest error known asks fault =>
    have here := congrArg List.head? ahead
    rw [List.head?_drop] at here
    cases fault with
    | @numeral _ _ start _ numeral expects malformed =>
      have start' : start = decoder.cursor.position + (read.length + 1) := offset
      have there' : buffer.drop start = rest := there
      have inside : start < buffer.length := by
        rw [← List.drop_eq_nil_iff.not.trans Nat.not_le, there']
        exact malformed.ne_nil expects.wide
      refine ⟨by omega, inside, descriptor, known, kind, read, numeral, asks, expects, rfl, ?_, ?_⟩
      · rw [ahead, there']
        rfl
      · rwa [there']
    | signature blockType stops strange =>
      subst blockType
      refine ⟨offset, first, stops, ?_, descriptor, known, asks, here⟩
      intro listed
      simp only [List.mem_cons, List.not_mem_nil, or_false] at listed
      rcases listed with rfl | rfl | rfl | rfl | rfl
      · exact strange _ .empty
      · exact strange _ .f64
      · exact strange _ .f32
      · exact strange _ .i64
      · exact strange _ .i32

theorem Fails.truthful {consumed : List UInt8} {cursor : Cursor}
    (fails : Fails decoder error cursor) (fresh : ∀ earlier, decoder.phase ≠ .failed earlier)
    (reached : (Cursor.ofBytes buffer).Reached consumed decoder.cursor) :
    Truthful buffer decoder error := by
  have ahead := reached.drop_eq
  have limit := reached.length_eq
  have inside : decoder.cursor.position ≤ buffer.length := limit ▸ Nat.le_add_right _ _
  cases fails with
  | before failed => exact absurd failed (fresh error)
  | ended closed ended =>
    have last : decoder.cursor.position = buffer.length := by
      simpa [Cursor.limit, Cursor.remaining, ended] using limit
    exact ⟨Nat.le_refl _, inside, last⟩
  | trailing closed more =>
    have before : decoder.cursor.position < buffer.length := by
      rwa [← List.drop_eq_nil_iff.not.trans Nat.not_le, ahead]
    exact ⟨Nat.le_refl _, inside, rfl, .inl ⟨rfl, closed, before⟩⟩
  | unread running unread =>
    rcases failsBy_instruction decoder.registry decoder.cursor error cursor unread with
      rfl | ⟨read, rest, both, offset, fault⟩
    · exact ⟨limit ▸ inside, limit.le, limit⟩
    · refine ⟨?_, ?_, fault.explains (ahead.trans both) offset⟩
      · rw [offset]
        exact Nat.le_add_right _ _
      · rw [offset, ← limit, Cursor.limit, Cursor.remaining, both, List.length_append]
        omega
  | @refused coded _ _ running valid read refuses =>
    exact ⟨Nat.le_refl _, inside, rfl, .inr ⟨coded, _, ahead.trans read.1, valid, refuses⟩⟩

/-- However a decoder has been asked so far, the first of its calls to fail names the true cause,
at the place of it. -/
theorem first_failure_truthful (registry : Registry) (mode : Mode) (bytes : List UInt8)
    (calls : List Call) (kind : Call) (error : DecodeError) :
    let decoder := (ofBytes registry mode bytes).after calls
    (∀ earlier, decoder.phase ≠ .failed earlier) → (decoder.call kind).1 = .failure error →
      decoder.registry = registry ∧ Truthful bytes decoder error := by
  intro decoder fresh failed
  obtain ⟨consumed, reached, same⟩ := (trail_of_calls fresh).reached
  refine ⟨same, ?_⟩
  cases answers decoder kind with
  | fails fails answered =>
    rw [answered] at failed
    cases failed
    exact fails.truthful fresh reached
  | takes _ answered =>
    rw [answered] at failed
    cases failed
  | finished _ _ answered =>
    rw [answered] at failed
    cases failed

/-- A branch table whose second label is out of range, behind an instruction that was taken. -/
theorem first_failure_truthful_label :
    let bytes : List UInt8 := [0x01, 0x0e, 0x02, 0x00, 0x80, 0x80, 0x80, 0x80, 0x10]
    let decoder := (ofBytes .standard .functionBody bytes).after [.next]
    (∀ earlier, decoder.phase ≠ .failed earlier) ∧
    (decoder.call .step).1 = .failure (.malformedVarint 4 32 .overflow) ∧
    Truthful bytes decoder (.malformedVarint 4 32 .overflow) := by
  intro bytes decoder
  have running : decoder.phase = .running := by decide +kernel
  have fresh : ∀ earlier, decoder.phase ≠ .failed earlier := by simp [running]
  have failed : (decoder.call .step).1 = .failure (.malformedVarint 4 32 .overflow) := by
    decide +kernel
  have both := first_failure_truthful .standard .functionBody bytes [.next] .step
    (.malformedVarint 4 32 .overflow) fresh failed
  exact ⟨fresh, failed, both.2⟩

end WasmStream.Decoder
