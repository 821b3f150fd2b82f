import WasmStream.Proofs.Brackets
import WasmStream.Proofs.OpenFrames

/-! Updates by any instructions in any order, which go on after some of them have failed. A failure
changes nothing, so whatever each move keeps holds after all of them. -/

namespace WasmStream.Nesting
variable {descriptor : Descriptor} {offset : Nat} {nesting after : Nesting} {event : Event}

/-- The open blocks after an update, whatever its answer. -/
def attempt (nesting : Nesting) (call : Placed) : Nesting :=
  match update call.descriptor call.offset nesting with
  | .ok _ after => after
  | .error _ after => after

def attempts (nesting : Nesting) (calls : List Placed) : Nesting := calls.foldl attempt nesting

theorem attempt_cases (nesting : Nesting) (call : Placed) :
    (∃ event, Moves call.descriptor call.offset nesting event (nesting.attempt call)) ∨
      nesting.attempt call = nesting := by
  unfold attempt
  cases updated : update call.descriptor call.offset nesting with
  | ok event after => exact .inl ⟨event, moves_of_update updated⟩
  | error error after => exact .inr (eq_of_update_error updated)

/-- What every move keeps is kept by updates of which any may have failed. -/
theorem attempts_keep {Kept : Nesting → Prop}
    (kept : ∀ {descriptor offset nesting event after}, Kept nesting →
      Moves descriptor offset nesting event after → Kept after)
    (start : Kept nesting) (calls : List Placed) : Kept (nesting.attempts calls) := by
  induction calls generalizing nesting with
  | nil => exact start
  | cons call calls ih =>
    apply ih
    rcases nesting.attempt_cases call with ⟨event, moves⟩ | same
    · exact kept start moves
    · exact same.symm ▸ start

private theorem paired_start (mode : Decoder.Mode) : mode.nesting.Paired := by
  cases mode <;> rfl

private theorem Moves.depth_near (moves : Moves descriptor offset nesting event after) :
    after.depth ≤ nesting.depth + 1 ∧ nesting.depth ≤ after.depth + 1 := by
  by_cases opens : descriptor.Opens
  · have deeper := moves.depth_of_opens opens
    omega
  · by_cases closes : descriptor.Closes
    · have shallower := moves.depth_of_closes closes
      omega
    · have same := moves.depth_of_other opens closes
      omega

private theorem Moves.tail_suffix (moves : Moves descriptor offset nesting event after) :
    nesting.stack.tail <:+ after.stack := by
  cases moves with
  | stay => exact List.tail_suffix _
  | enter => exact (List.tail_suffix _).trans (List.suffix_cons _ _)
  | switch => exact List.suffix_cons _ _
  | leave => exact List.suffix_refl _

/-- Below the innermost frame an update changes nothing. -/
theorem frames_attempt (nesting : Nesting) (call : Placed) :
    nesting.frames.dropLast <+: (nesting.attempt call).frames := by
  rw [frames, List.dropLast_reverse, frames, List.reverse_prefix]
  rcases nesting.attempt_cases call with ⟨event, moves⟩ | same
  · exact moves.tail_suffix
  · rw [same]
    exact List.tail_suffix _

theorem depth_attempt (nesting : Nesting) (call : Placed) :
    (nesting.attempt call).depth ≤ nesting.depth + 1 ∧
      nesting.depth ≤ (nesting.attempt call).depth + 1 := by
  rcases nesting.attempt_cases call with ⟨event, moves⟩ | same
  · exact moves.depth_near
  · rw [same]
    omega

private theorem Moves.saved_of_left {frame : Frame} (paired : nesting.Paired)
    (moves : Moves descriptor offset nesting (.left frame) after) :
    ∃ flag, nesting.saved = flag :: after.saved ∧
      after.unreachable = (flag || descriptor.flags.noFallthrough) := by
  cases moves with
  | @leave frame outer saved unreachable closes =>
    cases saved with
    | nil => cases paired
    | cons flag saved => exact ⟨flag, rfl, rfl⟩

theorem refuses_iff {fault : NestingFault} : Refuses descriptor nesting fault ↔
    (fault = .unmatchedEnd ∧ descriptor.Closes ∧ nesting.top? = none) ∨
    (fault = .elseWithoutIf ∧ descriptor.Switches ∧
      ∀ frame, nesting.top? = some frame → frame.kind ≠ .ifBlock) ∨
    (fault = .duplicateElse ∧ descriptor.Switches ∧
      ∃ frame, nesting.top? = some frame ∧ frame.kind = .ifBlock ∧ frame.inElse = true) := by
  obtain ⟨stack, saved, unreachable⟩ := nesting
  constructor
  · intro refuses
    cases refuses with
    | noBlock switches => simp [switches, top?]
    | otherBlock switches other => simp [switches, top?, other]
    | secondElse switches => simp [switches, top?]
    | nothingOpen closes => simp [closes, top?]
  · rintro (⟨rfl, closes, none⟩ | ⟨rfl, switches, other⟩ |
      ⟨rfl, switches, frame, top, kind, second⟩)
    · obtain rfl : stack = [] := by simpa [top?] using none
      exact .nothingOpen closes
    · cases stack with
      | nil => exact .noBlock switches
      | cons frame outer => exact .otherBlock switches (other frame rfl)
    · obtain ⟨outer, rfl⟩ : ∃ outer, stack = frame :: outer := by
        simpa [top?, List.head?_eq_some_iff] using top
      obtain ⟨start, kind', inElse⟩ := frame
      obtain rfl : kind' = .ifBlock := kind
      obtain rfl : inElse = true := second
      exact .secondElse switches

/-- After any updates from a fresh start, failed ones among them, each open frame has its flag, so
that none is missing where a block ends, and only an `if` stands in a second arm. The next update
moves the depth by one at most and no frame below the innermost one. It fails for three reasons
only, at its own offset, and then everything is as before. -/
theorem attempts_keep_stacks (mode : Decoder.Mode) (calls : List Placed) :
    let nesting := mode.nesting.attempts calls
    nesting.saved.length = nesting.frames.length ∧
    (∀ frame ∈ nesting.frames, frame.inElse = true → frame.kind = .ifBlock) ∧
    ∀ next : Placed,
      (nesting.attempt next).depth ≤ nesting.depth + 1 ∧
      nesting.depth ≤ (nesting.attempt next).depth + 1 ∧
      nesting.frames.dropLast <+: (nesting.attempt next).frames ∧
      (∀ frame after, update next.descriptor next.offset nesting = .ok (.left frame) after →
        ∃ flag, nesting.saved = flag :: after.saved ∧
          after.unreachable = (flag || next.descriptor.flags.noFallthrough)) ∧
      ∀ error after, update next.descriptor next.offset nesting = .error error after ↔
        after = nesting ∧ ∃ fault, error = .malformedNesting next.offset fault ∧
          ((fault = .unmatchedEnd ∧ next.descriptor.Closes ∧ nesting.top? = none) ∨
          (fault = .elseWithoutIf ∧ next.descriptor.Switches ∧
            ∀ frame, nesting.top? = some frame → frame.kind ≠ .ifBlock) ∨
          (fault = .duplicateElse ∧ next.descriptor.Switches ∧
            ∃ frame, nesting.top? = some frame ∧ frame.kind = .ifBlock ∧ frame.inElse = true)) := by
  intro nesting
  have paired : nesting.Paired := attempts_keep Paired.moves (paired_start mode) calls
  have arms : nesting.ArmsOfIf := attempts_keep ArmsOfIf.moves (Decoder.armsOfIf_start mode) calls
  refine ⟨by rw [paired, frames, List.length_reverse], arms, ?_⟩
  intro next
  obtain ⟨deeper, shallower⟩ := nesting.depth_attempt next
  refine ⟨deeper, shallower, nesting.frames_attempt next, ?_, ?_⟩
  · intro frame after updated
    exact (moves_of_update updated).saved_of_left paired
  · intro error after
    simp only [update_eq_error_iff, refuses_iff]

/-- A second `else` is refused, as was an `end` before the `if`, and neither leaves a trace. -/
theorem attempts_keep_stacks_duplicate :
    let descriptor := Opcode.descriptor
    let nesting := Decoder.Mode.bare.nesting.attempts
      [⟨0, descriptor .endBlock⟩, ⟨1, descriptor .ifBlock⟩, ⟨3, descriptor .elseArm⟩]
    nesting.top? = some ⟨1, .ifBlock, true⟩ ∧
    update (descriptor .elseArm) 4 nesting = .error (.malformedNesting 4 .duplicateElse) nesting := by
  intro descriptor nesting
  have top : nesting.top? = some ⟨1, .ifBlock, true⟩ := by decide
  obtain ⟨-, -, next⟩ := attempts_keep_stacks .bare
    [⟨0, descriptor .endBlock⟩, ⟨1, descriptor .ifBlock⟩, ⟨3, descriptor .elseArm⟩]
  obtain ⟨-, -, -, -, fails⟩ := next ⟨4, descriptor .elseArm⟩
  exact ⟨top, (fails _ _).mpr ⟨rfl, _, rfl, .inr (.inr ⟨rfl, ⟨rfl, rfl⟩, _, top, rfl, rfl⟩)⟩⟩

end WasmStream.Nesting
