import Mathlib.Data.List.Forall2
import WasmStream.Proofs.Moves

/-! Nestings that no instruction tells apart. Where a block was opened makes no difference to what
may stand in it, and of its kind it counts only whether it can have a second arm. -/

namespace WasmStream

/-- The two frames take the same instructions. -/
structure Frame.Alike (frame other : Frame) : Prop where
  conditional : frame.kind = .ifBlock ↔ other.kind = .ifBlock
  arm : frame.inElse = other.inElse

theorem Frame.Alike.exists_ifBlock {start : Nat} {inElse : Bool} {other : Frame}
    (alike : Frame.Alike ⟨start, .ifBlock, inElse⟩ other) :
    ∃ start', other = ⟨start', .ifBlock, inElse⟩ := by
  obtain ⟨start', kind', inElse'⟩ := other
  obtain ⟨conditional, arm⟩ := alike
  obtain rfl : kind' = .ifBlock := conditional.mp rfl
  obtain rfl : inElse = inElse' := arm
  exact ⟨start', rfl⟩

namespace Nesting

structure Alike (nesting other : Nesting) : Prop where
  stack : List.Forall₂ Frame.Alike nesting.stack other.stack
  saved : nesting.saved = other.saved
  unreachable : nesting.unreachable = other.unreachable

variable {descriptor : Descriptor} {offset offset' : Nat} {nesting other after : Nesting}
  {event : Event} {fault : NestingFault}

theorem Alike.refl (nesting : Nesting) : nesting.Alike nesting :=
  ⟨List.forall₂_same.mpr fun _ _ => ⟨Iff.rfl, rfl⟩, rfl, rfl⟩

theorem Alike.depth_eq (alike : nesting.Alike other) : nesting.depth = other.depth :=
  alike.stack.length_eq

theorem Alike.levels_eq_nil_iff (alike : nesting.Alike other) :
    nesting.levels = [] ↔ other.levels = [] := by
  rw [Nesting.levels_eq_nil_iff, Nesting.levels_eq_nil_iff, ← List.length_eq_zero_iff,
    alike.stack.length_eq, List.length_eq_zero_iff]

/-- What one instruction does, it does alike to blocks that are alike. -/
theorem Alike.moves (alike : nesting.Alike other)
    (moves : Moves descriptor offset nesting event after) :
    ∃ event' after', Moves descriptor offset' other event' after' ∧ after.Alike after' := by
  obtain ⟨stack', saved', unreachable'⟩ := other
  obtain ⟨stack, same, same'⟩ := alike
  simp only at stack same same'
  subst same same'
  cases moves with
  | stay stays => exact ⟨_, _, .stay stays, stack, rfl, rfl⟩
  | enter opens => exact ⟨_, _, .enter opens, .cons ⟨Iff.rfl, rfl⟩ stack, rfl, rfl⟩
  | switch switches =>
    cases stack with
    | cons frame outer =>
      obtain ⟨start', rfl⟩ := frame.exists_ifBlock
      exact ⟨_, _, .switch switches, .cons ⟨Iff.rfl, rfl⟩ outer, rfl, rfl⟩
  | leave closes =>
    cases stack with
    | cons frame outer => exact ⟨_, _, .leave closes, outer, rfl, rfl⟩

theorem Alike.refuses (alike : nesting.Alike other) (refuses : Refuses descriptor nesting fault) :
    Refuses descriptor other fault := by
  obtain ⟨stack', saved', unreachable'⟩ := other
  obtain ⟨stack, -, -⟩ := alike
  simp only at stack
  cases refuses with
  | noBlock switches =>
    cases stack
    exact .noBlock switches
  | nothingOpen closes =>
    cases stack
    exact .nothingOpen closes
  | otherBlock switches different =>
    cases stack with
    | cons frame outer => exact .otherBlock switches (frame.conditional.not.mp different)
  | secondElse switches =>
    cases stack with
    | cons frame outer =>
      obtain ⟨start', rfl⟩ := frame.exists_ifBlock
      exact .secondElse switches

end Nesting
end WasmStream
