import WasmStream.Proofs.Matching
import WasmStream.Proofs.Trails

/-! Which frames are open at a point of a run, and how deep its instructions lie. Both are read off
the instructions that the run has yielded, as brackets. -/

namespace WasmStream

namespace Nesting
variable {descriptor : Descriptor} {offset : Nat} {nesting after : Nesting} {event : Event}

theorem Moves.depth_of_opens (moves : Moves descriptor offset nesting event after)
    (opens : descriptor.Opens) : after.depth = nesting.depth + 1 := by
  cases moves with
  | enter => rfl
  | stay stays => cases stays.1.symm.trans opens.1
  | switch switches => cases opens.2.symm.trans switches.2
  | leave closes => cases opens.2.symm.trans closes.2

theorem Moves.depth_of_closes (moves : Moves descriptor offset nesting event after)
    (closes : descriptor.Closes) : after.depth + 1 = nesting.depth := by
  cases moves with
  | leave => rfl
  | stay stays => cases stays.2.symm.trans closes.2
  | enter opens => cases opens.2.symm.trans closes.2
  | switch switches => cases closes.1.symm.trans switches.1

theorem Moves.depth_of_other (moves : Moves descriptor offset nesting event after)
    (opens : ¬ descriptor.Opens) (closes : ¬ descriptor.Closes) : after.depth = nesting.depth := by
  cases moves with
  | stay => rfl
  | switch => rfl
  | enter opens' => exact absurd opens' opens
  | leave closes' => exact absurd closes' closes

theorem Moves.depth_pos (moves : Moves descriptor offset nesting event after)
    (leaves : descriptor.flags.leavesBlock = true) : 0 < nesting.depth := by
  cases moves with
  | stay stays => cases stays.2.symm.trans leaves
  | enter opens => cases opens.2.symm.trans leaves
  | switch => exact Nat.succ_pos _
  | leave => exact Nat.succ_pos _

def ArmsOfIf (nesting : Nesting) : Prop :=
  ∀ frame ∈ nesting.frames, frame.inElse = true → frame.kind = .ifBlock

theorem ArmsOfIf.moves (arms : nesting.ArmsOfIf)
    (moves : Moves descriptor offset nesting event after) : after.ArmsOfIf := by
  simp only [ArmsOfIf, frames, List.mem_reverse] at arms ⊢
  cases moves with
  | stay => exact arms
  | enter => simpa using arms
  | switch => simpa using arms
  | leave => exact fun frame member => arms frame (.tail _ member)

end Nesting

namespace Decoder
open Nesting (ArmsOfIf)

/-- The frames open behind some instructions of a stream, outermost first. The block that a body
starts in is open until an instruction on its own level closes it. -/
inductive Mode.Opened : Mode → List Instruction → List Frame → Prop where
  | bare {history frames} (unmatched : Unmatched history frames) : Opened .bare history frames
  | body {history frames} (still : ¬ OnLevel Descriptor.Closes history)
      (unmatched : Unmatched history frames) :
      Opened .functionBody history (⟨0, .function, false⟩ :: frames)
  | closed {history frames} (ended : OnLevel Descriptor.Closes history)
      (unmatched : Unmatched history frames) : Opened .functionBody history frames

private theorem Mode.Opened.unique {mode : Mode} {history : List Instruction}
    {frames frames' : List Frame} (opened : mode.Opened history frames)
    (opened' : mode.Opened history frames') :
    frames = frames' := by
  cases opened with
  | bare unmatched =>
    cases opened' with
    | bare unmatched' => exact unmatched.unique unmatched'
  | body still unmatched =>
    cases opened' with
    | body _ unmatched' => rw [unmatched.unique unmatched']
    | closed ended => exact absurd ended still
  | closed ended unmatched =>
    cases opened' with
    | body still => exact absurd ended still
    | closed _ unmatched' => exact unmatched.unique unmatched'

/-- A body reads as if this instruction in front of it had opened the block it starts in. -/
def bodyOpener : Instruction :=
  ⟨0, ⟨0, "", none, { entersBlock := true }, some .function⟩, none, 0, true⟩

def Mode.prelude : Mode → List Instruction
  | .bare => []
  | .functionBody => [bodyOpener]

private theorem unmatched_prelude (mode : Mode) : Unmatched mode.prelude mode.nesting.frames := by
  cases mode with
  | bare => exact .empty
  | functionBody => exact .opened ⟨rfl, rfl⟩ (by simp [OnLevel]) (by simp [OnLevel]) .empty

theorem armsOfIf_start (mode : Mode) : mode.nesting.ArmsOfIf := by
  cases mode <;> simp [ArmsOfIf, Mode.nesting, Nesting.empty, Nesting.functionBody, Nesting.frames]

private theorem Mode.opened_of_unmatched {mode : Mode} {history : List Instruction}
    {nesting : Nesting} (unmatched : Unmatched (mode.prelude ++ history) nesting.frames)
    (arms : nesting.ArmsOfIf) :
    mode.Opened history nesting.frames := by
  cases mode with
  | bare => exact .bare unmatched
  | functionBody =>
    generalize all : nesting.frames = frames at unmatched
    cases unmatched with
    | @opened _ _ frames inElse opens still arm unmatched =>
      have first : inElse = false := by
        by_contra second
        have conditional := arms ⟨0, .function, inElse⟩ (by rw [all]; exact List.mem_cons_self)
          (Bool.not_eq_false _ ▸ second)
        cases conditional
      subst first
      exact .body still unmatched
    | other matched unmatched => exact .closed (matched ⟨rfl, rfl⟩) unmatched

variable {decoder after : Decoder} {coded : Coded} {instruction : Instruction}

/-- An instruction that leaves a block counts as outside of it, and there is one that it leaves. -/
theorem Takes.depth_add (takes : Takes decoder coded instruction after) :
    instruction.depth + instruction.descriptor.flags.leavesBlock.toNat = decoder.nesting.depth := by
  obtain ⟨event, moves, -⟩ := takes.moves
  have inside := moves.depth_pos
  rw [takes.recorded] at inside ⊢
  simp only [Nesting.record] at inside ⊢
  cases leaves : coded.descriptor.flags.leavesBlock with
  | false => simp
  | true =>
    have positive := inside leaves
    simp
    omega

private theorem Trail.unmatched {history segment : List Instruction}
    (trail : Trail decoder segment after) (unmatched : Unmatched history decoder.nesting.frames) :
    Unmatched (history ++ segment) after.nesting.frames := by
  induction trail generalizing history with
  | here => simpa using unmatched
  | step takes _ ih =>
    obtain ⟨event, moves, -⟩ := takes.moves
    simpa using ih (unmatched.moves moves)

private theorem Trail.armsOfIf {segment : List Instruction} (trail : Trail decoder segment after)
    (arms : decoder.nesting.ArmsOfIf) : after.nesting.ArmsOfIf := by
  induction trail with
  | here => exact arms
  | step takes _ ih =>
    obtain ⟨event, moves, -⟩ := takes.moves
    exact ih (arms.moves moves)

theorem Trail.opened {registry : Registry} {mode : Mode} {bytes : List UInt8}
    {history : List Instruction} (trail : Trail (ofBytes registry mode bytes) history after) :
    mode.Opened history after.nesting.frames :=
  mode.opened_of_unmatched (trail.unmatched (unmatched_prelude mode))
    (trail.armsOfIf (armsOfIf_start mode))

theorem Trail.depth_eq {segment : List Instruction} (matched : Matched segment)
    (trail : Trail decoder segment after) : after.nesting.depth = decoder.nesting.depth := by
  induction matched generalizing decoder after with
  | empty =>
    cases trail
    rfl
  | other opens closes _ ih =>
    cases trail with
    | step takes later =>
      obtain ⟨event, moves, -⟩ := takes.moves
      exact (ih later).trans (moves.depth_of_other opens closes)
  | block opens _ closes _ ihBody ihRest =>
    cases trail with
    | step takes later =>
      obtain ⟨middle, within, final⟩ := later.split
      cases final with
      | step takes' rest =>
        obtain ⟨event, moves, -⟩ := takes.moves
        obtain ⟨event', moves', -⟩ := takes'.moves
        have deeper := moves.depth_of_opens opens
        have back := moves'.depth_of_closes closes
        have same := ihBody within
        have same' := ihRest rest
        omega

/-- A part of whole blocks from their start on leads deeper, unless it is whole blocks itself. -/
private theorem Trail.deeper {blocks left right : List Instruction} (matched : Matched blocks)
    (parts : blocks = left ++ right) (trail : Trail decoder left after) :
    decoder.nesting.depth < after.nesting.depth ∨ Matched left := by
  induction matched generalizing decoder left right with
  | empty =>
    obtain ⟨rfl, -⟩ := List.append_eq_nil_iff.mp parts.symm
    exact .inr .empty
  | other opens closes _ ih =>
    cases trail with
    | here => exact .inr .empty
    | step takes later =>
      obtain ⟨rfl, parts'⟩ := List.cons.inj parts
      obtain ⟨event, moves, -⟩ := takes.moves
      rw [← moves.depth_of_other opens closes]
      exact (ih parts' later).imp_right (.other opens closes)
  | @block opener body closer rest opens within closes _ ihBody ihRest =>
    cases trail with
    | here => exact .inr .empty
    | step takes later =>
      obtain ⟨rfl, parts'⟩ := List.cons.inj parts
      obtain ⟨event, moves, -⟩ := takes.moves
      have opened := moves.depth_of_opens opens
      rcases List.append_eq_append_iff.mp parts' with ⟨more, rfl, closing⟩ | ⟨more, inside, -⟩
      · obtain ⟨middle, trail, final⟩ := later.split
        have same := trail.depth_eq within
        cases final with
        | here => exact .inl (by omega)
        | step takes' behind =>
          obtain ⟨rfl, behind'⟩ := List.cons.inj closing
          obtain ⟨event', moves', -⟩ := takes'.moves
          have closed := moves'.depth_of_closes closes
          refine (ihRest behind' behind).imp (fun deeper => ?_) (.block opens within closes)
          omega
      · rcases ihBody inside later with deeper | whole
        · exact .inl (by omega)
        · have same := later.depth_eq whole
          exact .inl (by omega)

/-- Nothing in whole blocks lies less deep than they start, but for an instruction that switches on
their own level. -/
theorem Trail.depth_le {left right : List Instruction} {inner : Instruction} {middle : Decoder}
    (matched : Matched (left ++ inner :: right)) (trail : Trail decoder left middle)
    (takes : Takes middle coded inner after)
    (elsewhere : ¬ (inner.descriptor.Switches ∧ Matched left)) :
    decoder.nesting.depth ≤ inner.depth := by
  have depth := takes.depth_add
  have reached : decoder.nesting.depth ≤ middle.nesting.depth := by
    rcases trail.deeper matched rfl with deeper | whole
    · exact deeper.le
    · exact (trail.depth_eq whole).ge
  cases leaves : inner.descriptor.flags.leavesBlock with
  | false =>
    rw [leaves, Bool.toNat_false] at depth
    omega
  | true =>
    rw [leaves, Bool.toNat_true] at depth
    rcases Descriptor.leavesBlock_iff.mp leaves with closes | switches
    · -- The closing instruction belongs to the part that leads deeper.
      have through : Trail decoder (left ++ [inner]) after := trail.concat takes
      have parts : left ++ inner :: right = (left ++ [inner]) ++ right := by simp
      obtain ⟨event, moves, -⟩ := takes.moves
      have back := moves.depth_of_closes closes
      rcases through.deeper matched parts with deeper | whole
      · omega
      · have same := through.depth_eq whole
        omega
    · have deeper := (trail.deeper matched rfl).resolve_right fun whole => elsewhere ⟨switches, whole⟩
      omega

/-- What leaves a block lies as deep as what opened it, and what is inside lies deeper. -/
theorem Trail.depth_of_block {opener leaver : Instruction} {within behind : List Instruction}
    (trail : Trail decoder (opener :: (within ++ leaver :: behind)) after)
    (opens : opener.descriptor.Opens) (matched : Matched within)
    (leaves : leaver.descriptor.flags.leavesBlock = true) :
    leaver.depth = opener.depth ∧ ∀ left inner right, within = left ++ inner :: right →
      ¬ (inner.descriptor.Switches ∧ Matched left) → opener.depth < inner.depth := by
  cases trail with
  | step opening trail =>
    obtain ⟨inside, trail, leaving⟩ := trail.split
    obtain ⟨event, moves, -⟩ := opening.moves
    have outer := opening.depth_add
    have opened := moves.depth_of_opens opens
    rw [opens.2, Bool.toNat_false, Nat.add_zero] at outer
    refine ⟨?_, ?_⟩
    · cases leaving with
      | step leaving _ =>
        have depth := leaving.depth_add
        have same := trail.depth_eq matched
        rw [leaves, Bool.toNat_true] at depth
        omega
    · rintro left inner right rfl elsewhere
      obtain ⟨middle, trail, rest⟩ := trail.split
      cases rest with
      | step takes _ =>
        have deep := trail.depth_le matched takes elsewhere
        omega

/-- The open frames are those of the opening instructions not yet matched, and the depths of the
instructions follow the brackets: one that leaves a block lies as deep as the one that opened it,
and all others inside lie deeper. -/
theorem opened_point (registry : Registry) (mode : Mode) (bytes : List UInt8) :
    let start := ofBytes registry mode bytes
    let yielded := start.run.instructions
    (∀ place frames, (start.point place).nesting.frames = frames ↔
      mode.Opened (yielded.take place) frames) ∧
    (∀ place instruction, yielded[place]? = some instruction →
      instruction.depth + instruction.descriptor.flags.leavesBlock.toNat =
        (start.point place).nesting.frames.length) ∧
    ∀ before opener within leaver after,
      yielded = before ++ opener :: (within ++ leaver :: after) → opener.descriptor.Opens →
      Matched within → leaver.descriptor.flags.leavesBlock = true →
      leaver.depth = opener.depth ∧
      ∀ left inner right, within = left ++ inner :: right →
        ¬ (inner.descriptor.Switches ∧ Matched left) → opener.depth < inner.depth := by
  intro start yielded
  refine ⟨?_, ?_, ?_⟩
  · intro place frames
    obtain ⟨middle, trail, same⟩ := trail_point start place
    rw [same]
    exact ⟨fun equal => equal ▸ trail.opened, trail.opened.unique⟩
  · intro place instruction listed
    obtain ⟨coded, takes⟩ := takes_point listed
    rw [takes.depth_add, Nesting.depth, Nesting.frames, List.length_reverse]
  · intro before opener within leaver after parts opens matched leaves
    obtain ⟨final, trail, -⟩ := trail_of_run (parts.trans (List.append_nil _).symm)
    obtain ⟨outside, -, block⟩ := trail.split
    exact block.depth_of_block opens matched leaves

/-- A block opened in the second arm of an `if`, in a body. -/
example : ((ofBytes .standard .functionBody [0x04, 0x40, 0x05, 0x02, 0x40]).point 3).nesting.frames =
    [⟨0, .function, false⟩, ⟨0, .ifBlock, true⟩, ⟨3, .block, false⟩] := by
  decide +kernel

end Decoder
end WasmStream
