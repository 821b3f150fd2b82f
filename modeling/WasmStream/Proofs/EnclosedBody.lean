import WasmStream.Proofs.Acceptance
import WasmStream.Proofs.Displacement
import WasmStream.Proofs.OpenFrames
import WasmStream.Proofs.Resemblance

/-! A function body and the same bytes inside of a block of a bare stream. Instruction by
instruction the two decoders do the same, until the body closes the frame that it started in. -/

namespace WasmStream

private theorem Nesting.Alike.record {nesting other : Nesting} (alike : nesting.Alike other)
    (offset distance : Nat) (coded : Coded) :
    other.record (offset + distance) coded = (nesting.record offset coded).moved distance := by
  simp only [Nesting.record, Instruction.moved, alike.depth_eq, alike.unreachable]

namespace Decoder
open Nesting (Moves)

/-- The decoder of a block stands at the same place of the same bytes as the decoder of a body. -/
structure Abreast (distance : Nat) (body block : Decoder) : Prop where
  registry : block.registry = body.registry
  noFunction : body.registry.OpensNoFunction
  cursor : block.cursor = body.cursor.moved distance
  alike : body.nesting.Alike block.nesting
  running : block.phase = .running
  framed : Framed .bare block.nesting

variable {distance : Nat} {body block after : Decoder} {coded : Coded} {instruction : Instruction}
  {error : DecodeError} {cursor : Cursor}

private theorem Abreast.takes (abreast : Abreast distance body block)
    (takes : Takes body coded instruction after) :
    ∃ after', Takes block coded (instruction.moved distance) after' ∧
      Abreast distance after after' := by
  obtain ⟨event, moves, -⟩ := takes.moved
  obtain ⟨event', nesting', moves', alike⟩ : ∃ event' nesting', Moves coded.descriptor
      block.cursor.position block.nesting event' nesting' ∧ after.nesting.Alike nesting' :=
    abreast.alike.moves moves
  have valid : coded.Valid block.registry := abreast.registry ▸ takes.valid
  have unread : block.cursor.unread = coded.bytes ++ after.cursor.unread := by
    rw [abreast.cursor]
    exact takes.reached.1
  obtain ⟨after', takes', cursor, rfl, phase⟩ := exists_takes abreast.running valid unread moves'
  have recorded : block.nesting.record block.cursor.position coded = instruction.moved distance := by
    rw [abreast.cursor, Cursor.position_moved, abreast.alike.record, takes.recorded]
  have named := abreast.noFunction coded.descriptor takes.valid.1
  rw [abreast.running] at phase
  refine ⟨after', recorded ▸ takes', ?_⟩
  -- A bare stream is never closed: its frames are all opened by instructions.
  rcases abreast.framed.moves named moves' with ⟨body, -⟩ | ⟨framed, going⟩
  · cases body
  refine ⟨?_, takes.registry ▸ abreast.noFunction, ?_, alike, phase.trans going, framed⟩
  · rw [takes'.registry, takes.registry, abreast.registry]
  · rw [cursor, abreast.cursor]
    simp only [Cursor.moved, takes.reached.2, Nat.add_right_comm]

private theorem Abreast.fails (abreast : Abreast distance body block)
    (running : body.phase = .running) (fails : Fails body error cursor) :
    ∃ cursor', Fails block (error.moved distance) cursor' := by
  cases fails with
  | before failed => cases running.symm.trans failed
  | ended closed => cases running.symm.trans closed
  | trailing closed => cases running.symm.trans closed
  | unread _ unread =>
    refine ⟨cursor.moved distance, .unread abreast.running ?_⟩
    rw [abreast.registry, abreast.cursor, follows_instruction body.registry body.cursor, unread]
    rfl
  | @refused coded _ fault _ valid reached refuses =>
    have reached' : block.cursor.Reached coded.bytes (cursor.moved distance) := by
      rw [abreast.cursor]
      exact reached.moved distance
    have refused : Fails block _ _ := .refused abreast.running (abreast.registry ▸ valid) reached'
      (abreast.alike.refuses refuses)
    rw [abreast.cursor] at refused
    exact ⟨_, refused⟩

theorem Takes.closes_or_framed (takes : Takes body coded instruction after)
    (framed : Framed .functionBody body.nesting) (noFunction : body.registry.OpensNoFunction) :
    (coded.descriptor.Closes ∧ after.nesting.levels = [] ∧ after.phase = .bodyClosed) ∨
      (Framed .functionBody after.nesting ∧ after.phase = .running) := by
  obtain ⟨event, moves, phase⟩ := takes.moved
  rw [takes.running] at phase
  rcases framed.moves (noFunction coded.descriptor takes.valid.1) moves with
    ⟨-, closed, ended⟩ | ⟨framed', going⟩
  · refine .inl ⟨?_, closed, phase.trans ended⟩
    by_contra still
    cases ended.symm.trans (running_of_moves moves still)
  · exact .inr ⟨framed', phase.trans going⟩

/-- How the runs of a body and of the block around it end. -/
inductive Course (distance : Nat) (body block : Decoder) : Prop where
  | closes {within last coded closer after later} (trail : Trail body within last)
      (takes : Takes last coded closer after) (closes : coded.descriptor.Closes)
      (closed : after.nesting.levels = []) (yields : body.run.instructions = within ++ [closer])
      (yields' : block.run.instructions = body.run.instructions.map (·.moved distance) ++ later)
      (ends : after.cursor.unread = [] ∧ later = [] ∧
          body.run.failure = none ∧ block.run.failure = none ∨
        after.cursor.unread ≠ [] ∧
          body.run.failure = some (.malformedNesting after.cursor.position .trailingBytes)) :
      Course distance body block
  | fails {last error} (trail : Trail body body.run.instructions last)
      (running : last.phase = .running)
      (yields : block.run.instructions = body.run.instructions.map (·.moved distance))
      (failed : body.run.failure = some error)
      (failed' : block.run.failure = some (error.moved distance)) :
      Course distance body block

private theorem Course.takes {after' : Decoder} (taken : Takes body coded instruction after)
    (taken' : Takes block coded (instruction.moved distance) after')
    (course : Course distance after after') : Course distance body block := by
  have run := run_of_takes taken
  have run' := run_of_takes taken'
  cases course with
  | closes trail takes closes closed yields yields' ends =>
    apply Course.closes (.step taken trail) takes closes closed
    · rw [run, yields]
      rfl
    · rw [run, run', yields']
      rfl
    · rw [run, run']
      exact ends
  | fails trail running yields failed failed' =>
    apply Course.fails _ running
    · rw [run, run', yields]
      rfl
    · rw [run]
      exact failed
    · rw [run']
      exact failed'
    · rw [run]
      exact .step taken trail

private theorem Abreast.course_of_closed {after' : Decoder}
    (taken : Takes body coded instruction after)
    (taken' : Takes block coded (instruction.moved distance) after')
    (abreast : Abreast distance after after') (closes : coded.descriptor.Closes)
    (closed : after.nesting.levels = []) (ended : after.phase = .bodyClosed) :
    Course distance body block := by
  have run := run_of_takes taken
  have run' := run_of_takes taken'
  by_cases more : after.cursor.unread = []
  · have finished := (isFinished_iff (by simp [ended])).mpr ⟨more, .inl ended⟩
    have finished' : after'.isFinished = true := by
      apply (isFinished_iff (by simp [abreast.running])).mpr
      refine ⟨?_, .inr (abreast.alike.levels_eq_nil_iff.mp closed)⟩
      rw [abreast.cursor]
      exact more
    rw [run_of_finished finished] at run
    rw [run_of_finished finished'] at run'
    apply Course.closes .here taken closes closed
    · rw [run]
      rfl
    · rw [run, run', List.append_nil]
      rfl
    · rw [run, run']
      exact .inl ⟨more, rfl, rfl, rfl⟩
  · have unfinished := unfinished_of_unread (by simp [ended]) more
    rw [run_of_fails unfinished (.trailing ended more)] at run
    apply Course.closes .here taken closes closed
    · rw [run]
      rfl
    · rw [run, run']
      rfl
    · rw [run]
      exact .inr ⟨more, rfl⟩

private theorem Abreast.course (abreast : Abreast distance body block)
    (running : body.phase = .running) (framed : Framed .functionBody body.nesting) :
    Course distance body block := by
  induction body using run_induction generalizing block with
  | finished body finished =>
    rw [unfinished_of_opened running framed.levels_ne_nil] at finished
    cases finished
  | fails body error cursor unfinished fails =>
    obtain ⟨cursor', fails'⟩ := abreast.fails running fails
    have opened : block.nesting.levels ≠ [] :=
      abreast.alike.levels_eq_nil_iff.not.mp framed.levels_ne_nil
    have run := run_of_fails unfinished fails
    have run' := run_of_fails (unfinished_of_opened abreast.running opened) fails'
    apply Course.fails _ running
    · rw [run, run']
      rfl
    · rw [run]
    · rw [run']
    · rw [run]
      exact .here
  | takes body coded instruction after takes ih =>
    obtain ⟨after', takes', abreast'⟩ := abreast.takes takes
    rcases takes.closes_or_framed framed abreast.noFunction with
      ⟨closes, closed, ended⟩ | ⟨framed', running'⟩
    · exact abreast'.course_of_closed takes takes' closes closed ended
    · exact (ih abreast' running' framed').takes takes takes'

theorem Trail.running {history : List Instruction} (trail : Trail body history after)
    (running : after.phase = .running) : body.phase = .running := by
  cases trail with
  | here => exact running
  | step takes => exact takes.running

private theorem Trail.framed {history : List Instruction} (trail : Trail body history after)
    (running : after.phase = .running) (framed : Framed .functionBody body.nesting)
    (noFunction : body.registry.OpensNoFunction) : Framed .functionBody after.nesting := by
  induction trail with
  | here => exact framed
  | step takes later ih =>
    rcases takes.closes_or_framed framed noFunction with ⟨-, -, ended⟩ | ⟨framed', -⟩
    · cases ended.symm.trans (later.running running)
    · exact ih running framed' (takes.registry ▸ noFunction)

theorem Trail.not_closed {history : List Instruction} (trail : Trail body history after)
    (running : after.phase = .running) (framed : Framed .functionBody body.nesting)
    (noFunction : body.registry.OpensNoFunction) (alone : body.nesting.depth = 1) :
    ¬ OnLevel Descriptor.Closes history := by
  rintro ⟨before, closer, behind, rfl, matched, closes⟩
  obtain ⟨middle, trail, rest⟩ := trail.split
  have same := trail.depth_eq matched
  cases rest with
  | @step _ _ _ next _ _ takes later =>
    obtain ⟨event, moves, -⟩ := takes.moves
    -- The instruction leads to depth zero, and yet the frame of the body is still open behind it.
    have outside := moves.depth_of_closes closes
    have inside := (trail.concat takes).framed (later.running running) framed noFunction
    have opened : 0 < next.nesting.depth :=
      List.length_pos_iff.mpr (mt Nesting.levels_eq_nil_iff.mpr inside.levels_ne_nil)
    omega

/-- Before a running body closes its own frame, it has closed all others. -/
theorem Trail.matched {registry : Registry} {bytes : List UInt8} {history : List Instruction}
    (trail : Trail (ofBytes registry .functionBody bytes) history after)
    (running : after.phase = .running) (noFunction : registry.OpensNoFunction)
    (alone : after.nesting.depth = 1) : Matched history := by
  have still := trail.not_closed running (framed_start _) noFunction rfl
  have opened := trail.opened
  generalize all : after.nesting.frames = frames at opened
  cases opened with
  | closed ended => exact absurd ended still
  | @body _ inner _ unmatched =>
    have single : inner.length + 1 = after.nesting.depth := by
      simpa [Nesting.frames, Nesting.depth] using (congrArg List.length all).symm
    obtain rfl : inner = [] := List.eq_nil_of_length_eq_zero (by omega)
    exact matched_of_unmatched unmatched still

private theorem exists_abreast (bytes : List UInt8) :
    ∃ coded block, Abreast 2 (ofBytes .standard .functionBody bytes) block ∧
      Takes (ofBytes .standard .bare ([0x02, 0x40] ++ bytes)) coded
        ⟨0, Opcode.block.descriptor, some (.blockType none), 0, true⟩ block := by
  let coded := Opcode.block.coded (some (.blockType none))
  have valid : coded.Valid .standard := Opcode.valid_coded ⟨rfl, by simp [Immediate.Encodable]⟩
  have moves : Moves coded.descriptor 0 .empty (.entered ⟨0, .block, false⟩)
      ⟨[⟨0, .block, false⟩], [false], false⟩ := .enter ⟨rfl, rfl⟩
  obtain ⟨block, takes, cursor, nesting, phase⟩ :=
    @exists_takes (ofBytes .standard .bare ([0x02, 0x40] ++ bytes)) coded bytes _ _
      rfl valid rfl moves
  refine ⟨coded, block, ⟨takes.registry, Registry.standard_opensNoFunction, cursor, ?_, phase, ?_⟩,
    takes⟩
  · rw [nesting]
    exact ⟨.cons ⟨by decide, rfl⟩ .nil, rfl, rfl⟩
  · rw [nesting]
    exact ⟨[⟨0, .block, false⟩], rfl, by simp⟩

private theorem Takes.end_of_closes (takes : Takes body coded instruction after)
    (standard : body.registry = .standard) (closes : coded.descriptor.Closes) :
    instruction.descriptor = Opcode.endBlock.descriptor ∧
      after.cursor.position = instruction.offset + 1 := by
  have valid : coded.Valid .standard := standard ▸ takes.valid
  rw [takes.recorded, takes.reached.2, bytes_of_closes valid closes]
  exact ⟨eq_endBlock_of_closes valid.1 closes, rfl⟩

/-- A body is decoded like the same bytes inside of a block, up to the instruction that closes it.
If that is the last of the bytes, both runs end well, and if more of them follow, the body reports
the first of those. If the body is never closed, both runs end for the same reason. -/
theorem body_run_in_block (bytes : List UInt8) :
    let body := (ofBytes .standard .functionBody bytes).run
    let block := (ofBytes .standard .bare ([0x02, 0x40] ++ bytes)).run
    ∃ later, block.instructions =
        ⟨0, Opcode.block.descriptor, some (.blockType none), 0, true⟩ ::
          (body.instructions.map (·.moved 2) ++ later) ∧
      ((∃ within closer, body.instructions = within ++ [closer] ∧ Matched within ∧
          closer.descriptor = Opcode.endBlock.descriptor ∧
          (closer.offset + 1 = bytes.length ∧ later = [] ∧
              body.failure = none ∧ block.failure = none ∨
            closer.offset + 1 < bytes.length ∧
              body.failure = some (.malformedNesting (closer.offset + 1) .trailingBytes))) ∨
        (¬ OnLevel Descriptor.Closes body.instructions ∧ later = [] ∧
          ∃ error, body.failure = some error ∧ block.failure = some (error.moved 2))) := by
  intro body block
  obtain ⟨_, around, abreast, opening⟩ := exists_abreast bytes
  have instructions : block.instructions = _ :: around.run.instructions :=
    congrArg Run.instructions (run_of_takes opening)
  have failure : block.failure = around.run.failure := by
    simp only [block, run_of_takes opening]
  have noFunction := Registry.standard_opensNoFunction
  cases abreast.course rfl (framed_start .functionBody) with
  | @closes within last coded closer after later trail takes closes closed yields yields' ends =>
    obtain ⟨_, -, standard⟩ := trail.reached
    obtain ⟨named, position⟩ := takes.end_of_closes standard closes
    have alone : last.nesting.depth = 1 := by
      obtain ⟨event, moves, -⟩ := takes.moved
      rw [← moves.depth_of_closes closes, ← Nesting.length_levels, closed]
      rfl
    have left : closer.offset + 1 + after.cursor.unread.length = bytes.length := by
      obtain ⟨consumed, reached, -⟩ := (trail.concat takes).reached
      rw [← position]
      exact reached.length_eq
    refine ⟨later, ?_, .inl ⟨within, closer, yields, ?_, named, ?_⟩⟩
    · rw [instructions, yields']
    · exact trail.matched takes.running noFunction alone
    · rcases ends with ⟨ended, nothing, clean, clean'⟩ | ⟨more, trailing⟩
      · refine .inl ⟨?_, nothing, clean, failure.trans clean'⟩
        rw [← left, ended]
        rfl
      · have some := List.length_pos_iff.mpr more
        exact .inr ⟨by omega, position ▸ trailing⟩
  | @fails last error trail running yields failed failed' =>
    refine ⟨[], ?_, .inr ⟨?_, rfl, error, failed, failure.trans failed'⟩⟩
    · rw [instructions, yields, List.append_nil]
    · exact trail.not_closed running (framed_start _) noFunction rfl

/-- Neither a body nor a plain block has a second arm. -/
example : (ofBytes .standard .functionBody [0x05, 0x0b]).run.failure =
      some (.malformedNesting 0 .elseWithoutIf) ∧
    (ofBytes .standard .bare [0x02, 0x40, 0x05, 0x0b]).run.failure =
      some (.malformedNesting 2 .elseWithoutIf) := by
  decide +kernel

end Decoder
end WasmStream
