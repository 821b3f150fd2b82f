import WasmStream.Proofs.BlockMachine
import WasmStream.Proofs.Displacement
import WasmStream.Proofs.Extension
import WasmStream.Proofs.OpenFrames
import WasmStream.Proofs.Reachability

/-! One bare stream behind another. A stream that ends well has closed all its blocks, and of what
it did one flag is left: whether the place behind it can be reached. The next stream meets that flag
only where none of its own blocks is open. -/

namespace WasmStream

def Frame.moved (frame : Frame) (distance : Nat) : Frame :=
  { frame with offset := frame.offset + distance }

namespace Nesting

def Event.moved (event : Event) (distance : Nat) : Event :=
  match event with
  | stayed => stayed
  | entered frame => entered (frame.moved distance)
  | switched frame => switched (frame.moved distance)
  | left frame => left (frame.moved distance)

/-- The flags of a stream further on in a buffer, one for each frame. The arm around the outermost
one is cut off if nothing falls through to the start of the stream. -/
def savedBehind (cut : Bool) : List Frame → List Bool → List Bool
  | [], _ => []
  | _ :: outer, saved =>
    (saved.headD false || (cut && outer.isEmpty)) :: savedBehind cut outer saved.tail

def behind (nesting : Nesting) (cut : Bool) (distance : Nat) : Nesting where
  stack := nesting.stack.map (·.moved distance)
  saved := savedBehind cut nesting.stack nesting.saved
  unreachable := nesting.unreachable || (cut && nesting.isEmpty)

variable {descriptor : Descriptor} {offset : Nat} {nesting after : Nesting} {event : Event}
  {fault : NestingFault}

private theorem behind_cons (frame : Frame) (outer : List Frame) (saved : List Bool)
    (unreachable cut : Bool) (distance : Nat) :
    Nesting.behind ⟨frame :: outer, saved, unreachable⟩ cut distance =
      ⟨frame.moved distance :: outer.map (·.moved distance),
        (saved.headD false || (cut && outer.isEmpty)) :: savedBehind cut outer saved.tail,
        unreachable⟩ := by
  simp [Nesting.behind, savedBehind, isEmpty]

private theorem depth_behind (nesting : Nesting) (cut : Bool) (distance : Nat) :
    (nesting.behind cut distance).depth = nesting.depth :=
  List.length_map _

private theorem isEmpty_behind (nesting : Nesting) (cut : Bool) (distance : Nat) :
    (nesting.behind cut distance).isEmpty = nesting.isEmpty :=
  List.isEmpty_map

private theorem Moves.behind (moves : Moves descriptor offset nesting event after) (cut : Bool)
    (distance : Nat) :
    Moves descriptor (offset + distance) (nesting.behind cut distance) (event.moved distance)
      (after.behind cut distance) := by
  cases moves with
  | stay stays =>
    simp only [Nesting.behind, isEmpty, Bool.or_right_comm _ descriptor.flags.noFallthrough]
    exact .stay stays
  | enter opens =>
    rw [behind_cons]
    exact .enter opens
  | switch switches =>
    rw [behind_cons, behind_cons]
    exact .switch switches
  | leave closes =>
    rw [behind_cons]
    simp only [Nesting.behind, isEmpty, Bool.or_right_comm _ descriptor.flags.noFallthrough]
    exact .leave closes

private theorem Refuses.behind (refuses : Refuses descriptor nesting fault) (cut : Bool)
    (distance : Nat) :
    Refuses descriptor (nesting.behind cut distance) fault := by
  cases refuses with
  | noBlock switches => exact .noBlock switches
  | otherBlock switches other => exact .otherBlock switches other
  | secondElse switches => exact .secondElse switches
  | nothingOpen closes => exact .nothingOpen closes

private theorem record_behind (nesting : Nesting) (cut : Bool) (distance : Nat) (coded : Coded) :
    (nesting.behind cut distance).record (offset + distance) coded =
      { (nesting.record offset coded).moved distance with
        reachable := (nesting.record offset coded).reachable && !(cut && nesting.isEmpty) } := by
  simp only [record, depth_behind, Instruction.moved]
  simp [Nesting.behind, isEmpty]

end Nesting

/-- Of the standard instructions two have nothing fall through, and these move no block. -/
theorem Opcode.noFallthrough_iff {descriptor : Descriptor}
    (member : descriptor ∈ Registry.standard.descriptors) :
    descriptor.flags.noFallthrough = true ↔
      descriptor = unreachable.descriptor ∨ descriptor = ret.descriptor := by
  obtain ⟨opcode, rfl⟩ := mem_standard_iff.mp member
  constructor
  · intro stops
    change opcode.flags.noFallthrough = true at stops
    unfold flags at stops
    split at stops
    · exact .inl rfl
    · exact .inr rfl
    all_goals cases stops
  · rintro (same | same) <;> exact same ▸ rfl

private theorem Opcode.stays_of_noFallthrough {descriptor : Descriptor}
    (member : descriptor ∈ Registry.standard.descriptors)
    (stops : descriptor.flags.noFallthrough = true) : descriptor.Stays := by
  rcases (noFallthrough_iff member).mp stops with rfl | rfl <;> exact ⟨rfl, rfl⟩

namespace Decoder
open Nesting (Marks marks_start)

variable {decoder after : Decoder} {coded : Coded} {instruction : Instruction}
  {error : DecodeError} {cursor : Cursor}

def Phase.moved (phase : Phase) (distance : Nat) : Phase :=
  match phase with
  | running => running
  | bodyClosed => bodyClosed
  | failed error => failed (error.moved distance)

private theorem Phase.moved_running_after (event : Nesting.Event) (distance : Nat) :
    (running.after event).moved distance = running.after (event.moved distance) := by
  cases event with
  | left frame =>
    simp only [after, Nesting.Event.moved, Frame.moved]
    split <;> rfl
  | stayed => rfl
  | entered => rfl
  | switched => rfl

/-- The same decoder behind another stream of some length. The flag tells whether nothing falls
through to where it starts. -/
def behind (decoder : Decoder) (cut : Bool) (distance : Nat) : Decoder where
  registry := decoder.registry
  cursor := decoder.cursor.moved distance
  nesting := decoder.nesting.behind cut distance
  phase := decoder.phase.moved distance

private theorem isFinished_behind (decoder : Decoder) (cut : Bool) (distance : Nat) :
    (decoder.behind cut distance).isFinished = decoder.isFinished := by
  obtain ⟨registry, cursor, nesting, phase⟩ := decoder
  cases phase with
  | running => simp [isFinished, behind, Phase.moved, Nesting.isEmpty_behind, Cursor.isEmpty]
  | bodyClosed => rfl
  | failed => rfl

private theorem Takes.behind (takes : Takes decoder coded instruction after) (cut : Bool)
    (distance : Nat) :
    Takes (decoder.behind cut distance) coded
      { instruction.moved distance with
        reachable := instruction.reachable && !(cut && decoder.nesting.isEmpty) }
      (after.behind cut distance) where
  running := by
    rw [Decoder.behind, takes.running]
    rfl
  valid := takes.valid
  reached := takes.reached.moved distance
  moved := by
    obtain ⟨event, moves, phase⟩ := takes.moved
    refine ⟨event.moved distance, moves.behind cut distance, ?_⟩
    rw [takes.running] at phase
    simp only [Decoder.behind, phase, takes.running, Phase.moved_running_after]
    rfl
  registry := takes.registry
  recorded := by
    rw [takes.recorded]
    exact (decoder.nesting.record_behind cut distance coded).symm

private theorem Fails.behind (fails : Fails decoder error cursor) (cut : Bool) (distance : Nat) :
    Fails (decoder.behind cut distance) (error.moved distance) (cursor.moved distance) := by
  have going : decoder.phase = .running → (decoder.behind cut distance).phase = .running := by
    intro running
    rw [Decoder.behind, running]
    rfl
  have shut : decoder.phase = .bodyClosed → (decoder.behind cut distance).phase = .bodyClosed := by
    intro closed
    rw [Decoder.behind, closed]
    rfl
  cases fails with
  | before failed =>
    refine .before ?_
    rw [Decoder.behind, failed]
    rfl
  | ended closed ended => exact .ended (shut closed) ended
  | trailing closed more => exact .trailing (shut closed) more
  | unread running unread =>
    refine .unread (going running) ?_
    have follows : Reader.Follows distance _ _ := follows_instruction decoder.registry
    have read := follows decoder.cursor
    rw [unread] at read
    exact read
  | refused running valid reached refuses =>
    exact .refused (going running) valid (reached.moved distance) (refuses.behind cut distance)

/-- The run of a decoder behind another stream is its own run, further on. Only where none of its
blocks is open can it differ, in what it tells of reachability. -/
theorem run_behind (decoder : Decoder) (cut : Bool) (distance : Nat) :
    (decoder.behind cut distance).run =
      ⟨decoder.run.instructions.mapIdx fun place instruction =>
        { instruction.moved distance with
          reachable := instruction.reachable && !(cut && (decoder.point place).nesting.isEmpty) },
        decoder.run.failure.map (·.moved distance), decoder.run.final.behind cut distance⟩ := by
  induction decoder using run_induction with
  | finished decoder finished =>
    have finished' := (isFinished_behind decoder cut distance).trans finished
    rw [run_of_finished finished, run_of_finished finished']
    rfl
  | fails decoder error cursor unfinished fails =>
    have unfinished' := (isFinished_behind decoder cut distance).trans unfinished
    rw [run_of_fails unfinished fails, run_of_fails unfinished' (fails.behind cut distance)]
    rfl
  | takes decoder coded instruction after takes ih =>
    rw [run_of_takes takes, run_of_takes (takes.behind cut distance), ih]
    simp only [List.mapIdx_cons, point_succ, takes.proceed]
    rfl

theorem run_extend (clean : decoder.run.failure = none) (more : List UInt8) :
    let rest := (decoder.run.final.extend more).run
    (decoder.extend more).run =
      { rest with instructions := decoder.run.instructions ++ rest.instructions } := by
  induction decoder using run_induction with
  | finished decoder finished =>
    rw [run_of_finished finished]
    rfl
  | fails decoder error cursor unfinished fails =>
    rw [run_of_fails unfinished fails] at clean
    cases clean
  | takes decoder coded instruction after takes ih =>
    rw [run_of_takes takes] at clean ⊢
    rw [run_of_takes (takes.extend more), ih clean]
    rfl

theorem final_of_clean {bytes : List UInt8}
    (clean : (ofBytes .standard .bare bytes).run.failure = none) :
    (ofBytes .standard .bare bytes).run.final =
      ⟨.standard, ⟨bytes.length, []⟩,
        ⟨[], [], (ofBytes .standard .bare bytes).run.final.nesting.unreachable⟩, .running⟩ := by
  have kept := @run_ends (fun decoder => decoder.registry = .standard ∧ decoder.phase = .running ∧
    decoder.nesting.Paired ∧ Framed .bare decoder.nesting) ?_
    (ofBytes .standard .bare bytes) ⟨rfl, rfl, rfl, framed_start .bare⟩
  · rcases kept with ⟨-, finished, registry, running, paired, -⟩ | ⟨_, _, _, _, _, failed, _⟩
    · have cursor := cursor_final clean
      generalize (ofBytes .standard .bare bytes).run.final = final at *
      obtain ⟨-, closed⟩ := (isFinished_iff (by simp [running])).mp finished
      have stack : final.nesting.stack = [] :=
        Nesting.levels_eq_nil_iff.mp (closed.resolve_left (by simp [running]))
      have saved : final.nesting.saved = [] :=
        List.eq_nil_of_length_eq_zero (paired.trans (congrArg List.length stack))
      obtain ⟨_, _, ⟨_, _, unreachable⟩, _⟩ := final
      simp only at registry running cursor stack saved
      subst registry running cursor stack saved
      rfl
    · cases clean.symm.trans failed
  · intro decoder coded instruction after takes kept
    obtain ⟨registry, running, paired, framed⟩ := kept
    obtain ⟨event, moves, phase⟩ := takes.moved
    have noFunction : decoder.registry.OpensNoFunction :=
      registry ▸ Registry.standard_opensNoFunction
    rw [running] at phase
    rcases framed.moves (noFunction coded.descriptor takes.valid.1) moves with
      ⟨body, -⟩ | ⟨framed', going⟩
    · cases body
    · exact ⟨takes.registry.trans registry, phase.trans going, paired.moves moves, framed'⟩

/-- Nothing falls through one of the instructions outside of all blocks. -/
def Run.cutsOff (run : Run) : Bool :=
  run.instructions.any fun instruction => instruction.depth = 0 ∧
    (instruction.descriptor = Opcode.unreachable.descriptor ∨
      instruction.descriptor = Opcode.ret.descriptor)

private theorem mem_standard_of_yielded {start : Decoder} (standard : start.registry = .standard)
    {place : Nat} (yielded : start.run.instructions[place]? = some instruction) :
    instruction.descriptor ∈ Registry.standard.descriptors := by
  obtain ⟨coded, takes⟩ := takes_point yielded
  have registry := registry_point (List.getElem?_eq_some_iff.mp yielded).1.le
  rw [← standard, ← registry, takes.recorded]
  exact takes.valid.1

private theorem depth_point_of_noFallthrough {start : Decoder} {place : Nat}
    (yielded : start.run.instructions[place]? = some instruction)
    (member : instruction.descriptor ∈ Registry.standard.descriptors)
    (stops : instruction.descriptor.flags.noFallthrough = true) :
    (start.point (place + 1)).nesting.depth = instruction.depth := by
  obtain ⟨coded, takes⟩ := takes_point yielded
  obtain ⟨event, moves, -⟩ := takes.moves
  have stays := Opcode.stays_of_noFallthrough member stops
  have depth := takes.depth_add
  rw [stays.2] at depth
  rw [moves.depth_of_other (by simp [Descriptor.Opens, stays.1])
    (by simp [Descriptor.Closes, stays.2]), ← depth]
  rfl

private theorem cutOff_outside_iff {start : Decoder} (standard : start.registry = .standard) :
    start.CutOff start.run.instructions.length 0 ↔ start.run.cutsOff = true := by
  simp only [Run.cutsOff, List.any_eq_true, decide_eq_true_eq]
  constructor
  · rintro ⟨place, instruction, -, yielded, stops, depth, -⟩
    have member := mem_standard_of_yielded standard yielded
    have same := depth_point_of_noFallthrough yielded member stops
    exact ⟨instruction, List.mem_of_getElem? yielded, same.symm.trans depth,
      (Opcode.noFallthrough_iff member).mp stops⟩
  · rintro ⟨instruction, listed, depth, named⟩
    obtain ⟨place, inside, rfl⟩ := List.getElem_of_mem listed
    have yielded := List.getElem?_eq_getElem inside
    have member := mem_standard_of_yielded standard yielded
    have stops := (Opcode.noFallthrough_iff member).mpr named
    have same := depth_point_of_noFallthrough yielded member stops
    refine ⟨place, _, inside, yielded, stops, same.trans depth, ?_⟩
    intro between middle _ _ listed leaves
    obtain ⟨coded, takes⟩ := takes_point listed
    obtain ⟨event, moves, -⟩ := takes.moves
    exact moves.depth_pos leaves

private theorem unreachable_of_clean {bytes : List UInt8}
    (clean : (ofBytes .standard .bare bytes).run.failure = none) :
    (ofBytes .standard .bare bytes).run.final.nesting.unreachable =
      (ofBytes .standard .bare bytes).run.cutsOff := by
  have fresh : Marks (fun _ => False) (ofBytes .standard .bare bytes).nesting := marks_start .bare
  have current := (marks_point fresh (Nat.le_refl _)).current
  rw [← final_eq_point clean] at current
  have closed : (ofBytes .standard .bare bytes).run.final.nesting.depth = 0 := by
    rw [final_of_clean clean]
    rfl
  rw [closed, cutOff_outside_iff rfl] at current
  exact Bool.eq_iff_iff.mpr current

/-- A bare stream behind one that ends well is decoded as if it stood alone, but for the offsets. If
the first has an instruction outside of all blocks that nothing falls through, the second cannot be
reached where none of its own blocks is open. -/
theorem run_append_of_clean (first second : List UInt8)
    (clean : (ofBytes .standard .bare first).run.failure = none) :
    let before := (ofBytes .standard .bare first).run
    let alone := ofBytes .standard .bare second
    let whole := (ofBytes .standard .bare (first ++ second)).run
    whole.instructions = before.instructions ++ alone.run.instructions.mapIdx (fun place instruction =>
      { instruction.moved first.length with
        reachable := instruction.reachable &&
          !(before.cutsOff && (alone.point place).nesting.isEmpty) }) ∧
    whole.failure = alone.run.failure.map (·.moved first.length) ∧
    (whole.failure = none ↔ alone.run.failure = none) := by
  intro before alone whole
  have ended : before.final.extend second = alone.behind before.cutsOff first.length := by
    rw [final_of_clean clean, unreachable_of_clean clean]
    simp [Decoder.extend, Decoder.behind, Cursor.extend, Cursor.moved, alone, ofBytes, Mode.nesting,
      Nesting.empty, Nesting.behind, Nesting.savedBehind, Nesting.isEmpty, Cursor.ofBytes, Phase.moved, before]
  have run : whole = _ := run_extend clean second
  rw [ended, run_behind] at run
  refine ⟨?_, ?_, ?_⟩
  · rw [run]
  · rw [run]
  · rw [run]
    exact Option.map_eq_none_iff

/-- A `return` outside of all blocks, and behind it a block and an unknown byte. -/
theorem run_append_of_clean_return :
    (ofBytes .standard .bare [0x02, 0x40, 0x0b, 0x0f]).run.failure = none ∧
    let whole := (ofBytes .standard .bare
      ([0x02, 0x40, 0x0b, 0x0f] ++ [0x02, 0x40, 0x01, 0x0b, 0x06])).run
    whole.instructions.map (·.reachable) = [true, true, true, false, true, true] ∧
      whole.failure = some (.unknownOpcode 0x06 8) := by
  have clean : (ofBytes .standard .bare [0x02, 0x40, 0x0b, 0x0f]).run.failure = none := by
    decide +kernel
  obtain ⟨instructions, failure, -⟩ :=
    run_append_of_clean [0x02, 0x40, 0x0b, 0x0f] [0x02, 0x40, 0x01, 0x0b, 0x06] clean
  refine ⟨clean, ?_, ?_⟩
  · rw [instructions]
    decide +kernel
  · rw [failure]
    decide +kernel

end Decoder
end WasmStream
