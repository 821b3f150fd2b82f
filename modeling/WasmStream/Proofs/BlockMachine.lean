import WasmStream.Proofs.Runs

/-! The decoder refines a machine that knows nothing of bytes: it feeds one descriptor
after another to the open blocks. A frame of a function never lies above the one a
body starts in, so closing it and closing the outermost block are the same event. -/

namespace WasmStream

/-- Only the outermost block can be a function, and no instruction opens another. -/
def Registry.OpensNoFunction (registry : Registry) : Prop :=
  ∀ descriptor ∈ registry.descriptors, descriptor.Opens → descriptor.opened ≠ .function

private theorem Opcode.opened_ne_function (opcode : Opcode) :
    opcode.descriptor.opened ≠ .function := by
  change opcode.blockKind.getD .block ≠ .function
  unfold blockKind
  split <;> simp

def Opcode.coded (opcode : Opcode) (immediate : Option Immediate) : Coded :=
  ⟨opcode.encode immediate, opcode.descriptor, immediate⟩

theorem Opcode.valid_coded {opcode : Opcode} {immediate : Option Immediate}
    (fits : opcode.descriptor.Fits immediate) : (opcode.coded immediate).Valid .standard :=
  ⟨mem_standard_iff.mpr ⟨opcode, rfl⟩, spelled_encode fits⟩

theorem Opcode.valid_of_mem_coded {items : List (Opcode × Option Immediate)}
    (fit : ∀ item ∈ items, item.1.descriptor.Fits item.2) :
    ∀ coded ∈ items.map fun item => item.1.coded item.2, coded.Valid .standard := by
  intro coded member
  obtain ⟨item, listed, same⟩ := List.mem_map.mp member
  exact same ▸ valid_coded (fit item listed)

theorem Opcode.bytes_coded (items : List (Opcode × Option Immediate)) :
    (items.map fun item => item.1.coded item.2).flatMap Coded.bytes =
      items.flatMap fun item => item.1.encode item.2 := by
  rw [List.flatMap_map]
  rfl

theorem Registry.standard_opensNoFunction : standard.OpensNoFunction := by
  intro descriptor member _
  obtain ⟨opcode, same⟩ := Opcode.mem_standard_iff.mp member
  exact same ▸ opcode.opened_ne_function

namespace Decoder
open Nesting (Moves update_eq_ok_iff update_eq_error_iff)

/-- What became of a stream: the instructions that were fitted in, and what stopped it. -/
structure Outcome where
  accepted : List Instruction
  failure : Option DecodeError

def Run.outcome (run : Run) : Outcome := ⟨run.instructions, run.failure⟩

/-- A body is over as soon as its outermost block is closed; a bare stream is over
with its last instruction. -/
def feed (mode : Mode) (offset : Nat) (nesting : Nesting) : List Coded → Outcome
  | [] => ⟨[], if nesting.isEmpty then none else some (.unexpectedEnd offset)⟩
  | coded :: rest =>
    let next := offset + coded.bytes.length
    match Nesting.update coded.descriptor offset nesting with
    | .error error _ => ⟨[], some error⟩
    | .ok _ after =>
      if mode = .functionBody ∧ after.isEmpty then
        ⟨[nesting.record offset coded],
          if rest.isEmpty then none else some (.malformedNesting next .trailingBytes)⟩
      else
        let later := feed mode next after rest
        { later with accepted := nesting.record offset coded :: later.accepted }

theorem feed_of_refused {mode : Mode} {offset : Nat} {nesting same : Nesting} {coded : Coded}
    {rest : List Coded} {error : DecodeError}
    (refused : Nesting.update coded.descriptor offset nesting = .error error same) :
    feed mode offset nesting (coded :: rest) = ⟨[], some error⟩ := by
  simp only [feed, refused]

theorem feed_of_closed {offset : Nat} {nesting after : Nesting} {event : Nesting.Event}
    {coded : Coded} {rest : List Coded}
    (moves : Moves coded.descriptor offset nesting event after) (closed : after.levels = []) :
    feed .functionBody offset nesting (coded :: rest) = ⟨[nesting.record offset coded],
      if rest.isEmpty then none
      else some (.malformedNesting (offset + coded.bytes.length) .trailingBytes)⟩ := by
  simp [feed, moves.update, Nesting.isEmpty_iff, closed]

theorem feed_of_moves {mode : Mode} {offset : Nat} {nesting after : Nesting}
    {event : Nesting.Event} {coded : Coded} {rest : List Coded}
    (moves : Moves coded.descriptor offset nesting event after)
    (going : mode = .functionBody → after.levels ≠ []) :
    feed mode offset nesting (coded :: rest) =
      let later := feed mode (offset + coded.bytes.length) after rest
      { later with accepted := nesting.record offset coded :: later.accepted } := by
  have going' : ¬ (mode = .functionBody ∧ after.isEmpty = true) := by
    intro ⟨body, closed⟩
    exact going body (Nesting.isEmpty_iff.mp closed)
  simp only [feed, moves.update, if_neg going']

/-- The frames above the one that the mode starts with are no functions. -/
def Framed (mode : Mode) (nesting : Nesting) : Prop :=
  ∃ inner : List Frame, nesting.stack.map (·.kind) =
      inner.map (·.kind) ++ mode.nesting.stack.map (·.kind) ∧
    ∀ frame ∈ inner, frame.kind ≠ .function

theorem framed_start (mode : Mode) : Framed mode mode.nesting := ⟨[], rfl, by simp⟩

theorem Framed.levels_ne_nil {nesting : Nesting} (framed : Framed .functionBody nesting) :
    nesting.levels ≠ [] := by
  intro closed
  obtain ⟨inner, kinds, -⟩ := framed
  simp [Nesting.levels_eq_nil_iff.mp closed, Mode.nesting, Nesting.functionBody] at kinds

theorem running_of_moves {descriptor : Descriptor} {offset : Nat} {nesting after : Nesting}
    {event : Nesting.Event} (moves : Moves descriptor offset nesting event after)
    (still : ¬ descriptor.Closes) : Phase.running.after event = .running := by
  cases moves with
  | leave closes => exact absurd closes still
  | stay => rfl
  | enter => rfl
  | switch => rfl

/-- One move either closes the block that a body starts in, or keeps the frame
and the phase. -/
theorem Framed.moves {mode : Mode} {descriptor : Descriptor} {offset : Nat}
    {nesting after : Nesting} {event : Nesting.Event} (framed : Framed mode nesting)
    (named : descriptor.Opens → descriptor.opened ≠ .function)
    (moves : Moves descriptor offset nesting event after) :
    (mode = .functionBody ∧ after.levels = [] ∧ Phase.running.after event = .bodyClosed) ∨
      (Framed mode after ∧ Phase.running.after event = .running) := by
  obtain ⟨inner, kinds, noFunction⟩ := framed
  cases moves with
  | stay => exact .inr ⟨⟨inner, kinds, noFunction⟩, rfl⟩
  | enter opens =>
    refine .inr ⟨⟨⟨offset, descriptor.opened, false⟩ :: inner, ?_, ?_⟩, rfl⟩
    · simpa using kinds
    · intro frame member
      rcases List.mem_cons.mp member with first | rest
      · exact first ▸ named opens
      · exact noFunction frame rest
  | switch => exact .inr ⟨⟨inner, kinds, noFunction⟩, rfl⟩
  | @leave frame outer saved unreachable closes =>
    cases inner with
    | nil =>
      cases mode with
      | bare => simp [Mode.nesting, Nesting.empty] at kinds
      | functionBody =>
        obtain ⟨kind, rfl⟩ : frame.kind = .function ∧ outer = [] := by
          simpa [Mode.nesting, Nesting.functionBody] using kinds
        exact .inl ⟨rfl, rfl, by simp [Phase.after, kind]⟩
    | cons first inner =>
      obtain ⟨same, rest⟩ := List.cons.inj kinds
      have kind : frame.kind ≠ .function := by
        have named' := noFunction first List.mem_cons_self
        simpa only [same] using named'
      refine .inr ⟨⟨inner, rest, fun other member => noFunction other (.tail _ member)⟩, ?_⟩
      simp [Phase.after, kind]

private theorem run_of_closed {decoder : Decoder} (closed : decoder.phase = .bodyClosed)
    {rest : List Coded} (unread : decoder.cursor.unread = rest.flatMap Coded.bytes)
    (valid : ∀ coded ∈ rest, coded.Valid decoder.registry) :
    decoder.run.outcome = ⟨[], if rest.isEmpty then none
      else some (.malformedNesting decoder.cursor.position .trailingBytes)⟩ := by
  cases rest with
  | nil =>
    have finished := (isFinished_iff (by simp [closed])).mpr ⟨unread, .inl closed⟩
    rw [run_of_finished finished]
    rfl
  | cons coded rest =>
    have more : decoder.cursor.unread ≠ [] := by
      simp [unread, (valid coded List.mem_cons_self).ne_nil]
    have unfinished := unfinished_of_unread (by simp [closed]) more
    rw [run_of_fails unfinished (.trailing closed more)]
    rfl

private theorem run_of_ended {decoder : Decoder} (running : decoder.phase = .running)
    (ended : decoder.cursor.unread = []) (mode : Mode) :
    decoder.run.outcome = feed mode decoder.cursor.position decoder.nesting [] := by
  unfold feed
  cases closed : decoder.nesting.isEmpty with
  | true =>
    have finished := (isFinished_iff (by simp [running])).mpr
      ⟨ended, .inr (Nesting.isEmpty_iff.mp closed)⟩
    rw [run_of_finished finished]
    rfl
  | false =>
    have opened := mt Nesting.isEmpty_iff.mpr (Bool.eq_false_iff.mp closed)
    have unfinished := unfinished_of_opened running opened
    rw [run_of_fails unfinished (.unread running (readInstruction_at_end ended))]
    rfl

private theorem run_of_refused {decoder : Decoder} {coded : Coded} {rest : List UInt8}
    {error : DecodeError} {same : Nesting} (running : decoder.phase = .running)
    (valid : coded.Valid decoder.registry) (unread : decoder.cursor.unread = coded.bytes ++ rest)
    (refused : Nesting.update coded.descriptor decoder.cursor.position decoder.nesting =
      .error error same) : decoder.run.outcome = ⟨[], some error⟩ := by
  obtain ⟨-, fault, reported, refuses⟩ := update_eq_error_iff.mp refused
  have reached : decoder.cursor.Reached coded.bytes
      ⟨decoder.cursor.position + coded.bytes.length, rest⟩ := ⟨unread, rfl⟩
  have more : decoder.cursor.unread ≠ [] := by simp [unread, valid.ne_nil]
  have unfinished := unfinished_of_unread (by simp [running]) more
  rw [run_of_fails unfinished (.refused running valid reached refuses), reported]
  rfl

/-- A running decoder whose unread bytes are a stream does to it what the machine does. -/
theorem run_eq_feed {mode : Mode} {stream : List Coded} {decoder : Decoder}
    (running : decoder.phase = .running) (framed : Framed mode decoder.nesting)
    (noFunction : decoder.registry.OpensNoFunction)
    (unread : decoder.cursor.unread = stream.flatMap Coded.bytes)
    (valid : ∀ coded ∈ stream, coded.Valid decoder.registry) :
    decoder.run.outcome = feed mode decoder.cursor.position decoder.nesting stream := by
  induction stream generalizing decoder with
  | nil => exact run_of_ended running unread mode
  | cons coded rest ih =>
    have first := valid coded List.mem_cons_self
    have unread' : decoder.cursor.unread = coded.bytes ++ rest.flatMap Coded.bytes := unread
    cases updated : Nesting.update coded.descriptor decoder.cursor.position decoder.nesting with
    | error error same => rw [feed_of_refused updated, run_of_refused running first unread' updated]
    | ok event after =>
      have moved := update_eq_ok_iff.mp updated
      obtain ⟨next, taken, cursor, nesting, phase⟩ := exists_takes running first unread' moved
      have valid' : ∀ other ∈ rest, other.Valid next.registry := by
        intro other member
        exact taken.registry ▸ valid other (.tail _ member)
      have more : next.cursor.unread = rest.flatMap Coded.bytes := by rw [cursor]
      have position : next.cursor.position = decoder.cursor.position + coded.bytes.length := by
        rw [cursor]
      have later : decoder.run.outcome = ⟨decoder.nesting.record decoder.cursor.position coded ::
          next.run.outcome.accepted, next.run.outcome.failure⟩ := by
        rw [run_of_takes taken]
        rfl
      rw [later]
      rw [running] at phase
      rcases framed.moves (noFunction coded.descriptor first.1) moved with
        ⟨body, closed, ended⟩ | ⟨framed', going⟩
      · subst body
        rw [feed_of_closed moved closed, run_of_closed (phase.trans ended) more valid', position]
      · have opened : mode = .functionBody → after.levels ≠ [] := by
          intro body
          subst body
          exact framed'.levels_ne_nil
        rw [feed_of_moves moved opened, ih (phase.trans going) (nesting ▸ framed')
          (taken.registry ▸ noFunction) more valid', position, nesting]

theorem run_standard {mode : Mode} {stream : List Coded} {bytes : List UInt8}
    (valid : ∀ coded ∈ stream, coded.Valid .standard) (both : bytes = stream.flatMap Coded.bytes) :
    (ofBytes .standard mode bytes).run.outcome = feed mode 0 mode.nesting stream :=
  run_eq_feed rfl (framed_start mode) Registry.standard_opensNoFunction both valid

/-- Each accepted instruction is the item in its place, at the offset where that item starts. -/
theorem feed_accepted {mode : Mode} {stream : List Coded} {offset place : Nat} {nesting : Nesting}
    {instruction : Instruction}
    (accepted : (feed mode offset nesting stream).accepted[place]? = some instruction) :
    ∃ coded, stream[place]? = some coded ∧ instruction.descriptor = coded.descriptor ∧
      instruction.immediate = coded.immediate ∧
      instruction.offset = offset + ((stream.take place).flatMap Coded.bytes).length := by
  induction stream generalizing offset place nesting with
  | nil => simp [feed] at accepted
  | cons coded rest ih =>
    have start : ∀ {other}, some (nesting.record offset coded) = some other →
        other.descriptor = coded.descriptor ∧ other.immediate = coded.immediate ∧
          other.offset = offset := by
      intro other same
      cases same
      exact ⟨rfl, rfl, rfl⟩
    unfold feed at accepted
    split at accepted
    · simp at accepted
    next event after moved =>
      cases place with
      | zero =>
        refine ⟨coded, rfl, ?_⟩
        split at accepted
        · simpa using start accepted
        · simpa using start accepted
      | succ place =>
        split at accepted
        · simp at accepted
        · obtain ⟨later, found, descriptor, immediate, position⟩ := ih accepted
          refine ⟨later, found, descriptor, immediate, ?_⟩
          rw [position, List.take_succ_cons, List.flatMap_cons, List.length_append]
          omega

/-- Decoding what was encoded goes as the machine goes, in either mode and wherever it ends. -/
theorem run_encoded (mode : Mode) (items : List (Opcode × Option Immediate))
    (fit : ∀ item ∈ items, item.1.descriptor.Fits item.2) :
    let run := (ofBytes .standard mode (items.flatMap fun item => item.1.encode item.2)).run
    run.outcome = feed mode 0 mode.nesting (items.map fun item => item.1.coded item.2) ∧
    ∀ (place : Nat) (instruction : Instruction), run.instructions[place]? = some instruction →
      ∃ opcode immediate, items[place]? = some (opcode, immediate) ∧
        instruction.descriptor = opcode.descriptor ∧ instruction.immediate = immediate ∧
        instruction.offset =
          ((items.take place).flatMap fun item => item.1.encode item.2).length := by
  intro run
  have outcome : run.outcome =
      feed mode 0 mode.nesting (items.map fun item => item.1.coded item.2) :=
    run_standard (Opcode.valid_of_mem_coded fit) (Opcode.bytes_coded items).symm
  refine ⟨outcome, ?_⟩
  intro place instruction listed
  have accepted : run.outcome.accepted[place]? = some instruction := listed
  rw [outcome] at accepted
  obtain ⟨coded, found, descriptor, immediate, position⟩ := feed_accepted accepted
  obtain ⟨item, listed', same⟩ : ∃ item, items[place]? = some item ∧
      item.1.coded item.2 = coded := by
    simpa using found
  subst same
  refine ⟨item.1, item.2, listed', descriptor, immediate, ?_⟩
  rw [position, ← List.map_take, Opcode.bytes_coded, Nat.zero_add]

/-- A body with a branch table in a block, and one instruction too many. -/
theorem run_encoded_trailing :
    let items : List (Opcode × Option Immediate) := [(.block, some (.blockType none)),
      (.brTable, some (.branchTable [0] 1)), (.f32Const, some (.f32Const 0x7fa00001)),
      (.endBlock, none), (.endBlock, none), (.nop, none)]
    (∀ item ∈ items, item.1.descriptor.Fits item.2) ∧
    (ofBytes .standard .functionBody (items.flatMap fun item => item.1.encode item.2)).run.failure =
      some (.malformedNesting 13 .trailingBytes) := by
  intro items
  have fit : ∀ item ∈ items, item.1.descriptor.Fits item.2 := by
    intro item member
    simp only [items, List.mem_cons, List.not_mem_nil, or_false] at member
    rcases member with same | same | same | same | same | same
    all_goals
      subst same
      exact ⟨rfl, by simp [Immediate.Encodable]⟩
  refine ⟨fit, ?_⟩
  have outcome := (run_encoded .functionBody items fit).1
  have stopped : (feed .functionBody 0 Mode.functionBody.nesting
      (items.map fun item => item.1.coded item.2)).failure =
        some (.malformedNesting 13 .trailingBytes) := by decide +kernel
  exact (congrArg Outcome.failure outcome).trans stopped

end Decoder
end WasmStream
