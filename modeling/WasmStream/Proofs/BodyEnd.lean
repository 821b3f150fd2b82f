import WasmStream.Proofs.BlockMachine

/-! How a run can end for an arbitrary registry. The decoder takes the end of any block of
the kind of a function for the end of the body, so the promises about the end hold
exactly for the registries that cannot close a function they have opened. -/

namespace WasmStream
open Nesting (Moves)

/-- No function opened by an instruction can be closed again. -/
def Registry.ClosesNoFunction (registry : Registry) : Prop :=
  ∀ opener ∈ registry.descriptors, ∀ closer ∈ registry.descriptors,
    opener.Opens → opener.opened = .function → ¬ closer.Closes

private theorem Immediate.exists_encodable (kind : Kind) :
    ∃ immediate : Immediate, immediate.kind = kind ∧ immediate.Encodable := by
  cases kind with
  | blockType => exact ⟨.blockType none, rfl, trivial⟩
  | branchTarget => exact ⟨.branchTarget 0, rfl, trivial⟩
  | branchTable => exact ⟨.branchTable [] 0, rfl, by simp [Encodable]⟩
  | callTarget => exact ⟨.callTarget 0, rfl, trivial⟩
  | indirectCall => exact ⟨.indirectCall 0 0, rfl, by simp [Encodable]⟩
  | variableIndex => exact ⟨.variableIndex 0, rfl, trivial⟩
  | memoryAccess => exact ⟨.memoryAccess 0 0, rfl, trivial⟩
  | memorySize => exact ⟨.memorySize 0, rfl, by simp [Encodable]⟩
  | i32Const => exact ⟨.i32Const 0, rfl, trivial⟩
  | i64Const => exact ⟨.i64Const 0, rfl, trivial⟩
  | f32Const => exact ⟨.f32Const 0, rfl, trivial⟩
  | f64Const => exact ⟨.f64Const 0, rfl, trivial⟩

private theorem exists_coded {registry : Registry} {descriptor : Descriptor}
    (member : descriptor ∈ registry.descriptors) :
    ∃ coded : Coded, coded.Valid registry ∧ coded.descriptor = descriptor := by
  cases asks : descriptor.immediate with
  | none => exact ⟨⟨_, descriptor, none⟩, ⟨member, .plain asks⟩, rfl⟩
  | some kind =>
    obtain ⟨immediate, same, encodable⟩ := Immediate.exists_encodable kind
    have fits : descriptor.Fits (some immediate) := by
      refine ⟨?_, ?_⟩
      · rw [asks, Option.map_some, same]
      · intro operands given
        cases given
        exact encodable
    exact ⟨⟨_, descriptor, some immediate⟩, ⟨member, spelled_encode fits⟩, rfl⟩

namespace Decoder

/-- A run without failure has read every byte and left no block open. -/
def Run.EndsWhole (run : Run) : Prop :=
  run.failure = none → run.final.cursor.unread = [] ∧ run.final.nesting.levels = []

def Run.Trailing (run : Run) : Prop :=
  ∃ offset, run.failure = some (.malformedNesting offset .trailingBytes)

def Whole (mode : Mode) (decoder : Decoder) : Prop :=
  decoder.phase = .running ∨
    decoder.phase = .bodyClosed ∧ mode = .functionBody ∧ decoder.nesting.levels = []

private theorem Whole.fresh {mode : Mode} {decoder : Decoder} (whole : Whole mode decoder)
    (error : DecodeError) : decoder.phase ≠ .failed error := by
  intro failed
  rcases whole with running | ⟨closed, -⟩
  · cases running.symm.trans failed
  · cases closed.symm.trans failed

private theorem kept_without_openers {mode : Mode} {decoder after : Decoder} {coded : Coded}
    {instruction : Instruction} (takes : Takes decoder coded instruction after)
    (kept : decoder.registry.OpensNoFunction ∧ Whole mode decoder ∧
      (decoder.phase = .running → Framed mode decoder.nesting)) :
    after.registry.OpensNoFunction ∧ Whole mode after ∧
      (after.phase = .running → Framed mode after.nesting) := by
  obtain ⟨noFunction, -, framed⟩ := kept
  obtain ⟨event, moved, phase⟩ := takes.moved
  rw [takes.running] at phase
  refine ⟨takes.registry ▸ noFunction, ?_⟩
  rcases (framed takes.running).moves (noFunction coded.descriptor takes.valid.1) moved with
    ⟨body, closed, ended⟩ | ⟨framed', going⟩
  · refine ⟨.inr ⟨phase.trans ended, body, closed⟩, ?_⟩
    intro running
    cases (phase.trans ended).symm.trans running
  · exact ⟨.inl (phase.trans going), fun _ => framed'⟩

private theorem kept_without_closers {decoder after : Decoder} {coded : Coded}
    {instruction : Instruction} (takes : Takes decoder coded instruction after)
    (kept : (∀ closer ∈ decoder.registry.descriptors, ¬ closer.Closes) ∧ decoder.phase = .running) :
    (∀ closer ∈ after.registry.descriptors, ¬ closer.Closes) ∧ after.phase = .running := by
  obtain ⟨noCloser, running⟩ := kept
  obtain ⟨event, moved, phase⟩ := takes.moved
  refine ⟨takes.registry ▸ noCloser, ?_⟩
  rw [running] at phase
  exact phase.trans (running_of_moves moved (noCloser coded.descriptor takes.valid.1))

private theorem ends_of_closesNoFunction {registry : Registry} (safe : registry.ClosesNoFunction)
    (mode : Mode) (bytes : List UInt8) :
    let run := (ofBytes registry mode bytes).run
    (run.failure = none ∧ run.final.isFinished = true ∧ Whole mode run.final) ∨
      ∃ last error cursor, Whole mode last ∧ Fails last error cursor ∧ run.failure = some error ∧
        run.final = { last with cursor, phase := .failed error } := by
  intro run
  by_cases closing : ∃ closer ∈ registry.descriptors, closer.Closes
  · obtain ⟨closer, listed, closes⟩ := closing
    have noFunction : registry.OpensNoFunction := by
      intro opener member opens function
      exact safe opener member closer listed opens function closes
    rcases run_ends kept_without_openers (ofBytes registry mode bytes)
        ⟨noFunction, .inl rfl, fun _ => framed_start mode⟩ with
      ⟨clean, finished, -, whole, -⟩ | ⟨last, error, cursor, ⟨-, whole, -⟩, fails⟩
    · exact .inl ⟨clean, finished, whole⟩
    · exact .inr ⟨last, error, cursor, whole, fails⟩
  · have noCloser : ∀ closer ∈ registry.descriptors, ¬ closer.Closes := by
      intro closer member closes
      exact closing ⟨closer, member, closes⟩
    rcases run_ends kept_without_closers (ofBytes registry mode bytes)
        ⟨noCloser, rfl⟩ with
      ⟨clean, finished, -, running⟩ | ⟨last, error, cursor, ⟨-, running⟩, fails⟩
    · exact .inl ⟨clean, finished, .inl running⟩
    · exact .inr ⟨last, error, cursor, .inl running, fails⟩

private theorem promises_of_closesNoFunction {registry : Registry}
    (safe : registry.ClosesNoFunction) (mode : Mode) (bytes : List UInt8) :
    let run := (ofBytes registry mode bytes).run
    run.EndsWhole ∧ (run.Trailing → mode = .functionBody ∧ run.final.nesting.levels = []) := by
  intro run
  rcases ends_of_closesNoFunction safe mode bytes with
    ⟨clean, finished, whole⟩ | ⟨last, error, cursor, whole, fails, reported, final⟩
  · refine ⟨?_, ?_⟩
    · intro _
      obtain ⟨ended, final⟩ := (isFinished_iff whole.fresh).mp finished
      refine ⟨ended, ?_⟩
      rcases whole with running | ⟨-, -, closed⟩
      · rcases final with final | closed
        · cases running.symm.trans final
        · exact closed
      · exact closed
    · intro ⟨offset, reported⟩
      cases clean.symm.trans reported
  · refine ⟨?_, ?_⟩
    · intro clean
      cases clean.symm.trans reported
    · intro ⟨offset, trailing⟩
      obtain rfl : error = .malformedNesting offset .trailingBytes :=
        Option.some.inj (reported.symm.trans trailing)
      obtain ⟨closed, -⟩ := fails.closed whole.fresh
      rcases whole with running | ⟨-, body, levels⟩
      · cases running.symm.trans closed
      · refine ⟨body, ?_⟩
        rw [final]
        exact levels

private structure Leads (decoder next : Decoder) : Prop where
  failure : decoder.run.failure = next.run.failure
  final : decoder.run.final = next.run.final
  registry : next.registry = decoder.registry

private theorem Leads.trans {first second third : Decoder} (left : Leads first second)
    (right : Leads second third) : Leads first third :=
  ⟨left.failure.trans right.failure, left.final.trans right.final,
    right.registry.trans left.registry⟩

private theorem exists_leads (decoder : Decoder) {coded : Coded} {rest : List UInt8}
    {event : Nesting.Event} {after : Nesting} (running : decoder.phase = .running)
    (valid : coded.Valid decoder.registry) (unread : decoder.cursor.unread = coded.bytes ++ rest)
    (moved : Moves coded.descriptor decoder.cursor.position decoder.nesting event after) :
    ∃ next : Decoder, Leads decoder next ∧ next.cursor.unread = rest ∧ next.nesting = after ∧
      next.phase = Phase.running.after event := by
  obtain ⟨next, taken, cursor, nesting, phase⟩ := exists_takes running valid unread moved
  refine ⟨next, ⟨?_, ?_, taken.registry⟩, ?_, nesting, running ▸ phase⟩
  · rw [run_of_takes taken]
  · rw [run_of_takes taken]
  · rw [cursor]

private theorem exists_closed_early {registry : Registry}
    (closing : ¬ registry.ClosesNoFunction) (mode : Mode) :
    ∃ bytes, ∀ rest, ∃ decoder, Leads (ofBytes registry mode (bytes ++ rest)) decoder ∧
      decoder.phase = .bodyClosed ∧ decoder.cursor.unread = rest ∧ decoder.nesting.levels ≠ [] := by
  obtain ⟨opener, member, closer, member', opens, function, closes⟩ :
      ∃ opener ∈ registry.descriptors, ∃ closer ∈ registry.descriptors,
        opener.Opens ∧ opener.opened = .function ∧ closer.Closes := by
    simpa [Registry.ClosesNoFunction] using closing
  obtain ⟨first, valid, opener'⟩ := exists_coded member
  obtain ⟨last, valid', closer'⟩ := exists_coded member'
  subst opener' closer'
  refine ⟨first.bytes ++ (first.bytes ++ last.bytes), fun rest => ?_⟩
  have unread : (ofBytes registry mode
      (first.bytes ++ (first.bytes ++ last.bytes) ++ rest)).cursor.unread =
        first.bytes ++ (first.bytes ++ (last.bytes ++ rest)) := by
    simp [ofBytes, Cursor.ofBytes]
  obtain ⟨one, leadsOne, unreadOne, nestingOne, phaseOne⟩ := exists_leads _ rfl valid unread (.enter opens)
  obtain ⟨two, leadsTwo, unreadTwo, nestingTwo, phaseTwo⟩ :=
    exists_leads one phaseOne (leadsOne.registry ▸ valid) unreadOne (.enter opens)
  have moved : Moves last.descriptor two.cursor.position two.nesting
      (.left ⟨one.cursor.position, first.descriptor.opened, false⟩)
      ⟨one.nesting.stack, one.nesting.saved,
        one.nesting.unreachable || last.descriptor.flags.noFallthrough⟩ := by
    rw [nestingTwo]
    exact .leave closes
  obtain ⟨three, leadsThree, unreadThree, nestingThree, phaseThree⟩ :=
    exists_leads two phaseTwo (leadsTwo.registry ▸ leadsOne.registry ▸ valid') unreadTwo moved
  refine ⟨three, (leadsOne.trans leadsTwo).trans leadsThree, ?_, unreadThree, ?_⟩
  · rw [phaseThree, Phase.after, if_pos function]
  · rw [nestingThree, nestingOne]
    simp

private theorem exists_trailing {registry : Registry} (closing : ¬ registry.ClosesNoFunction)
    (mode : Mode) : ∃ bytes, (ofBytes registry mode bytes).run.Trailing ∧
      (ofBytes registry mode bytes).run.final.nesting.levels ≠ [] := by
  obtain ⟨bytes, early⟩ := exists_closed_early closing mode
  obtain ⟨decoder, leads, closed, unread, opened⟩ := early [0]
  have more : decoder.cursor.unread ≠ [] := by simp [unread]
  have unfinished := unfinished_of_unread (by simp [closed]) more
  have stopped := run_of_fails unfinished (.trailing closed more)
  refine ⟨bytes ++ [0], ⟨decoder.cursor.position, ?_⟩, ?_⟩
  · rw [leads.failure, stopped]
  · rw [leads.final, stopped]
    exact opened

/-- For every registry, each promise about the end of a run holds for all byte strings exactly
if no function that was opened can be closed: no run without failure leaves anything unread or
open, no bare run reports trailing bytes, and no body does while a block is open. -/
theorem ends_whole_iff (registry : Registry) :
    (∀ mode, (∀ bytes, (ofBytes registry mode bytes).run.EndsWhole) ↔ registry.ClosesNoFunction) ∧
    ((∀ bytes, ¬ (ofBytes registry .bare bytes).run.Trailing) ↔ registry.ClosesNoFunction) ∧
    ((∀ bytes, (ofBytes registry .functionBody bytes).run.Trailing →
      (ofBytes registry .functionBody bytes).run.final.nesting.levels = []) ↔
      registry.ClosesNoFunction) := by
  refine ⟨fun mode => ⟨?_, ?_⟩, ⟨?_, ?_⟩, ⟨?_, ?_⟩⟩
  · intro ends
    by_contra closing
    obtain ⟨bytes, early⟩ := exists_closed_early closing mode
    obtain ⟨decoder, leads, closed, unread, opened⟩ := early []
    have finished := run_of_finished ((isFinished_iff (by simp [closed])).mpr ⟨unread, .inl closed⟩)
    have clean : decoder.run.failure = none := by rw [finished]
    obtain ⟨-, levels⟩ := ends _ (leads.failure.trans clean)
    rw [leads.final, finished] at levels
    exact opened levels
  · intro safe bytes
    exact (promises_of_closesNoFunction safe mode bytes).1
  · intro never
    by_contra closing
    obtain ⟨bytes, trailing, -⟩ := exists_trailing closing .bare
    exact never bytes trailing
  · intro safe bytes trailing
    obtain ⟨body, -⟩ := (promises_of_closesNoFunction safe .bare bytes).2 trailing
    cases body
  · intro closed
    by_contra closing
    obtain ⟨bytes, trailing, opened⟩ := exists_trailing closing .functionBody
    exact opened (closed bytes trailing)
  · intro safe bytes trailing
    exact ((promises_of_closesNoFunction safe .functionBody bytes).2 trailing).2

/-- An instruction set in which functions nest: one instruction opens a function, and `end`
closes it. -/
def nestedFunctions : Registry where
  descriptors := [Opcode.endBlock.descriptor,
    ⟨0xf0, "func", none, { entersBlock := true }, some .function⟩]
  increasing := by decide
  distinct := by decide

/-- Two functions opened and one closed: the run ends without failure inside of the other. -/
theorem nestedFunctions_ends_open :
    ¬ (ofBytes nestedFunctions .bare [0xf0, 0xf0, 0x0b]).run.EndsWhole := by
  have clean : (ofBytes nestedFunctions .bare [0xf0, 0xf0, 0x0b]).run.failure = none := by
    decide +kernel
  have opened : (ofBytes nestedFunctions .bare [0xf0, 0xf0, 0x0b]).run.final.nesting.levels ≠ [] := by
    decide +kernel
  intro ends
  exact opened (ends clean).2

end Decoder
end WasmStream
