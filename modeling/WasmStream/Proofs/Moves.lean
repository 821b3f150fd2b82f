import WasmStream.Proofs.Levels

/-! What one instruction does to the open blocks, as four kinds of move. Everything
else that is known about nesting follows from these and from the reasons for
which a move is refused. -/

namespace WasmStream

namespace Descriptor

def Stays (descriptor : Descriptor) : Prop :=
  descriptor.flags.entersBlock = false ∧ descriptor.flags.leavesBlock = false

def Opens (descriptor : Descriptor) : Prop :=
  descriptor.flags.entersBlock = true ∧ descriptor.flags.leavesBlock = false

def Switches (descriptor : Descriptor) : Prop :=
  descriptor.flags.entersBlock = true ∧ descriptor.flags.leavesBlock = true

def Closes (descriptor : Descriptor) : Prop :=
  descriptor.flags.entersBlock = false ∧ descriptor.flags.leavesBlock = true

theorem leavesBlock_iff {descriptor : Descriptor} :
    descriptor.flags.leavesBlock = true ↔ descriptor.Closes ∨ descriptor.Switches := by
  unfold Closes Switches
  cases descriptor.flags.entersBlock <;> simp

def opened (descriptor : Descriptor) : BlockKind := descriptor.blockKind.getD .block

end Descriptor

namespace Nesting

inductive Moves (descriptor : Descriptor) (offset : Nat) : Nesting → Event → Nesting → Prop where
  | stay {stack saved unreachable} (stays : descriptor.Stays) :
      Moves descriptor offset ⟨stack, saved, unreachable⟩ .stayed
        ⟨stack, saved, unreachable || descriptor.flags.noFallthrough⟩
  | enter {stack saved unreachable} (opens : descriptor.Opens) :
      Moves descriptor offset ⟨stack, saved, unreachable⟩
        (.entered ⟨offset, descriptor.opened, false⟩)
        ⟨⟨offset, descriptor.opened, false⟩ :: stack, unreachable :: saved,
          descriptor.flags.noFallthrough⟩
  | switch {start outer saved unreachable} (switches : descriptor.Switches) :
      Moves descriptor offset ⟨⟨start, .ifBlock, false⟩ :: outer, saved, unreachable⟩
        (.switched ⟨start, .ifBlock, true⟩)
        ⟨⟨start, .ifBlock, true⟩ :: outer, saved, descriptor.flags.noFallthrough⟩
  | leave {frame outer saved unreachable} (closes : descriptor.Closes) :
      Moves descriptor offset ⟨frame :: outer, saved, unreachable⟩ (.left frame)
        ⟨outer, saved.tail, saved.headD false || descriptor.flags.noFallthrough⟩

/-- Frames above some base stay apart from it while nothing is left but what is above, and the
new one among them starts at the instruction. -/
theorem Moves.above {descriptor : Descriptor} {offset : Nat} {nesting after : Nesting}
    {event : Event} {base above : List Level} {Recent : Nat → Prop}
    (moves : Moves descriptor offset nesting event after) (levels : nesting.levels = above ++ base)
    (inside : descriptor.flags.leavesBlock = true → above ≠ [])
    (recent : ∀ level ∈ above, Recent level.frame.offset) (opened : descriptor.Opens → Recent offset) :
    ∃ above', after.levels = above' ++ base ∧ ∀ level ∈ above', Recent level.frame.offset := by
  cases moves with
  | stay => exact ⟨above, levels, recent⟩
  | enter opens =>
    refine ⟨_ :: above, congrArg (List.cons _) levels, ?_⟩
    intro level member
    rcases List.mem_cons.mp member with first | rest
    · exact first ▸ opened opens
    · exact recent level rest
  | switch switches =>
    obtain ⟨top, above, rfl⟩ := List.exists_cons_of_ne_nil (inside switches.2)
    obtain ⟨rfl, rest⟩ := List.cons.inj levels
    have start := recent _ List.mem_cons_self
    refine ⟨_ :: above, congrArg (List.cons _) rest, ?_⟩
    intro level member
    rcases List.mem_cons.mp member with first | rest
    · exact first ▸ start
    · exact recent level (.tail _ rest)
  | leave closes =>
    obtain ⟨top, above, rfl⟩ := List.exists_cons_of_ne_nil (inside closes.2)
    exact ⟨above, (List.cons.inj levels).2, fun level member => recent level (.tail _ member)⟩

theorem Moves.offset_le {descriptor : Descriptor} {offset : Nat} {nesting after : Nesting}
    {event : Event} (moves : Moves descriptor offset nesting event after)
    (earlier : ∀ level ∈ nesting.levels, level.frame.offset ≤ offset) :
    ∀ level ∈ after.levels, level.frame.offset ≤ offset := by
  cases moves with
  | stay => exact earlier
  | enter => simpa using earlier
  | switch => simpa using earlier
  | leave => exact fun level member => earlier level (.tail _ member)

def Paired (nesting : Nesting) : Prop := nesting.saved.length = nesting.stack.length

theorem Paired.moves {descriptor : Descriptor} {offset : Nat} {nesting after : Nesting}
    {event : Event} (paired : nesting.Paired)
    (moves : Moves descriptor offset nesting event after) : after.Paired := by
  cases moves with
  | stay => exact paired
  | enter => exact congrArg (· + 1) paired
  | switch => exact paired
  | leave =>
    simp only [Paired, List.length_cons, List.length_tail] at paired ⊢
    omega

/-- The reasons why an instruction cannot stand where it does. -/
inductive Refuses (descriptor : Descriptor) : Nesting → NestingFault → Prop where
  | noBlock {saved unreachable} (switches : descriptor.Switches) :
      Refuses descriptor ⟨[], saved, unreachable⟩ .elseWithoutIf
  | otherBlock {frame outer saved unreachable} (switches : descriptor.Switches)
      (other : frame.kind ≠ .ifBlock) :
      Refuses descriptor ⟨frame :: outer, saved, unreachable⟩ .elseWithoutIf
  | secondElse {start outer saved unreachable} (switches : descriptor.Switches) :
      Refuses descriptor ⟨⟨start, .ifBlock, true⟩ :: outer, saved, unreachable⟩ .duplicateElse
  | nothingOpen {saved unreachable} (closes : descriptor.Closes) :
      Refuses descriptor ⟨[], saved, unreachable⟩ .unmatchedEnd

theorem Moves.update {descriptor : Descriptor} {offset : Nat} {nesting after : Nesting}
    {event : Event} (moves : Moves descriptor offset nesting event after) :
    update descriptor offset nesting = .ok event after := by
  cases moves with
  | stay stays => simp [Nesting.update, move, stays.1, stays.2]
  | enter opens => simp [Nesting.update, move, Nesting.enter, opens.1, opens.2, Descriptor.opened]
  | switch switches =>
    simp [Nesting.update, move, Nesting.switch, switches.1, switches.2, BlockKind.acceptsElse]
  | leave closes => simp [Nesting.update, move, Nesting.leave, closes.1, closes.2]

private theorem moves_of_switch {descriptor : Descriptor} {offset : Nat} {nesting after : Nesting}
    {event : Event} (switches : descriptor.Switches) (moved : nesting.switch = .ok (event, after)) :
    Moves descriptor offset nesting event
      { after with unreachable := after.unreachable || descriptor.flags.noFallthrough } := by
  obtain ⟨stack, saved, unreachable⟩ := nesting
  simp only [switch] at moved
  split at moved
  · cases moved
  next frame outer =>
    split at moved
    · cases moved
    next accepts =>
      split at moved
      · cases moved
      next first =>
        obtain ⟨start, kind, inElse⟩ := frame
        cases moved
        obtain rfl : kind = .ifBlock := by simpa [BlockKind.acceptsElse] using accepts
        obtain rfl : inElse = false := by simpa using first
        simpa using Moves.switch switches

theorem moves_of_update {descriptor : Descriptor} {offset : Nat} {nesting after : Nesting}
    {event : Event} (updated : update descriptor offset nesting = .ok event after) :
    Moves descriptor offset nesting event after := by
  simp only [update] at updated
  split at updated
  next event' middle moved =>
    cases updated
    simp only [move] at moved
    split at moved
    next enters leaves =>
      cases moved
      exact .enter ⟨enters, leaves⟩
    next enters leaves => exact moves_of_switch ⟨enters, leaves⟩ moved
    next enters leaves =>
      obtain ⟨stack, saved, unreachable⟩ := nesting
      simp only [leave] at moved
      split at moved
      · cases moved
      next frame outer =>
        cases moved
        exact .leave ⟨enters, leaves⟩
    next enters leaves =>
      cases moved
      exact .stay ⟨enters, leaves⟩
  · cases updated

/-- An update succeeds exactly by one of the four moves. -/
theorem update_eq_ok_iff {descriptor : Descriptor} {offset : Nat} {nesting after : Nesting}
    {event : Event} : update descriptor offset nesting = .ok event after ↔
      Moves descriptor offset nesting event after :=
  ⟨moves_of_update, Moves.update⟩

theorem Refuses.update {descriptor : Descriptor} {nesting : Nesting} {fault : NestingFault}
    (refuses : Refuses descriptor nesting fault) (offset : Nat) :
    update descriptor offset nesting = .error (.malformedNesting offset fault) nesting := by
  cases refuses with
  | noBlock switches => simp [Nesting.update, move, Nesting.switch, switches.1, switches.2]
  | otherBlock switches other =>
    simp [Nesting.update, move, Nesting.switch, switches.1, switches.2, BlockKind.acceptsElse, other]
  | secondElse switches =>
    simp [Nesting.update, move, Nesting.switch, switches.1, switches.2, BlockKind.acceptsElse]
  | nothingOpen closes => simp [Nesting.update, move, Nesting.leave, closes.1, closes.2]

private theorem refuses_of_switch {descriptor : Descriptor} {nesting : Nesting}
    {fault : NestingFault} (switches : descriptor.Switches)
    (refused : nesting.switch = .error fault) : Refuses descriptor nesting fault := by
  obtain ⟨stack, saved, unreachable⟩ := nesting
  simp only [switch] at refused
  split at refused
  next =>
    cases refused
    exact .noBlock switches
  next frame outer =>
    split at refused
    next other =>
      cases refused
      exact .otherBlock switches (by simpa [BlockKind.acceptsElse] using other)
    next accepts =>
      split at refused
      next second =>
        obtain ⟨start, kind, inElse⟩ := frame
        cases refused
        obtain rfl : kind = .ifBlock := by simpa [BlockKind.acceptsElse] using accepts
        obtain rfl : inElse = true := by simpa using second
        exact .secondElse switches
      · cases refused

private theorem refuses_of_move {descriptor : Descriptor} {offset : Nat} {nesting : Nesting}
    {fault : NestingFault} (refused : nesting.move descriptor offset = .error fault) :
    Refuses descriptor nesting fault := by
  simp only [move] at refused
  split at refused
  · cases refused
  next enters leaves => exact refuses_of_switch ⟨enters, leaves⟩ refused
  next enters leaves =>
    obtain ⟨stack, saved, unreachable⟩ := nesting
    simp only [leave] at refused
    split at refused
    next =>
      cases refused
      exact .nothingOpen ⟨enters, leaves⟩
    · cases refused
  · cases refused

/-- An update fails exactly for one of the reasons, at the instruction's own
offset, and then changes nothing. -/
theorem update_eq_error_iff {descriptor : Descriptor} {offset : Nat} {nesting after : Nesting}
    {error : DecodeError} : update descriptor offset nesting = .error error after ↔
      after = nesting ∧ ∃ fault, error = .malformedNesting offset fault ∧
        Refuses descriptor nesting fault := by
  constructor
  · intro failed
    refine ⟨eq_of_update_error failed, ?_⟩
    simp only [update] at failed
    split at failed
    · cases failed
    next fault refused =>
      cases failed
      exact ⟨fault, rfl, refuses_of_move refused⟩
  · intro ⟨same, fault, reported, refuses⟩
    subst same reported
    exact refuses.update offset

theorem Refuses.ne_trailingBytes {descriptor : Descriptor} {nesting : Nesting}
    {fault : NestingFault} (refuses : Refuses descriptor nesting fault) :
    fault ≠ .trailingBytes := by
  intro trailing
  subst trailing
  cases refuses

end Nesting
end WasmStream
