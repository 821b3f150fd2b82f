import WasmStream.Proofs.Moves

/-! Well nested sequences of instructions. Whatever is open around such a sequence
stays as it is, and every sequence that leaves its surroundings alone and closes
what it opens is well nested. -/

namespace WasmStream

/-- An instruction as the open blocks see it. -/
structure Placed where
  offset : Nat
  descriptor : Descriptor

namespace Placed

def frame (opener : Placed) : Frame := ⟨opener.offset, opener.descriptor.opened, false⟩

def elseFrame (opener : Placed) : Frame := ⟨opener.offset, .ifBlock, true⟩

end Placed

namespace Nesting

/-- Well nested instructions with what each of them does to the open blocks, and
whether one of the outermost keeps the end of the sequence from being reached. -/
inductive Nested : List Placed → List Event → Bool → Prop where
  | empty : Nested [] [] false
  | plain {first rest events stops} (stays : first.descriptor.Stays)
      (after : Nested rest events stops) :
      Nested (first :: rest) (.stayed :: events) (first.descriptor.flags.noFallthrough || stops)
  | block {opener body inner inside closer rest events stops} (opens : opener.descriptor.Opens)
      (within : Nested body inner inside) (closes : closer.descriptor.Closes)
      (after : Nested rest events stops) :
      Nested (opener :: (body ++ closer :: rest))
        (.entered opener.frame :: (inner ++ .left opener.frame :: events))
        (closer.descriptor.flags.noFallthrough || stops)
  | conditional {opener first firstEvents inside middle second secondEvents inside' closer rest
        events stops} (opens : opener.descriptor.Opens)
      (kind : opener.descriptor.blockKind = some .ifBlock)
      (within : Nested first firstEvents inside) (switches : middle.descriptor.Switches)
      (within' : Nested second secondEvents inside') (closes : closer.descriptor.Closes)
      (after : Nested rest events stops) :
      Nested (opener :: (first ++ middle :: (second ++ closer :: rest)))
        (.entered opener.frame :: (firstEvents ++ .switched opener.elseFrame ::
          (secondEvents ++ .left opener.elseFrame :: events)))
        (closer.descriptor.flags.noFallthrough || stops)

/-- A sequence of moves that never touches the base levels. -/
inductive Passes (base : List Level) : Nesting → List Placed → List Event → Nesting → Prop where
  | done {nesting} (above : base <:+ nesting.levels) : Passes base nesting [] [] nesting
  | step {nesting middle after placed rest event events} (above : base <:+ nesting.levels)
      (moves : Moves placed.descriptor placed.offset nesting event middle)
      (later : Passes base middle rest events after) :
      Passes base nesting (placed :: rest) (event :: events) after

theorem Passes.above {base : List Level} {nesting after : Nesting} {segment : List Placed}
    {events : List Event} (passes : Passes base nesting segment events after) :
    base <:+ nesting.levels := by
  cases passes <;> assumption

private theorem Passes.append {base : List Level} {nesting middle after : Nesting}
    {first second : List Placed} {events events' : List Event}
    (passes : Passes base nesting first events middle)
    (later : Passes base middle second events' after) :
    Passes base nesting (first ++ second) (events ++ events') after := by
  induction passes with
  | done => exact later
  | step above moves _ ih => exact .step above moves (ih later)

private theorem Passes.lower {base lower : List Level} {nesting after : Nesting}
    {segment : List Placed} {events : List Event}
    (passes : Passes base nesting segment events after) (below : lower <:+ base) :
    Passes lower nesting segment events after := by
  induction passes with
  | done above => exact .done (below.trans above)
  | step above moves _ ih => exact .step (below.trans above) moves ih

/-- A well nested sequence can stand anywhere, and gives back what was open around it. -/
theorem Nested.passes {segment : List Placed} {events : List Event} {stops : Bool}
    (nested : Nested segment events stops) (nesting : Nesting) :
    Passes nesting.levels nesting segment events
      { nesting with unreachable := nesting.unreachable || stops } := by
  induction nested generalizing nesting with
  | empty => simpa using Passes.done (List.suffix_refl nesting.levels)
  | @plain first rest events stops stays _ ih =>
    rw [← Bool.or_assoc]
    apply Passes.step (List.suffix_refl _) (.stay stays)
    exact ih { nesting with unreachable := nesting.unreachable || first.descriptor.flags.noFallthrough }
  | @block opener body inner inside closer rest events stops opens _ closes _ within after =>
    obtain ⟨stack, saved, unreachable⟩ := nesting
    have below : Level.pair stack saved <:+ ⟨opener.frame, unreachable⟩ :: Level.pair stack saved :=
      List.suffix_cons _ _
    rw [← Bool.or_assoc]
    apply Passes.step (List.suffix_refl _) (.enter opens)
    apply ((within ⟨opener.frame :: stack, unreachable :: saved, _⟩).lower below).append
    exact .step below (.leave closes) (after ⟨stack, saved, _⟩)
  | @conditional opener first firstEvents inside middle second secondEvents inside' closer rest
      events stops opens kind _ switches _ closes _ within within' after =>
    obtain ⟨stack, saved, unreachable⟩ := nesting
    have frame : opener.frame = ⟨opener.offset, .ifBlock, false⟩ := by
      simp [Placed.frame, Descriptor.opened, kind]
    have below : Level.pair stack saved <:+ ⟨opener.frame, unreachable⟩ :: Level.pair stack saved :=
      List.suffix_cons _ _
    have below' : Level.pair stack saved <:+
        ⟨opener.elseFrame, unreachable⟩ :: Level.pair stack saved := List.suffix_cons _ _
    rw [← Bool.or_assoc]
    apply Passes.step (List.suffix_refl _) (.enter opens)
    apply ((within ⟨opener.frame :: stack, unreachable :: saved, _⟩).lower below).append
    rw [frame] at below ⊢
    apply Passes.step below (.switch switches)
    apply ((within' ⟨opener.elseFrame :: stack, unreachable :: saved, _⟩).lower below').append
    exact .step below' (.leave closes) (after ⟨stack, saved, _⟩)

/-- What may stand between here and the end of a block whose frame is given, and
the frame that is closed there. -/
inductive Arms (frame : Frame) : List Placed → List Event → Frame → Prop where
  | last {body events stops} (within : Nested body events stops) : Arms frame body events frame
  | both {first firstEvents stops middle second secondEvents stops'}
      (kind : frame.kind = .ifBlock) (fresh : frame.inElse = false)
      (within : Nested first firstEvents stops) (switches : middle.descriptor.Switches)
      (within' : Nested second secondEvents stops') :
      Arms frame (first ++ middle :: second)
        (firstEvents ++ .switched { frame with inElse := true } :: secondEvents)
        { frame with inElse := true }

/-- The rest of a sequence closes the given levels, and is well nested otherwise. -/
def Completes : List Level → List Placed → List Event → Prop
  | [], segment, events => ∃ stops, Nested segment events stops
  | level :: outer, segment, events =>
    ∃ arms armEvents frame closer rest restEvents, Arms level.frame arms armEvents frame ∧
      closer.descriptor.Closes ∧ Completes outer rest restEvents ∧
      segment = arms ++ closer :: rest ∧ events = armEvents ++ .left frame :: restEvents

private theorem Completes.plain {levels : List Level} {first : Placed} {rest : List Placed}
    {events : List Event} (stays : first.descriptor.Stays)
    (completes : Completes levels rest events) :
    Completes levels (first :: rest) (.stayed :: events) := by
  cases levels with
  | nil =>
    obtain ⟨stops, nested⟩ := completes
    exact ⟨_, .plain stays nested⟩
  | cons level outer =>
    obtain ⟨arms, armEvents, frame, closer, later, laterEvents, within, closes, after, same, same'⟩ :=
      completes
    subst same same'
    refine ⟨first :: arms, .stayed :: armEvents, frame, closer, later, laterEvents, ?_, closes, after,
      rfl, rfl⟩
    cases within with
    | last nested => exact .last (.plain stays nested)
    | both kind fresh nested switches nested' =>
      exact .both kind fresh (.plain stays nested) switches nested'

private theorem Nested.of_arms {opener closer : Placed} {arms rest : List Placed}
    {armEvents events : List Event} {frame : Frame} {stops : Bool} (opens : opener.descriptor.Opens)
    (within : Arms opener.frame arms armEvents frame) (closes : closer.descriptor.Closes)
    (after : Nested rest events stops) :
    Nested (opener :: (arms ++ closer :: rest))
      (.entered opener.frame :: (armEvents ++ .left frame :: events))
      (closer.descriptor.flags.noFallthrough || stops) := by
  cases within with
  | last nested => exact .block opens nested closes after
  | both kind fresh nested switches nested' =>
    have asked : opener.descriptor.blockKind = some .ifBlock := by
      cases declared : opener.descriptor.blockKind with
      | none => simp [Placed.frame, Descriptor.opened, declared] at kind
      | some other => simpa [Placed.frame, Descriptor.opened, declared] using kind
    have switched : { opener.frame with inElse := true } = opener.elseFrame := by
      simp [Placed.frame, Placed.elseFrame, Descriptor.opened, asked]
    rw [switched]
    simpa using Nested.conditional opens asked nested switches nested' closes after

private theorem Completes.block {level : Level} {levels : List Level} {opener : Placed}
    {rest : List Placed} {events : List Event} (opens : opener.descriptor.Opens)
    (opened : level.frame = opener.frame) (completes : Completes (level :: levels) rest events) :
    Completes levels (opener :: rest) (.entered opener.frame :: events) := by
  obtain ⟨arms, armEvents, frame, closer, later, laterEvents, within, closes, after, same, same'⟩ :=
    completes
  subst same same'
  rw [opened] at within
  cases levels with
  | nil =>
    obtain ⟨stops, nested⟩ := after
    exact ⟨_, .of_arms opens within closes nested⟩
  | cons outer levels =>
    obtain ⟨arms', armEvents', frame', closer', rest', restEvents', within', closes', after', same,
      same'⟩ := after
    subst same same'
    refine ⟨opener :: (arms ++ closer :: arms'), .entered opener.frame ::
      (armEvents ++ .left frame :: armEvents'), frame', closer', rest', restEvents', ?_, closes',
      after', by simp, by simp⟩
    cases within' with
    | last nested => exact .last (.of_arms opens within closes nested)
    | both kind fresh nested switches nested' =>
      simpa using Arms.both kind fresh (.of_arms opens within closes nested) switches nested'

private theorem Completes.switch {start : Nat} {outerUnreachable : Bool} {levels : List Level}
    {middle : Placed} {rest : List Placed} {events : List Event}
    (switches : middle.descriptor.Switches)
    (completes : Completes (⟨⟨start, .ifBlock, true⟩, outerUnreachable⟩ :: levels) rest events) :
    Completes (⟨⟨start, .ifBlock, false⟩, outerUnreachable⟩ :: levels) (middle :: rest)
      (.switched ⟨start, .ifBlock, true⟩ :: events) := by
  obtain ⟨arms, armEvents, frame, closer, later, laterEvents, within, closes, after, same, same'⟩ :=
    completes
  subst same same'
  cases within with
  | last nested =>
    exact ⟨middle :: arms, .switched ⟨start, .ifBlock, true⟩ :: armEvents, _, closer, later,
      laterEvents, .both rfl rfl .empty switches nested, closes, after, rfl, rfl⟩
  | both kind fresh => cases fresh

private theorem not_suffix_cons {level : Level} {levels : List Level} :
    ¬ level :: levels <:+ levels := by
  intro below
  have shorter := below.length_le
  simp only [List.length_cons] at shorter
  omega

theorem Passes.completes {base inner : List Level} {nesting after : Nesting}
    {segment : List Placed} {events : List Event}
    (passes : Passes base nesting segment events after)
    (levels : nesting.levels = inner ++ base) (returned : after.levels = base) :
    Completes inner segment events := by
  induction passes generalizing inner with
  | @done nesting =>
    obtain rfl : inner = [] := by simpa [returned] using levels
    exact ⟨_, .empty⟩
  | @step nesting middle after placed rest event events above moves later ih =>
    have above' := later.above
    cases moves with
    | stay stays => exact (ih levels returned).plain stays
    | @enter stack saved unreachable opens =>
      have completes : Completes (⟨placed.frame, unreachable⟩ :: inner) _ _ :=
        ih (congrArg (List.cons _) levels) returned
      exact completes.block opens rfl
    | @switch start outer saved unreachable switches =>
      cases inner with
      | nil =>
        have base' : _ = base := levels
        subst base'
        have same := above'.eq_of_length rfl
        simp at same
      | cons level inner =>
        obtain ⟨same, same'⟩ := List.cons.inj levels
        subst same
        have completes : Completes (⟨⟨start, .ifBlock, true⟩, saved.headD false⟩ :: inner) _ _ :=
          ih (congrArg (List.cons _) same') returned
        exact completes.switch switches
    | @leave frame outer saved unreachable closes =>
      cases inner with
      | nil =>
        have base' : _ = base := levels
        subst base'
        exact absurd above' not_suffix_cons
      | cons first inner =>
        obtain ⟨same, same'⟩ := List.cons.inj levels
        subst same
        exact ⟨[], [], _, placed, rest, events, .last .empty, closes, ih same' returned, rfl, rfl⟩

/-- Moves that leave the surroundings alone and end where they started are well nested. -/
theorem Passes.nested {base : List Level} {nesting after : Nesting} {segment : List Placed}
    {events : List Event} (passes : Passes base nesting segment events after)
    (start : nesting.levels = base) (returned : after.levels = base) :
    ∃ stops, Nested segment events stops := by
  have completes : Completes [] segment events := passes.completes start returned
  exact completes

end Nesting
end WasmStream
