import Mathlib.Data.Set.List
import WasmStream.Proofs.BlockMachine
import WasmStream.Proofs.Brackets

/-! The language of the standard instruction set. What the decoder accepts is given by
a grammar of opcodes over the byte strings that spell single instructions. -/

namespace WasmStream

namespace Opcode

def IsOpener (opcode : Opcode) : Prop := opcode = .block ∨ opcode = .loop ∨ opcode = .ifBlock

def IsPlain (opcode : Opcode) : Prop :=
  ¬ opcode.IsOpener ∧ opcode ≠ .elseArm ∧ opcode ≠ .endBlock

structure Roles (opcode : Opcode) : Prop where
  stays : opcode.descriptor.Stays ↔ opcode.IsPlain
  opens : opcode.descriptor.Opens ↔ opcode.IsOpener
  switches : opcode.descriptor.Switches ↔ opcode = .elseArm
  closes : opcode.descriptor.Closes ↔ opcode = .endBlock
  conditional : opcode.descriptor.blockKind = some .ifBlock ↔ opcode = .ifBlock

theorem roles (opcode : Opcode) : opcode.Roles := by
  have kind : opcode.blockKind = some .ifBlock ↔ opcode = .ifBlock := by
    unfold blockKind
    split <;> simp_all
  refine ⟨?_, ?_, ?_, ?_, kind⟩
  all_goals
    simp only [Descriptor.Stays, Descriptor.Opens, Descriptor.Switches, Descriptor.Closes,
      descriptor, flags, IsPlain, IsOpener]
    split <;> simp_all

end Opcode

/-- Opcode sequences in which every block is closed, and only a conditional has a second arm. -/
inductive Balanced : List Opcode → Prop where
  | empty : Balanced []
  | plain {opcode rest} (plain : opcode.IsPlain) (after : Balanced rest) :
      Balanced (opcode :: rest)
  | block {opener body rest} (opens : opener.IsOpener) (within : Balanced body)
      (after : Balanced rest) : Balanced (opener :: (body ++ .endBlock :: rest))
  | conditional {first second rest} (within : Balanced first) (within' : Balanced second)
      (after : Balanced rest) :
      Balanced (.ifBlock :: (first ++ .elseArm :: (second ++ .endBlock :: rest)))

/-- Bytes that spell instructions with the given opcodes, one after another. -/
inductive Encodes : List UInt8 → List Opcode → Prop where
  | nil : Encodes [] []
  | cons {opcode : Opcode} {immediate first rest opcodes}
      (spelled : Spelled opcode.descriptor first immediate) (after : Encodes rest opcodes) :
      Encodes (first ++ rest) (opcode :: opcodes)

private theorem split_of_map_eq {α β γ : Type} {f : α → γ} {g : β → γ} {whole : List α}
    {first second : List β} {middle : β}
    (same : whole.map f = (first ++ middle :: second).map g) :
    ∃ left between right, whole = left ++ between :: right ∧ left.map f = first.map g ∧
      f between = g middle ∧ right.map f = second.map g := by
  rw [List.map_append, List.map_cons] at same
  obtain ⟨left, more, both, first', more'⟩ := List.map_eq_append_iff.mp same
  obtain ⟨between, right, both', middle', right'⟩ := List.map_eq_cons_iff.mp more'
  exact ⟨left, between, right, both' ▸ both, first', middle', right'⟩

private theorem Balanced.nested {opcodes : List Opcode} (balanced : Balanced opcodes)
    {segment : List Placed}
    (same : segment.map Placed.descriptor = opcodes.map Opcode.descriptor) :
    ∃ events stops, Nesting.Nested segment events stops := by
  induction balanced generalizing segment with
  | empty =>
    obtain rfl : segment = [] := List.map_eq_nil_iff.mp same
    exact ⟨_, _, .empty⟩
  | @plain opcode rest plain _ after =>
    obtain ⟨first, later, both, first', later'⟩ := List.map_eq_cons_iff.mp same
    obtain ⟨events, stops, nested⟩ := after later'
    subst both
    exact ⟨_, _, .plain (first' ▸ opcode.roles.stays.mpr plain) nested⟩
  | @block opener body rest opens _ _ within after =>
    obtain ⟨first, later, both, first', later'⟩ := List.map_eq_cons_iff.mp same
    obtain ⟨inside, closer, last, both', inside', closer', last'⟩ := split_of_map_eq later'
    obtain ⟨events, stops, nested⟩ := within inside'
    obtain ⟨events', stops', nested'⟩ := after last'
    subst both both'
    exact ⟨_, _, .block (first' ▸ opener.roles.opens.mpr opens) nested
      (closer' ▸ Opcode.endBlock.roles.closes.mpr rfl) nested'⟩
  | @conditional _ _ _ _ _ _ within within' after =>
    obtain ⟨first, later, both, first', later'⟩ := List.map_eq_cons_iff.mp same
    obtain ⟨inside, middle, more, both', inside', middle', more'⟩ := split_of_map_eq later'
    obtain ⟨second, closer, last, parts, second', closer', last'⟩ := split_of_map_eq more'
    obtain ⟨events, stops, nested⟩ := within inside'
    obtain ⟨events', stops', nested'⟩ := within' second'
    obtain ⟨lastEvents, lastStops, lastNested⟩ := after last'
    subst both both' parts
    exact ⟨_, _, .conditional (first' ▸ Opcode.ifBlock.roles.opens.mpr (.inr (.inr rfl)))
      (first' ▸ rfl) nested (middle' ▸ Opcode.elseArm.roles.switches.mpr rfl) nested'
      (closer' ▸ Opcode.endBlock.roles.closes.mpr rfl) lastNested⟩

private theorem balanced_of_nested {segment : List Placed} {events : List Nesting.Event}
    {stops : Bool} (nested : Nesting.Nested segment events stops) {opcodes : List Opcode}
    (same : opcodes.map Opcode.descriptor = segment.map Placed.descriptor) :
    Balanced opcodes := by
  induction nested generalizing opcodes with
  | empty =>
    obtain rfl : opcodes = [] := List.map_eq_nil_iff.mp same
    exact .empty
  | plain stays _ after =>
    obtain ⟨opcode, later, both, first', later'⟩ := List.map_eq_cons_iff.mp same
    subst both
    exact .plain (opcode.roles.stays.mp (first' ▸ stays)) (after later')
  | block opens _ closes _ within after =>
    obtain ⟨opener, later, both, opener', later'⟩ := List.map_eq_cons_iff.mp same
    obtain ⟨inside, closer, last, both', inside', closer', last'⟩ := split_of_map_eq later'
    subst both both'
    obtain rfl : closer = .endBlock := closer.roles.closes.mp (closer' ▸ closes)
    exact .block (opener.roles.opens.mp (opener' ▸ opens)) (within inside') (after last')
  | conditional opens kind _ switches _ closes _ within within' after =>
    obtain ⟨opener, later, both, opener', later'⟩ := List.map_eq_cons_iff.mp same
    obtain ⟨inside, middle, more, both', inside', middle', more'⟩ := split_of_map_eq later'
    obtain ⟨second, closer, last, parts, second', closer', last'⟩ := split_of_map_eq more'
    subst both both' parts
    obtain rfl : opener = .ifBlock := opener.roles.conditional.mp (opener' ▸ kind)
    obtain rfl : middle = .elseArm := middle.roles.switches.mp (middle' ▸ switches)
    obtain rfl : closer = .endBlock := closer.roles.closes.mp (closer' ▸ closes)
    exact .conditional (within inside') (within' second') (after last')

theorem encodes_iff {bytes : List UInt8} {opcodes : List Opcode} : Encodes bytes opcodes ↔
    ∃ stream : List Coded, (∀ coded ∈ stream, coded.Valid .standard) ∧
      bytes = stream.flatMap Coded.bytes ∧
      stream.map Coded.descriptor = opcodes.map Opcode.descriptor := by
  constructor
  · intro encodes
    induction encodes with
    | nil => exact ⟨[], by simp, rfl, rfl⟩
    | @cons opcode immediate first rest opcodes spelled _ after =>
      obtain ⟨stream, valid, both, same⟩ := after
      refine ⟨⟨first, opcode.descriptor, immediate⟩ :: stream, ?_, ?_, ?_⟩
      · intro coded member
        rcases List.mem_cons.mp member with new | old
        · exact new ▸ ⟨Opcode.mem_standard_iff.mpr ⟨opcode, rfl⟩, spelled⟩
        · exact valid coded old
      · rw [both, List.flatMap_cons]
      · rw [List.map_cons, List.map_cons, same]
  · intro ⟨stream, valid, both, same⟩
    subst both
    induction stream generalizing opcodes with
    | nil =>
      obtain rfl : opcodes = [] := List.map_eq_nil_iff.mp same.symm
      exact .nil
    | cons coded stream ih =>
      obtain ⟨opcode, later, both, first, later'⟩ := List.map_eq_cons_iff.mp same.symm
      subst both
      have spelled : Spelled opcode.descriptor coded.bytes coded.immediate :=
        first ▸ (valid coded List.mem_cons_self).2
      exact .cons spelled (ih (fun other member => valid other (.tail _ member)) later'.symm)

/-- The instructions of a stream at the offsets where their bytes start. -/
def locate (offset : Nat) : List Coded → List Placed
  | [] => []
  | coded :: rest => ⟨offset, coded.descriptor⟩ :: locate (offset + coded.bytes.length) rest

private theorem map_descriptor_locate (offset : Nat) (stream : List Coded) :
    (locate offset stream).map Placed.descriptor = stream.map Coded.descriptor := by
  induction stream generalizing offset with
  | nil => rfl
  | cons coded rest ih => rw [locate, List.map_cons, List.map_cons, ih]

namespace Decoder
open Nesting (Passes Moves update_eq_ok_iff)

private theorem passes_of_bare {stream : List Coded} {offset : Nat} {nesting : Nesting}
    (clean : (feed .bare offset nesting stream).failure = none) :
    ∃ events after, Passes [] nesting (locate offset stream) events after ∧ after.levels = [] := by
  induction stream generalizing offset nesting with
  | nil =>
    have closed : nesting.levels = [] := by simpa [feed, Nesting.isEmpty_iff] using clean
    exact ⟨[], nesting, .done List.nil_suffix, closed⟩
  | cons coded rest ih =>
    cases updated : Nesting.update coded.descriptor offset nesting with
    | error error same =>
      rw [feed_of_refused updated] at clean
      cases clean
    | ok event middle =>
      have moved := update_eq_ok_iff.mp updated
      rw [feed_of_moves moved (by simp)] at clean
      obtain ⟨events, after, later, closed⟩ := ih clean
      exact ⟨_, after, .step List.nil_suffix moved later, closed⟩

private theorem bare_of_passes {stream : List Coded} {offset : Nat} {nesting after : Nesting}
    {events : List Nesting.Event} (passes : Passes [] nesting (locate offset stream) events after)
    (closed : after.levels = []) : (feed .bare offset nesting stream).failure = none := by
  induction stream generalizing offset nesting events with
  | nil =>
    cases passes
    simp [feed, Nesting.isEmpty_iff, closed]
  | cons coded rest ih =>
    cases passes with
    | step above moves later =>
      rw [feed_of_moves moves (by simp)]
      exact ih later

private theorem keeps_outermost {level : Level} {descriptor : Descriptor} {offset : Nat}
    {nesting after : Nesting} {event : Nesting.Event}
    (moves : Moves descriptor offset nesting event after) (fixed : level.frame.kind ≠ .ifBlock)
    (above : [level] <:+ nesting.levels) :
    [level] <:+ after.levels ∨
      descriptor.Closes ∧ nesting.levels = [level] ∧ after.levels = [] := by
  cases moves with
  | stay => exact .inl above
  | enter => exact .inl (above.trans (List.suffix_cons _ _))
  | switch =>
    rcases List.suffix_cons_iff.mp above with same | below
    · obtain ⟨same, -⟩ := List.cons.inj same
      rw [same] at fixed
      exact absurd rfl fixed
    · exact .inl (below.trans (List.suffix_cons _ _))
  | leave closes =>
    rcases List.suffix_cons_iff.mp above with same | below
    · exact .inr ⟨closes, same.symm, (List.cons.inj same).2.symm⟩
    · exact .inl below

private theorem levels_ne_nil {level : Level} {nesting : Nesting}
    (above : [level] <:+ nesting.levels) : nesting.levels ≠ [] := by
  intro closed
  simp [closed] at above

private theorem passes_of_body {stream : List Coded} {offset : Nat} {nesting : Nesting}
    {level : Level} (fixed : level.frame.kind ≠ .ifBlock) (above : [level] <:+ nesting.levels)
    (clean : (feed .functionBody offset nesting stream).failure = none) :
    ∃ body final, stream = body ++ [final] ∧ final.descriptor.Closes ∧
      ∃ events after, Passes [level] nesting (locate offset body) events after ∧
        after.levels = [level] := by
  induction stream generalizing offset nesting with
  | nil => simp [feed, Nesting.isEmpty_iff, levels_ne_nil above] at clean
  | cons coded rest ih =>
    cases updated : Nesting.update coded.descriptor offset nesting with
    | error error same =>
      rw [feed_of_refused updated] at clean
      cases clean
    | ok event middle =>
      have moved := update_eq_ok_iff.mp updated
      rcases keeps_outermost moved fixed above with above' | ⟨closes, alone, closed⟩
      · rw [feed_of_moves moved fun _ => levels_ne_nil above'] at clean
        obtain ⟨body, final, both, closes, events, after, later, returned⟩ := ih above' clean
        exact ⟨coded :: body, final, congrArg _ both, closes, _, after, .step above moved later,
          returned⟩
      · rw [feed_of_closed moved closed] at clean
        obtain rfl : rest = [] := by simpa using clean
        exact ⟨[], coded, rfl, closes, [], nesting, .done above, alone⟩

private theorem body_of_passes {body : List Coded} {final : Coded} {offset : Nat}
    {nesting after : Nesting} {level : Level} {events : List Nesting.Event}
    (closes : final.descriptor.Closes)
    (passes : Passes [level] nesting (locate offset body) events after)
    (returned : after.levels = [level]) :
    (feed .functionBody offset nesting (body ++ [final])).failure = none := by
  induction body generalizing offset nesting events with
  | nil =>
    cases passes
    obtain ⟨stack, saved, unreachable⟩ := after
    obtain ⟨frame, rfl⟩ : ∃ frame, stack = [frame] :=
      List.length_eq_one_iff.mp ((Nesting.length_levels _).symm.trans (congrArg List.length returned))
    rw [List.nil_append, feed_of_closed (.leave closes) rfl]
    rfl
  | cons coded rest ih =>
    cases passes with
    | step above moves later =>
      rw [List.cons_append, feed_of_moves moves fun _ => levels_ne_nil later.above]
      exact ih later

/-- A run ends without failure exactly if its bytes are instructions that the machine accepts. -/
theorem clean_iff_feed {mode : Mode} {bytes : List UInt8} :
    (ofBytes .standard mode bytes).run.failure = none ↔
      ∃ stream : List Coded, (∀ coded ∈ stream, coded.Valid .standard) ∧
        bytes = stream.flatMap Coded.bytes ∧ (feed mode 0 mode.nesting stream).failure = none := by
  constructor
  · intro clean
    obtain ⟨stream, valid, both, -⟩ := coded_of_clean (by simp [ofBytes]) clean
    exact ⟨stream, valid, both, run_standard valid both ▸ clean⟩
  · intro ⟨stream, valid, both, clean⟩
    rw [← run_standard valid both] at clean
    exact clean

private theorem exists_opcodes {stream : List Coded}
    (valid : ∀ coded ∈ stream, coded.Valid .standard) :
    ∃ opcodes : List Opcode, opcodes.map Opcode.descriptor = stream.map Coded.descriptor := by
  have known : stream.map Coded.descriptor ∈ Set.range (List.map Opcode.descriptor) := by
    rw [Set.range_list_map]
    intro descriptor member
    obtain ⟨coded, listed, same⟩ := List.mem_map.mp member
    exact same ▸ Opcode.mem_standard_iff.mp (valid coded listed).1
  exact known

theorem eq_endBlock_of_closes {descriptor : Descriptor}
    (known : descriptor ∈ Registry.standard.descriptors) (closes : descriptor.Closes) :
    descriptor = Opcode.endBlock.descriptor := by
  obtain ⟨opcode, same⟩ := Opcode.mem_standard_iff.mp known
  obtain rfl : opcode = .endBlock := opcode.roles.closes.mp (same ▸ closes)
  exact same.symm

theorem bytes_of_closes {final : Coded} (valid : final.Valid .standard)
    (closes : final.descriptor.Closes) : final.bytes = [Opcode.endBlock.code] := by
  have same := eq_endBlock_of_closes valid.1 closes
  obtain ⟨bytes, descriptor, immediate⟩ := final
  obtain ⟨member, spelled⟩ := valid
  simp only at same spelled
  subst same
  cases spelled with
  | plain => rfl
  | operands asks => cases asks

private theorem valid_end : (Opcode.endBlock.coded none).Valid .standard :=
  ⟨Opcode.mem_standard_iff.mpr ⟨.endBlock, rfl⟩, .plain rfl⟩

/-- What each mode accepts: balanced instructions, and in a function body one `end` after them. -/
theorem clean_iff_balanced (bytes : List UInt8) :
    ((ofBytes .standard .bare bytes).run.failure = none ↔
      ∃ opcodes, Encodes bytes opcodes ∧ Balanced opcodes) ∧
    ((ofBytes .standard .functionBody bytes).run.failure = none ↔
      ∃ body opcodes, bytes = body ++ [Opcode.endBlock.code] ∧ Encodes body opcodes ∧
        Balanced opcodes) := by
  refine ⟨⟨?_, ?_⟩, ⟨?_, ?_⟩⟩
  · intro clean
    obtain ⟨stream, valid, both, fed⟩ := clean_iff_feed.mp clean
    obtain ⟨events, after, passes, closed⟩ := passes_of_bare fed
    obtain ⟨stops, nested⟩ := passes.nested rfl closed
    obtain ⟨opcodes, same⟩ := exists_opcodes valid
    refine ⟨opcodes, encodes_iff.mpr ⟨stream, valid, both, same.symm⟩, balanced_of_nested nested ?_⟩
    rw [same, map_descriptor_locate]
  · intro ⟨opcodes, encodes, balanced⟩
    obtain ⟨stream, valid, both, same⟩ := encodes_iff.mp encodes
    obtain ⟨events, stops, nested⟩ :=
      balanced.nested ((map_descriptor_locate 0 stream).trans same)
    exact clean_iff_feed.mpr ⟨stream, valid, both, bare_of_passes (nested.passes .empty) rfl⟩
  · intro clean
    obtain ⟨stream, valid, both, fed⟩ := clean_iff_feed.mp clean
    have fixed : BlockKind.function ≠ .ifBlock := by simp
    obtain ⟨body, final, parts, closes, events, after, passes, returned⟩ :=
      passes_of_body fixed (List.suffix_refl _) fed
    subst parts
    have valid' : ∀ coded ∈ body, coded.Valid .standard :=
      fun coded member => valid coded (List.mem_append_left _ member)
    obtain ⟨stops, nested⟩ := passes.nested rfl returned
    obtain ⟨opcodes, same⟩ := exists_opcodes valid'
    refine ⟨body.flatMap Coded.bytes, opcodes, ?_,
      encodes_iff.mpr ⟨body, valid', rfl, same.symm⟩, balanced_of_nested nested ?_⟩
    · rw [both, List.flatMap_append, List.flatMap_singleton,
        bytes_of_closes (valid final (by simp)) closes]
    · rw [same, map_descriptor_locate]
  · intro ⟨body, opcodes, both, encodes, balanced⟩
    obtain ⟨stream, valid, body', same⟩ := encodes_iff.mp encodes
    obtain ⟨events, stops, nested⟩ :=
      balanced.nested ((map_descriptor_locate 0 stream).trans same)
    have fed : (feed .functionBody 0 .functionBody
        (stream ++ [Opcode.endBlock.coded none])).failure = none :=
      body_of_passes (Opcode.endBlock.roles.closes.mpr rfl) (nested.passes .functionBody) rfl
    refine clean_iff_feed.mpr ⟨stream ++ [Opcode.endBlock.coded none], ?_, ?_, fed⟩
    · intro coded member
      rcases List.mem_append.mp member with inside | final
      · exact valid coded inside
      · exact List.mem_singleton.mp final ▸ valid_end
    · rw [both, body', List.flatMap_append, List.flatMap_singleton]
      rfl

end Decoder
end WasmStream
