import WasmStream.Immediate.Binary
import WasmStream.Nesting
import WasmStream.Registry.Basic

/-! Decoding of an instruction stream, one instruction at a time. The first failure is the last
answer; the instructions before it stay valid. -/

namespace WasmStream

structure Instruction where
  offset : Nat
  descriptor : Descriptor
  immediate : Option Immediate
  /-- The number of blocks open around the instruction. One that leaves a block counts as outside
  of it, as does the one that opened it. -/
  depth : Nat
  reachable : Bool
deriving DecidableEq, Repr

namespace Decoder

/-- A bare stream may hold any number of closed blocks in a row. A function body ends with the block
that surrounds it. -/
inductive Mode where
  | bare
  | functionBody
deriving DecidableEq, Repr

inductive Phase where
  | running
  | bodyClosed
  | failed (error : DecodeError)
deriving DecidableEq, Repr

def Mode.nesting : Mode → Nesting
  | bare => .empty
  | functionBody => .functionBody

end Decoder

structure Decoder where
  registry : Registry
  cursor : Cursor
  nesting : Nesting
  phase : Decoder.Phase

namespace Decoder

def ofBytes (registry : Registry) (mode : Mode) (bytes : List UInt8) : Decoder :=
  ⟨registry, .ofBytes bytes, mode.nesting, .running⟩

def isFinished (decoder : Decoder) : Bool :=
  match decoder.phase with
  | .failed _ => true
  | .bodyClosed => decoder.cursor.isEmpty
  | .running => decoder.cursor.isEmpty && decoder.nesting.isEmpty

def readDescriptor (registry : Registry) : Reader Descriptor := do
  let offset ← Reader.position
  let opcode ← Reader.byte
  match registry.lookup opcode with
  | .ok descriptor => return descriptor
  | .error unknown => throw (unknown.at offset)

def readOperands (descriptor : Descriptor) : Reader (Option Immediate) :=
  match descriptor.immediate with
  | some kind => return some (← Immediate.read kind)
  | none => return none

/-- An opcode byte and the operands that its descriptor asks for. -/
def readInstruction (registry : Registry) : Reader (Descriptor × Option Immediate) := do
  let descriptor ← readDescriptor registry
  let immediate ← readOperands descriptor
  return (descriptor, immediate)

/-- Closing the frame of a function closes its body. -/
def Phase.after (phase : Phase) : Nesting.Event → Phase
  | .left frame => if frame.kind = .function then bodyClosed else phase
  | _ => phase

/-- Fits an instruction into the open blocks. -/
def place (decoder : Decoder) (offset : Nat) (descriptor : Descriptor)
    (immediate : Option Immediate) : EStateM.Result DecodeError Decoder Instruction :=
  let depth := decoder.nesting.depth
  let instruction : Instruction := {
    offset, descriptor, immediate
    depth := if descriptor.flags.leavesBlock then depth - 1 else depth
    reachable := !decoder.nesting.unreachable }
  match Nesting.update descriptor offset decoder.nesting with
  | .ok event nesting =>
    .ok instruction { decoder with nesting, phase := decoder.phase.after event }
  | .error error nesting => .error error { decoder with nesting }

/-- Decodes an instruction as if nothing had failed before. -/
def decode : EStateM DecodeError Decoder Instruction := fun decoder =>
  let offset := decoder.cursor.position
  if decoder.phase = .bodyClosed ∧ !decoder.cursor.isEmpty then
    .error (.malformedNesting offset .trailingBytes) decoder
  else
    match readInstruction decoder.registry decoder.cursor with
    | .ok (descriptor, immediate) cursor =>
      { decoder with cursor }.place offset descriptor immediate
    | .error error cursor => .error error { decoder with cursor }

/-- A failure is final: it is the answer to every later step. -/
def step : EStateM DecodeError Decoder Instruction := fun decoder =>
  match decoder.phase with
  | .failed error => .error error decoder
  | _ =>
    match decode decoder with
    | .ok instruction after => .ok instruction after
    | .error error after => .error error { after with phase := .failed error }

/-- The next instruction or the failure in its place; nothing once the stream is finished. -/
def next? (decoder : Decoder) : Option (EStateM.Result DecodeError Decoder Instruction) :=
  if decoder.isFinished then none else some (step decoder)

private theorem forward_readOperands (descriptor : Descriptor) :
    Reader.Forward (readOperands descriptor) := by
  unfold readOperands
  split
  · exact (Immediate.forward_read _).bind fun _ => Reader.forward_pure _
  · exact Reader.forward_pure _

private theorem readDescriptor_reached {registry : Registry} {cursor after : Cursor}
    {descriptor : Descriptor} (read : readDescriptor registry cursor = .ok descriptor after) :
    ∃ opcode, registry.lookup opcode = .ok descriptor ∧ cursor.Reached [opcode] after := by
  obtain ⟨_, _, position, read⟩ := Reader.bind_eq_ok.mp read
  cases position
  obtain ⟨opcode, _, byte, read⟩ := Reader.bind_eq_ok.mp read
  refine ⟨opcode, ?_⟩
  cases found : registry.lookup opcode with
  | ok found' =>
    simp only [found] at read
    cases read
    exact ⟨rfl, Reader.byte_reached byte⟩
  | error unknown =>
    simp only [found] at read
    cases read

/-- An instruction takes at least its opcode byte. -/
theorem readInstruction_remaining_lt {registry : Registry} {cursor after : Cursor}
    {value : Descriptor × Option Immediate}
    (read : readInstruction registry cursor = .ok value after) :
    after.remaining < cursor.remaining := by
  obtain ⟨descriptor, middle, first, read⟩ := Reader.bind_eq_ok.mp read
  obtain ⟨immediate, last, second, done⟩ := Reader.bind_eq_ok.mp read
  cases done
  obtain ⟨_, -, reached⟩ := readDescriptor_reached first
  have before := reached.remaining_add
  have rest := (forward_readOperands descriptor).remaining_le second
  simp only [List.length_singleton] at before
  omega

private theorem place_cursor {decoder after : Decoder} {offset : Nat} {descriptor : Descriptor}
    {immediate : Option Immediate} {instruction : Instruction}
    (placed : decoder.place offset descriptor immediate = .ok instruction after) :
    after.cursor = decoder.cursor := by
  unfold place at placed
  dsimp only at placed
  split at placed
  · cases placed
    rfl
  · cases placed

theorem step_remaining_lt {decoder after : Decoder} {instruction : Instruction}
    (stepped : step decoder = .ok instruction after) :
    after.cursor.remaining < decoder.cursor.remaining := by
  unfold step at stepped
  split at stepped
  · cases stepped
  · split at stepped
    · rename_i decoded
      cases stepped
      unfold decode at decoded
      dsimp only at decoded
      split at decoded
      · cases decoded
      · split at decoded
        · rename_i read
          rw [place_cursor decoded]
          exact readInstruction_remaining_lt read
        · cases decoded
    · cases stepped

/-- What decoding yields up to its end: the instructions, the failure that ended it if one did, and
the state it ended in. -/
structure Run where
  instructions : List Instruction
  failure : Option DecodeError
  final : Decoder

def run (decoder : Decoder) : Run :=
  match _ : decoder.next? with
  | none => ⟨[], none, decoder⟩
  | some (.ok instruction after) =>
    let rest := run after
    { rest with instructions := instruction :: rest.instructions }
  | some (.error error after) => ⟨[], some error, after⟩
termination_by decoder.cursor.remaining
decreasing_by
  rename_i next
  unfold next? at next
  split at next
  · cases next
  · exact step_remaining_lt (Option.some.inj next)

end Decoder
end WasmStream
